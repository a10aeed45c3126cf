import Mathlib.Algebra.BigOperators.Group.List.Basic
import Mathlib.Algebra.Ring.Nat
import Provisioning.Collaborator.Memory

/-!
# Calls that fail for a while

A simulated platform that cannot be reached for some calls changes nothing when it refuses one. If
it refuses fewer calls of an operation on a target than there are attempts, an attempt goes through,
and its outcome is that of a platform which refuses none (`Masked.run`).
-/

namespace Provisioning

variable {α β : Type}

/-! ## Failures to come -/

namespace PlannedFailure

/-- How many more calls of an operation on a target are going to fail. -/
def pending (operation : PlatformOperation) (target : String) (fs : List PlannedFailure) : Nat :=
  ((fs.filter fun f => f.operation == operation && f.target == target).map
    fun f => f.remaining.getD 0).sum

/-- Failures to reach the system, each for a number of calls. -/
def Unreachable (fs : List PlannedFailure) : Prop :=
  ∀ f ∈ fs, (∃ reason, f.error = .network reason) ∧ f.remaining.isSome

/-- Failures to reach the system that concern fewer than so many calls of each operation on each
target. -/
structure Transient (limit : Nat) (fs : List PlannedFailure) : Prop where
  unreachable : Unreachable fs
  few : ∀ operation target, pending operation target fs < limit

theorem pending_cons (operation : PlatformOperation) (target : String) (f : PlannedFailure)
    (fs : List PlannedFailure) :
    pending operation target (f :: fs)
      = (if f.operation = operation ∧ f.target = target then f.remaining.getD 0 else 0)
        + pending operation target fs := by
  unfold pending
  by_cases h : f.operation = operation ∧ f.target = target
  · rw [List.filter_cons_of_pos (by simp [h.1, h.2]), if_pos h, List.map_cons, List.sum_cons]
  · rw [List.filter_cons_of_neg (by simpa using h), if_neg h, Nat.zero_add]

/-- A call that fails leaves one failure less of its kind, and no more of any other. -/
theorem take?_eq_some {operation : PlatformOperation} {target : String}
    {fs left : List PlannedFailure}
    {e : CollaboratorError} (unreachable : Unreachable fs)
    (h : take? operation target fs = some (e, left)) :
    e.isRetryable = true ∧ Unreachable left ∧
      pending operation target left + 1 = pending operation target fs ∧
      ∀ operation' target', pending operation' target' left ≤ pending operation' target' fs := by
  induction fs generalizing left with
  | nil => cases h
  | cons f rest ih =>
    obtain ⟨⟨reason, error⟩, counted⟩ := unreachable f List.mem_cons_self
    obtain ⟨count, remaining⟩ := Option.isSome_iff_exists.1 counted
    have others : Unreachable rest := fun g hg => unreachable g (List.mem_cons_of_mem _ hg)
    unfold take? at h
    split at h
    · rename_i concerns
      obtain ⟨rfl, rfl⟩ := Prod.mk.inj (Option.some.inj h)
      simp only [PlannedFailure.concerns, remaining, Bool.and_eq_true, beq_iff_eq, bne_iff_ne, ne_eq,
        Option.some.injEq] at concerns
      obtain ⟨⟨here, there⟩, left⟩ := concerns
      refine ⟨by rw [error]; rfl, ?_, ?_, fun operation' target' => ?_⟩
      · intro g hg
        rcases List.mem_cons.1 hg with rfl | hg
        · exact ⟨⟨reason, error⟩, by simp [remaining]⟩
        · exact others g hg
      · rw [pending_cons, pending_cons, if_pos ⟨here, there⟩, if_pos ⟨here, there⟩, remaining]
        simp only [Option.map_some, Option.getD_some]
        omega
      · rw [pending_cons, pending_cons, remaining]
        simp only [Option.map_some, Option.getD_some]
        split <;> omega
    · obtain ⟨⟨e', left'⟩, later, same⟩ := Option.map_eq_some_iff.1 h
      obtain ⟨rfl, rfl⟩ := Prod.mk.inj same
      obtain ⟨retryable, remain, one, fewer⟩ := ih others later
      refine ⟨retryable, ?_, ?_, fun operation' target' => ?_⟩
      · intro g hg
        rcases List.mem_cons.1 hg with rfl | hg
        · exact unreachable g List.mem_cons_self
        · exact remain g hg
      · rw [pending_cons, pending_cons]
        omega
      · have := fewer operation' target'
        rw [pending_cons, pending_cons]
        omega

theorem Transient.take {limit : Nat} {operation : PlatformOperation} {target : String}
    {fs left : List PlannedFailure} {e : CollaboratorError} (transient : Transient limit fs)
    (h : take? operation target fs = some (e, left)) : Transient limit left := by
  obtain ⟨-, unreachable, -, fewer⟩ := take?_eq_some transient.unreachable h
  exact ⟨unreachable, fun operation target =>
    Nat.lt_of_le_of_lt (fewer operation target) (transient.few operation target)⟩

end PlannedFailure

/-! ## Platforms and worlds -/

/-- A platform with failures to come, and one without any that keeps the same. The calls that they
remember do not count. -/
structure Platform.Troubled (limit : Nat) (calm p : Platform) : Prop where
  modules : p.modules = calm.modules
  routes : p.routes = calm.routes
  resources : p.resources = calm.resources
  calm : calm.failures = []
  transient : PlannedFailure.Transient limit p.failures

/-- A world whose platform fails for a while, and one whose platform does not. -/
structure Simulation.Troubled (limit : Nat) (calm w : Simulation) : Prop where
  store : w.store = calm.store
  platform : Platform.Troubled limit calm.platform w.platform

theorem Platform.Troubled.remember {limit : Nat} {calm p : Platform}
    (h : Platform.Troubled limit calm p) (calls calls' : List String) :
    Platform.Troubled limit { calm with calls } { p with calls := calls' } :=
  ⟨h.modules, h.routes, h.resources, h.calm, h.transient⟩

theorem Platform.Troubled.refuse {limit : Nat} {calm p : Platform}
    (h : Platform.Troubled limit calm p) (calls : List String) {left : List PlannedFailure}
    (transient : PlannedFailure.Transient limit left) :
    Platform.Troubled limit calm { p with calls, failures := left } :=
  ⟨h.modules, h.routes, h.resources, h.calm, transient⟩

/-- The same outcome, in worlds of which one is troubled. -/
def Agree (limit : Nat) (calm troubled : α × Simulation) : Prop :=
  troubled.1 = calm.1 ∧ Simulation.Troubled limit calm.2 troubled.2

/-! ## Calls -/

/-- A call that the platform refuses for a while, and then takes. It never asks for another attempt
on its own account. -/
structure Masked (limit : Nat) (call : Call Simulation α) (pending : Simulation → Nat) : Prop where
  few : ∀ {calm w}, Simulation.Troubled limit calm w → pending w < limit
  step : ∀ {calm w}, Simulation.Troubled limit calm w →
    Agree limit (call calm) (call w) ∨
    ∃ e w', call w = (.error e, w') ∧ e.isRetryable = true ∧
      Simulation.Troubled limit calm w' ∧ pending w' + 1 = pending w
  final : ∀ {calm w e}, Simulation.Troubled limit calm w → (call calm).1 = .error e →
    e.isRetryable = false

namespace Masked

variable {limit : Nat} {call : Call Simulation α} {pending : Simulation → Nat}
  {calm w : Simulation}

/-- With so many attempts that one goes through, trying gives what a single call gives. -/
theorem tryFrom {config : RetryConfig} (h : Masked limit call pending)
    (troubled : Simulation.Troubled limit calm w) (attempt left : Nat) (enough : pending w ≤ left)
    (delays : ∀ n < attempt + left, (config.delay? n).isSome = true) :
    (config.tryFrom call w attempt left).result = some (call calm).1 ∧
      Simulation.Troubled limit (call calm).2 (config.tryFrom call w attempt left).world := by
  induction left generalizing w attempt with
  | zero =>
    rcases h.step troubled with ⟨same, after⟩ | ⟨e, w', -, -, -, one⟩
    · exact ⟨congrArg some same, after⟩
    · omega
  | succ left ih =>
    rcases h.step troubled with ⟨same, after⟩ | ⟨e, w', refused, retryable, after, one⟩
    · unfold RetryConfig.tryFrom
      split
      · rename_i a w' taken
        rw [taken] at same after
        exact ⟨congrArg some same, after⟩
      · rename_i e w' declined
        rw [declined] at same after
        rw [h.final troubled same.symm]
        exact ⟨congrArg some same, after⟩
    · unfold RetryConfig.tryFrom
      obtain ⟨delay, computed⟩ := Option.isSome_iff_exists.1 (delays attempt (by omega))
      simp only [refused, retryable, computed]
      exact ih after _ (by omega) fun n early => delays n (by omega)

theorem run {config : RetryConfig} (h : Masked config.attempts call pending)
    (delays : ∀ n, n + 1 < config.attempts → (config.delay? n).isSome = true)
    (troubled : Simulation.Troubled config.attempts calm w) :
    (config.run call w).result = some (call calm).1 ∧
      Simulation.Troubled config.attempts (call calm).2 (config.run call w).world := by
  have few := h.few troubled
  exact h.tryFrom troubled 0 _ (by omega) fun n early => delays n (by omega)

/-- A calm platform is called once. -/
theorem run_calm {config : RetryConfig} (h : Masked limit call pending)
    (troubled : Simulation.Troubled limit calm w) :
    config.run call calm = { result := some (call calm).1, notices := [], world := (call calm).2 }
    := by
  unfold RetryConfig.run
  cases config.attempts - 1 with
  | zero => rfl
  | succ left =>
    unfold RetryConfig.tryFrom
    split
    · rename_i taken
      rw [taken]
    · rename_i e w' declined
      have final : e.isRetryable = false := h.final troubled (congrArg Prod.fst declined)
      rw [final, declined]
      rfl

/-- The call with another result. -/
theorem map {f : α → β} (h : Masked limit call pending) :
    Masked limit (fun w => ((call w).1.map f, (call w).2)) pending := by
  refine ⟨h.few, fun troubled => ?_, fun {calm w e} troubled failed => ?_⟩
  · rcases h.step troubled with ⟨same, after⟩ | ⟨e, w', refused, retryable, after, one⟩
    · exact .inl ⟨congrArg (Except.map f) same, after⟩
    · exact .inr ⟨e, w', by rw [refused]; rfl, retryable, after, one⟩
  · cases hc : (call calm).1 with
    | ok a =>
      rw [hc] at failed
      cases failed
    | error e' =>
      rw [hc] at failed
      obtain rfl := Except.error.inj failed
      exact h.final troubled hc

end Masked

/-! ## Operations -/

section

variable {limit : Nat}

theorem receive_of_none {operation : PlatformOperation} {tenantId target : String}
    {perform : Call Platform α} {p : Platform}
    (h : PlannedFailure.take? operation target p.failures = none) :
    Platform.receive operation tenantId target perform p
      = perform { p with calls := p.calls ++ [s!"{operation.text}:{tenantId}:{target}"] } := by
  unfold Platform.receive
  simp only [h]

theorem receive_of_some {operation : PlatformOperation} {tenantId target : String}
    {perform : Call Platform α} {p : Platform} {e : CollaboratorError}
    {left : List PlannedFailure}
    (h : PlannedFailure.take? operation target p.failures = some (e, left)) :
    Platform.receive operation tenantId target perform p
      = (.error e, { p with
          calls := p.calls ++ [s!"{operation.text}:{tenantId}:{target}"], failures := left }) := by
  unfold Platform.receive
  simp only [h]

/-- The platform remembers a call that it refuses, and nothing else. -/
theorem masked_receive {operation : PlatformOperation} {tenantId target : String}
    {perform : Call Platform α}
    (steady : ∀ {calm p}, Platform.Troubled limit calm p →
      (perform p).1 = (perform calm).1 ∧ Platform.Troubled limit (perform calm).2 (perform p).2)
    (final : ∀ {p e}, (perform p).1 = .error e → e.isRetryable = false) :
    Masked limit (Simulation.onPlatform (Platform.receive operation tenantId target perform))
      fun w => PlannedFailure.pending operation target w.platform.failures := by
  have calmly : ∀ {calm w : Simulation}, Simulation.Troubled limit calm w →
      PlannedFailure.take? operation target calm.platform.failures = none := by
    intro calm w troubled
    rw [troubled.platform.calm]
    rfl
  refine ⟨fun troubled => troubled.platform.transient.few _ _, fun {calm w} troubled => ?_,
    fun {calm w e} troubled failed => ?_⟩
  · have quiet := calmly troubled
    unfold Simulation.onPlatform
    rw [receive_of_none quiet]
    cases taken : PlannedFailure.take? operation target w.platform.failures with
    | some found =>
      obtain ⟨e, left⟩ := found
      obtain ⟨retryable, -, one, -⟩ :=
        PlannedFailure.take?_eq_some troubled.platform.transient.unreachable taken
      rw [receive_of_some taken]
      exact .inr ⟨e, _, rfl, retryable,
        ⟨troubled.store, troubled.platform.refuse _ (troubled.platform.transient.take taken)⟩, one⟩
    | none =>
      rw [receive_of_none taken]
      obtain ⟨same, after⟩ := steady (troubled.platform.remember
        (calm.platform.calls ++ [s!"{operation.text}:{tenantId}:{target}"])
        (w.platform.calls ++ [s!"{operation.text}:{tenantId}:{target}"]))
      exact .inl ⟨same, troubled.store, after⟩
  · unfold Simulation.onPlatform at failed
    rw [receive_of_none (calmly troubled)] at failed
    exact final failed

variable (limit) in
/-- A call that goes through in the end. -/
def Interruptible (call : Call Simulation α) : Prop := ∃ pending, Masked limit call pending

theorem Interruptible.map {call : Call Simulation α} (h : Interruptible limit call) {f : α → β} :
    Interruptible limit fun w => ((call w).1.map f, (call w).2) := by
  obtain ⟨pending, masked⟩ := h
  exact ⟨pending, masked.map⟩

theorem modulesOf_eq {calm p : Platform} (h : Platform.Troubled limit calm p) (tenantId : String) :
    p.modulesOf tenantId = calm.modulesOf tenantId := by
  unfold Platform.modulesOf
  rw [h.modules]

theorem Platform.Troubled.setModules {calm p : Platform} (h : Platform.Troubled limit calm p)
    (tenantId : String) (modules : OrderedSet String) :
    Platform.Troubled limit (calm.setModules tenantId modules) (p.setModules tenantId modules) := by
  refine ⟨?_, h.routes, h.resources, h.calm, h.transient⟩
  unfold Platform.setModules
  rw [h.modules]

theorem Platform.Troubled.setRoutes {calm p : Platform} (h : Platform.Troubled limit calm p)
    (f : OrderedMap TenantApplication (List String) → OrderedMap TenantApplication (List String)) :
    Platform.Troubled limit { calm with routes := f calm.routes }
      { p with routes := f p.routes } :=
  ⟨h.modules, congrArg f h.routes, h.resources, h.calm, h.transient⟩

theorem Platform.Troubled.setResources {calm p : Platform} (h : Platform.Troubled limit calm p)
    (f : OrderedMap TenantApplication (List String) → OrderedMap TenantApplication (List String)) :
    Platform.Troubled limit { calm with resources := f calm.resources }
      { p with resources := f p.resources } :=
  ⟨h.modules, h.routes, congrArg f h.resources, h.calm, h.transient⟩

open Simulation (collaborators)

theorem interruptible_install (tenantId id : String) :
    Interruptible limit (collaborators.install tenantId id) := by
  show Interruptible limit (Simulation.onPlatform (Platform.install tenantId id))
  unfold Platform.install
  refine ⟨_, masked_receive (fun {calm p} troubled => ?_) (fun {p e} failed => ?_)⟩
  · rw [modulesOf_eq troubled]
    split
    · exact ⟨rfl, troubled⟩
    · exact ⟨rfl, troubled.setModules _ _⟩
  · split at failed
    · obtain rfl := Except.error.inj failed
      rfl
    · cases failed

/-- A call that needs a module, and declines for good without it. -/
theorem interruptible_withModule {operation : PlatformOperation} {tenantId target id : String}
    (change : OrderedSet String → OrderedSet String) :
    Interruptible limit (Simulation.onPlatform (Platform.receive operation tenantId target fun p =>
      if (p.modulesOf tenantId).contains id then
        (.ok (), p.setModules tenantId (change (p.modulesOf tenantId)))
      else
        (.error (.notFound id), p))) := by
  refine ⟨_, masked_receive (fun {calm p} troubled => ?_) (fun {p e} failed => ?_)⟩
  · rw [modulesOf_eq troubled]
    split
    · exact ⟨rfl, troubled.setModules _ _⟩
    · exact ⟨rfl, troubled⟩
  · split at failed
    · cases failed
    · obtain rfl := Except.error.inj failed
      rfl

theorem interruptible_upgrade (tenantId replaced id : String) :
    Interruptible limit (collaborators.upgrade tenantId replaced id) :=
  interruptible_withModule fun modules => (modules.erase replaced).insert id

theorem interruptible_uninstall (tenantId id : String) :
    Interruptible limit (collaborators.uninstall tenantId id) :=
  interruptible_withModule fun modules => modules.erase id

/-- A call that the platform takes whatever it keeps. -/
theorem interruptible_always {operation : PlatformOperation} {tenantId target : String} {result : α}
    {change : Platform → Platform}
    (steady : ∀ {calm p}, Platform.Troubled limit calm p →
      Platform.Troubled limit (change calm) (change p)) :
    Interruptible limit (Simulation.onPlatform (Platform.receive operation tenantId target fun p =>
      (.ok result, change p))) :=
  ⟨_, masked_receive (fun troubled => ⟨rfl, steady troubled⟩) fun failed => by cases failed⟩

theorem interruptible_createRoutes (tenantId id : String) (moduleIds : List String) :
    Interruptible limit (collaborators.createRoutes tenantId id moduleIds) :=
  interruptible_always fun troubled => troubled.setRoutes fun routes => routes.insert _ _

theorem interruptible_removeRoutes (tenantId id : String) :
    Interruptible limit (collaborators.removeRoutes tenantId id) :=
  interruptible_always fun troubled => troubled.setRoutes fun routes => routes.erase _

theorem interruptible_updateRoutes (tenantId replaced id : String) (moduleIds : List String) :
    Interruptible limit (collaborators.updateRoutes tenantId replaced id moduleIds) :=
  interruptible_always fun troubled =>
    troubled.setRoutes fun routes => (routes.erase _).insert _ _

theorem interruptible_createResources (tenantId id : String) (moduleIds : List String) :
    Interruptible limit (collaborators.createResources tenantId id moduleIds) :=
  interruptible_always fun troubled => troubled.setResources fun resources => resources.insert _ _

theorem interruptible_removeResources (tenantId id : String) :
    Interruptible limit (collaborators.removeResources tenantId id) :=
  interruptible_always fun troubled => troubled.setResources fun resources => resources.erase _

theorem interruptible_updateResources (tenantId replaced id : String) (moduleIds : List String) :
    Interruptible limit (collaborators.updateResources tenantId replaced id moduleIds) :=
  interruptible_always fun troubled =>
    troubled.setResources fun resources => (resources.erase _).insert _ _

theorem interruptible_applyChange (tenantId : String) (change : ModuleChange) :
    Interruptible limit (collaborators.applyChange tenantId change) := by
  obtain ⟨id, replaced, action⟩ := change
  cases action with
  | enable => exact interruptible_install tenantId id
  | disable => exact interruptible_uninstall tenantId id
  | upgrade =>
    cases replaced with
    | none => exact interruptible_install tenantId id
    | some old => exact interruptible_upgrade tenantId old id

end

end Provisioning
