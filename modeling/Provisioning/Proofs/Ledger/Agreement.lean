import Provisioning.Proofs.Collaborator.Transience
import Provisioning.Proofs.Ledger.Calls

/-!
# The ledger and the platform agree on modules

The ledger keeps modules as rows of the store, the simulated platform as one set for each tenant.
States of both correspond if they hold the same modules. Calls lead from corresponding states to
corresponding states with the same outcomes (`Corresponding.make`), and corresponding
states list the same modules (`Corresponding.installedModules`). So no sequence of calls tells one
from the other.
-/

namespace Provisioning

/-- A call that changes modules of a tenant. -/
inductive ModuleCall where
  /-- A module is enabled. -/
  | install (tenantId moduleId : String)
  /-- A module (the second one) takes the place of another one. -/
  | upgrade (tenantId replaced moduleId : String)
  /-- A module is disabled. -/
  | uninstall (tenantId moduleId : String)
  /-- Several changes are made, up to the first one that fails. -/
  | apply (tenantId : String) (changes : List ModuleChange)

namespace ModuleCall

variable {σ : Type}

/-- Whether the call is about one change. -/
def isSingle : ModuleCall → Bool
  | apply _ _ => false
  | _ => true

/-- Makes the call. -/
def make (c : Collaborators σ) : ModuleCall → Call σ Unit
  | install tenantId moduleId => c.install tenantId moduleId
  | upgrade tenantId replaced moduleId => c.upgrade tenantId replaced moduleId
  | uninstall tenantId moduleId => c.uninstall tenantId moduleId
  | apply tenantId changes => c.applyChanges tenantId changes

/-- What one sees of calls: the outcome of each, and which modules each tenant has after it. -/
def observe (c : Collaborators σ) :
    List ModuleCall → σ → List (Except CollaboratorError Unit × (String → List String))
  | [], _ => []
  | call :: rest, w =>
    ((call.make c w).1, fun tenantId => c.installedModules tenantId (call.make c w).2)
      :: observe c rest (call.make c w).2

end ModuleCall

open Ledger

/-- The rows of the ledger that are modules are those of the modules of the platform, and no call of
the platform is planned to fail. -/
structure Corresponding (s : Store) (w : Simulation) : Prop where
  /-- A row of a module names its owner after the module, which the platform has. -/
  rows : ∀ r : Resource, r.kind = moduleKind →
    (s.resources.contains r ↔
      r.owner = ModuleDescriptor.nameOf r.name ∧ (w.platform.modulesOf r.tenantId).contains r.name)
  /-- No call fails. -/
  untroubled : w.platform.failures = []

/-! ## The modules of a platform -/

namespace Platform

theorem modulesOf_setModules (p : Platform) (tenantId tenantId' : String)
    (modules : OrderedSet String) :
    (p.setModules tenantId modules).modulesOf tenantId'
      = if tenantId' = tenantId then modules else p.modulesOf tenantId' := by
  unfold modulesOf setModules
  rw [OrderedMap.get?_insert]
  split <;> rfl

variable {operation : PlatformOperation} {tenantId target : String} {p : Platform}

/-- The platform after a call is remembered. -/
def remember (p : Platform) (operation : PlatformOperation) (tenantId target : String) : Platform :=
  { p with calls := p.calls ++ [s!"{operation.text}:{tenantId}:{target}"] }

theorem receive_of_untroubled (untroubled : p.failures = []) (perform : Call Platform Unit) :
    receive operation tenantId target perform p
      = perform (p.remember operation tenantId target) := by
  refine receive_of_none ?_
  rw [untroubled]
  rfl

end Platform

/-! ## Steps -/

namespace Corresponding

variable {s : Store} {w : Simulation}

theorem empty : Corresponding .empty {} where
  rows := fun _ _ => ⟨fun there => absurd there Bool.false_ne_true,
    fun there => absurd there.2 Bool.false_ne_true⟩
  untroubled := rfl

theorem contains_iff (h : Corresponding s w) (tenantId moduleId : String) :
    s.resources.contains (moduleResource tenantId moduleId)
      ↔ (w.platform.modulesOf tenantId).contains moduleId := by
  rw [h.rows (moduleResource tenantId moduleId) rfl]
  exact and_iff_right rfl

/-- The calls that a platform remembers tell nothing about its modules. -/
theorem remember (h : Corresponding s w) (operation : PlatformOperation)
    (tenantId target : String) :
    Corresponding s { w with platform := w.platform.remember operation tenantId target } :=
  ⟨h.rows, h.untroubled⟩

/-- A row of a module is told by its tenant and its name, if its owner is named after it. -/
theorem eq_moduleResource_iff {r : Resource} (kind : r.kind = moduleKind)
    (tenantId moduleId : String) :
    r = moduleResource tenantId moduleId ↔
      r.tenantId = tenantId ∧ r.owner = ModuleDescriptor.nameOf r.name ∧ r.name = moduleId := by
  obtain ⟨tenant, _, name, owner⟩ := r
  cases kind
  rw [moduleResource, Resource.mk.injEq]
  constructor
  · rintro ⟨own, -, named, owned⟩
    cases named
    exact ⟨own, owned, rfl⟩
  · rintro ⟨own, owned, named⟩
    cases named
    exact ⟨own, rfl, rfl, owned⟩

/-- States keep corresponding if the rows of one tenant become those of the modules that it gets, and
those of the others stay. -/
theorem setModules (h : Corresponding s w) {tenantId : String} {s' : Store}
    {modules : OrderedSet String}
    (rows : ∀ r : Resource, r.kind = moduleKind → (s'.resources.contains r ↔
      if r.tenantId = tenantId then
        r.owner = ModuleDescriptor.nameOf r.name ∧ modules.contains r.name
      else s.resources.contains r)) :
    Corresponding s' { w with platform := w.platform.setModules tenantId modules } where
  rows := by
    intro r kind
    rw [rows r kind]
    show _ ↔ _ ∧ ((w.platform.setModules tenantId modules).modulesOf r.tenantId).contains r.name
    rw [Platform.modulesOf_setModules]
    by_cases own : r.tenantId = tenantId
    · rw [if_pos own, if_pos own]
    · rw [if_neg own, if_neg own, h.rows r kind]
  untroubled := h.untroubled

/-- Two outcomes are the same, and the states after them correspond. -/
def Agrees (r : Except CollaboratorError Unit × Store)
    (r' : Except CollaboratorError Unit × Simulation) : Prop :=
  r.1 = r'.1 ∧ Corresponding r.2 r'.2

theorem install (h : Corresponding s w) (tenantId moduleId : String) :
    Agrees (Ledger.collaborators.install tenantId moduleId s)
      (Simulation.collaborators.install tenantId moduleId w) := by
  have outcome := Ledger.install_outcome tenantId moduleId s
  have store := Ledger.install_store tenantId moduleId s
  have h' := h.remember .install tenantId moduleId
  show Agrees (Ledger.install tenantId moduleId s)
    (Simulation.onPlatform (Platform.install tenantId moduleId) w)
  unfold Agrees Simulation.onPlatform Platform.install
  rw [outcome, store, Platform.receive_of_untroubled h.untroubled]
  by_cases there : s.resources.contains (moduleResource tenantId moduleId)
  · rw [if_pos there, if_pos ((h'.contains_iff tenantId moduleId).mp there),
      Store.insertResource_of_contains there]
    exact ⟨rfl, h'⟩
  · rw [if_neg there, if_neg fun known => there ((h'.contains_iff tenantId moduleId).mpr known)]
    refine ⟨rfl, h'.setModules fun r kind => ?_⟩
    rw [Store.contains_insertResource, eq_moduleResource_iff kind, OrderedSet.contains_insert,
      h'.rows r kind]
    by_cases own : r.tenantId = tenantId
    · subst own
      simp only [true_and, if_true, and_or_left]
    · simp only [own, false_and, false_or, if_false]

theorem uninstall (h : Corresponding s w) (tenantId moduleId : String) :
    Agrees (Ledger.collaborators.uninstall tenantId moduleId s)
      (Simulation.collaborators.uninstall tenantId moduleId w) := by
  have outcome := Ledger.uninstall_outcome tenantId moduleId s
  have store := Ledger.uninstall_store tenantId moduleId s
  have h' := h.remember .uninstall tenantId moduleId
  show Agrees (Ledger.uninstall tenantId moduleId s)
    (Simulation.onPlatform (Platform.uninstall tenantId moduleId) w)
  unfold Agrees Simulation.onPlatform Platform.uninstall
  rw [outcome, store, Platform.receive_of_untroubled h.untroubled]
  by_cases there : s.resources.contains (moduleResource tenantId moduleId)
  · rw [if_pos there, if_pos ((h'.contains_iff tenantId moduleId).mp there)]
    refine ⟨rfl, h'.setModules fun r kind => ?_⟩
    rw [Store.contains_deleteResource, ne_eq, eq_moduleResource_iff kind,
      OrderedSet.contains_erase, h'.rows r kind]
    by_cases own : r.tenantId = tenantId
    · subst own
      simp only [true_and, if_true]
      tauto
    · simp only [own, false_and, not_false_eq_true, true_and, if_false]
  · rw [if_neg there, if_neg fun known => there ((h'.contains_iff tenantId moduleId).mpr known),
      Store.deleteResource_of_not_contains there]
    exact ⟨rfl, h'⟩

theorem upgrade (h : Corresponding s w) (tenantId replaced moduleId : String) :
    Agrees (Ledger.collaborators.upgrade tenantId replaced moduleId s)
      (Simulation.collaborators.upgrade tenantId replaced moduleId w) := by
  have outcome := Ledger.upgrade_outcome tenantId replaced moduleId s
  have store := Ledger.upgrade_store tenantId replaced moduleId s
  have h' := h.remember .upgrade tenantId moduleId
  show Agrees (Ledger.upgrade tenantId replaced moduleId s)
    (Simulation.onPlatform (Platform.upgrade tenantId replaced moduleId) w)
  unfold Agrees Simulation.onPlatform Platform.upgrade
  rw [outcome, store, Platform.receive_of_untroubled h.untroubled]
  by_cases there : s.resources.contains (moduleResource tenantId replaced)
  · rw [if_pos there, if_pos there, if_pos ((h'.contains_iff tenantId replaced).mp there)]
    refine ⟨rfl, h'.setModules fun r kind => ?_⟩
    rw [Store.contains_insertResource, Store.contains_deleteResource, ne_eq,
      eq_moduleResource_iff kind, eq_moduleResource_iff kind, OrderedSet.contains_insert,
      OrderedSet.contains_erase, h'.rows r kind]
    by_cases own : r.tenantId = tenantId
    · subst own
      simp only [true_and, if_true]
      tauto
    · simp only [own, false_and, not_false_eq_true, true_and, false_or, if_false]
  · rw [if_neg there, if_neg there,
      if_neg fun known => there ((h'.contains_iff tenantId replaced).mpr known)]
    exact ⟨rfl, h'⟩

theorem applyChange (h : Corresponding s w) (tenantId : String) (change : ModuleChange) :
    Agrees (Ledger.collaborators.applyChange tenantId change s)
      (Simulation.collaborators.applyChange tenantId change w) := by
  obtain ⟨id, replaced, action⟩ := change
  cases action with
  | enable => exact h.install tenantId id
  | upgrade =>
    cases replaced with
    | none => exact h.install tenantId id
    | some replaced => exact h.upgrade tenantId replaced id
  | disable => exact h.uninstall tenantId id

/-- Changes agree up to the first one that fails, which fails in both. -/
theorem applyChanges (h : Corresponding s w) (tenantId : String) (changes : List ModuleChange) :
    Agrees (Ledger.collaborators.applyChanges tenantId changes s)
      (Simulation.collaborators.applyChanges tenantId changes w) := by
  induction changes generalizing s w with
  | nil => exact ⟨rfl, h⟩
  | cons change rest ih =>
    obtain ⟨outcome, after⟩ := h.applyChange tenantId change
    unfold Collaborators.applyChanges
    generalize Ledger.collaborators.applyChange tenantId change s = r at outcome after
    generalize Simulation.collaborators.applyChange tenantId change w = r' at outcome after
    obtain ⟨outcome₁, s'⟩ := r
    obtain ⟨outcome₂, w'⟩ := r'
    obtain rfl : outcome₁ = outcome₂ := outcome
    cases outcome₁ with
    | ok => exact ih after
    | error e => exact ⟨rfl, after⟩

/-- Calls lead from corresponding states to corresponding ones, with the same outcomes. -/
theorem make (h : Corresponding s w) (call : ModuleCall) :
    Agrees (call.make Ledger.collaborators s) (call.make Simulation.collaborators w) := by
  cases call with
  | install tenantId moduleId => exact h.install tenantId moduleId
  | upgrade tenantId replaced moduleId => exact h.upgrade tenantId replaced moduleId
  | uninstall tenantId moduleId => exact h.uninstall tenantId moduleId
  | apply tenantId changes => exact h.applyChanges tenantId changes

/-! ## What is listed -/

/-- What is listed are the rows of the tenant's modules. -/
theorem mem_rows {tenantId : String} {r : Resource} :
    r ∈ s.resources.toList.filter (fun r =>
        r.tenantId == tenantId && r.kind == moduleKind && (none : Option String).all (r.owner == ·)) ↔
      s.resources.contains r ∧ r.tenantId = tenantId ∧ r.kind = moduleKind := by
  rw [List.mem_filter, ← OrderedSet.contains_iff_mem]
  simp [Option.all]

/-- The names of the rows ascend, because rows of the same name have the same owner. -/
theorem resourceNames_ascending (h : Corresponding s w) (tenantId : String) :
    Ascending (s.resourceNames tenantId moduleKind none) := by
  refine List.pairwise_map.mpr (List.Pairwise.imp_of_mem (fun {a b} ha hb before => ?_)
    (s.resources.ascending.filter _))
  obtain ⟨there, own, kind⟩ := mem_rows.mp ha
  obtain ⟨there', own', kind'⟩ := mem_rows.mp hb
  have owner : a.owner = ModuleDescriptor.nameOf a.name := ((h.rows a kind).mp there).1
  have owner' : b.owner = ModuleDescriptor.nameOf b.name := ((h.rows b kind').mp there').1
  have before : (compare a.tenantId b.tenantId).then ((compare a.kind b.kind).then
      ((compare a.name b.name).then (compare a.owner b.owner))) = .lt := before
  rw [own, own', kind, kind'] at before
  simp only [Std.ReflCmp.compare_self, Ordering.eq_then] at before
  by_cases same : a.name = b.name
  · rw [owner, owner', same] at before
    simp only [Std.ReflCmp.compare_self, Ordering.eq_then] at before
    cases before
  · rcases Ordering.then_eq_lt.mp before with first | ⟨equal, -⟩
    · exact first
    · exact absurd (Std.LawfulEqCmp.eq_of_compare equal) same

/-- Corresponding states list the same modules in the same order. -/
theorem installedModules (h : Corresponding s w) (tenantId : String) :
    Ledger.collaborators.installedModules tenantId s
      = Simulation.collaborators.installedModules tenantId w := by
  let listed : OrderedSet String :=
    ⟨s.resourceNames tenantId moduleKind none, h.resourceNames_ascending tenantId⟩
  have same : listed = w.platform.modulesOf tenantId := by
    refine OrderedSet.ext_contains fun id => ?_
    rw [OrderedSet.contains_iff_mem]
    constructor
    · intro hid
      obtain ⟨r, hr, rfl⟩ := List.mem_map.mp hid
      obtain ⟨there, rfl, kind⟩ := mem_rows.mp hr
      exact ((h.rows r kind).mp there).2
    · intro there
      have row := (h.contains_iff tenantId id).mpr there
      exact List.mem_map.mpr ⟨moduleResource tenantId id, mem_rows.mpr ⟨row, rfl, rfl⟩, rfl⟩
  exact congrArg OrderedSet.toList same

/-- No sequence of calls tells corresponding states apart. -/
theorem observe (h : Corresponding s w) (calls : List ModuleCall) :
    ModuleCall.observe Ledger.collaborators calls s
      = ModuleCall.observe Simulation.collaborators calls w := by
  induction calls generalizing s w with
  | nil => rfl
  | cons call rest ih =>
    obtain ⟨outcome, after⟩ := h.make call
    have listed : (fun tenantId => Ledger.collaborators.installedModules tenantId
          (call.make Ledger.collaborators s).2)
        = fun tenantId => Simulation.collaborators.installedModules tenantId
          (call.make Simulation.collaborators w).2 :=
      funext after.installedModules
    rw [ModuleCall.observe, ModuleCall.observe, outcome, listed, ih after]

end Corresponding

/-! ## Calls that fail -/

/-- A single call of the ledger that fails leaves the store as it is. -/
theorem Ledger.make_error {call : ModuleCall} (single : call.isSingle) {s : Store}
    {e : CollaboratorError} (failed : (call.make Ledger.collaborators s).1 = .error e) :
    (call.make Ledger.collaborators s).2 = s := by
  cases call with
  | install tenantId moduleId =>
    have failed : (Ledger.install tenantId moduleId s).1 = .error e := failed
    show (Ledger.install tenantId moduleId s).2 = s
    rw [Ledger.install_outcome] at failed
    rw [Ledger.install_store]
    split at failed
    next there => exact Store.insertResource_of_contains there
    next => cases failed
  | upgrade tenantId replaced moduleId =>
    have failed : (Ledger.upgrade tenantId replaced moduleId s).1 = .error e := failed
    show (Ledger.upgrade tenantId replaced moduleId s).2 = s
    rw [Ledger.upgrade_outcome] at failed
    rw [Ledger.upgrade_store]
    split at failed
    next => cases failed
    next absent => rw [if_neg absent]
  | uninstall tenantId moduleId =>
    have failed : (Ledger.uninstall tenantId moduleId s).1 = .error e := failed
    show (Ledger.uninstall tenantId moduleId s).2 = s
    rw [Ledger.uninstall_outcome] at failed
    rw [Ledger.uninstall_store]
    split at failed
    next => cases failed
    next absent => exact Store.deleteResource_of_not_contains absent
  | apply tenantId changes => cases single

/-- A call of the platform that fails leaves its modules as they are if performing it does. -/
theorem Platform.receive_error {operation : PlatformOperation} {tenantId target : String}
    {perform : Call Platform Unit} {p : Platform} {e : CollaboratorError}
    (keeps : ∀ p, (perform p).1 = .error e → (perform p).2.modules = p.modules)
    (failed : (receive operation tenantId target perform p).1 = .error e) :
    (receive operation tenantId target perform p).2.modules = p.modules := by
  cases taken : PlannedFailure.take? operation target p.failures with
  | some found => rw [receive_of_some taken]
  | none =>
    rw [receive_of_none taken] at failed ⊢
    exact keeps _ failed

/-- A single call of the platform that fails, even as it was planned, leaves the modules as they
are. -/
theorem Simulation.make_error {call : ModuleCall} (single : call.isSingle) {w : Simulation}
    {e : CollaboratorError} (failed : (call.make Simulation.collaborators w).1 = .error e) :
    (call.make Simulation.collaborators w).2.platform.modules = w.platform.modules := by
  cases call with
  | install tenantId moduleId =>
    have failed : (Platform.install tenantId moduleId w.platform).1 = .error e := failed
    refine Platform.receive_error (fun p declined => ?_) failed
    split at declined
    · rw [if_pos ‹_›]
    · cases declined
  | upgrade tenantId replaced moduleId =>
    have failed : (Platform.upgrade tenantId replaced moduleId w.platform).1 = .error e := failed
    refine Platform.receive_error (fun p declined => ?_) failed
    split at declined
    · cases declined
    · rw [if_neg ‹_›]
  | uninstall tenantId moduleId =>
    have failed : (Platform.uninstall tenantId moduleId w.platform).1 = .error e := failed
    refine Platform.receive_error (fun p declined => ?_) failed
    split at declined
    · cases declined
    · rw [if_neg ‹_›]
  | apply tenantId changes => cases single

/-! ## Both together -/

/-- Whoever enables, exchanges and disables modules cannot tell the ledger from the platform: from
corresponding states, all calls have the same outcomes and leave the same modules listed. And a
single call that fails leaves the modules as they were, in both. -/
theorem modules_interchangeable {s : Store} {w : Simulation} (h : Corresponding s w)
    (calls : List ModuleCall) :
    ModuleCall.observe Ledger.collaborators calls s
        = ModuleCall.observe Simulation.collaborators calls w ∧
      ∀ call : ModuleCall, call.isSingle →
        (∀ (s : Store) (e : CollaboratorError),
          (call.make Ledger.collaborators s).1 = .error e →
          ∀ tenantId, Ledger.collaborators.installedModules tenantId
              (call.make Ledger.collaborators s).2
            = Ledger.collaborators.installedModules tenantId s) ∧
        ∀ (w : Simulation) (e : CollaboratorError),
          (call.make Simulation.collaborators w).1 = .error e →
          ∀ tenantId, Simulation.collaborators.installedModules tenantId
              (call.make Simulation.collaborators w).2
            = Simulation.collaborators.installedModules tenantId w := by
  refine ⟨h.observe calls, fun call single => ⟨fun s e failed tenantId => ?_,
    fun w e failed tenantId => ?_⟩⟩
  · rw [Ledger.make_error single failed]
  · have kept := Simulation.make_error single failed
    show ((call.make Simulation.collaborators w).2.platform.modulesOf tenantId).toList
      = (w.platform.modulesOf tenantId).toList
    rw [Platform.modulesOf, Platform.modulesOf, kept]

/-- Calls with two versions of a module, one without a version, exchanges of a module for one that is
there already and for itself, and changes that stop in the middle. -/
def mixedCalls : List ModuleCall :=
  [.install "t" "m-1.0.0", .install "t" "m-2.0.0", .install "t" "plain", .install "t" "m-1.0.0",
   .upgrade "t" "m-1.0.0" "m-2.0.0", .upgrade "t" "m-2.0.0" "m-2.0.0",
   .apply "t" [.enable "n-1.0.0", .disable "m-1.0.0", .enable "o-1.0.0"], .uninstall "u" "plain"]

/-- From empty states such calls succeed and fail alike, and the change before the one that fails is
kept in both. -/
theorem modules_interchangeable_mixed :
    Corresponding .empty {} ∧
      (ModuleCall.observe Ledger.collaborators mixedCalls .empty).map
          (fun seen => (seen.1, seen.2 "t"))
        = [(.ok (), ["m-1.0.0"]), (.ok (), ["m-1.0.0", "m-2.0.0"]),
           (.ok (), ["m-1.0.0", "m-2.0.0", "plain"]),
           (.error (.alreadyEnabled "t" "m-1.0.0"), ["m-1.0.0", "m-2.0.0", "plain"]),
           (.ok (), ["m-2.0.0", "plain"]), (.ok (), ["m-2.0.0", "plain"]),
           (.error (.notFound "m-1.0.0"), ["m-2.0.0", "n-1.0.0", "plain"]),
           (.error (.notFound "plain"), ["m-2.0.0", "n-1.0.0", "plain"])] ∧
      ModuleCall.observe Ledger.collaborators mixedCalls .empty
        = ModuleCall.observe Simulation.collaborators mixedCalls {} ∧
      Simulation.collaborators.installedModules "t"
          ((ModuleCall.uninstall "t" "plain").make Simulation.collaborators {}).2
        = Simulation.collaborators.installedModules "t" {} := by
  obtain ⟨same, kept⟩ := modules_interchangeable Corresponding.empty mixedCalls
  exact ⟨Corresponding.empty, by decide +kernel, same,
    (kept (.uninstall "t" "plain") rfl).2 {} (.notFound "plain") (by decide +kernel) "t"⟩

end Provisioning
