import Mathlib.Data.Set.Basic
import Provisioning.Entitlement.Service
import Provisioning.Proofs.Entitlement.Effects
import Provisioning.Proofs.Entitlement.Layout
import Provisioning.Proofs.Entitlement.Lookup

/-!
# Runs of requests

A request that is carried out has been looked up, checked and made a flow of. What its run does to
the world comes of the calls of the stages of its tasks; recording it changes neither entitlements
nor resources.
-/

namespace Provisioning

variable {σ : Type}

/-! ## What is requested -/

namespace EntitlementRequest

theorem distinct_nodup (ids : List String) : (distinct ids).Nodup := by
  induction ids with
  | nil => exact .nil
  | cons first rest ih =>
    rw [distinct, List.nodup_cons]
    exact ⟨by simp [List.mem_filter], ih.filter _⟩

end EntitlementRequest

/-- What the flow of a request is made from. -/
def LoadedRequest.input (l : LoadedRequest) : FlowInput :=
  { applications := l.applications, entitled := l.entitled, plan := l.plan }

namespace Service

/-- A request has been looked up and checked, and a flow has been made of it. -/
structure Prepared (s : Service σ) (w : σ) (ids : FlowIds) (r : EntitlementRequest)
    (l : LoadedRequest) (plan : FlowPlan) : Prop where
  /-- It has been looked up. -/
  loaded : s.load w r = .ok l
  /-- No check refuses it. -/
  valid : (l.context r.type).validate = .ok ()
  /-- The flow has been made. -/
  made : FlowPlan.make s.capabilities ids r l.input = .ok plan

variable {s : Service σ} {w : σ} {ids : FlowIds} {r : EntitlementRequest} {l : LoadedRequest}
  {plan : FlowPlan} {e : Execution σ}

theorem execute_eq_ok (h : s.execute w ids r = .ok e) :
    ∃ l plan, s.Prepared w ids r l plan ∧ e = s.runPlan w plan := by
  obtain ⟨plan, hp, rfl⟩ := Except.map_eq_ok.mp h
  rw [prepare, Except.bind_eq_ok] at hp
  obtain ⟨l, loaded, hp⟩ := hp
  obtain ⟨_, valid, made⟩ := Except.bind_eq_ok.mp hp
  exact ⟨l, plan, ⟨loaded, FlowPlan.ofRefusal_eq_ok.mp valid, made⟩, rfl⟩

theorem prepare_eq_ok (prepared : s.Prepared w ids r l plan) : s.prepare w ids r = .ok plan := by
  rw [prepare, Except.bind_eq_ok]
  refine ⟨l, prepared.loaded, Except.bind_eq_ok.mpr ⟨(), ?_, prepared.made⟩⟩
  exact FlowPlan.ofRefusal_eq_ok.mpr prepared.valid

theorem execute_of_prepared (prepared : s.Prepared w ids r l plan) :
    s.execute w ids r = .ok (s.runPlan w plan) := by
  rw [execute, prepare_eq_ok prepared]
  rfl

/-- A request that is looked up and checked is prepared, if a flow can be made of it. -/
theorem prepared_of_made {good : FlowPlan → Bool} (loaded : s.load w r = .ok l)
    (valid : (l.context r.type).validate = .ok ())
    (made : (FlowPlan.make s.capabilities ids r l.input).toOption.any good) :
    ∃ plan, s.Prepared w ids r l plan ∧ good plan := by
  obtain ⟨plan, hplan, holds⟩ := (Option.any_eq_true _ _).mp made
  exact ⟨plan, ⟨loaded, valid, Except.toOption_eq_some.mp hplan⟩, holds⟩

/-- Such a request is carried out with what its flow gives. -/
theorem execute_of_made {β : Type} (ids : FlowIds) (loaded : s.load w r = .ok l)
    (valid : (l.context r.type).validate = .ok ()) {f : Execution σ → β} {b : β}
    (made : ((FlowPlan.make s.capabilities ids r l.input).toOption.map
      fun plan => f (s.runPlan w plan)) = some b) :
    ∃ e, s.execute w ids r = .ok e ∧ f e = b := by
  obtain ⟨plan, hplan, holds⟩ := Option.map_eq_some_iff.mp made
  have prepared : s.Prepared w ids r l plan :=
    ⟨loaded, valid, Except.toOption_eq_some.mp hplan⟩
  exact ⟨_, execute_of_prepared prepared, holds⟩

/-- The run of a request, given what has been looked up for it, if a flow can be made of that. -/
def run? (s : Service σ) (ids : FlowIds) (r : EntitlementRequest) (l : LoadedRequest) (w : σ) :
    Option (Execution σ) :=
  (FlowPlan.make s.capabilities ids r l.input).toOption.map (s.runPlan w)

/-- The world after that run. -/
def worldAfter (s : Service σ) (ids : FlowIds) (r : EntitlementRequest) (l : LoadedRequest)
    (w : σ) : σ :=
  ((s.run? ids r l w).map (·.world)).getD w

theorem Prepared.worldAfter_eq (prepared : s.Prepared w ids r l plan) :
    s.worldAfter ids r l w = (s.runPlan w plan).world := by
  rw [worldAfter, run?, prepared.made]
  rfl

theorem execute_of_run? {good : Execution σ → Bool} (loaded : s.load w r = .ok l)
    (valid : (l.context r.type).validate = .ok ()) (runs : (s.run? ids r l w).any good) :
    ∃ e, s.execute w ids r = .ok e ∧ e.world = s.worldAfter ids r l w ∧ good e := by
  rw [run?, Option.any_map] at runs
  obtain ⟨plan, prepared, holds⟩ := prepared_of_made loaded valid runs
  exact ⟨_, execute_of_prepared prepared, prepared.worldAfter_eq.symm, holds⟩

/-- What is looked up for a request. -/
structure Loaded (s : Service σ) (w : σ) (r : EntitlementRequest) (l : LoadedRequest) : Prop where
  /-- The request names applications that can be. -/
  checked : r.check = .ok ()
  /-- The requested applications are looked up. -/
  requested : s.registry.find r.uniqueIds = .ok l.applications
  /-- The applications of the tenant are looked up. -/
  entitled : s.registry.find ((s.collaborators.store w).entitledIds r.tenantId) = .ok l.entitled
  /-- A request for a state has a plan. -/
  planned : r.type = .state → ∃ p, l.plan = some p ∧ s.planState w r.tenantId r.uniqueIds = .ok p

theorem load_eq_ok (h : s.load w r = .ok l) : s.Loaded w r l := by
  rw [load, Except.bind_eq_ok] at h
  obtain ⟨_, checked, h⟩ := h
  obtain ⟨applications, requested, h⟩ := Except.bind_eq_ok.mp h
  obtain ⟨entitled, hentitled, h⟩ := Except.bind_eq_ok.mp h
  have checked := FlowPlan.ofRefusal_eq_ok.mp checked
  have entitled_found := Except.mapError_eq_ok.mp hentitled
  dsimp only at h
  split at h
  · obtain ⟨plan, hplan, h⟩ := Except.bind_eq_ok.mp h
    obtain ⟨p, hp, rfl⟩ := Except.map_eq_ok.mp hplan
    obtain rfl := Except.ok.inj h
    exact ⟨checked, requested, entitled_found, fun _ => ⟨p, rfl, FlowPlan.ofRefusal_eq_ok.mp hp⟩⟩
  · rename_i other
    obtain rfl := Except.ok.inj h
    exact ⟨checked, requested, entitled_found, fun state => absurd state other⟩

namespace Loaded

variable (loaded : s.Loaded w r l)

include loaded

theorem requested_nodup : (l.applications.map (·.id)).Nodup := by
  rw [Registry.find_ids loaded.requested]
  exact EntitlementRequest.distinct_nodup _

theorem entitled_nodup : (l.entitled.map (·.id)).Nodup := by
  rw [Registry.find_ids loaded.entitled]
  exact Store.entitledIds_nodup _ _

theorem requested_known {a : Application} (ha : a ∈ l.applications) :
    s.registry.known? a.id = some a := ((Registry.mem_find loaded.requested).mp ha).2

theorem entitled_known {a : Application} (ha : a ∈ l.entitled) :
    s.registry.known? a.id = some a := ((Registry.mem_find loaded.entitled).mp ha).2

theorem known {a : Application} (ha : a ∈ l.applications ∨ a ∈ l.entitled) :
    s.registry.known? a.id = some a := by
  rcases ha with ha | ha
  · exact loaded.requested_known ha
  · exact loaded.entitled_known ha

/-- The tenant is entitled to what is looked up, and to nothing else. -/
theorem entitled_iff (id : String) :
    s.collaborators.Entitled w r.tenantId id ↔ ∃ a ∈ l.entitled, a.id = id := by
  rw [Collaborators.Entitled, ← Store.mem_entitledIds, ← Registry.find_ids loaded.entitled,
    List.mem_map]

/-- Applications that are looked up are told apart by their identifiers. -/
theorem eq_of_id {a b : Application} (ha : a ∈ l.applications ∨ a ∈ l.entitled)
    (hb : b ∈ l.applications ∨ b ∈ l.entitled) (h : a.id = b.id) : a = b := by
  have ka := loaded.known ha
  have kb := loaded.known hb
  rw [h, kb] at ka
  exact (Option.some.inj ka).symm

end Loaded

/-- What is installed is something that the tenant has, of the name of the application. -/
theorem installedVersion_eq_ok {entitled : List Application} {a old : Application}
    (h : FlowPlan.installedVersion entitled a = .ok old) : old ∈ entitled ∧ old.name = a.name := by
  unfold FlowPlan.installedVersion at h
  split at h
  · rename_i found
    simp only [Except.ok.injEq] at h
    subst h
    exact ⟨by simpa using List.mem_of_find?_eq_some found, by
      simpa using List.find?_some found⟩
  · simp at h

/-! ## Sets of entitlements -/

end Service

/-- What a set of entitlements becomes when some are given and others are taken. -/
def exchanged (gives takes : List String) (E : Set String) : Set String :=
  {x | x ∈ gives ∨ x ∉ takes ∧ x ∈ E}

@[simp]
theorem mem_exchanged {gives takes : List String} {E : Set String} {x : String} :
    x ∈ exchanged gives takes E ↔ x ∈ gives ∨ x ∉ takes ∧ x ∈ E := .rfl

theorem exchanged_nil (E : Set String) : exchanged [] [] E = E := by
  ext x
  simp

namespace Collaborators

/-- The applications that a tenant is entitled to in a world. -/
def entitledSet (c : Collaborators σ) (w : σ) (tenantId : String) : Set String :=
  {x | c.Entitled w tenantId x}

theorem entitledSet_congr {c : Collaborators σ} {w w' : σ}
    (h : c.entitlements w' = c.entitlements w) (tenantId : String) :
    c.entitledSet w' tenantId = c.entitledSet w tenantId :=
  Set.ext fun x => entitled_congr h tenantId x

@[simp]
theorem mem_entitledSet {c : Collaborators σ} {w : σ} {tenantId x : String} :
    x ∈ c.entitledSet w tenantId ↔ c.Entitled w tenantId x := .rfl

theorem Moves.entitledSet {c : Collaborators σ} {w w' : σ} {tenantId : String}
    {gives takes : List String} (moves : c.Moves tenantId gives takes w w') :
    c.entitledSet w' tenantId = exchanged gives takes (c.entitledSet w tenantId) := by
  ext x
  simpa using moves tenantId x

end Collaborators

namespace ApplicationTask

/-! ## What tasks exchange -/

@[simp]
theorem takes_entitle (a : Application) : (entitle a).lastStage.takes = [] := rfl

@[simp]
theorem takes_revoke (a : Application) : (revoke a).lastStage.takes = [a.id] := rfl

@[simp]
theorem takes_upgrade (old a : Application) : (upgrade old a).lastStage.takes = [old.id] := rfl

@[simp]
theorem gives_entitle (a : Application) : (entitle a).lastStage.gives = [a.id] := rfl

@[simp]
theorem gives_revoke (a : Application) : (revoke a).lastStage.gives = [] := rfl

@[simp]
theorem gives_upgrade (old a : Application) : (upgrade old a).lastStage.gives = [a.id] := rfl

/-- Only the last stage of a task gives an entitlement or takes it away. -/
theorem lastStage_of_mem {c : Capabilities} {t : ApplicationTask} {s : EntitlementStage}
    (hs : s ∈ t.stages c) (changes : s.gives ≠ [] ∨ s.takes ≠ []) : s = t.lastStage := by
  rcases mem_stages hs with h | rfl | rfl | h
  · cases s <;> simp_all [EntitlementStage.changesModules, EntitlementStage.makesChanges,
      EntitlementStage.gives, EntitlementStage.takes]
  · cases t <;> simp [routeStage, EntitlementStage.gives, EntitlementStage.takes] at changes
  · cases t <;> simp [resourceStage, EntitlementStage.gives, EntitlementStage.takes] at changes
  · exact h

theorem lastStage_mem {c : Capabilities} {t : ApplicationTask} {w : ApplicationWork}
    (h : t.work c = .ok w) : t.lastStage ∈ t.stages c := by
  obtain ⟨before, deprecated, hb, -⟩ := (work_nodes h).stages
  rw [stages_eq h, hb]
  simp

end ApplicationTask

namespace Service

variable {s : Service σ} {w : σ} {ids : FlowIds} {r : EntitlementRequest} {l : LoadedRequest}
  {plan : FlowPlan} {e : Execution σ}

/-! ## Runs -/

/-- A request that is carried out is made of tasks. -/
theorem Prepared.built (prepared : s.Prepared w ids r l plan) :
    ∃ going coming tasks,
      FlowPlan.Built s.capabilities ids r l.input plan going coming tasks := by
  have loaded := load_eq_ok prepared.loaded
  exact FlowPlan.make_built loaded.requested_nodup loaded.entitled_nodup prepared.made

theorem toStage_names (c : Collaborators σ) (retry : RetryConfig) (s : EntitlementStage) :
    Named.name (s.toStage c retry) = Named.name s := rfl

/-- The entitlements after a run are those that its stages leave. -/
theorem runPlan_entitlements (keeps : s.collaborators.KeepsEntitlements) (w : σ)
    (plan : FlowPlan) :
    s.collaborators.entitlements (s.runPlan w plan).world = s.collaborators.entitlements
      ((plan.flow.map (·.toStage s.collaborators s.retry)).run w).machine.world := by
  simp only [runPlan, Collaborators.entitlements, keeps.store_withStore]
  exact (Store.recordAll_rows _ _).1

/-- What no stage of a task breaks, holds when the flow of a request has been run. -/
theorem Prepared.preserves (prepared : s.Prepared w ids r l plan) {P : σ → Prop}
    (executes : ∀ t, FlowPlan.Planned l.input r.type t → ∀ stage ∈ t.stages s.capabilities, ∀ w,
      P w → P (stage.execute s.collaborators s.retry r.tenantId w).2)
    (cancels : ∀ t, FlowPlan.Planned l.input r.type t → ∀ stage ∈ t.stages s.capabilities,
      ∀ result w, P w → P (stage.cancel s.collaborators s.retry result r.tenantId w).2)
    (start : P w) :
    P ((plan.flow.map (·.toStage s.collaborators s.retry)).run w).machine.world := by
  obtain ⟨going, coming, tasks, built⟩ := prepared.built
  have leaf {l' : Leaf (Stage σ)}
      (hl : l' ∈ (plan.flow.map (·.toStage s.collaborators s.retry)).leaves) :
      ∃ l₀ ∈ plan.flow.leaves, l' = l₀.map (·.toStage s.collaborators s.retry) := by
    rw [Flow.leaves_map (toStage_names s.collaborators s.retry)] at hl
    obtain ⟨l₀, hl₀, rfl⟩ := List.mem_map.mp hl
    exact ⟨l₀, hl₀, rfl⟩
  refine Flow.run_preserves (P := fun m => P m.world) (built.closed _) ?_ ?_ start
  · intro l' hl m hm
    obtain ⟨l₀, hl₀, rfl⟩ := leaf hl
    obtain ⟨t, ht, hs⟩ := built.mem_leaves hl₀
    rw [Leaf.toStage_executed (built.tenant hl₀)]
    exact executes t ((built.planned t).mp ht) l₀.stage hs m.world hm
  · intro l' hl cancel can m hm
    obtain ⟨l₀, hl₀, rfl⟩ := leaf hl
    obtain ⟨t, ht, hs⟩ := built.mem_leaves hl₀
    rw [Leaf.toStage_undone (built.tenant hl₀) m can]
    exact cancels t ((built.planned t).mp ht) l₀.stage hs _ m.world hm

/-- A run changes the entitlements of the tenant only by what the last stages of tasks exchange, and
by what undoing them gives back. What is exchanged for something else is there before. -/
theorem Prepared.tenant_preserves (prepared : s.Prepared w ids r l plan)
    (keeps : s.collaborators.KeepsEntitlements) {P : Set String → Prop}
    (does : ∀ t, FlowPlan.Planned l.input r.type t → ∀ E, P E → (∀ x ∈ t.lastStage.takes, x ∈ E) →
      P (exchanged t.lastStage.gives t.lastStage.takes E))
    (undoes : ∀ t, FlowPlan.Planned l.input r.type t → ∀ E, P E →
      (t.lastStage.takes ≠ [] → ∀ x ∈ t.lastStage.gives, x ∈ E) →
      P (exchanged t.lastStage.takes t.lastStage.gives E))
    (start : P (s.collaborators.entitledSet w r.tenantId)) :
    P (s.collaborators.entitledSet (s.runPlan w plan).world r.tenantId) := by
  have same := Collaborators.entitledSet_congr (runPlan_entitlements keeps w plan) r.tenantId
  rw [same]
  refine prepared.preserves (P := fun v => P (s.collaborators.entitledSet v r.tenantId)) ?_ ?_ start
  · intro t ht stage hs u hu
    cases ho : (stage.execute s.collaborators s.retry r.tenantId u).1 with
    | ok stored =>
      obtain ⟨moves, there⟩ := EntitlementStage.execute_moves keeps s.retry ho
      rw [moves.entitledSet]
      by_cases changes : stage.gives ≠ [] ∨ stage.takes ≠ []
      · obtain rfl := ApplicationTask.lastStage_of_mem hs changes
        exact does t ht _ hu fun x hx => (there x hx).1
      · rw [not_or, not_not, not_not] at changes
        rwa [changes.1, changes.2, exchanged_nil]
    | error e =>
      rwa [(EntitlementStage.execute_stays keeps s.retry ho).entitledSet, exchanged_nil]
  · intro t ht stage hs result u hu
    cases ho : (stage.cancel s.collaborators s.retry result r.tenantId u).1 with
    | ok stored =>
      obtain ⟨moves, there⟩ := EntitlementStage.cancel_moves keeps s.retry ho
      rw [moves.entitledSet]
      by_cases changes : stage.gives ≠ [] ∨ stage.takes ≠ []
      · obtain rfl := ApplicationTask.lastStage_of_mem hs changes
        exact undoes t ht _ hu there
      · rw [not_or, not_not, not_not] at changes
        rwa [changes.1, changes.2, exchanged_nil]
    | error e =>
      rwa [(EntitlementStage.cancel_stays keeps s.retry ho).entitledSet, exchanged_nil]

/-- A run leaves the entitlements of other tenants alone. -/
theorem Prepared.others (prepared : s.Prepared w ids r l plan)
    (keeps : s.collaborators.KeepsEntitlements) {t : String} (other : t ≠ r.tenantId) (x : String) :
    s.collaborators.Entitled (s.runPlan w plan).world t x ↔ s.collaborators.Entitled w t x := by
  rw [Collaborators.entitled_congr (runPlan_entitlements keeps w plan)]
  have away {gives takes : List String} {u v : σ}
      (moves : s.collaborators.Moves r.tenantId gives takes u v) :
      s.collaborators.Entitled v t x ↔ s.collaborators.Entitled u t x := by
    simpa [other] using moves t x
  refine prepared.preserves
    (P := fun v => s.collaborators.Entitled v t x ↔ s.collaborators.Entitled w t x) ?_ ?_ .rfl
  · intro _ _ stage _ u hu
    cases ho : (stage.execute s.collaborators s.retry r.tenantId u).1 with
    | ok stored => exact (away (EntitlementStage.execute_moves keeps s.retry ho).1).trans hu
    | error e => exact (away (EntitlementStage.execute_stays keeps s.retry ho)).trans hu
  · intro _ _ stage _ result u hu
    cases ho : (stage.cancel s.collaborators s.retry result r.tenantId u).1 with
    | ok stored => exact (away (EntitlementStage.cancel_moves keeps s.retry ho).1).trans hu
    | error e => exact (away (EntitlementStage.cancel_stays keeps s.retry ho)).trans hu

end Service

/-! ## Runs that finish -/

/-- Stages do their work for a tenant one after another, all of them with success. -/
inductive EntitlementStage.Succeed (c : Collaborators σ) (retry : RetryConfig) (tenantId : String) :
    List EntitlementStage → σ → σ → Prop where
  /-- There is nothing to do. -/
  | nil (w : σ) : Succeed c retry tenantId [] w w
  /-- A stage succeeds, and then the others. -/
  | cons {s : EntitlementStage} {rest : List EntitlementStage} {w w' : σ} {stored : Option Data}
      (ok : (s.execute c retry tenantId w).1 = .ok stored)
      (later : Succeed c retry tenantId rest (s.execute c retry tenantId w).2 w') :
      Succeed c retry tenantId (s :: rest) w w'

namespace EntitlementStage.Succeed

variable {c : Collaborators σ} {retry : RetryConfig} {tenantId : String}
  {ss : List EntitlementStage} {w w' : σ}

/-- Leaves that succeed are stages that do. -/
theorem of_completes {ls : List (Leaf EntitlementStage)} {m m' : Machine σ}
    (tenant : ∀ l ∈ ls, l.scope.text? tenantParam = some tenantId)
    (completes : Completes (ls.map (·.map (·.toStage c retry))) m m') :
    Succeed c retry tenantId (ls.map (·.stage)) m.world m'.world := by
  induction ls generalizing m with
  | nil =>
    cases completes
    exact .nil _
  | cons l rest ih =>
    rw [List.map_cons] at completes
    obtain _ | ⟨ok, later⟩ := completes
    have here := tenant l List.mem_cons_self
    have later := ih (fun l hl => tenant l (List.mem_cons_of_mem _ hl)) later
    rw [Leaf.toStage_execute here] at ok
    rw [Leaf.toStage_executed here] at later
    obtain ⟨stored, ok, -⟩ := Except.map_eq_ok.mp ok
    exact .cons ok later

variable (keeps : c.KeepsEntitlements)

include keeps

/-- What is there or is given, and is not taken for something else, is there at the end. -/
theorem entitled (succeed : Succeed c retry tenantId ss w w') {x : String}
    (untaken : ∀ s ∈ ss, x ∈ s.takes → x ∈ s.gives)
    (source : c.Entitled w tenantId x ∨ ∃ s ∈ ss, x ∈ s.gives) : c.Entitled w' tenantId x := by
  induction succeed with
  | nil => simpa using source
  | @cons s rest w w' stored ok later ih =>
    refine ih (fun s hs => untaken s (List.mem_cons_of_mem _ hs)) ?_
    have moved := (execute_moves keeps retry ok).1 tenantId x
    have here := untaken s List.mem_cons_self
    rw [List.exists_mem_cons_iff] at source
    by_cases given : x ∈ s.gives
    · exact .inl (moved.mpr (.inl ⟨rfl, given⟩))
    · rcases source with there | later
      · refine .inl (moved.mpr (.inr ⟨?_, there⟩))
        rintro ⟨-, taken⟩
        exact given (here taken)
      · exact .inr (later.resolve_left given)

/-- What is there at the end and is given only where it is taken too, was there before and is not
taken for anything else. -/
theorem untaken (succeed : Succeed c retry tenantId ss w w') {x : String}
    (there : c.Entitled w' tenantId x) (ungiven : ∀ s ∈ ss, x ∈ s.gives → x ∈ s.takes) :
    c.Entitled w tenantId x ∧ ∀ s ∈ ss, x ∈ s.takes → x ∈ s.gives := by
  induction succeed with
  | nil => exact ⟨there, by simp⟩
  | @cons s rest w w' stored ok later ih =>
    rw [List.forall_mem_cons] at ungiven ⊢
    obtain ⟨between, untaken⟩ := ih there ungiven.2
    obtain ⟨moves, needed⟩ := execute_moves keeps retry ok
    obtain ⟨_, given⟩ | ⟨kept, before⟩ := (moves tenantId x).mp between
    · exact ⟨(needed x (ungiven.1 given)).1, fun _ => given, untaken⟩
    · exact ⟨before, fun taken => absurd ⟨rfl, taken⟩ kept, untaken⟩

end EntitlementStage.Succeed

namespace Service

variable {s : Service σ} {w : σ} {ids : FlowIds} {r : EntitlementRequest} {l : LoadedRequest}
  {plan : FlowPlan}

/-- What a request that finishes does to an entitlement of the tenant. -/
structure Settles (s : Service σ) (w w' : σ) (r : EntitlementRequest) (l : LoadedRequest) :
    Prop where
  /-- What is there or comes, and does not make place for something else, is there at the end. -/
  entitled : ∀ x,
    (∀ t, FlowPlan.Planned l.input r.type t → x ∈ t.lastStage.takes → x ∈ t.lastStage.gives) →
    (s.collaborators.Entitled w r.tenantId x ∨
      ∃ t, FlowPlan.Planned l.input r.type t ∧ x ∈ t.lastStage.gives) →
    s.collaborators.Entitled w' r.tenantId x
  /-- What is there at the end and comes only where it goes was there before, and does not make
  place for something else. -/
  untaken : ∀ x, s.collaborators.Entitled w' r.tenantId x →
    (∀ t, FlowPlan.Planned l.input r.type t → x ∈ t.lastStage.gives → x ∈ t.lastStage.takes) →
    s.collaborators.Entitled w r.tenantId x ∧
      ∀ t, FlowPlan.Planned l.input r.type t → x ∈ t.lastStage.takes → x ∈ t.lastStage.gives

theorem run_unfailed (finished : (s.runPlan w plan).report.status = .finished) :
    ((plan.flow.map (·.toStage s.collaborators s.retry)).run w).report.status.isFailure
      = false := by
  rw [show ((plan.flow.map (·.toStage s.collaborators s.retry)).run w).report.status
    = .finished from finished]
  rfl

/-- All stages of a run that finishes do their work with success, task by task. -/
theorem Prepared.succeeds (prepared : s.Prepared w ids r l plan)
    (finished : (s.runPlan w plan).report.status = .finished) :
    ∃ going coming tasks, FlowPlan.Built s.capabilities ids r l.input plan going coming tasks ∧
      EntitlementStage.Succeed s.collaborators s.retry r.tenantId
        (tasks.flatMap (·.stages s.capabilities)) w
        ((plan.flow.map (·.toStage s.collaborators s.retry)).run w).machine.world := by
  obtain ⟨going, coming, tasks, built⟩ := prepared.built
  refine ⟨going, coming, tasks, built, ?_⟩
  have completes := Flow.run_completes (run_unfailed finished)
  rw [Flow.leaves_map (toStage_names s.collaborators s.retry)] at completes
  have succeed := EntitlementStage.Succeed.of_completes (fun l => built.tenant) completes
  rwa [built.leaves_stages] at succeed

/-- A run that finishes does everything that the request calls for. -/
theorem Prepared.settles (prepared : s.Prepared w ids r l plan)
    (keeps : s.collaborators.KeepsEntitlements)
    (finished : (s.runPlan w plan).report.status = .finished) :
    s.Settles w (s.runPlan w plan).world r l := by
  obtain ⟨going, coming, tasks, built, succeed⟩ := prepared.succeeds finished
  have last {stage : EntitlementStage} (hs : stage ∈ tasks.flatMap (·.stages s.capabilities))
      (changes : stage.gives ≠ [] ∨ stage.takes ≠ []) :
      ∃ t, FlowPlan.Planned l.input r.type t ∧ stage = t.lastStage := by
    obtain ⟨t, ht, hs⟩ := List.mem_flatMap.mp hs
    exact ⟨t, (built.planned t).mp ht, ApplicationTask.lastStage_of_mem hs changes⟩
  have does {t : ApplicationTask} (ht : FlowPlan.Planned l.input r.type t) :
      t.lastStage ∈ tasks.flatMap (·.stages s.capabilities) := by
    have ht := (built.planned t).mpr ht
    obtain ⟨work, hwork⟩ := built.works t ht
    exact List.mem_flatMap.mpr ⟨t, ht, ApplicationTask.lastStage_mem hwork⟩
  have same (x : String) := Collaborators.entitled_congr (runPlan_entitlements keeps w plan)
    r.tenantId x
  refine ⟨fun x untaken source => (same x).mpr ?_, fun x there ungiven => ?_⟩
  · refine succeed.entitled keeps (fun stage hs taken => ?_) (source.imp_right ?_)
    · obtain ⟨t, ht, rfl⟩ := last hs (.inr (List.ne_nil_of_mem taken))
      exact untaken t ht taken
    · rintro ⟨t, ht, given⟩
      exact ⟨_, does ht, given⟩
  · obtain ⟨before, untaken⟩ := succeed.untaken keeps ((same x).mp there) fun stage hs given => by
      obtain ⟨t, ht, rfl⟩ := last hs (.inl (List.ne_nil_of_mem given))
      exact ungiven t ht given
    exact ⟨before, fun t ht => untaken _ (does ht)⟩

/-! ## One run after another -/

/-- The worlds that runs with one worker lead to, with one registry and the same collaborators, a
condition being true of each run. -/
inductive Reached (registry : Registry) (c : Collaborators σ)
    (condition : Service σ → σ → EntitlementRequest → Execution σ → Prop) (first : σ) :
    σ → Prop where
  /-- The first world. -/
  | first : Reached registry c condition first first
  /-- A run leads to its last world. -/
  | run {s : Service σ} {w : σ} {ids : FlowIds} {r : EntitlementRequest} {e : Execution σ}
      (reached : Reached registry c condition first w) (known : s.registry = registry)
      (called : s.collaborators = c) (ran : s.execute w ids r = .ok e)
      (holds : condition s w r e) : Reached registry c condition first e.world

end Service

end Provisioning
