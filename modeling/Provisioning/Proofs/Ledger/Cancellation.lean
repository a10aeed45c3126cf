import Provisioning.Proofs.Entitlement.Consistency
import Provisioning.Proofs.Ledger.Remains

/-!
# Traces of cancelled runs

A run over the ledger that ends as cancelled leaves entitlements, modules, routes and auth resources
as they were exactly if no stage that it has called leaves a trace
(`Service.cancelled_sameRows_iff`). A change of modules leaves one if undoing it at once does not
bring the same modules back; that is so when an upgrade meets its target.
-/

namespace Provisioning

open Ledger

/-! ## The applications of tasks -/

namespace ApplicationTask

/-- The applications that go. -/
def leaving : ApplicationTask → List Application
  | entitle _ => []
  | revoke a => [a]
  | upgrade old _ => [old]

/-- The applications that come. -/
def arriving : ApplicationTask → List Application
  | entitle a => [a]
  | revoke _ => []
  | upgrade _ a => [a]

variable {c : Capabilities} {t : ApplicationTask} {s : EntitlementStage} {b : Belonging}
  {id : String} {ms : List String}

theorem lastStage_takes (t : ApplicationTask) : t.lastStage.takes = t.leaving.map (·.id) := by
  cases t <;> rfl

theorem lastStage_gives (t : ApplicationTask) : t.lastStage.gives = t.arriving.map (·.id) := by
  cases t <;> rfl

/-- A stage of a task that concerns what belongs to applications concerns those of the task. -/
theorem holders_of_mem (hs : s ∈ t.stages c) (b : Belonging) :
    (s.strips b = t.leaving.map (fun a => (a.id, a.moduleIds)) ∧
        s.equips b = t.arriving.map fun a => (a.id, a.moduleIds)) ∨
      s.strips b = [] ∧ s.equips b = [] := by
  rcases mem_stages hs with h | rfl | rfl | rfl
  · obtain ⟨equips, strips⟩ := EntitlementStage.holders_eq_none h
    exact .inr (by simp [equips, strips, Holders.none])
  · cases b with
    | route => cases t <;> exact .inl ⟨rfl, rfl⟩
    | auth => cases t <;> exact .inr ⟨rfl, rfl⟩
  · cases b with
    | route => cases t <;> exact .inr ⟨rfl, rfl⟩
    | auth => cases t <;> exact .inl ⟨rfl, rfl⟩
  · cases t <;> exact .inr ⟨rfl, rfl⟩

end ApplicationTask

namespace Service

open LoadedRequest

variable {σ : Type} {s : Service σ} {w : σ} {ids : FlowIds} {r : EntitlementRequest}
  {l : LoadedRequest} {plan : FlowPlan} {t t' : ApplicationTask} {a a' : Application}

/-- What goes has been there. -/
theorem Prepared.entitled_of_leaving (prepared : s.Prepared w ids r l plan)
    (ht : FlowPlan.Planned l.input r.type t) (ha : a ∈ t.leaving) : a ∈ l.entitled := by
  cases t with
  | entitle => exact absurd ha List.not_mem_nil
  | revoke b =>
    obtain rfl := List.mem_singleton.mp ha
    exact (prepared.of_planned_revoke ht).1
  | upgrade old b =>
    obtain rfl := List.mem_singleton.mp ha
    exact (installedVersion_eq_ok (of_planned_upgrade ht).2.1).1

/-- The applications of tasks have been looked up. -/
theorem Prepared.looked_up (prepared : s.Prepared w ids r l plan)
    (ht : FlowPlan.Planned l.input r.type t) (ha : a ∈ t.leaving ∨ a ∈ t.arriving) :
    a ∈ l.applications ∨ a ∈ l.entitled := by
  rcases ha with leaves | arrives
  · exact .inr (prepared.entitled_of_leaving ht leaves)
  cases t with
  | entitle b =>
    obtain rfl := List.mem_singleton.mp arrives
    exact .inl (requested_of_newcomer (newcomer_iff.mpr ht))
  | revoke b => exact absurd arrives List.not_mem_nil
  | upgrade old b =>
    obtain rfl := List.mem_singleton.mp arrives
    exact .inl (of_planned_upgrade ht).1

/-- What goes comes only where it goes too. -/
theorem Prepared.leaves_where_arrives (prepared : s.Prepared w ids r l plan)
    (ht : FlowPlan.Planned l.input r.type t) (ht' : FlowPlan.Planned l.input r.type t')
    (leaves : a ∈ t.leaving) (arrives : a ∈ t'.arriving) : a ∈ t'.leaving := by
  have taken : a.id ∈ t.lastStage.takes := by
    rw [ApplicationTask.lastStage_takes]
    exact List.mem_map_of_mem leaves
  cases t' with
  | entitle b =>
    obtain rfl := List.mem_singleton.mp arrives
    have new := newcomer_iff.mpr ht'
    exact absurd taken (prepared.stays new (.inl (requested_of_newcomer new)) rfl ht)
  | revoke b => simp [ApplicationTask.arriving] at arrives
  | upgrade old b =>
    obtain rfl := List.mem_singleton.mp arrives
    by_cases same : old.id = a.id
    · have found := (load_eq_ok prepared.loaded).eq_of_id
        (prepared.looked_up ht' (.inl List.mem_cons_self)) (prepared.looked_up ht (.inl leaves)) same
      exact List.mem_singleton.mpr found.symm
    · exact absurd taken (prepared.comes ht' same ht)

/-- What a called stage does with what belongs to applications, it does with those of a task. -/
theorem Prepared.holders (prepared : s.Prepared w ids r l plan) {x : EntitlementStage × σ}
    (hx : x ∈ s.calls w plan) (b : Belonging) :
    ∃ t, FlowPlan.Planned l.input r.type t ∧
      (∀ h ∈ x.1.strips b, ∃ a ∈ t.leaving, h = (a.id, a.moduleIds)) ∧
      ∀ h ∈ x.1.equips b, (∃ a ∈ t.arriving, h = (a.id, a.moduleIds)) ∧
        ∀ a ∈ t.leaving, (a.id, a.moduleIds) ∈ x.1.strips b := by
  obtain ⟨t, ht, hs⟩ := prepared.mem_calls hx
  refine ⟨t, ht, ?_⟩
  rcases ApplicationTask.holders_of_mem hs b with ⟨strips, equips⟩ | ⟨strips, equips⟩
  · rw [strips, equips]
    refine ⟨fun h hh => ?_, fun h hh => ⟨?_, fun a ha => List.mem_map.mpr ⟨a, ha, rfl⟩⟩⟩
    · obtain ⟨a, ha, rfl⟩ := List.mem_map.mp hh
      exact ⟨a, ha, rfl⟩
    · obtain ⟨a, ha, rfl⟩ := List.mem_map.mp hh
      exact ⟨a, ha, rfl⟩
  · rw [strips, equips]
    exact ⟨fun _ h => absurd h List.not_mem_nil, fun _ h => absurd h List.not_mem_nil⟩

end Service

namespace Service

open LoadedRequest

variable {s : Service Store} {w : Store} {ids : FlowIds} {r : EntitlementRequest}
  {l : LoadedRequest} {plan : FlowPlan}

theorem Prepared.separate (prepared : s.Prepared w ids r l plan) :
    EntitlementStage.Separate (s.calls w plan) := by
  have loaded := load_eq_ok prepared.loaded
  constructor
  · intro x hx y hy b id ms ms' stripped touched
    obtain ⟨t, ht, leaves, -⟩ := prepared.holders hx b
    obtain ⟨u, hu, leaves', arrives⟩ := prepared.holders hy b
    obtain ⟨a, ha, heq⟩ := leaves _ stripped
    obtain ⟨a', ha', heq'⟩ : ∃ a', (a' ∈ u.leaving ∨ a' ∈ u.arriving) ∧
        (id, ms') = (a'.id, a'.moduleIds) := by
      rcases touched with h | h
      · obtain ⟨a', ha', heq'⟩ := leaves' _ h
        exact ⟨a', .inl ha', heq'⟩
      · obtain ⟨⟨a', ha', heq'⟩, -⟩ := arrives _ h
        exact ⟨a', .inr ha', heq'⟩
    rw [Prod.mk.injEq] at heq heq'
    have same := loaded.eq_of_id (prepared.looked_up ht (.inl ha)) (prepared.looked_up hu ha')
      (heq.1.symm.trans heq'.1)
    rw [heq'.2, heq.2, same]
  · intro x hx y hy b id ms ms' stripped equipped
    obtain ⟨t, ht, leaves, -⟩ := prepared.holders hx b
    obtain ⟨u, hu, -, arrives⟩ := prepared.holders hy b
    obtain ⟨a, ha, heq⟩ := leaves _ stripped
    obtain ⟨⟨a', ha', heq'⟩, both⟩ := arrives _ equipped
    rw [Prod.mk.injEq] at heq'
    have same := loaded.eq_of_id (prepared.looked_up ht (.inl ha))
      (prepared.looked_up hu (.inr ha')) ((Prod.mk.inj heq).1.symm.trans heq'.1)
    rw [heq]
    exact both a (prepared.leaves_where_arrives ht hu ha (same ▸ ha'))

/-- What is taken is given only where it is taken too. -/
theorem Prepared.taken_where_given (prepared : s.Prepared w ids r l plan) {id : String}
    {x y : EntitlementStage × Store} (hx : x ∈ s.calls w plan) (hy : y ∈ s.calls w plan)
    (taken : id ∈ x.1.takes) (given : id ∈ y.1.gives) : id ∈ y.1.takes := by
  obtain ⟨t, ht, hs⟩ := prepared.mem_calls hx
  obtain ⟨u, hu, hs'⟩ := prepared.mem_calls hy
  have last := ApplicationTask.lastStage_of_mem hs (.inr (List.ne_nil_of_mem taken))
  have last' := ApplicationTask.lastStage_of_mem hs' (.inl (List.ne_nil_of_mem given))
  rw [last, ApplicationTask.lastStage_takes] at taken
  rw [last', ApplicationTask.lastStage_gives] at given
  rw [last', ApplicationTask.lastStage_takes]
  obtain ⟨a, ha, rfl⟩ := List.mem_map.mp taken
  obtain ⟨a', ha', same⟩ := List.mem_map.mp given
  obtain rfl := (load_eq_ok prepared.loaded).eq_of_id (prepared.looked_up hu (.inr ha'))
    (prepared.looked_up ht (.inl ha)) same
  exact List.mem_map_of_mem (prepared.leaves_where_arrives ht hu ha ha')

end Service

/-! ## Traces -/

/-- Two stores with the same entitlements and the same resources, whatever their times. -/
structure Store.SameRows (s s' : Store) : Prop where
  /-- Each tenant is entitled to the same applications. -/
  entitlements : ∀ tenantId id, s'.isEntitled tenantId id = s.isEntitled tenantId id
  /-- There are the same modules, routes and auth resources. -/
  resources : ∀ x, s'.resources.contains x = s.resources.contains x

/-- A stage that is called for a tenant leaves no trace when everything has been undone in the end.
The call finds the second store in the course of a run that starts from the first one. -/
structure EntitlementStage.Traceless (retry : RetryConfig) (tenantId : String) (first : Store)
    (s : EntitlementStage) (found : Store) : Prop where
  /-- If the stage is undone at once, the modules are those that it has found. -/
  modules : Ledger.modules tenantId (s.tried Ledger.collaborators retry tenantId found)
    = Ledger.modules tenantId found
  /-- An application that it strips had, at first, just what its modules are named after. -/
  strips : ∀ b id ms, (id, ms) ∈ s.strips b → owned tenantId b id first = b.names ms
  /-- Another application that it equips had nothing at first. -/
  equips : ∀ b id ms, (id, ms) ∈ s.equips b → (¬ ∃ ms', (id, ms') ∈ s.strips b) →
    owned tenantId b id first = ∅
  /-- The tenant was not entitled, at first, to an application that it gives for nothing. -/
  gives : ∀ id ∈ s.gives, s.takes = [] → first.isEntitled tenantId id = false

namespace EntitlementStage

variable {retry : RetryConfig} {tenantId : String} {w w' : Store}
  {cs : List (EntitlementStage × Store)}

/-- Each application has what it had exactly if those that are stripped had what their modules are
named after, and others that are equipped had nothing. -/
theorem Undone.owned_iff (undone : Undone Ledger.collaborators retry tenantId w cs w')
    (separate : Separate cs) :
    (∀ b owner, owned tenantId b owner w' = owned tenantId b owner w) ↔ ∀ x ∈ cs,
      (∀ b id ms, (id, ms) ∈ x.1.strips b → owned tenantId b id w = b.names ms) ∧
      ∀ b id ms, (id, ms) ∈ x.1.equips b → (¬ ∃ ms', (id, ms') ∈ x.1.strips b) →
        owned tenantId b id w = ∅ := by
  constructor
  · intro same x hx
    refine ⟨fun b id ms stripped => ?_, fun b id ms equipped alone => ?_⟩
    · rw [← same, undone.owned_stripped b id separate hx stripped]
    · rw [← same, undone.owned_equipped b id ?_ hx equipped]
      rintro y hy ⟨ms', stripped⟩
      exact alone ⟨ms', separate.stripped y hy x hx b id ms' ms stripped equipped⟩
  · intro order b owner
    refine undone.owned_kept b owner separate ?_ ?_
    · exact fun x hx => (order x hx).1 b owner
    · exact fun x hx => (order x hx).2 b owner

end EntitlementStage

namespace Service

variable {s : Service Store} {w : Store} {ids : FlowIds} {r : EntitlementRequest}
  {e : Execution Store}

theorem Loaded.isEntitled {l : LoadedRequest} (loaded : s.Loaded w r l)
    (ledger : s.collaborators = Ledger.collaborators) {a : Application} (ha : a ∈ l.entitled) :
    w.isEntitled r.tenantId a.id := by
  have entitled := (loaded.entitled_iff a.id).mpr ⟨a, ha, rfl⟩
  rwa [Collaborators.Entitled, ledger] at entitled

/-- What has been recorded apart, a run over the ledger ends with the store of its stages. -/
theorem runPlan_rows (ledger : s.collaborators = Ledger.collaborators) (w : Store)
    (plan : FlowPlan) :
    Store.SameTables ((plan.flow.map (·.toStage s.collaborators s.retry)).run w).machine.world
      (s.runPlan w plan).world := by
  rw [runPlan, ledger]
  exact Store.recordAll_rows _ _

/-- A run over the ledger leaves resources that are foreign to its tenant alone. -/
theorem Prepared.foreign {l : LoadedRequest} {plan : FlowPlan} (prepared : s.Prepared w ids r l plan)
    (ledger : s.collaborators = Ledger.collaborators) {x : Resource}
    (foreign : Foreign r.tenantId x) :
    (s.runPlan w plan).world.resources.contains x = w.resources.contains x := by
  rw [(runPlan_rows ledger w plan).2]
  refine prepared.preserves (P := fun u => u.resources.contains x = w.resources.contains x)
    ?_ ?_ rfl
  · intro _ _ stage _ u same
    rw [ledger]
    exact (stage.execute_foreign s.retry u foreign).trans same
  · intro _ _ stage _ result u same
    rw [ledger]
    exact (stage.cancel_foreign s.retry u foreign result).trans same

/-- A run over the ledger with one worker that ends as cancelled leaves everything as it was exactly
if each stage that it has called leaves no trace. With more workers this is not enough: another
application may change modules between a call and its undoing. -/
theorem cancelled_sameRows_iff (ledger : s.collaborators = Ledger.collaborators)
    (distinct : Function.Injective ids.application) (cancels : r.strategy = .cancelOnError)
    (ran : s.execute w ids r = .ok e) (cancelled : e.report.status = .cancelled) :
    ∃ plan, s.prepare w ids r = .ok plan ∧ (w.SameRows e.world ↔
      ∀ x ∈ s.calls w plan, x.1.Traceless s.retry r.tenantId w x.2) := by
  obtain ⟨l, plan, prepared, rfl⟩ := execute_eq_ok ran
  refine ⟨plan, prepare_eq_ok prepared, ?_⟩
  have keeps : s.collaborators.KeepsEntitlements := ledger ▸ Ledger.keepsEntitlements
  have rows := runPlan_rows ledger w plan
  have undone := prepared.undone distinct cancels cancelled
  generalize ((plan.flow.map (·.toStage s.collaborators s.retry)).run w).machine.world = last
    at rows undone
  have store (u : Store) (t id : String) :
      s.collaborators.Entitled u t id ↔ u.isEntitled t id := by
    rw [Collaborators.Entitled, ledger]
    rfl
  have entitled (id : String) : last.isEntitled r.tenantId id = w.isEntitled r.tenantId id ↔
      ∀ x ∈ s.calls w plan, id ∈ x.1.gives → x.1.takes = [] →
        w.isEntitled r.tenantId id = false := by
    have taken : ∀ x ∈ s.calls w plan, ∀ y ∈ s.calls w plan,
        id ∈ x.1.takes → id ∈ y.1.gives → id ∈ y.1.takes :=
      fun x hx y hy => prepared.taken_where_given hx hy
    have known := undone.entitled_iff keeps taken
    simp only [store, Bool.not_eq_true] at known
    rw [Bool.eq_iff_iff]
    exact known
  have others {t : String} (other : t ≠ r.tenantId) (id : String) :
      last.isEntitled t id = w.isEntitled t id := by
    have known := prepared.others keeps other id
    rw [store, store, Store.isEntitled, rows.1] at known
    exact Bool.eq_iff_iff.mpr known
  rw [ledger] at undone
  have modules := undone.fewer_modules.2
  have owned := undone.owned_iff prepared.separate
  have resources := undone.resources_iff
  constructor
  · intro same
    obtain ⟨sameModules, sameOwned⟩ := resources.mp fun x => by
      rw [← same.resources, rows.2]
    intro x hx
    obtain ⟨strips, equips⟩ := owned.mp sameOwned x hx
    refine ⟨modules.mp sameModules x hx, strips, equips, fun id given free => ?_⟩
    refine (entitled id).mp ?_ x hx given free
    rw [← same.entitlements, Store.isEntitled, Store.isEntitled, rows.1]
  · intro traceless
    have sameResources := resources.mpr ⟨modules.mpr fun x hx => (traceless x hx).modules,
      owned.mpr fun x hx => ⟨(traceless x hx).strips, (traceless x hx).equips⟩⟩
    refine ⟨fun t id => ?_, fun x => by rw [rows.2, sameResources]⟩
    have kept : last.isEntitled t id = w.isEntitled t id := by
      by_cases ht : t = r.tenantId
      · rw [ht]
        exact (entitled id).mpr fun x hx => (traceless x hx).gives id
      · exact others ht id
    rw [← kept, Store.isEntitled, Store.isEntitled, rows.1]

/-! ## A module that is overwritten -/

/-- A version of an application with modules. -/
def bundle (name version : String) (moduleIds : List String) : Application :=
  { name, version, modules := moduleIds.map fun id => { id } }

/-- An installation in which a later version of one application has the modules of another one. -/
def sharing : Service Store :=
  { registry := .ofList [bundle "a" "1.0.0" ["m-1.0.0"], bundle "a" "2.0.0" ["m-2.0.0", "n-1.0.0"],
      bundle "b" "1.0.0" ["m-2.0.0", "n-1.0.0"]]
    capabilities := {}
    retry := .noRetry
    collaborators := Ledger.collaborators }

/-- Identifiers that consist of a name and a number. -/
def named (name : String) : FlowIds := { root := name, application := fun i => s!"{name}-{i}" }

theorem named_injective (name : String) : Function.Injective (named name).application := by
  intro i j same
  have lists := congrArg String.toList same
  have digits : Nat.toDigits 10 i = Nat.toDigits 10 j := by
    simpa [named, toString] using lists
  have numbers := congrArg (Nat.ofDigitChars 10 · 0) digits
  simpa [Nat.ofDigitChars_ten_toDigits] using numbers

/-- What the tenant gets first. -/
def installed : List Application :=
  [bundle "a" "1.0.0" ["m-1.0.0"], bundle "b" "1.0.0" ["m-2.0.0", "n-1.0.0"]]

/-- The run that gives it to the tenant. -/
def installing : Option (Execution Store) :=
  (FlowPlan.make sharing.capabilities (named "first") (requesting .entitle ["a-1.0.0", "b-1.0.0"])
    (loading [] installed).input).toOption.map (sharing.runPlan .empty)

/-- The store after that run. -/
def shared : Store := (installing.map (·.world)).getD .empty

theorem shared_reached :
    Reached sharing.registry Ledger.collaborators (fun _ _ _ _ => True) .empty shared := by
  have loaded : sharing.load .empty (requesting .entitle ["a-1.0.0", "b-1.0.0"])
      = .ok (loading [] installed) := rfl
  have valid := ValidationContext.validate_of_free ((loading [] installed).context .entitle)
    (by decide) rfl (by decide) rfl rfl
  have runs : installing.isSome := by decide +kernel
  obtain ⟨e, he⟩ := Option.isSome_iff_exists.mp runs
  have made : installing.map (·.world) = some shared := by
    rw [shared, he]
    rfl
  rw [installing, Option.map_map] at made
  obtain ⟨e, ran, world⟩ := execute_of_made (named "first") loaded valid made
  rw [← world]
  exact .run .first rfl rfl ran trivial

/-- The upgrade puts one module in the place of another one although the tenant has it, fails at the
next one, which the tenant has too, and takes the first one away when it is undone. -/
theorem overwriting_run :
    ∃ e, sharing.execute shared (named "second") (requesting .upgrade ["a-2.0.0"]) = .ok e ∧
      e.report.status = .cancelled ∧
      e.world.resources.contains (moduleResource "t" "m-2.0.0") = false := by
  have entitled : (sharing.collaborators.store shared).entitledIds
      (requesting .upgrade ["a-2.0.0"]).tenantId = ["a-1.0.0", "b-1.0.0"] := by decide +kernel
  have loaded : sharing.load shared (requesting .upgrade ["a-2.0.0"])
      = .ok (loading installed [bundle "a" "2.0.0" ["m-2.0.0", "n-1.0.0"]]) := by
    unfold load
    rw [entitled]
    rfl
  have valid := ValidationContext.validate_of_free
    ((loading installed [bundle "a" "2.0.0" ["m-2.0.0", "n-1.0.0"]]).context .upgrade)
    (by decide) rfl (by decide) rfl rfl
  obtain ⟨e, ran, shows⟩ := execute_of_made (named "second") loaded valid
    (f := fun e => (e.report.status, e.world.resources.contains (moduleResource "t" "m-2.0.0")))
    (b := (.cancelled, false)) (by decide +kernel)
  obtain ⟨cancelled, gone⟩ := Prod.mk.inj shows
  exact ⟨e, ran, cancelled, gone⟩

/-- The stages of that run leave a trace. -/
theorem cancelled_sameRows_overwriting :
    ∃ e plan, sharing.execute shared (named "second") (requesting .upgrade ["a-2.0.0"]) = .ok e ∧
      sharing.prepare shared (named "second") (requesting .upgrade ["a-2.0.0"]) = .ok plan ∧
      (shared.SameRows e.world ↔
        ∀ x ∈ sharing.calls shared plan, x.1.Traceless .noRetry "t" shared x.2) := by
  obtain ⟨e, ran, cancelled, -⟩ := overwriting_run
  obtain ⟨plan, prepared, traceless⟩ :=
    cancelled_sameRows_iff rfl (named_injective "second") rfl ran cancelled
  exact ⟨e, plan, ran, prepared, traceless⟩

/-- A cancelled run takes a module away that the tenant had before. -/
theorem cancelled_overwriting :
    ∃ w e, Reached sharing.registry Ledger.collaborators (fun _ _ _ _ => True) .empty w ∧
      sharing.execute w (named "second") (requesting .upgrade ["a-2.0.0"]) = .ok e ∧
      (requesting .upgrade ["a-2.0.0"]).strategy = .cancelOnError ∧
      e.report.status = .cancelled ∧ ¬ w.SameRows e.world := by
  obtain ⟨e, ran, cancelled, gone⟩ := overwriting_run
  refine ⟨shared, e, shared_reached, ran, rfl, cancelled, fun same => ?_⟩
  have there : shared.resources.contains (moduleResource "t" "m-2.0.0") := by decide +kernel
  rw [← same.resources, gone] at there
  exact absurd there (by decide)

end Service

end Provisioning
