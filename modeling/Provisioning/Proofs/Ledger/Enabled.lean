import Provisioning.Proofs.Ledger.InStep
import Provisioning.Proofs.Ledger.Sparing

/-!
# Enabled modules and entitlements

A tenant has the modules of the applications that it is entitled to. Runs keep that up if they
overwrite no module, and if versions that take each other's place pair their modules by name
(`Service.reached_enabled`).
-/

namespace Provisioning

open Ledger

/-- Lists with the same members give the same, whatever the members that give nothing. -/
theorem flatMap_perm {α β : Type} [DecidableEq α] [DecidableEq β] {f : α → List β} {l l' : List α}
    (counts : ∀ a, f a ≠ [] → l.count a = l'.count a) : (l.flatMap f).Perm (l'.flatMap f) := by
  have some (l : List α) : (l.filter fun a => f a ≠ []).flatMap f = l.flatMap f := by
    induction l with
    | nil => rfl
    | cons a rest ih =>
      by_cases empty : f a = [] <;> simp_all
  rw [← some l, ← some l']
  refine List.Perm.flatMap_right f (List.perm_iff_count.mpr fun a => ?_)
  by_cases empty : f a = []
  · rw [List.count_eq_zero_of_not_mem, List.count_eq_zero_of_not_mem] <;> simp [empty]
  · rw [List.count_filter (by simp [empty]), List.count_filter (by simp [empty])]
    exact counts a empty

/-- The modules of the application that a registry knows by an identifier. -/
def Registry.bundledIds (registry : Registry) (id : String) : List String :=
  match registry.known? id with
  | some a => a.bundledIds
  | none => []

theorem Registry.bundledIds_eq {registry : Registry} {a : Application}
    (known : registry.known? a.id = some a) : registry.bundledIds a.id = a.bundledIds := by
  rw [bundledIds, known]

theorem Registry.mem_bundledIds {registry : Registry} {id x : String} :
    x ∈ registry.bundledIds id ↔
      ∃ a, registry.known? id = some a ∧ x ∈ a.allModules.map (·.id) := by
  unfold bundledIds
  cases registry.known? id with
  | some a => simp [Application.mem_bundledIds]
  | none => simp

namespace Ledger

variable {registry : Registry} {tenantId id x : String} {s s' : Store}

/-- The modules of the applications that a tenant is entitled to. -/
def held (registry : Registry) (tenantId : String) (s : Store) : List String :=
  (s.entitledIds tenantId).flatMap registry.bundledIds

/-- A tenant has the modules of the applications that it is entitled to, and no two of those
applications have a module in common. -/
def Settled (registry : Registry) (tenantId : String) (s : Store) : Prop :=
  ModuleChange.Listed (modules tenantId s) (held registry tenantId s)

theorem mem_held :
    x ∈ held registry tenantId s ↔ ∃ id, s.isEntitled tenantId id ∧ x ∈ registry.bundledIds id := by
  simp only [held, List.mem_flatMap, Store.mem_entitledIds]

theorem count_entitledIds (s : Store) (tenantId id : String) :
    (s.entitledIds tenantId).count id = if s.isEntitled tenantId id then 1 else 0 := by
  rw [(s.entitledIds_nodup tenantId).count]
  simp only [Store.mem_entitledIds]

/-- The modules count, and the entitlements to applications that have modules. -/
theorem Settled.congr (settled : Settled registry tenantId s)
    (same : modules tenantId s' = modules tenantId s)
    (entitled : ∀ id, registry.bundledIds id ≠ [] →
      (s'.isEntitled tenantId id ↔ s.isEntitled tenantId id)) : Settled registry tenantId s' := by
  have perm : (held registry tenantId s).Perm (held registry tenantId s') := by
    refine flatMap_perm fun id some => ?_
    rw [count_entitledIds, count_entitledIds]
    simp only [entitled id some]
  rw [Settled, same]
  exact ModuleChange.Listed.perm settled perm

/-- Only one of the applications has a module. -/
theorem Settled.single (settled : Settled registry tenantId s) {id' : String}
    (there : s.isEntitled tenantId id) (there' : s.isEntitled tenantId id')
    (has : x ∈ registry.bundledIds id) (has' : x ∈ registry.bundledIds id') : id = id' := by
  by_contra other
  have apart := (List.nodup_flatMap.mp settled.nodup).2
  have symm : Std.Symm (Function.onFun List.Disjoint registry.bundledIds) := ⟨fun _ _ h => h.symm⟩
  exact apart.forall (Store.mem_entitledIds.mpr there) (Store.mem_entitledIds.mpr there') other
    has has'

/-- The resources that are modules have the form in which the ledger writes them. -/
def ModulesOnly (s : Store) : Prop :=
  ∀ x, s.resources.contains x → x.kind = moduleKind → x = moduleResource x.tenantId x.name

theorem mem_installedModules (only : ModulesOnly s) :
    id ∈ collaborators.installedModules tenantId s ↔ id ∈ modules tenantId s := by
  show id ∈ s.resourceNames tenantId moduleKind none ↔ s.resources.contains _
  rw [Store.resourceNames, List.mem_map]
  constructor
  · rintro ⟨x, hx, rfl⟩
    have selected := List.mem_filter.mp hx
    have there := OrderedSet.contains_iff_mem.mpr selected.1
    obtain ⟨rfl, kind⟩ : x.tenantId = tenantId ∧ x.kind = moduleKind := by
      simpa using selected.2
    rwa [← only x there kind]
  · intro there
    refine ⟨moduleResource tenantId id, List.mem_filter.mpr ⟨?_, ?_⟩, rfl⟩
    · exact OrderedSet.contains_iff_mem.mp there
    · simp [moduleResource]

end Ledger

namespace EntitlementStage

variable {c : Capabilities} {t : ApplicationTask} {retry : RetryConfig} {registry : Registry}
  {tenantId : String} {w w' : Store}

/-- When a task is done and overwrites nothing, there are the modules that were there and those of
what comes, but for those of what goes. -/
theorem Succeed.moved {work : ApplicationWork} (can : t.work c = .ok work)
    (succeed : Succeed Ledger.collaborators retry tenantId (t.stages c) w w') (pairs : t.Pairs)
    (spares : ∀ y ∈ trail Ledger.collaborators retry tenantId (t.stages c) w,
      y.1.Spares tenantId y.2)
    (known : ∀ a, a ∈ t.leaving ∨ a ∈ t.arriving → registry.known? a.id = some a)
    (settled : Settled registry tenantId w) :
    ∃ L, ModuleChange.Listed (modules tenantId w') L ∧
      ∀ x, L.count x + (t.lastStage.takes.flatMap registry.bundledIds).count x
        = (held registry tenantId w).count x
          + (t.lastStage.gives.flatMap registry.bundledIds).count x := by
  obtain ⟨L, listed, counts⟩ := succeed.listed spares settled
  have going : t.lastStage.takes.flatMap registry.bundledIds
      = t.leaving.flatMap (·.bundledIds) := by
    rw [t.lastStage_takes, List.flatMap_map]
    exact List.flatMap_congr fun a ha => Registry.bundledIds_eq (known a (.inl ha))
  have coming : t.lastStage.gives.flatMap registry.bundledIds
      = t.arriving.flatMap (·.bundledIds) := by
    rw [t.lastStage_gives, List.flatMap_map]
    exact List.flatMap_congr fun a ha => Registry.bundledIds_eq (known a (.inr ha))
  refine ⟨L, listed, fun x => ?_⟩
  have counts := counts x
  have balanced := t.balanced can pairs x
  rw [ApplicationTask.changes] at balanced
  rw [going, coming]
  omega

/-- What a task gives has been there only if the task takes it, or if it has no modules. -/
theorem Succeed.taken_of_moved {work : ApplicationWork} (can : t.work c = .ok work)
    (succeed : Succeed Ledger.collaborators retry tenantId (t.stages c) w w') {L : List String}
    (nodup : L.Nodup)
    (moved : ∀ x, L.count x + (t.lastStage.takes.flatMap registry.bundledIds).count x
      = (held registry tenantId w).count x
        + (t.lastStage.gives.flatMap registry.bundledIds).count x)
    {id : String} (some : registry.bundledIds id ≠ []) (given : id ∈ t.lastStage.gives)
    (there : w.isEntitled tenantId id) : id ∈ t.lastStage.takes := by
  by_cases free : t.lastStage.takes = []
  · -- Its modules would be there twice.
    obtain ⟨x, hx⟩ := List.exists_mem_of_ne_nil _ some
    have counts := moved x
    rw [free, List.flatMap_nil, List.count_nil] at counts
    have once := List.nodup_iff_count_le_one.mp nodup x
    have before := List.count_pos_iff.mpr (mem_held.mpr ⟨id, there, hx⟩)
    have after := List.count_pos_iff.mpr (List.mem_flatMap.mpr ⟨id, given, hx⟩)
    omega
  · obtain ⟨y, hy⟩ := List.exists_mem_of_ne_nil _ free
    rcases (succeed.needed Ledger.keepsEntitlements can y hy).2 id given with rfl | absent
    · exact hy
    · exact absurd there absent

/-- The modules of the entitlements after a task are those of the entitlements before it, with what
the task gives and without what it takes. -/
theorem Succeed.held_perm {work : ApplicationWork} (can : t.work c = .ok work)
    (succeed : Succeed Ledger.collaborators retry tenantId (t.stages c) w w')
    (new : ∀ id, registry.bundledIds id ≠ [] → id ∈ t.lastStage.gives →
      w.isEntitled tenantId id → id ∈ t.lastStage.takes) :
    (held registry tenantId w' ++ t.lastStage.takes.flatMap registry.bundledIds).Perm
      (held registry tenantId w ++ t.lastStage.gives.flatMap registry.bundledIds) := by
  rw [held, held, ← List.flatMap_append, ← List.flatMap_append]
  refine flatMap_perm fun id some => ?_
  have takes : t.lastStage.takes.Nodup := by cases t <;> simp [ApplicationTask.lastStage, takes]
  have gives : t.lastStage.gives.Nodup := by cases t <;> simp [ApplicationTask.lastStage, gives]
  have entitled := succeed.isEntitled_iff can id
  have there (taken : id ∈ t.lastStage.takes) : w.isEntitled tenantId id :=
    (succeed.needed Ledger.keepsEntitlements can id taken).1
  have new := new id some
  rw [List.count_append, List.count_append, count_entitledIds, count_entitledIds, takes.count,
    gives.count]
  by_cases before : w.isEntitled tenantId id <;> by_cases taken : id ∈ t.lastStage.takes <;>
    by_cases given : id ∈ t.lastStage.gives <;> simp_all

/-- A task that is done, and overwrites nothing, leaves a tenant with the modules of its
applications. -/
theorem Succeed.settled {work : ApplicationWork} (can : t.work c = .ok work)
    (succeed : Succeed Ledger.collaborators retry tenantId (t.stages c) w w') (pairs : t.Pairs)
    (spares : ∀ y ∈ trail Ledger.collaborators retry tenantId (t.stages c) w,
      y.1.Spares tenantId y.2)
    (known : ∀ a, a ∈ t.leaving ∨ a ∈ t.arriving → registry.known? a.id = some a)
    (settled : Settled registry tenantId w) : Settled registry tenantId w' := by
  obtain ⟨L, listed, moved⟩ := succeed.moved can pairs spares known settled
  have exchanged := succeed.held_perm can fun id => succeed.taken_of_moved can listed.nodup moved
  refine ModuleChange.Listed.perm listed (List.perm_iff_count.mpr fun x => ?_)
  have counts := exchanged.count_eq x
  have moved := moved x
  rw [List.count_append, List.count_append] at counts
  omega

/-- So do tasks that are done one after another. -/
theorem Succeed.settled_tasks {tasks : List ApplicationTask}
    (can : ∀ t ∈ tasks, ∃ work, t.work c = .ok work) (pairs : ∀ t ∈ tasks, t.Pairs)
    (known : ∀ t ∈ tasks, ∀ a, a ∈ t.leaving ∨ a ∈ t.arriving → registry.known? a.id = some a)
    (succeed : Succeed Ledger.collaborators retry tenantId (tasks.flatMap (·.stages c)) w w')
    (spares : ∀ y ∈ trail Ledger.collaborators retry tenantId (tasks.flatMap (·.stages c)) w,
      y.1.Spares tenantId y.2)
    (settled : Settled registry tenantId w) : Settled registry tenantId w' := by
  induction tasks generalizing w with
  | nil =>
    cases succeed
    exact settled
  | cons t rest ih =>
    rw [List.forall_mem_cons] at can pairs known
    obtain ⟨work, hwork⟩ := can.1
    rw [List.flatMap_cons] at succeed spares
    obtain ⟨w₁, first, later, calls⟩ := succeed.of_append
    rw [calls, List.forall_mem_append] at spares
    exact ih can.2 pairs.2 known.2 later spares.2
      (first.settled hwork pairs.1 spares.1 known.1 settled)

end EntitlementStage

/-! ## Runs -/

namespace Service

open LoadedRequest

variable {s : Service Store} {w : Store} {ids : FlowIds} {r : EntitlementRequest}
  {l : LoadedRequest} {plan : FlowPlan}

/-- A stage that is called disables only modules of what goes. -/
theorem Prepared.disables_leaving (prepared : s.Prepared w ids r l plan)
    {y : EntitlementStage × Store} (hy : y ∈ s.calls w plan) {x : String}
    (disabled : x ∈ y.1.changes.flatMap (·.disables)) :
    ∃ t, FlowPlan.Planned l.input r.type t ∧ ∃ a ∈ t.leaving, x ∈ a.bundledIds := by
  obtain ⟨going, coming, tasks, built⟩ := prepared.built
  obtain ⟨t, ht, hs⟩ := prepared.mem_calls hy
  obtain ⟨work, can⟩ := built.works t ((built.planned t).mpr ht)
  refine ⟨t, ht, t.disables_leaving can ?_⟩
  rw [ApplicationTask.changes, List.flatMap_assoc]
  exact List.mem_flatMap.mpr ⟨y.1, hs, disabled⟩

/-- What a cancelled run has given for nothing has no modules, or was not there before. -/
theorem Prepared.new_of_spares (prepared : s.Prepared w ids r l plan)
    (ledger : s.collaborators = Ledger.collaborators) {last : Store}
    (undone : EntitlementStage.Undone Ledger.collaborators s.retry r.tenantId w (s.calls w plan)
      last)
    (spares : ∀ x ∈ s.calls w plan, x.1.Spares r.tenantId x.2)
    (settled : Settled s.registry r.tenantId w) {x : EntitlementStage × Store}
    (hx : x ∈ s.calls w plan) {id : String} (given : id ∈ x.1.gives) (free : x.1.takes = [])
    (some : s.registry.bundledIds id ≠ []) : ¬ w.isEntitled r.tenantId id := by
  intro there
  have loaded := load_eq_ok prepared.loaded
  obtain ⟨t, ht, ⟨work, can⟩, last, called⟩ :=
    prepared.last_called hx (EntitlementStage.changesEntitlement_of_gives given)
  rw [last, t.lastStage_gives] at given
  rw [last, t.lastStage_takes, List.map_eq_nil_iff] at free
  obtain ⟨a, ha, rfl⟩ := List.mem_map.mp given
  have known := loaded.known (prepared.looked_up ht (.inr ha))
  obtain ⟨m, hm⟩ := List.exists_mem_of_ne_nil _ some
  -- A stage of the task has enabled a module of the application.
  obtain ⟨stage, hs, other, enabled⟩ :=
    t.enabled_of_arriving can free ha (Registry.bundledIds_eq known ▸ hm)
  obtain ⟨u, hu, succeeds⟩ := called stage hs other
  rw [ledger] at succeeds
  -- But the module was there, and nothing has disabled it.
  have held := (settled.mem_iff m).mpr (mem_held.mpr ⟨a.id, there, hm⟩)
  refine undone.kept spares held (fun y hy disabled => ?_) _ hu succeeds enabled
  obtain ⟨t', ht', a', ha', hm'⟩ := prepared.disables_leaving hy disabled
  have there' := loaded.isEntitled ledger (prepared.entitled_of_leaving ht' ha')
  have known' := loaded.known (prepared.looked_up ht' (.inl ha'))
  rw [← Registry.bundledIds_eq known'] at hm'
  have same := settled.single there there' hm hm'
  rw [same, known'] at known
  obtain rfl := Option.some.inj known
  have leaves := prepared.leaves_where_arrives ht' ht ha' ha
  rw [free] at leaves
  exact List.not_mem_nil leaves

/-- A run that is cancelled, and has overwritten nothing, leaves the tenant with the modules of its
applications. -/
theorem Prepared.settled_of_cancelled (prepared : s.Prepared w ids r l plan)
    (ledger : s.collaborators = Ledger.collaborators)
    (distinct : Function.Injective ids.application)
    (cancelled : (s.runPlan w plan).report.status = .cancelled)
    (spares : ∀ x ∈ s.calls w plan, x.1.Spares r.tenantId x.2)
    (settled : Settled s.registry r.tenantId w) :
    Settled s.registry r.tenantId
      ((plan.flow.map (·.toStage s.collaborators s.retry)).run w).machine.world := by
  have cancels : r.strategy = .cancelOnError := by
    obtain ⟨going, coming, tasks, built⟩ := prepared.built
    have strategy := Flow.cancels_of_cancelled cancelled
    rw [show (plan.flow.map (·.toStage s.collaborators s.retry)).header = plan.flow.header from rfl,
      built.header] at strategy
    exact strategy
  have undone := prepared.undone distinct cancels cancelled
  generalize ((plan.flow.map (·.toStage s.collaborators s.retry)).run w).machine.world = last
    at undone
  rw [ledger] at undone
  refine settled.congr (undone.same_modules spares) fun id some => ?_
  have taken : ∀ x ∈ s.calls w plan, ∀ y ∈ s.calls w plan,
      id ∈ x.1.takes → id ∈ y.1.gives → id ∈ y.1.takes :=
    fun x hx y hy => prepared.taken_where_given hx hy
  exact (undone.entitled_iff Ledger.keepsEntitlements taken).mpr fun y hy given free =>
    prepared.new_of_spares ledger undone spares settled hy given free some

/-- A run that finishes, and has overwritten nothing, leaves the tenant with the modules of its
applications if its upgrades pair modules by name. -/
theorem Prepared.settled_of_finished (prepared : s.Prepared w ids r l plan)
    (ledger : s.collaborators = Ledger.collaborators)
    (finished : (s.runPlan w plan).report.status = .finished)
    (spares : ∀ x ∈ s.calls w plan, x.1.Spares r.tenantId x.2)
    (pairs : ∀ t, FlowPlan.Planned l.input r.type t → t.Pairs)
    (settled : Settled s.registry r.tenantId w) :
    Settled s.registry r.tenantId
      ((plan.flow.map (·.toStage s.collaborators s.retry)).run w).machine.world := by
  obtain ⟨going, coming, tasks, built, succeed⟩ := prepared.succeeds finished
  rw [calls_eq built finished] at spares
  generalize ((plan.flow.map (·.toStage s.collaborators s.retry)).run w).machine.world = last
    at succeed
  rw [ledger] at succeed spares
  have loaded := load_eq_ok prepared.loaded
  refine succeed.settled_tasks built.works (fun t ht => pairs t ((built.planned t).mp ht)) ?_ spares
    settled
  exact fun t ht a ha => loaded.known (prepared.looked_up ((built.planned t).mp ht) ha)

/-- A run that finishes or is cancelled, overwrites no module with any stage that it calls, and, if
it finishes, pairs modules by name where versions take each other's place. -/
structure Sparing (s : Service Store) (w : Store) (r : EntitlementRequest) (e : Execution Store) :
    Prop where
  /-- The run is done, or undone. -/
  ended : e.report.status = .finished ∨ e.report.status = .cancelled
  /-- No stage overwrites a module, and modules are paired by name. -/
  spares : ∃ (ids : FlowIds) (l : LoadedRequest) (plan : FlowPlan),
    Function.Injective ids.application ∧ s.Prepared w ids r l plan ∧ e = s.runPlan w plan ∧
    (∀ x ∈ s.calls w plan, x.1.Spares r.tenantId x.2) ∧
    (e.report.status = .finished → ∀ t, FlowPlan.Planned l.input r.type t → t.Pairs)

/-- A run that spares modules leaves each tenant with the modules of its applications. -/
theorem Sparing.settled {e : Execution Store} (sparing : Sparing s w r e)
    (ledger : s.collaborators = Ledger.collaborators) {tenantId : String}
    (settled : Settled s.registry tenantId w) : Settled s.registry tenantId e.world := by
  obtain ⟨ids, l, plan, distinct, prepared, rfl, spares, pairs⟩ := sparing.spares
  by_cases own : tenantId = r.tenantId
  · subst own
    have rows := runPlan_rows ledger w plan
    have last : Settled s.registry r.tenantId
        ((plan.flow.map (·.toStage s.collaborators s.retry)).run w).machine.world := by
      rcases sparing.ended with finished | cancelled
      · exact prepared.settled_of_finished ledger finished spares (pairs finished) settled
      · exact prepared.settled_of_cancelled ledger distinct cancelled spares settled
    refine last.congr ?_ fun id _ => ?_
    · simp only [modules, rows.2]
    · rw [Store.isEntitled, Store.isEntitled, rows.1]
  · have keeps : s.collaborators.KeepsEntitlements := ledger ▸ Ledger.keepsEntitlements
    refine settled.congr ?_ fun id _ => ?_
    · ext x
      exact iff_of_eq (congrArg (· = true)
        (prepared.foreign ledger (x := moduleResource tenantId x) (.of_tenant own)))
    · have entitled := prepared.others keeps own id
      rwa [Collaborators.Entitled, Collaborators.Entitled, ledger] at entitled

/-! ## One run after another -/

variable {registry : Registry} {tenantId id : String}

/-- Runs over the ledger write modules in one form only. -/
theorem reached_modulesOnly
    {condition : Service Store → Store → EntitlementRequest → Execution Store → Prop}
    (reached : Reached registry Ledger.collaborators condition .empty w) : ModulesOnly w := by
  induction reached with
  | first => simp [ModulesOnly, Store.empty, OrderedSet.contains_empty]
  | @run s w ids r e _ _ ledger ran _ ih =>
    obtain ⟨l, plan, prepared, rfl⟩ := execute_eq_ok ran
    intro x there kind
    by_contra other
    have foreign : Foreign r.tenantId x := by
      refine .of_kind kind fun id heq => other ?_
      rw [heq]
      rfl
    rw [prepared.foreign ledger foreign] at there
    exact other (ih x there kind)

/-- Runs that spare modules lead from an empty store only to stores in which each tenant has the
modules of its applications. -/
theorem reached_settled (reached : Reached registry Ledger.collaborators Sparing .empty w)
    (tenantId : String) : Settled registry tenantId w := by
  induction reached with
  | first => exact ⟨.nil, fun x => by simp [modules, held, Store.empty, Store.entitledIds,
      Store.entitlementsOf, OrderedMap.empty, OrderedSet.contains_empty]⟩
  | run _ known ledger _ sparing ih =>
    subst known
    exact sparing.settled ledger ih

/-- In the stores that such runs lead to, with one worker, the modules that the ledger lists for a
tenant are those of the applications that the tenant is entitled to. -/
theorem reached_enabled (reached : Reached registry Ledger.collaborators Sparing .empty w)
    (tenantId id : String) : id ∈ Ledger.collaborators.installedModules tenantId w ↔
      ∃ a, registry.known? a.id = some a ∧ w.isEntitled tenantId a.id ∧
        id ∈ a.allModules.map (·.id) := by
  rw [mem_installedModules (reached_modulesOnly reached),
    (reached_settled reached tenantId).mem_iff, mem_held]
  constructor
  · rintro ⟨applicationId, there, bundled⟩
    obtain ⟨a, known, has⟩ := Registry.mem_bundledIds.mp bundled
    obtain rfl := Registry.known?_id known
    exact ⟨a, known, there, has⟩
  · rintro ⟨a, known, there, has⟩
    exact ⟨a.id, there, Registry.mem_bundledIds.mpr ⟨a, known, has⟩⟩

/-- A request that has been looked up is carried out, spares modules, and leads to a good store. -/
theorem Reached.sparing (name : String) (good : Store → Bool)
    (reached : Reached s.registry Ledger.collaborators Sparing .empty w)
    (ledger : s.collaborators = Ledger.collaborators) (loaded : s.load w r = .ok l)
    (valid : (l.context r.type).validate = .ok ())
    (pairs : ∀ t, FlowPlan.Planned l.input r.type t → t.Pairs)
    (runs : (FlowPlan.make s.capabilities (named name) r l.input).toOption.any fun plan =>
      decide ((s.runPlan w plan).report.status = .finished ∧
        (∀ x ∈ s.calls w plan, x.1.Spares r.tenantId x.2) ∧ good (s.runPlan w plan).world)) :
    Reached s.registry Ledger.collaborators Sparing .empty (s.worldAfter (named name) r l w) ∧
      good (s.worldAfter (named name) r l w) := by
  obtain ⟨plan, prepared, holds⟩ := prepared_of_made loaded valid runs
  obtain ⟨finished, spares, holds⟩ := of_decide_eq_true holds
  rw [prepared.worldAfter_eq]
  refine ⟨.run reached rfl ledger (execute_of_prepared prepared) ⟨.inl finished, ?_⟩, holds⟩
  exact ⟨named name, l, plan, named_injective name, prepared, rfl, spares, fun _ => pairs⟩

/-- A version of an application with two modules. -/
def firstEdition : Application := bundle "a" "1.0.0" ["m-1.0.0", "k-1.0.0"]

/-- The next version, in which one module is replaced, one is dropped and one is new. -/
def secondEdition : Application := bundle "a" "2.0.0" ["m-2.0.0", "n-1.0.0"]

/-- An installation that knows both. -/
def publishing : Service Store :=
  { registry := .ofList [firstEdition, secondEdition]
    capabilities := {}
    retry := .noRetry
    collaborators := Ledger.collaborators }

/-- The store after a tenant has been entitled to the first one. -/
def published : Store :=
  publishing.worldAfter (named "first") (requesting .entitle ["a-1.0.0"])
    (loading [] [firstEdition]) .empty

/-- The store after an upgrade to the second one. -/
def republished : Store :=
  publishing.worldAfter (named "second") (requesting .upgrade ["a-2.0.0"])
    (loading [firstEdition] [secondEdition]) published

theorem republished_reached :
    Reached publishing.registry Ledger.collaborators Sparing .empty republished ∧
      tenantHas ["a-2.0.0"] republished := by
  have loaded : publishing.load .empty (requesting .entitle ["a-1.0.0"])
      = .ok (loading [] [firstEdition]) := rfl
  have valid := ValidationContext.validate_of_free ((loading [] [firstEdition]).context .entitle)
    (by decide) rfl (by decide) rfl rfl
  have pairs : ∀ t, FlowPlan.Planned (loading [] [firstEdition]).input .entitle t → t.Pairs := by
    intro t ht
    cases ht
    trivial
  obtain ⟨reached, first⟩ := Reached.sparing "first" (tenantHas ["a-1.0.0"]) .first rfl loaded
    valid pairs (by decide +kernel)
  have entitled : (publishing.collaborators.store published).entitledIds
      (requesting .upgrade ["a-2.0.0"]).tenantId = ["a-1.0.0"] := beq_iff_eq.mp first
  have loaded' : publishing.load published (requesting .upgrade ["a-2.0.0"])
      = .ok (loading [firstEdition] [secondEdition]) := by
    unfold load
    rw [entitled]
    rfl
  have valid' := ValidationContext.validate_of_free
    ((loading [firstEdition] [secondEdition]).context .upgrade) (by decide) rfl (by decide) rfl rfl
  have pairs' : ∀ t, FlowPlan.Planned (loading [firstEdition] [secondEdition]).input .upgrade t →
      t.Pairs := by
    intro t ht
    cases ht with
    | upgrade requested installed =>
      obtain rfl := List.mem_singleton.mp requested
      obtain rfl := Except.ok.inj installed
      intro kind
      cases kind <;> exact ⟨by decide +kernel, by decide +kernel⟩
  exact Reached.sparing "second" (tenantHas ["a-2.0.0"]) reached rfl loaded' valid' pairs'
    (by decide +kernel)

/-- After the upgrade the tenant has the modules of the second version. -/
theorem reached_enabled_republished : ∃ w : Store,
    Reached publishing.registry Ledger.collaborators Sparing .empty w ∧
    w.isEntitled "t" secondEdition.id ∧
    ∀ id ∈ ["m-2.0.0", "n-1.0.0"], id ∈ Ledger.collaborators.installedModules "t" w := by
  obtain ⟨reached, entitled⟩ := republished_reached
  have there : republished.isEntitled "t" secondEdition.id := by
    rw [← Store.mem_entitledIds, beq_iff_eq.mp entitled]
    exact List.mem_cons_self
  refine ⟨republished, reached, there, fun id has => ?_⟩
  exact (reached_enabled reached "t" id).mpr ⟨secondEdition, rfl, there, has⟩

/-! ## A module of two applications -/

/-- A request that has been looked up is carried out, finishes, and leads to a good store. -/
theorem Reached.finishing (name : String) (good : Store → Bool)
    (reached : Reached s.registry Ledger.collaborators
      (fun _ _ _ e => e.report.status = .finished) .empty w)
    (ledger : s.collaborators = Ledger.collaborators) (loaded : s.load w r = .ok l)
    (valid : (l.context r.type).validate = .ok ())
    (runs : (s.run? (named name) r l w).any
      fun e => decide (e.report.status = .finished ∧ good e.world)) :
    Reached s.registry Ledger.collaborators (fun _ _ _ e => e.report.status = .finished) .empty
        (s.worldAfter (named name) r l w) ∧ good (s.worldAfter (named name) r l w) := by
  obtain ⟨e, ran, world, holds⟩ := execute_of_run? loaded valid runs
  obtain ⟨finished, holds⟩ := of_decide_eq_true holds
  rw [← world]
  exact ⟨.run reached rfl ledger ran finished, holds⟩

/-- A version of an application. -/
def earlier : Application := bundle "a" "1.0.0" ["m-1.0.0"]

/-- A later version of it. -/
def later : Application := bundle "a" "2.0.0" ["m-2.0.0"]

/-- An application that has the module of the later version. -/
def companion : Application := bundle "b" "1.0.0" ["m-2.0.0"]

/-- An installation that knows all of them. -/
def crowded : Service Store :=
  { registry := .ofList [earlier, later, companion]
    capabilities := {}
    retry := .noRetry
    collaborators := Ledger.collaborators }

/-- The store after a tenant has been entitled to the earlier version and the other application. -/
def moduleOnce : Store :=
  crowded.worldAfter (named "first") (requesting .entitle ["a-1.0.0", "b-1.0.0"])
    (loading [] [earlier, companion]) .empty

/-- The store after an upgrade to the later version, which overwrites the module of the other
application. -/
def moduleTwice : Store :=
  crowded.worldAfter (named "second") (requesting .upgrade ["a-2.0.0"])
    (loading [earlier, companion] [later]) moduleOnce

/-- The store after the other application has been revoked, and with it the module of both. -/
def moduleGone : Store :=
  crowded.worldAfter (named "third") (requesting .revoke ["b-1.0.0"])
    (loading [later, companion] [companion]) moduleTwice

/-- Whether a tenant is entitled to the later version and has no modules. -/
def lacksModules (w : Store) : Bool :=
  w.isEntitled "t" later.id && Ledger.collaborators.installedModules "t" w == []

theorem moduleGone_reached :
    Reached crowded.registry Ledger.collaborators (fun _ _ _ e => e.report.status = .finished)
      .empty moduleGone ∧ lacksModules moduleGone := by
  have loaded : crowded.load .empty (requesting .entitle ["a-1.0.0", "b-1.0.0"])
      = .ok (loading [] [earlier, companion]) := rfl
  have valid := ValidationContext.validate_of_free
    ((loading [] [earlier, companion]).context .entitle) (by decide) rfl (by decide) rfl rfl
  obtain ⟨reached, first⟩ := Reached.finishing "first" (tenantHas ["a-1.0.0", "b-1.0.0"]) .first rfl
    loaded valid (by decide +kernel)
  have entitled : (crowded.collaborators.store moduleOnce).entitledIds
      (requesting .upgrade ["a-2.0.0"]).tenantId = ["a-1.0.0", "b-1.0.0"] := beq_iff_eq.mp first
  have loaded' : crowded.load moduleOnce (requesting .upgrade ["a-2.0.0"])
      = .ok (loading [earlier, companion] [later]) := by
    unfold load
    rw [entitled]
    rfl
  have valid' := ValidationContext.validate_of_free
    ((loading [earlier, companion] [later]).context .upgrade) (by decide) rfl (by decide) rfl rfl
  obtain ⟨reached', second⟩ := Reached.finishing "second" (tenantHas ["a-2.0.0", "b-1.0.0"]) reached
    rfl loaded' valid' (by decide +kernel)
  have entitled' : (crowded.collaborators.store moduleTwice).entitledIds
      (requesting .revoke ["b-1.0.0"]).tenantId = ["a-2.0.0", "b-1.0.0"] := beq_iff_eq.mp second
  have loaded'' : crowded.load moduleTwice (requesting .revoke ["b-1.0.0"])
      = .ok (loading [later, companion] [companion]) := by
    unfold load
    rw [entitled']
    rfl
  exact Reached.finishing "third" lacksModules reached' rfl loaded'' rfl (by decide +kernel)

/-- A tenant is entitled to an application whose module it does not have. -/
theorem reached_disabled : ∃ w : Store,
    Reached crowded.registry Ledger.collaborators (fun _ _ _ e => e.report.status = .finished)
      .empty w ∧
    ¬ ("m-2.0.0" ∈ Ledger.collaborators.installedModules "t" w ↔
      ∃ a, crowded.registry.known? a.id = some a ∧ w.isEntitled "t" a.id ∧
        "m-2.0.0" ∈ a.allModules.map (·.id)) := by
  obtain ⟨reached, lacks⟩ := moduleGone_reached
  obtain ⟨there, none⟩ := (Bool.and_eq_true _ _).mp lacks
  refine ⟨moduleGone, reached, fun same => ?_⟩
  have listed := same.mpr ⟨later, rfl, there, List.mem_cons_self⟩
  rw [beq_iff_eq.mp none] at listed
  exact List.not_mem_nil listed

end Service

end Provisioning
