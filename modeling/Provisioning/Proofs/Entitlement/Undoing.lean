import Provisioning.Proofs.Entitlement.Runs
import Provisioning.Proofs.Flow.Paths
import Provisioning.Proofs.Flow.Unwinding

/-!
# Requests whose runs are undone

When the run of a request ends as cancelled, its stages are undone in nested order
(`Prepared.undone`). The slot in which a stage stores its result is its own, so that undoing the
stage that disables modules enables just these.
-/

namespace Provisioning

variable {σ : Type}

/-! ## Slots -/

namespace EntitlementStage

/-- Whether the stage stores a result. -/
def stores : EntitlementStage → Bool
  | createRoutes _ _ | deprecatedModules _ => true
  | _ => false

theorem slash_notMem_name {s : EntitlementStage} (h : s.stores) : '/' ∉ s.name.toList := by
  cases s with
  | createRoutes => exact (by decide : '/' ∉ "KongRouteCreator".toList)
  | deprecatedModules => exact (by decide : '/' ∉ "DeprecatedModulesUninstaller".toList)
  | _ => simp [stores] at h

end EntitlementStage

namespace FlowPlan.Built

variable {c : Capabilities} {ids : FlowIds} {r : EntitlementRequest} {input : FlowInput}
  {plan : FlowPlan} {going coming : List (List ApplicationFlow)} {tasks : List ApplicationTask}

/-- A stage that stores a result stands directly below the flow of an application. -/
theorem stores_leaf (built : Built c ids r input plan going coming tasks)
    {l : Leaf EntitlementStage} (hl : l ∈ plan.flow.leaves) (stores : l.stage.stores) :
    ∃ group : String, '/' ∉ group.toList ∧ ∃ f ∈ going.flatten ++ coming.flatten,
      l.stage ∈ FlowNode.stagesIn f.nodes ∧
      l.info.id = FlowNode.childPath
        (FlowNode.childPath (FlowNode.childPath ids.root group) f.ref.flowId) l.stage.name := by
  obtain ⟨groupName, i, hg, f, hf, header, -, hl⟩ := built.mem_leaves_flow hl
  have free : '/' ∉ groupName.toList := by
    simp only [List.mem_cons, List.not_mem_nil, or_false] at hg
    rcases hg with rfl | rfl <;> decide
  have inside := List.mem_map_of_mem (f := (·.stage)) hl
  rw [FlowNode.leavesIn_stages] at inside
  obtain ⟨change, hc⟩ | here := (built.does f hf).direct.leaf hl
  · rw [hc] at stores
    exact absurd stores (by simp [EntitlementStage.stores])
  · refine ⟨_, FlowNode.slash_notMem_group free i, f, hf, inside, ?_⟩
    rw [here]
    rfl

/-- No other stage stores a result where the one that disables modules does. -/
theorem slot (built : Built c ids r input plan going coming tasks)
    (distinct : Function.Injective ids.application) {l k : Leaf EntitlementStage}
    (hl : l ∈ plan.flow.leaves) (hk : k ∈ plan.flow.leaves) (same : l.info.id = k.info.id)
    {moduleIds : List String} (disables : l.stage = .deprecatedModules moduleIds)
    (stores : k.stage.stores) : k.stage = .deprecatedModules moduleIds := by
  have stores' : l.stage.stores := by
    rw [disables]
    rfl
  obtain ⟨g, hg, f, hf, hls, hlid⟩ := built.stores_leaf hl stores'
  obtain ⟨g', hg', f', hf', hks, hkid⟩ := built.stores_leaf hk stores
  rw [hlid, hkid] at same
  obtain ⟨paths, names⟩ := FlowNode.childPath_inj (EntitlementStage.slash_notMem_name stores')
    (EntitlementStage.slash_notMem_name stores) same
  have flows := FlowNode.childPath_childPath_inj hg hg' paths
  have nodup : ((going.flatten ++ coming.flatten).map (·.ref.flowId)).Nodup := by
    rw [built.flowIds]
    exact List.Nodup.map distinct List.nodup_range'
  obtain rfl : f = f' := List.inj_on_of_nodup_map nodup hf hf' flows
  obtain ⟨ks, hks'⟩ : ∃ ks, k.stage = .deprecatedModules ks := by
    rw [disables] at names
    cases hs : k.stage <;> simp_all [EntitlementStage.stores, EntitlementStage.name]
  obtain h | ⟨t, -, work, hwork, h⟩ := built.does f hf
  · rw [h] at hls
    simp [FlowNode.stagesIn] at hls
  · obtain ⟨before, deprecated, hb, kinds⟩ := (ApplicationTask.work_nodes hwork).stages
    have only {ms : List String}
        (hm : EntitlementStage.deprecatedModules ms ∈ FlowNode.stagesIn f.nodes) :
        ms = deprecated := by
      rw [h, hb, List.mem_append, List.mem_singleton] at hm
      rcases hm with hm | hm
      · have kind := kinds _ hm
        cases t <;> simpa [EntitlementStage.makesChanges, ApplicationTask.routeStage,
          ApplicationTask.resourceStage] using kind
      · cases t <;> simp [ApplicationTask.lastStage] at hm
    rw [hks'] at hks
    rw [disables] at hls
    rw [hks', only hks, only hls]

end FlowPlan.Built

/-! ## Results -/

/-- Leaves that are bound to a tenant. -/
structure Bound (tenantId : String) (leaves : List (Leaf EntitlementStage)) : Prop where
  /-- Their parameters name the tenant. -/
  tenant : ∀ l ∈ leaves, l.scope.text? tenantParam = some tenantId
  /-- Where a stage that disables modules stores its result, only the same stage does. -/
  slot : ∀ l ∈ leaves, ∀ k ∈ leaves, k.info.id = l.info.id → ∀ moduleIds,
    k.stage = .deprecatedModules moduleIds → l.stage.stores → l.stage = .deprecatedModules moduleIds

theorem FlowPlan.Built.bound {c : Capabilities} {ids : FlowIds} {r : EntitlementRequest}
    {input : FlowInput} {plan : FlowPlan} {going coming : List (List ApplicationFlow)}
    {tasks : List ApplicationTask} (built : Built c ids r input plan going coming tasks)
    (distinct : Function.Injective ids.application) : Bound r.tenantId plan.flow.leaves :=
  ⟨fun _ => built.tenant, fun _ hl _ hk same _ disables => built.slot distinct hk hl same disables⟩

/-- A stage that disables modules finds in its slot what it has stored, if it finds anything. -/
def Remembers (leaves : List (Leaf EntitlementStage)) (results : StageResults) : Prop :=
  ∀ l ∈ leaves, ∀ moduleIds, l.stage = .deprecatedModules moduleIds →
    ∀ d, results.get? l.info.id = some d → d = .ofTexts moduleIds

theorem remembers_empty (leaves : List (Leaf EntitlementStage)) : Remembers leaves .empty := by
  intro l _ moduleIds _ d found
  simp [OrderedMap.get?_empty] at found

theorem Data.texts?_ofTexts (texts : List String) : (Data.ofTexts texts).texts? = some texts := by
  have each : (texts.map Data.text).mapM Data.text? = some texts := by
    induction texts with
    | nil => rfl
    | cons text rest ih => simp [ih, Data.text?]
  simpa [Data.texts?, Data.ofTexts, Data.list?] using each

theorem StageWork.ofUnit_stored (work : σ → Except StageError Unit × σ) (w : σ) (d : Data) :
    (ofUnit work w).1 ≠ .ok (some d) := by
  cases h : (work w).1 <;> simp [ofUnit, h, Except.map]

namespace EntitlementStage

variable (c : Collaborators σ) (retry : RetryConfig)

/-- How the stage is undone for a tenant when it knows what it has done. -/
def undo (s : EntitlementStage) (tenantId : String) : StageWork σ := s.cancel c retry none tenantId

variable {c retry} {s : EntitlementStage} {tenantId : String} {w : σ}

theorem cancel_eq_undo {result : Option Data}
    (remembers : ∀ moduleIds, s = .deprecatedModules moduleIds →
      ∀ d, result = some d → d = .ofTexts moduleIds) :
    s.cancel c retry result tenantId = s.undo c retry tenantId := by
  cases s with
  | deprecatedModules moduleIds =>
    cases result with
    | none => rfl
    | some d =>
      obtain rfl := remembers moduleIds rfl d rfl
      simp [undo, cancel, Data.texts?_ofTexts]
  | _ => rfl

/-- What a stage that succeeds has stored. -/
theorem execute_stored {d : Data} (ok : (s.execute c retry tenantId w).1 = .ok (some d)) :
    s.stores ∧ ∀ moduleIds, s = .deprecatedModules moduleIds → d = .ofTexts moduleIds := by
  cases s with
  | createRoutes id ms => exact ⟨rfl, by simp⟩
  | deprecatedModules ms =>
    simp only [execute, StageWork.andStore] at ok
    cases h : (c.changeAll retry tenantId [] (ms.map .disable) w).1 <;> simp_all [Except.map, stores]
  | _ => exact absurd ok (StageWork.ofUnit_stored _ _ _)

theorem cancel_stored {result : Option Data} {d : Data} :
    (s.cancel c retry result tenantId w).1 ≠ .ok (some d) := by
  cases s <;> exact StageWork.ofUnit_stored _ _ _

/-- Stages that are called for a tenant, each with the world that it finds, after all of which
everything has been undone, last first. -/
inductive Undone (c : Collaborators σ) (retry : RetryConfig) (tenantId : String) :
    σ → List (EntitlementStage × σ) → σ → Prop where
  /-- There is no call. -/
  | nil (w : σ) : Undone c retry tenantId w [] w
  /-- A stage fails. -/
  | failed {s : EntitlementStage} {w w' : σ} {cs : List (EntitlementStage × σ)} {e : StageError}
      (error : (s.execute c retry tenantId w).1 = .error e)
      (later : Undone c retry tenantId (s.execute c retry tenantId w).2 cs w') :
      Undone c retry tenantId w ((s, w) :: cs) w'
  /-- A stage succeeds, everything after that is undone, and then what the stage has done. -/
  | pair {s : EntitlementStage} {w w₁ w' : σ} {cs ds : List (EntitlementStage × σ)}
      {stored : Option Data} (ok : (s.execute c retry tenantId w).1 = .ok stored)
      (inner : Undone c retry tenantId (s.execute c retry tenantId w).2 cs w₁)
      (undone : (s.undo c retry tenantId w₁).1 = .ok none)
      (later : Undone c retry tenantId (s.undo c retry tenantId w₁).2 ds w') :
      Undone c retry tenantId w ((s, w) :: (cs ++ ds)) w'

/-- The stage succeeds in the world that it finds. -/
def Succeeds (c : Collaborators σ) (retry : RetryConfig) (tenantId : String)
    (x : EntitlementStage × σ) : Prop :=
  ∃ stored, (x.1.execute c retry tenantId x.2).1 = .ok stored

/-- What is seen of the world when some of the stages touch it, and undoing each of those leaves it
at one value: either none of those has succeeded and it is as it was, or one of them has found it as
it was and it is at that value. -/
theorem Undone.settles {β : Type} {w' : σ} {cs : List (EntitlementStage × σ)}
    (undone : Undone c retry tenantId w cs w') (f : σ → β) (v : β)
    (touches : EntitlementStage → Prop)
    (keeps : ∀ x ∈ cs, ¬ touches x.1 → ∀ u, f (x.1.execute c retry tenantId u).2 = f u ∧
      f (x.1.undo c retry tenantId u).2 = f u)
    (fails : ∀ x ∈ cs, touches x.1 → ∀ u e, (x.1.execute c retry tenantId u).1 = .error e →
      f (x.1.execute c retry tenantId u).2 = f u)
    (leaves : ∀ x ∈ cs, touches x.1 → ∀ u u₁, Succeeds c retry tenantId (x.1, u) →
      f u₁ = f (x.1.execute c retry tenantId u).2 ∨ f u₁ = v →
      (x.1.undo c retry tenantId u₁).1 = .ok none → f (x.1.undo c retry tenantId u₁).2 = v) :
    (f w' = f w ∧ ∀ x ∈ cs, touches x.1 → ¬ Succeeds c retry tenantId x) ∨
      (f w' = v ∧ ∃ x ∈ cs, touches x.1 ∧ Succeeds c retry tenantId x ∧ f x.2 = f w) := by
  induction undone with
  | nil => exact .inl ⟨rfl, by simp⟩
  | @failed s w w' cs e error later ih =>
    rw [List.forall_mem_cons] at keeps fails leaves
    have kept : f (s.execute c retry tenantId w).2 = f w := by
      by_cases ht : touches s
      · exact fails.1 ht w e error
      · exact (keeps.1 ht w).1
    have stuck : ¬ Succeeds c retry tenantId (s, w) := by
      rintro ⟨stored, ok⟩
      exact absurd (ok.symm.trans error) (by simp)
    rw [List.forall_mem_cons, List.exists_mem_cons_iff]
    rcases ih keeps.2 fails.2 leaves.2 with ⟨same, never⟩ | ⟨settled, x, hx, touched, ok, found⟩
    · exact .inl ⟨same.trans kept, fun _ => stuck, never⟩
    · exact .inr ⟨settled, .inr ⟨x, hx, touched, ok, found.trans kept⟩⟩
  | @pair s w w₁ w' cs ds stored ok inner undone later ihi ihl =>
    rw [List.forall_mem_cons, List.forall_mem_append] at keeps fails leaves
    have inner := ihi keeps.2.1 fails.2.1 leaves.2.1
    have later := ihl keeps.2.2 fails.2.2 leaves.2.2
    rw [List.forall_mem_cons, List.forall_mem_append, List.exists_mem_cons_iff]
    by_cases ht : touches s
    · -- Whatever the stages in between have done, the stage itself is undone after them.
      have back := leaves.1 ht w w₁ ⟨stored, ok⟩ (inner.imp And.left And.left) undone
      refine .inr ⟨?_, .inl ⟨ht, ⟨stored, ok⟩, rfl⟩⟩
      rcases later with ⟨same, -⟩ | ⟨settled, -⟩
      · exact same.trans back
      · exact settled
    · have kept := (keeps.1 ht w).1
      have kept₁ := (keeps.1 ht w₁).2
      rcases inner with ⟨same, never⟩ | ⟨settled, x, hx, touched, okx, found⟩
      · rw [kept] at same
        rw [kept₁, same] at later
        rcases later with ⟨same', never'⟩ | ⟨settled, x, hx, touched, okx, found⟩
        · exact .inl ⟨same', fun h => absurd h ht, never, never'⟩
        · exact .inr ⟨settled, .inr ⟨x, List.mem_append_right _ hx, touched, okx, found⟩⟩
      · rw [kept₁, settled] at later
        have last : f w' = v := by
          rcases later with ⟨same, -⟩ | ⟨settled, -⟩
          · exact same
          · exact settled
        exact .inr ⟨last, .inr ⟨x, List.mem_append_left _ hx, touched, okx, found.trans kept⟩⟩

end EntitlementStage

/-- What a stage stores does not make others forget. -/
theorem Remembers.after {leaves : List (Leaf EntitlementStage)} {m : Machine σ}
    {l : Leaf EntitlementStage} {step : StageStep σ} (remembers : Remembers leaves m.results)
    (own : ∀ d, step.stored = some d → ∀ k ∈ leaves, k.info.id = l.info.id →
      ∀ moduleIds, k.stage = .deprecatedModules moduleIds → d = .ofTexts moduleIds) :
    Remembers leaves (m.after l.info.id step).results := by
  intro k hk moduleIds disables d found
  rw [Machine.after] at found
  cases hs : step.stored with
  | none =>
    simp only [hs] at found
    exact remembers k hk moduleIds disables d found
  | some stored =>
    simp only [hs, OrderedMap.get?_insert] at found
    split at found
    · rename_i same
      obtain rfl := Option.some.inj found
      exact own _ hs k hk same moduleIds disables
    · exact remembers k hk moduleIds disables d found

section

variable {c : Collaborators σ} {retry : RetryConfig} {tenantId : String}
  {leaves : List (Leaf EntitlementStage)} {l : Leaf EntitlementStage} {m : Machine σ}

theorem Remembers.executed (remembers : Remembers leaves m.results)
    (bound : Bound tenantId leaves) (hl : l ∈ leaves) :
    Remembers leaves ((l.map (·.toStage c retry)).executed m).results := by
  refine remembers.after (l := l) fun d stored k hk same moduleIds disables => ?_
  change (StageWork.step (l.stage.execute c retry) (m.context l.info l.scope)
    m.world).stored = some d at stored
  rw [StageWork.step_stored _ (bound.tenant l hl)] at stored
  have ok : (l.stage.execute c retry tenantId m.world).1 = .ok (some d) := by
    cases ho : (l.stage.execute c retry tenantId m.world).1 <;> simp_all [Except.toOption]
  obtain ⟨stores, own⟩ := EntitlementStage.execute_stored ok
  exact own moduleIds (bound.slot l hl k hk same moduleIds disables stores)

theorem Remembers.undone (remembers : Remembers leaves m.results)
    (bound : Bound tenantId leaves) (hl : l ∈ leaves) {cancel : StageContext → σ → StageStep σ}
    (can : (l.stage.toStage c retry).cancel = some cancel) :
    Remembers leaves ((l.map (·.toStage c retry)).undone cancel m).results := by
  obtain rfl := Option.some.inj can
  refine remembers.after (l := l) fun d stored => ?_
  change (StageWork.step (l.stage.cancel c retry (m.context l.info l.scope).result?)
    (m.context l.info l.scope) m.world).stored = some d at stored
  rw [StageWork.step_stored _ (bound.tenant l hl)] at stored
  have ok : (l.stage.cancel c retry (m.context l.info l.scope).result? tenantId m.world).1
      = .ok (some d) := by
    cases ho : (l.stage.cancel c retry (m.context l.info l.scope).result? tenantId m.world).1 <;>
      simp_all [Except.toOption]
  exact absurd ok EntitlementStage.cancel_stored

end

/-- Leaves whose calls are undone are stages whose calls are undone. -/
theorem Undone.stages {c : Collaborators σ} {retry : RetryConfig} {tenantId : String}
    {cs : List (Leaf EntitlementStage × Machine σ)} {m m' : Machine σ}
    (undone : Undone m (cs.map fun x => (x.1.map (·.toStage c retry), x.2)) m')
    {leaves : List (Leaf EntitlementStage)} (bound : Bound tenantId leaves)
    (known : ∀ x ∈ cs, x.1 ∈ leaves) (remembers : Remembers leaves m.results) :
    Remembers leaves m'.results ∧ EntitlementStage.Undone c retry tenantId m.world
      (cs.map fun x => (x.1.stage, x.2.world)) m'.world := by
  generalize hcs : cs.map (fun x => (x.1.map (·.toStage c retry), x.2)) = calls at undone
  induction undone generalizing cs with
  | nil m =>
    obtain rfl := List.map_eq_nil_iff.mp hcs
    exact ⟨remembers, .nil _⟩
  | @failed _ _ m' calls e error later ih =>
    obtain ⟨⟨l, m⟩, cs, rfl, heq, rest⟩ := List.map_eq_cons_iff.mp hcs
    obtain ⟨rfl, rfl⟩ := Prod.mk.inj heq
    rw [List.forall_mem_cons] at known
    have here := bound.tenant l known.1
    obtain ⟨remembers, later⟩ := ih known.2 (remembers.executed bound known.1) rest
    rw [Leaf.toStage_execute here, Except.map_eq_error] at error
    rw [Leaf.toStage_executed here] at later
    exact ⟨remembers, .failed error later⟩
  | @pair _ _ m₁ m' first second cancel ok inner can undone later ihi ihl =>
    obtain ⟨⟨l, m⟩, both, rfl, heq, rest⟩ := List.map_eq_cons_iff.mp hcs
    obtain ⟨rfl, rfl⟩ := Prod.mk.inj heq
    obtain ⟨cs, ds, rfl, hc, hd⟩ := List.map_eq_append_iff.mp rest
    rw [List.forall_mem_cons, List.forall_mem_append] at known
    have here := bound.tenant l known.1
    obtain ⟨remembers₁, inner⟩ := ihi known.2.1 (remembers.executed bound known.1) hc
    obtain ⟨remembers', later⟩ := ihl known.2.2 (remembers₁.undone bound known.1 can) hd
    have undo : l.stage.cancel c retry (m₁.context l.info l.scope).result? tenantId
        = l.stage.undo c retry tenantId :=
      EntitlementStage.cancel_eq_undo (remembers₁ l known.1)
    rw [Leaf.toStage_execute here] at ok
    rw [Leaf.toStage_executed here] at inner
    rw [Leaf.toStage_cancel here m₁ can, undo] at undone
    rw [Leaf.toStage_undone here m₁ can, undo] at later
    obtain ⟨stored, ok, -⟩ := Except.map_eq_ok.mp ok
    obtain ⟨left, undone, -⟩ := Except.map_eq_ok.mp undone
    rw [List.map_cons, List.map_append]
    refine ⟨remembers', .pair ok inner ?_ later⟩
    cases left with
    | none => exact undone
    | some d => exact absurd undone EntitlementStage.cancel_stored

/-! ## Runs -/

namespace Service

variable {s : Service σ} {w : σ} {ids : FlowIds} {r : EntitlementRequest} {l : LoadedRequest}
  {plan : FlowPlan}

/-- The stages that a run calls, each with the world that it finds. -/
def calls (s : Service σ) (w : σ) (plan : FlowPlan) : List (EntitlementStage × σ) :=
  (Provisioning.calls plan.flow.leaf?
    ((plan.flow.map (·.toStage s.collaborators s.retry)).moments w)).map
      fun x => (x.1.stage, x.2.world)

/-- Each stage that is called is a stage of a task. -/
theorem Prepared.mem_calls (prepared : s.Prepared w ids r l plan) {x : EntitlementStage × σ}
    (hx : x ∈ s.calls w plan) :
    ∃ t, FlowPlan.Planned l.input r.type t ∧ x.1 ∈ t.stages s.capabilities := by
  obtain ⟨going, coming, tasks, built⟩ := prepared.built
  obtain ⟨y, hy, rfl⟩ := List.mem_map.mp hx
  obtain ⟨p, here⟩ := Provisioning.mem_calls hy
  obtain ⟨t, ht, hs⟩ := built.mem_leaves (Flow.leaf?_mem here)
  exact ⟨t, (built.planned t).mp ht, hs⟩

/-- When the calls of the leaves of a run are undone, so are those of its stages. -/
theorem undone_calls {going coming : List (List FlowPlan.ApplicationFlow)}
    {tasks : List ApplicationTask}
    (built : FlowPlan.Built s.capabilities ids r l.input plan going coming tasks)
    (distinct : Function.Injective ids.application) {m : Machine σ}
    (undone : Undone { world := w, results := .empty }
      ((Provisioning.calls plan.flow.leaf?
        ((plan.flow.map (·.toStage s.collaborators s.retry)).moments w)).map
          fun x => (x.1.map (·.toStage s.collaborators s.retry), x.2)) m) :
    EntitlementStage.Undone s.collaborators s.retry r.tenantId w (s.calls w plan) m.world := by
  refine (undone.stages (built.bound distinct) ?_ (remembers_empty _)).2
  intro x hx
  obtain ⟨p, here⟩ := Provisioning.mem_calls hx
  exact Flow.leaf?_mem here

/-- What the stages of a run have done is undone, last first, when the run ends as cancelled. -/
theorem Prepared.undone (prepared : s.Prepared w ids r l plan)
    (distinct : Function.Injective ids.application) (cancels : r.strategy = .cancelOnError)
    (cancelled : (s.runPlan w plan).report.status = .cancelled) :
    EntitlementStage.Undone s.collaborators s.retry r.tenantId w (s.calls w plan)
      ((plan.flow.map (·.toStage s.collaborators s.retry)).run w).machine.world := by
  obtain ⟨going, coming, tasks, built⟩ := prepared.built
  have strategy : (plan.flow.map (·.toStage s.collaborators s.retry)).header.strategy
      = .cancelOnError := by
    rw [show (plan.flow.map (·.toStage s.collaborators s.retry)).header = plan.flow.header from rfl,
      built.header]
    exact cancels
  have closed : FlowNode.allCancelIn
      (plan.flow.map (·.toStage s.collaborators s.retry)).nodes := by
    rw [Flow.map, FlowNode.allCancelIn_map]
    exact built.cancels
  have cancellable : ∀ l ∈ (plan.flow.map (·.toStage s.collaborators s.retry)).leaves,
      l.stage.isCancellable := by
    intro l hl
    rw [Flow.leaves_map (toStage_names s.collaborators s.retry)] at hl
    obtain ⟨l, -, rfl⟩ := List.mem_map.mp hl
    rfl
  have undone := Flow.run_undone strategy closed cancellable cancelled
  have mapped (p : Place) :=
    Flow.leaf?_map (toStage_names s.collaborators s.retry) plan.flow p
  rw [Provisioning.calls_map mapped] at undone
  exact undone_calls built distinct undone

end Service

end Provisioning
