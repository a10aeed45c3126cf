import Provisioning.Proofs.Entitlement.Undoing
import Provisioning.Proofs.Flow.Completion

/-!
# Requests whose runs finish

A run that finishes calls the stages of its tasks one after another, and each of them finds the
world that those before it have left (`Service.calls_eq`). In any run, the entitlement is
changed only when everything else that its task does has been done (`Service.Prepared.last_called`).
-/

namespace Provisioning

variable {σ : Type}

namespace EntitlementStage

variable (c : Collaborators σ) (retry : RetryConfig) (tenantId : String)

/-- Stages that are called for a tenant one after another, each with the world that it finds. -/
def trail : List EntitlementStage → σ → List (EntitlementStage × σ)
  | [], _ => []
  | s :: rest, w => (s, w) :: trail rest (s.execute c retry tenantId w).2

variable {c retry tenantId}

theorem Succeed.of_append {ss ss' : List EntitlementStage} {w w' : σ}
    (succeed : Succeed c retry tenantId (ss ++ ss') w w') :
    ∃ w₁, Succeed c retry tenantId ss w w₁ ∧ Succeed c retry tenantId ss' w₁ w' ∧
      trail c retry tenantId (ss ++ ss') w
        = trail c retry tenantId ss w ++ trail c retry tenantId ss' w₁ := by
  induction ss generalizing w with
  | nil => exact ⟨w, .nil w, succeed, rfl⟩
  | cons s rest ih =>
    obtain _ | ⟨ok, later⟩ := succeed
    obtain ⟨w₁, first, second, calls⟩ := ih later
    refine ⟨w₁, .cons ok first, second, ?_⟩
    rw [List.cons_append, trail, trail, calls, List.cons_append]

/-- Each of the stages is called with success. -/
theorem Succeed.called {ss : List EntitlementStage} {w w' : σ}
    (succeed : Succeed c retry tenantId ss w w') :
    ∀ s ∈ ss, ∃ u, (s, u) ∈ trail c retry tenantId ss w ∧ Succeeds c retry tenantId (s, u) := by
  induction succeed with
  | nil => simp
  | @cons s rest w w' stored ok later ih =>
    rw [List.forall_mem_cons, trail]
    refine ⟨⟨w, List.mem_cons_self, stored, ok⟩, fun s hs => ?_⟩
    obtain ⟨u, hu, succeeds⟩ := ih s hs
    exact ⟨u, List.mem_cons_of_mem _ hu, succeeds⟩

/-- Leaves that are called one after another call their stages one after another. -/
theorem trail_stages {ls : List (Leaf EntitlementStage)}
    (tenant : ∀ l ∈ ls, l.scope.text? tenantParam = some tenantId) (m : Machine σ) :
    (Provisioning.trail (·.toStage c retry) ls m).map (fun x => (x.1.stage, x.2.world))
      = trail c retry tenantId (ls.map (·.stage)) m.world := by
  induction ls generalizing m with
  | nil => rfl
  | cons l rest ih =>
    rw [List.forall_mem_cons] at tenant
    rw [Provisioning.trail, List.map_cons, ih tenant.2, Leaf.toStage_executed tenant.1]
    rfl

/-- Leaves that succeed one after another have called each of their stages with success. -/
theorem called_of_completes {ls : List (Leaf EntitlementStage)} {m m' : Machine σ}
    (tenant : ∀ l ∈ ls, l.scope.text? tenantParam = some tenantId)
    (completes : Completes (ls.map (·.map (·.toStage c retry))) m m') :
    ∀ s ∈ ls.map (·.stage), ∃ u,
      (s, u) ∈ (Provisioning.trail (·.toStage c retry) ls m).map (fun x => (x.1.stage, x.2.world)) ∧
        Succeeds c retry tenantId (s, u) := by
  rw [trail_stages tenant]
  exact (Succeed.of_completes tenant completes).called

end EntitlementStage

/-- Behind quiet stages, only the last stage of a flow can change an entitlement. -/
theorem FlowNode.leaf_of_quiet {info : FlowInfo} {path : String} {header : FlowHeader}
    {before : List (FlowNode EntitlementStage)} {last : EntitlementStage}
    (quiet : ∀ s ∈ FlowNode.stagesIn before, s.changesEntitlement = false)
    {l : Leaf EntitlementStage}
    (hl : l ∈ (FlowNode.flow header (before ++ [.stage last])).leaves info path)
    (changes : l.stage.changesEntitlement) : l.stage = last := by
  have stage := List.mem_map_of_mem (f := (·.stage)) hl
  rw [leaves_stages, stages] at stage
  split at stage
  · exact absurd stage List.not_mem_nil
  · rw [stagesIn_append, List.mem_append] at stage
    rcases stage with earlier | here
    · exact absurd changes (by simp [quiet _ earlier])
    · exact List.mem_singleton.mp here

/-- The stage that changes the entitlement comes behind the nodes that do everything else. -/
theorem ApplicationTask.work_last {c : Capabilities} {t : ApplicationTask} {w : ApplicationWork}
    (h : t.work c = .ok w) : ∃ before, w.nodes = before ++ [.stage t.lastStage] ∧
      t.stages c = FlowNode.stagesIn before ++ [t.lastStage] ∧
      ∀ s ∈ FlowNode.stagesIn before, s.changesEntitlement = false := by
  obtain ⟨before, nodes⟩ : ∃ before, w.nodes = before ++ [.stage t.lastStage] := by
    obtain ⟨backend, ui, -, -, rfl⟩ := work_eq_ok h
    exact ⟨_, rfl⟩
  obtain ⟨front, deprecated, split, kinds⟩ := (work_nodes h).stages
  rw [nodes, FlowNode.stagesIn_append] at split
  obtain rfl : FlowNode.stagesIn before = front := List.append_cancel_right split
  refine ⟨before, nodes, ?_, fun s hs => ?_⟩
  · rw [stages_eq h, nodes, FlowNode.stagesIn_append]
    rfl
  · rcases kinds s hs with makes | rfl | rfl | rfl
    · cases s <;> simp_all [EntitlementStage.makesChanges, EntitlementStage.changesEntitlement]
    · rfl
    · cases t <;> rfl
    · cases t <;> rfl

/-- What a task takes has been there before it. What it gives for that has not, unless it is the
same. -/
theorem EntitlementStage.Succeed.needed {c : Collaborators σ} {retry : RetryConfig}
    {tenantId : String} {capabilities : Capabilities} {t : ApplicationTask} {work : ApplicationWork}
    {w w' : σ} (keeps : c.KeepsEntitlements) (can : t.work capabilities = .ok work)
    (succeed : Succeed c retry tenantId (t.stages capabilities) w w') :
    ∀ x ∈ t.lastStage.takes, c.Entitled w tenantId x ∧
      ∀ y ∈ t.lastStage.gives, y = x ∨ ¬ c.Entitled w tenantId y := by
  obtain ⟨before, -, stages, quiet⟩ := t.work_last can
  rw [stages] at succeed
  obtain ⟨w₁, earlier, last, -⟩ := succeed.of_append
  obtain _ | ⟨ok, -⟩ := last
  have same (x : String) : c.Entitled w₁ tenantId x ↔ c.Entitled w tenantId x := by
    constructor
    · intro there
      refine (earlier.untaken keeps there fun s hs given => ?_).1
      simp [gives_eq_nil (quiet s hs)] at given
    · intro there
      refine earlier.entitled keeps (fun s hs taken => ?_) (.inl there)
      simp [takes_eq_nil (quiet s hs)] at taken
  intro x taken
  obtain ⟨there, new⟩ := (execute_moves keeps retry ok).2 x taken
  refine ⟨(same x).mp there, fun y given => (new y given).imp_right fun absent => ?_⟩
  rwa [same] at absent

/-- The nodes of a flow plan are groups of flows of applications. -/
theorem FlowPlan.Built.mem_nodes {c : Capabilities} {ids : FlowIds} {r : EntitlementRequest}
    {input : FlowInput} {plan : FlowPlan} {going coming : List (List ApplicationFlow)}
    {tasks : List ApplicationTask} (built : Built c ids r input plan going coming tasks)
    {node : FlowNode EntitlementStage} (hn : node ∈ plan.flow.nodes) :
    ∃ name, ∃ flows : List ApplicationFlow,
      (∀ f ∈ flows, f ∈ going.flatten ++ coming.flatten) ∧
        node = .parallel name (flows.map (·.node)) := by
  have group {groupName : String} {layers : List (List ApplicationFlow)}
      (hn : node ∈ groups groupName layers) :
      ∃ name, ∃ flows ∈ layers, node = .parallel name (flows.map (·.node)) := by
    obtain ⟨i, hi, rfl⟩ := List.mem_mapIdx.mp hn
    exact ⟨_, _, List.getElem_mem hi, rfl⟩
  rw [built.nodes, List.mem_append] at hn
  rcases hn with hn | hn
  · obtain ⟨name, flows, hf, rfl⟩ := group hn
    exact ⟨name, flows, fun f h => List.mem_append_left _ (List.mem_flatten_of_mem hf h), rfl⟩
  · obtain ⟨name, flows, hf, rfl⟩ := group hn
    exact ⟨name, flows, fun f h => List.mem_append_right _ (List.mem_flatten_of_mem hf h), rfl⟩

namespace Service

variable {s : Service σ} {w : σ} {ids : FlowIds} {r : EntitlementRequest} {l : LoadedRequest}
  {plan : FlowPlan}

/-- A run that finishes calls the stages of its tasks one after another. -/
theorem calls_eq {going coming : List (List FlowPlan.ApplicationFlow)}
    {tasks : List ApplicationTask}
    (built : FlowPlan.Built s.capabilities ids r l.input plan going coming tasks)
    (finished : (s.runPlan w plan).report.status = .finished) :
    s.calls w plan = EntitlementStage.trail s.collaborators s.retry r.tenantId
      (tasks.flatMap (·.stages s.capabilities)) w := by
  rw [calls, Flow.run_trail (toStage_names s.collaborators s.retry) (run_unfailed finished),
    EntitlementStage.trail_stages fun l => built.tenant, built.leaves_stages]

/-- A run calls a stage that changes an entitlement only when it has called all other stages of the
task with success. -/
theorem Prepared.last_called (prepared : s.Prepared w ids r l plan) {x : EntitlementStage × σ}
    (hx : x ∈ s.calls w plan) (last : x.1.changesEntitlement) :
    ∃ t, FlowPlan.Planned l.input r.type t ∧ (∃ work, t.work s.capabilities = .ok work) ∧
      x.1 = t.lastStage ∧ ∀ stage ∈ t.stages s.capabilities, stage.changesEntitlement = false →
        ∃ u, (stage, u) ∈ s.calls w plan ∧
          EntitlementStage.Succeeds s.collaborators s.retry r.tenantId (stage, u) := by
  obtain ⟨going, coming, tasks, built⟩ := prepared.built
  obtain ⟨y, hy, rfl⟩ := List.mem_map.mp hx
  obtain ⟨name, children, hg, node, hn, p, m, located, called, sub⟩ := Flow.calls_groups
    (fun node hn => (built.mem_nodes hn).imp fun name ⟨flows, _, h⟩ => ⟨_, h⟩) hy
  obtain ⟨name', flows, within, parallel⟩ := built.mem_nodes hg
  obtain ⟨rfl, rfl⟩ := FlowNode.parallel.inj parallel
  obtain ⟨f, hf, rfl⟩ := List.mem_map.mp hn
  have inside := Placed.run_called located called
  obtain nothing | ⟨t, ht, work, can, nodes⟩ := built.does f (within f hf)
  · simp [FlowPlan.ApplicationFlow.node, FlowNode.leaves, nothing, FlowNode.leavesIn] at inside
  · obtain ⟨before, split, stages, quiet⟩ := ApplicationTask.work_last can
    obtain ⟨header, cancels, flow⟩ : ∃ header : FlowHeader, header.strategy = .cancelOnError ∧
        f.node = .flow header (before ++ [.stage t.lastStage]) := by
      rw [← split, ← nodes]
      exact ⟨_, rfl, rfl⟩
    rw [flow] at located called sub inside
    have own := FlowNode.leaf_of_quiet quiet inside last
    refine ⟨t, (built.planned t).mp ht, ⟨work, can⟩, own, fun stage hs other => ?_⟩
    rcases Placed.run_last (toStage_names s.collaborators s.retry) cancels located rfl called with
      earlier | ⟨⟨m', completes⟩, trailed⟩
    · have stage := List.mem_map_of_mem (f := (·.stage)) earlier
      rw [FlowNode.leavesIn_stages] at stage
      exact absurd last (by simp [quiet _ stage])
    · have trailed := List.Subset.trans trailed sub
      generalize hls : FlowNode.leavesIn _ _ before = ls at completes trailed
      have tenant : ∀ l ∈ ls, l.scope.text? tenantParam = some r.tenantId := by
        intro l hl
        rw [← trail_fst (·.toStage s.collaborators s.retry) ls m] at hl
        obtain ⟨z, hz, rfl⟩ := List.mem_map.mp hl
        obtain ⟨q, here⟩ := Provisioning.mem_calls (trailed hz)
        exact built.tenant (Flow.leaf?_mem here)
      have earlier : stage ∈ ls.map (·.stage) := by
        rw [stages, List.mem_append, List.mem_singleton] at hs
        rw [← hls, FlowNode.leavesIn_stages]
        refine hs.resolve_right fun h => ?_
        rw [h, ← own, last] at other
        cases other
      obtain ⟨u, hu, succeeds⟩ :=
        EntitlementStage.called_of_completes tenant completes stage earlier
      exact ⟨u, List.map_subset _ trailed hu, succeeds⟩

end Service

end Provisioning
