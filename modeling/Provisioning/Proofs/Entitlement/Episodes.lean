import Provisioning.Proofs.Entitlement.Undoing
import Provisioning.Proofs.Flow.Episodes
import Provisioning.Proofs.Flow.Reported

/-!
# Tasks that are done or undone

When nothing fails to be undone, what the run of a request has done is undone as a whole, or its
tasks are carried out one after another, each of them in full or not at all (`Prepared.run_settles`).
-/

namespace Provisioning

variable {σ : Type}

/-! ## Parts of a flow plan -/

namespace FlowPlan

open FlowNode (partsIn)

theorem partsIn_map_node (info : FlowInfo) (path : String) (flows : List ApplicationFlow) :
    (partsIn info path (flows.map (·.node))).map (List.map (·.stage))
      = flows.map (·.node.stages) := by
  induction flows with
  | nil => rfl
  | cons f rest ih =>
    rw [List.map_cons, partsIn, List.map_append, ih, List.map_cons, ApplicationFlow.node]
    simp [FlowNode.parts, FlowNode.leaves_stages]

theorem partsIn_groups (info : FlowInfo) (path groupName : String)
    (layers : List (List ApplicationFlow)) :
    (partsIn info path (groups groupName layers)).map (List.map (·.stage))
      = layers.flatten.map (·.node.stages) := by
  suffices general : ∀ name : Nat → String, (partsIn info path (layers.mapIdx fun i flows =>
      .parallel (name i) (flows.map (·.node)))).map (List.map (·.stage))
        = layers.flatten.map (·.node.stages) from general fun i => s!"{groupName}-l{i}"
  induction layers with
  | nil =>
    intro _
    rfl
  | cons flows rest ih =>
    intro name
    rw [List.mapIdx_cons, partsIn, List.map_append, ih fun i => name (i + 1), FlowNode.parts,
      partsIn_map_node, List.flatten_cons, List.map_append]

/-- The parts of a flow plan that have stages have those of its tasks. -/
theorem Built.parts {c : Capabilities} {ids : FlowIds} {r : EntitlementRequest} {input : FlowInput}
    {plan : FlowPlan} {going coming : List (List ApplicationFlow)} {tasks : List ApplicationTask}
    (built : Built c ids r input plan going coming tasks) :
    (plan.flow.parts.map (List.map (·.stage))).filter (!·.isEmpty) = tasks.map (·.stages c) := by
  rw [Flow.parts, built.nodes, FlowNode.partsIn_append, List.map_append, partsIn_groups,
    partsIn_groups, ← List.map_append, built.each]

end FlowPlan

/-! ## Episodes of stages -/

namespace EntitlementStage

/-- Parts are run for a tenant one after another. All stages of a part succeed, or what those that
are called have done is undone. -/
inductive Episodes (c : Collaborators σ) (retry : RetryConfig) (tenantId : String) :
    List (List EntitlementStage) → σ → List (EntitlementStage × σ) → σ → Prop where
  /-- There is no part. -/
  | nil (w : σ) : Episodes c retry tenantId [] w [] w
  /-- A part is done. -/
  | done {part : List EntitlementStage} {parts : List (List EntitlementStage)} {w w₁ w' : σ}
      {cs ds : List (EntitlementStage × σ)} (called : ∀ x ∈ cs, x.1 ∈ part)
      (succeed : Succeed c retry tenantId part w w₁)
      (later : Episodes c retry tenantId parts w₁ ds w') :
      Episodes c retry tenantId (part :: parts) w (cs ++ ds) w'
  /-- A part is undone. -/
  | undone {part : List EntitlementStage} {parts : List (List EntitlementStage)} {w w₁ w' : σ}
      {cs ds : List (EntitlementStage × σ)} (called : ∀ x ∈ cs, x.1 ∈ part)
      (undone : Undone c retry tenantId w cs w₁)
      (later : Episodes c retry tenantId parts w₁ ds w') :
      Episodes c retry tenantId (part :: parts) w (cs ++ ds) w'

namespace Episodes

variable {c : Collaborators σ} {retry : RetryConfig} {tenantId : String}
  {part : List EntitlementStage} {parts parts' : List (List EntitlementStage)} {w w' : σ}
  {cs : List (EntitlementStage × σ)}

/-- Parts without stages do nothing. -/
theorem filter (episodes : Episodes c retry tenantId parts w cs w') :
    Episodes c retry tenantId (parts.filter (!·.isEmpty)) w cs w' := by
  induction episodes with
  | nil w => exact .nil w
  | @done part parts w w₁ w' cs ds called succeed later ih =>
    cases part with
    | nil =>
      cases succeed
      cases cs with
      | nil => exact ih
      | cons x cs => exact absurd (called x List.mem_cons_self) List.not_mem_nil
    | cons stage rest => exact .done called succeed ih
  | @undone part parts w w₁ w' cs ds called undone later ih =>
    cases part with
    | nil =>
      cases cs with
      | nil =>
        cases undone
        exact ih
      | cons x cs => exact absurd (called x List.mem_cons_self) List.not_mem_nil
    | cons stage rest => exact .undone called undone ih

end Episodes

end EntitlementStage

section

variable {c : Collaborators σ} {retry : RetryConfig} {tenantId : String}
  {leaves : List (Leaf EntitlementStage)} {m m' : Machine σ}
  (bound : Bound tenantId leaves) (remembers : Remembers leaves m.results)

include bound remembers

/-- Stages that succeed forget nothing. -/
theorem Remembers.completed {part : List (Leaf EntitlementStage)} (known : ∀ l ∈ part, l ∈ leaves)
    (completes : Completes (part.map (·.map (·.toStage c retry))) m m') :
    Remembers leaves m'.results := by
  induction part generalizing m with
  | nil =>
    cases completes
    exact remembers
  | cons l rest ih =>
    rw [List.forall_mem_cons] at known
    obtain _ | ⟨ok, later⟩ := completes
    exact ih (remembers.executed bound known.1) known.2 later

/-- Episodes of leaves are episodes of stages. -/
theorem Episodes.stages {parts : List (List (Leaf EntitlementStage))}
    {cs : List (Leaf EntitlementStage × Machine σ)}
    (known : ∀ part ∈ parts, ∀ l ∈ part, l ∈ leaves)
    (episodes : Episodes (·.toStage c retry) parts m cs m') :
    EntitlementStage.Episodes c retry tenantId (parts.map (List.map (·.stage))) m.world
      (cs.map fun x => (x.1.stage, x.2.world)) m'.world := by
  induction episodes with
  | nil m => exact .nil _
  | @done part parts m m₁ m' cs ds called completes later ih =>
    rw [List.forall_mem_cons] at known
    have succeed := EntitlementStage.Succeed.of_completes (fun l hl => bound.tenant l (known.1 l hl))
      completes
    have later := ih (remembers.completed bound known.1 completes) known.2
    rw [List.map_append]
    refine .done (fun x hx => ?_) succeed later
    obtain ⟨y, hy, rfl⟩ := List.mem_map.mp hx
    exact List.mem_map_of_mem (called y hy)
  | @undone part parts m m₁ m' cs ds called undone later ih =>
    rw [List.forall_mem_cons] at known
    have here : ∀ x ∈ cs, x.1 ∈ leaves := fun x hx => known.1 _ (called x hx)
    obtain ⟨remembers, undone⟩ := undone.stages bound here remembers
    have later := ih remembers known.2
    rw [List.map_append]
    refine .undone (fun x hx => ?_) undone later
    obtain ⟨y, hy, rfl⟩ := List.mem_map.mp hx
    exact List.mem_map_of_mem (called y hy)

end

/-! ## Runs -/

namespace Service

variable {s : Service σ} {w : σ} {ids : FlowIds} {r : EntitlementRequest} {l : LoadedRequest}
  {plan : FlowPlan}

/-- If nothing is reported to have failed to be undone, what a run has done is undone as a whole, or
the tasks of the request are done or undone one after another. -/
theorem Prepared.run_settles (prepared : s.Prepared w ids r l plan)
    (distinct : Function.Injective ids.application)
    (complete : (s.runPlan w plan).report.withStatus .cancellationFailed = []) :
    EntitlementStage.Undone s.collaborators s.retry r.tenantId w (s.calls w plan)
        ((plan.flow.map (·.toStage s.collaborators s.retry)).run w).machine.world ∨
      ∃ tasks : List ApplicationTask, tasks.Nodup ∧
        (∀ t, t ∈ tasks ↔ FlowPlan.Planned l.input r.type t) ∧
        (∀ t ∈ tasks, ∃ work, t.work s.capabilities = .ok work) ∧
        EntitlementStage.Episodes s.collaborators s.retry r.tenantId
          (tasks.map (·.stages s.capabilities)) w (s.calls w plan)
          ((plan.flow.map (·.toStage s.collaborators s.retry)).run w).machine.world := by
  obtain ⟨going, coming, tasks, built⟩ := prepared.built
  have everywhere : ∀ l ∈ plan.flow.leaves,
      (l.stage.toStage s.collaborators s.retry).isCancellable := fun _ _ => rfl
  have undone : ∀ x ∈ (plan.flow.map (·.toStage s.collaborators s.retry)).moments w,
      x.event.isFailedRollback = false := by
    intro x hx
    by_contra failed
    exact Flow.run_reports_failedRollback hx (by simpa using failed) complete
  rcases Flow.run_settles (toStage_names s.collaborators s.retry) built.runs built.cancels everywhere
    undone with ⟨-, undone⟩ | episodes
  · exact .inl (undone_calls built distinct undone)
  · right
    refine ⟨tasks, built.distinct, built.planned, built.works, ?_⟩
    have within : ∀ part ∈ plan.flow.parts, ∀ l ∈ part, l ∈ plan.flow.leaves := by
      intro part hp l hl
      rw [← Flow.parts_flatten built.runs]
      exact List.mem_flatten.mpr ⟨part, hp, hl⟩
    rw [← built.parts]
    exact (episodes.stages (built.bound distinct) (remembers_empty _) within).filter

end Service

end Provisioning
