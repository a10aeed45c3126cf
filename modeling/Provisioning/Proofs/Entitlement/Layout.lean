import Mathlib.Data.List.Forall2
import Provisioning.Proofs.Entitlement.Tasks

/-!
# The flows of a flow plan

Each layer of applications becomes a group of flows, and each application that is processed exactly
one flow that is run. `FlowPlan.make_built` says which tasks the flow of a request does.
-/

namespace Provisioning

open FlowNode (flatIn stagesIn leavesIn allCancelIn)

namespace FlowPlan

/-- A flow has the nodes of one of the tasks, or none at all. -/
def Does (c : Capabilities) (tasks : List ApplicationTask) (f : ApplicationFlow) : Prop :=
  f.nodes = [] ∨ ∃ t ∈ tasks, ∃ w, t.work c = .ok w ∧ f.nodes = w.nodes

theorem Does.direct {c : Capabilities} {tasks : List ApplicationTask} {f : ApplicationFlow}
    (does : Does c tasks f) : Direct f.nodes := by
  obtain h | ⟨t, -, w, hw, h⟩ := does
  · rw [h]
    exact direct_nil
  · rw [h]
    exact (ApplicationTask.work_nodes hw).direct

theorem Does.mono {c : Capabilities} {ts us : List ApplicationTask} {f : ApplicationFlow}
    (does : Does c ts f) (h : ∀ t ∈ ts, t ∈ us) : Does c us f := by
  obtain nothing | ⟨t, ht, work⟩ := does
  · exact .inl nothing
  · exact .inr ⟨t, h t ht, work⟩

theorem does_append {c : Capabilities} {ts us : List ApplicationTask}
    {fs gs : List ApplicationFlow} (first : ∀ f ∈ fs, Does c ts f)
    (second : ∀ f ∈ gs, Does c us f) : ∀ f ∈ fs ++ gs, Does c (ts ++ us) f := by
  intro f hf
  rcases List.mem_append.mp hf with hf | hf
  · exact (first f hf).mono fun _ => List.mem_append_left us
  · exact (second f hf).mono fun _ => List.mem_append_right ts

/-- Flows, numbered from a place on, that do one task for each application of a list. -/
structure Realizes (c : Capabilities) (ids : FlowIds)
    (taskOf : Application → Except Refusal ApplicationTask) (start : Nat)
    (applications : List Application) (flows : List ApplicationFlow)
    (tasks : List ApplicationTask) : Prop where
  /-- There is a task for each application. -/
  taskOf : List.Forall₂ (fun a t => taskOf a = .ok t) applications tasks
  /-- Each task can be done. -/
  works : ∀ t ∈ tasks, ∃ w, t.work c = .ok w
  /-- One flow has the stages of each task, and the other flows have none. -/
  each : (flows.map (·.node.stages)).filter (!·.isEmpty) = tasks.map (·.stages c)
  /-- Each flow does one of the tasks. -/
  does : ∀ f ∈ flows, Does c tasks f
  /-- The flows are numbered. -/
  flowIds : flows.map (·.ref.flowId) = (List.range' start flows.length).map ids.application

namespace Realizes

variable {c : Capabilities} {ids : FlowIds} {taskOf : Application → Except Refusal ApplicationTask}
  {start : Nat} {as bs : List Application} {fs gs : List ApplicationFlow}
  {ts us : List ApplicationTask}

theorem nil : Realizes c ids taskOf start [] [] [] :=
  ⟨.nil, by simp, rfl, by simp, rfl⟩

theorem append (first : Realizes c ids taskOf start as fs ts)
    (second : Realizes c ids taskOf (start + fs.length) bs gs us) :
    Realizes c ids taskOf start (as ++ bs) (fs ++ gs) (ts ++ us) where
  taskOf := List.rel_append first.taskOf second.taskOf
  works := List.forall_mem_append.mpr ⟨first.works, second.works⟩
  each := by
    rw [List.map_append, List.filter_append, List.map_append, first.each, second.each]
  does := does_append first.does second.does
  flowIds := by
    rw [List.map_append, first.flowIds, second.flowIds, List.length_append, ← List.map_append]
    congr 1
    rw [← List.range'_append_1]

/-- The tasks are those of the applications. -/
theorem mem_tasks (h : Realizes c ids taskOf start as fs ts) (t : ApplicationTask) :
    t ∈ ts ↔ ∃ a ∈ as, taskOf a = .ok t := by
  have hf := h.taskOf
  clear h
  induction hf with
  | nil => simp
  | @cons a u as us head _ ih =>
    have here : t = u ↔ taskOf a = .ok t := by rw [head, Except.ok.injEq, eq_comm]
    rw [List.mem_cons, List.exists_mem_cons_iff]
    exact or_congr here ih

/-- The tasks are as many as the applications that they are about. -/
theorem nodup (h : Realizes c ids taskOf start as fs ts) (distinct : as.Nodup)
    (subject : ∀ a t, taskOf a = .ok t → t.subject = a) : ts.Nodup := by
  have subjects : ts.map (·.subject) = as := by
    have hf := h.taskOf
    clear h distinct
    induction hf with
    | nil => rfl
    | cons head _ ih => rw [List.map_cons, subject _ _ head, ih]
  exact List.Nodup.of_map _ (subjects ▸ distinct)

/-- Every application has a task. -/
theorem covers (h : Realizes c ids taskOf start as fs ts) {a : Application} (ha : a ∈ as) :
    ∃ t ∈ ts, taskOf a = .ok t := by
  have hf := h.taskOf
  clear h
  induction hf with
  | nil => simp at ha
  | cons head _ ih =>
    rcases List.mem_cons.mp ha with rfl | ha
    · exact ⟨_, List.mem_cons_self, head⟩
    · obtain ⟨t, ht, hta⟩ := ih ha
      exact ⟨t, List.mem_cons_of_mem _ ht, hta⟩

end Realizes

/-! ## Layers -/

/-- The flows for an application do its work once. -/
theorem flowsFor_realizes {c : Capabilities} {ids : FlowIds}
    {taskOf : Application → Except Refusal ApplicationTask} {a : Application} {t : ApplicationTask}
    {w : ApplicationWork} (ht : taskOf a = .ok t) (hw : t.work c = .ok w) (start : Nat)
    (repetitions : Nat) :
    Realizes c ids taskOf start [a] (flowsFor ids start a.id w repetitions) [t] where
  taskOf := .cons ht .nil
  works := fun t' ht' => ⟨w, by rwa [List.mem_singleton.mp ht']⟩
  each := by
    have some_stage : (t.stages c).isEmpty = false := by
      obtain ⟨before, deprecated, hb, -⟩ := (ApplicationTask.work_nodes hw).stages
      rw [ApplicationTask.stages_eq hw, hb]
      simp
    rw [ApplicationTask.stages_eq hw] at some_stage
    rw [flowsFor, List.range_succ_eq_map, List.map_singleton, ApplicationTask.stages_eq hw]
    simp [ApplicationFlow.node, FlowNode.stages, some_stage, Function.comp_def]
  does := by
    intro f hf
    obtain ⟨i, -, rfl⟩ := List.mem_map.mp hf
    by_cases hi : i = 0
    · exact .inr ⟨t, List.mem_singleton_self t, w, hw, if_pos hi⟩
    · exact .inl (if_neg hi)
  flowIds := by
    simp only [flowsFor, List.map_map, List.length_map, List.length_range, List.range'_eq_map_range]
    rfl

namespace Layout

variable {c : Capabilities} {ids : FlowIds} {taskOf : Application → Except Refusal ApplicationTask}
  {l : Layout}

theorem layerFlows_realizes
    (identified : ∀ id a, l.applications.get? id = some a → a.id = id)
    (work : ∀ a w, l.work a = .ok w → ∃ t, taskOf a = .ok t ∧ t.work c = .ok w)
    {start : Nat} {layer : List String} {flows : List ApplicationFlow}
    (h : l.layerFlows ids start layer = .ok flows) :
    ∃ tasks, Realizes c ids taskOf start (layer.filterMap l.applications.get?) flows tasks := by
  induction layer generalizing start flows with
  | nil =>
    simp only [layerFlows, Except.ok.injEq] at h
    exact ⟨[], h ▸ .nil⟩
  | cons id rest ih =>
    rw [layerFlows] at h
    cases ha : l.applications.get? id with
    | none =>
      simp only [ha] at h
      simpa [ha] using ih h
    | some a =>
      simp only [ha] at h
      obtain ⟨w, hw, h⟩ := Except.bind_eq_ok.mp h
      obtain ⟨later, hlater, h⟩ := Except.bind_eq_ok.mp h
      obtain rfl := Except.ok.inj h
      obtain ⟨t, ht, htw⟩ := work a w hw
      obtain ⟨tasks, later⟩ := ih hlater
      have first : Realizes c ids taskOf start [a] (flowsFor ids start a.id w (l.repetitions id))
          [t] := flowsFor_realizes ht htw start (l.repetitions id)
      rw [identified id a ha] at first
      rw [List.filterMap_cons_some ha]
      exact ⟨[t] ++ tasks, first.append later⟩

theorem allFlows_realizes
    (identified : ∀ id a, l.applications.get? id = some a → a.id = id)
    (work : ∀ a w, l.work a = .ok w → ∃ t, taskOf a = .ok t ∧ t.work c = .ok w)
    {start : Nat} {layers : List (List String)} {flows : List (List ApplicationFlow)}
    (h : l.allFlows ids start layers = .ok flows) :
    ∃ tasks, Realizes c ids taskOf start (layers.flatten.filterMap l.applications.get?)
      flows.flatten tasks := by
  induction layers generalizing start flows with
  | nil =>
    simp only [allFlows, Except.ok.injEq] at h
    exact ⟨[], h ▸ .nil⟩
  | cons layer rest ih =>
    rw [allFlows, Except.bind_eq_ok] at h
    obtain ⟨first, hfirst, h⟩ := h
    obtain ⟨later, hlater, h⟩ := Except.bind_eq_ok.mp h
    obtain rfl := Except.ok.inj h
    obtain ⟨ts, first⟩ := layerFlows_realizes identified work hfirst
    obtain ⟨us, later⟩ := ih hlater
    rw [List.flatten_cons, List.filterMap_append, List.flatten_cons]
    exact ⟨ts ++ us, first.append later⟩

/-- What is built of layers are groups of flows. -/
theorem build_realizes (taskOf : Application → Except Refusal ApplicationTask)
    (identified : ∀ id a, l.applications.get? id = some a → a.id = id)
    (work : ∀ a w, l.work a = .ok w → ∃ t, taskOf a = .ok t ∧ t.work c = .ok w)
    {start : Nat} {layers : List (List String)} {nodes : StageNodes}
    {refs : List ApplicationFlowRef} (h : l.build ids start layers = .ok (nodes, refs)) :
    ∃ flows tasks, nodes = groups l.groupName flows ∧ refs = flows.flatten.map (·.ref) ∧
      Realizes c ids taskOf start (layers.flatten.filterMap l.applications.get?)
        flows.flatten tasks := by
  rw [build, Except.bind_eq_ok] at h
  obtain ⟨flows, hflows, h⟩ := h
  obtain ⟨rfl, rfl⟩ := Prod.mk.inj (Except.ok.inj h)
  obtain ⟨tasks, realizes⟩ := allFlows_realizes identified work hflows
  exact ⟨flows, tasks, rfl, rfl, realizes⟩

end Layout

/-! ## Groups -/

theorem stagesIn_map_node (flows : List ApplicationFlow) :
    stagesIn (flows.map (·.node)) = flows.flatMap (·.node.stages) := by
  induction flows with
  | nil => rfl
  | cons f rest ih => simp [stagesIn, ih]

theorem allCancelIn_map_node {flows : List ApplicationFlow} (flat : ∀ f ∈ flows, flatIn f.nodes) :
    allCancelIn (flows.map (·.node)) := by
  induction flows with
  | nil => rfl
  | cons f rest ih =>
    have first := FlowNode.allCancelIn_of_flatIn (flat f List.mem_cons_self)
    rw [List.map_cons, allCancelIn, ih fun g hg => flat g (List.mem_cons_of_mem _ hg)]
    simp [ApplicationFlow.node, FlowNode.allCancel, first]

theorem mem_leavesIn_map_node {info : FlowInfo} {path : String} {flows : List ApplicationFlow}
    {l : Leaf EntitlementStage} (hl : l ∈ leavesIn info path (flows.map (·.node))) :
    ∃ f ∈ flows, ∃ header nodes, f.node = .flow header nodes ∧
      l ∈ leavesIn (info.child header) (FlowNode.childPath path header.id) nodes := by
  induction flows with
  | nil => simp [leavesIn] at hl
  | cons f rest ih =>
    rw [List.map_cons, leavesIn, List.mem_append] at hl
    rcases hl with hl | hl
    · refine ⟨f, List.mem_cons_self, _, _, rfl, ?_⟩
      rw [ApplicationFlow.node, FlowNode.leaves] at hl
      split at hl
      · simp at hl
      · exact hl
    · obtain ⟨g, hg, found⟩ := ih hl
      exact ⟨g, List.mem_cons_of_mem _ hg, found⟩

theorem stagesIn_groups (groupName : String) (layers : List (List ApplicationFlow)) :
    stagesIn (groups groupName layers) = layers.flatten.flatMap (·.node.stages) := by
  suffices general : ∀ name : Nat → String, stagesIn (layers.mapIdx fun i flows =>
      .parallel (name i) (flows.map (·.node))) = layers.flatten.flatMap (·.node.stages) from
    general fun i => s!"{groupName}-l{i}"
  induction layers with
  | nil =>
    intro _
    rfl
  | cons flows rest ih =>
    intro name
    rw [List.mapIdx_cons, stagesIn, ih fun i => name (i + 1), FlowNode.stages, stagesIn_map_node,
      List.flatten_cons, List.flatMap_append]

theorem allCancelIn_groups (groupName : String) {layers : List (List ApplicationFlow)}
    (flat : ∀ f ∈ layers.flatten, flatIn f.nodes) : allCancelIn (groups groupName layers) := by
  suffices general : ∀ name : Nat → String, allCancelIn (layers.mapIdx fun i flows =>
      .parallel (name i) (flows.map (·.node))) from general fun i => s!"{groupName}-l{i}"
  induction layers with
  | nil =>
    intro _
    rfl
  | cons flows rest ih =>
    intro name
    have first : allCancelIn (flows.map (·.node)) :=
      allCancelIn_map_node fun f hf => flat f (by simp [hf])
    have later := ih (fun f hf => flat f (by simp [hf])) fun i => name (i + 1)
    rw [List.mapIdx_cons, allCancelIn, FlowNode.allCancel, first, later, Bool.true_and]

/-- Every stage of groups is in the flow of an application in one of the groups. -/
theorem mem_leavesIn_groups {groupName : String} {layers : List (List ApplicationFlow)}
    {info : FlowInfo} {path : String} {l : Leaf EntitlementStage}
    (hl : l ∈ leavesIn info path (groups groupName layers)) :
    ∃ i : Nat, ∃ f ∈ layers.flatten, ∃ header nodes, f.node = .flow header nodes ∧
      l ∈ leavesIn (info.child header)
        (FlowNode.childPath (FlowNode.childPath path s!"{groupName}-l{i}") header.id) nodes := by
  suffices general : ∀ name : Nat → String, l ∈ leavesIn info path (layers.mapIdx fun i flows =>
      .parallel (name i) (flows.map (·.node))) →
      ∃ i, ∃ f ∈ layers.flatten, ∃ header nodes, f.node = .flow header nodes ∧
        l ∈ leavesIn (info.child header)
          (FlowNode.childPath (FlowNode.childPath path (name i)) header.id) nodes from
    general (fun i : Nat => s!"{groupName}-l{i}") hl
  clear hl
  induction layers with
  | nil => simp [leavesIn]
  | cons flows rest ih =>
    intro name hl
    rw [List.mapIdx_cons, leavesIn, List.mem_append] at hl
    rcases hl with hl | hl
    · obtain ⟨f, hf, found⟩ := mem_leavesIn_map_node (by simpa [FlowNode.leaves] using hl)
      exact ⟨0, f, by simp [hf], found⟩
    · obtain ⟨i, f, hf, found⟩ := ih (fun i => name (i + 1)) hl
      exact ⟨i + 1, f, by simp [hf], found⟩

/-! ## Applications in layers -/

/-- The applications that layers of identifiers name, in the order of the layers. -/
def layered (applications : List Application) (layers : List (List String)) : List Application :=
  layers.flatten.filterMap (OrderedMap.ofList (applications.map fun a => (a.id, a))).get?

theorem layout_identified {applications : List Application} (id : String) (a : Application)
    (h : (OrderedMap.ofList (applications.map fun a => (a.id, a))).get? id = some a) :
    a.id = id :=
  (OrderedMap.mem_of_get?_keyed h).2

theorem mem_of_layered {applications : List Application} {layers : List (List String)}
    {a : Application} (h : a ∈ layered applications layers) : a ∈ applications := by
  obtain ⟨id, -, ha⟩ := List.mem_filterMap.mp h
  exact (OrderedMap.mem_of_get?_keyed ha).1

theorem mem_layered {applications : List Application} {layers : List (List String)}
    (nodup : (applications.map (·.id)).Nodup)
    (perm : layers.flatten.Perm (applications.map (·.id))) (a : Application) :
    a ∈ layered applications layers ↔ a ∈ applications := by
  refine ⟨mem_of_layered, fun ha => List.mem_filterMap.mpr ⟨a.id, ?_, ?_⟩⟩
  · exact perm.mem_iff.mpr (List.mem_map_of_mem ha)
  · exact (OrderedMap.get?_keyed nodup).mpr ⟨ha, rfl⟩

theorem nodup_layered {applications : List Application} {layers : List (List String)}
    (nodup : (applications.map (·.id)).Nodup)
    (perm : layers.flatten.Perm (applications.map (·.id))) :
    (layered applications layers).Nodup := by
  refine List.Nodup.filterMap (fun id id' a h h' => ?_) (perm.nodup_iff.mpr nodup)
  exact (layout_identified id a h).symm.trans (layout_identified id' a h')

/-! ## The tasks of a request -/

/-- The tasks that a request calls for. -/
inductive Planned (input : FlowInput) : EntitlementType → ApplicationTask → Prop where
  /-- A requested application comes. -/
  | entitle {a : Application} (requested : a ∈ input.applications) :
      Planned input .entitle (.entitle a)
  /-- A requested application goes. -/
  | revoke {a : Application} (requested : a ∈ input.applications) :
      Planned input .revoke (.revoke a)
  /-- A requested application takes the place of the version that the tenant has. -/
  | upgrade {a old : Application} (requested : a ∈ input.applications)
      (installed : installedVersion input.entitled a = .ok old) :
      Planned input .upgrade (.upgrade old a)
  /-- An application that is no longer desired goes. -/
  | stateRevoke {plan : TransitionPlan} {a : Application} (planned : input.plan = some plan)
      (entitled : a ∈ input.entitled) (goes : a.name ∈ plan.revoke) :
      Planned input .state (.revoke a)
  /-- A desired application takes the place of another version. -/
  | stateUpgrade {plan : TransitionPlan} {a old : Application} (planned : input.plan = some plan)
      (requested : a ∈ input.applications) (changes : a.name ∈ plan.upgrade)
      (installed : installedVersion input.entitled a = .ok old) :
      Planned input .state (.upgrade old a)
  /-- A desired application comes. -/
  | stateEntitle {plan : TransitionPlan} {a : Application} (planned : input.plan = some plan)
      (requested : a ∈ input.applications) (comes : a.name ∈ plan.entitle)
      (new : a.name ∉ plan.upgrade) :
      Planned input .state (.entitle a)

theorem ofRefusal_eq_ok {α : Type} {x : Except Refusal α} {a : α} :
    Failure.ofRefusal x = .ok a ↔ x = .ok a :=
  Except.mapError_eq_ok

/-- The task that puts an application in the place of the version that the tenant has. -/
def upgradeTask (entitled : List Application) (a : Application) : Except Refusal ApplicationTask :=
  (installedVersion entitled a).map (.upgrade · a)

theorem upgradeTask_eq_ok {entitled : List Application} {a : Application} {t : ApplicationTask} :
    upgradeTask entitled a = .ok t ↔
      ∃ old, installedVersion entitled a = .ok old ∧ t = .upgrade old a := by
  unfold upgradeTask
  cases installedVersion entitled a <;> simp [Except.map, eq_comm]

theorem upgradeTask_subject {entitled : List Application} {a : Application} {t : ApplicationTask}
    (h : upgradeTask entitled a = .ok t) : t.subject = a := by
  obtain ⟨old, -, rfl⟩ := upgradeTask_eq_ok.mp h
  rfl

theorem upgradeTask_work {c : Capabilities} {entitled : List Application} {a : Application}
    {w : ApplicationWork}
    (h : (do upgradeWork c a (← installedVersion entitled a)) = Except.ok w) :
    ∃ t, upgradeTask entitled a = .ok t ∧ t.work c = .ok w := by
  obtain ⟨old, hold, h⟩ := Except.bind_eq_ok.mp h
  exact ⟨.upgrade old a, upgradeTask_eq_ok.mpr ⟨old, hold, rfl⟩, h⟩

/-- The task for an application of a state that comes. -/
def stateTask (entitled : List Application) (p : TransitionPlan) (a : Application) :
    Except Refusal ApplicationTask :=
  if p.upgrade.contains a.name then upgradeTask entitled a else .ok (.entitle a)

theorem stateTask_cases {entitled : List Application} {p : TransitionPlan} {a : Application}
    {t : ApplicationTask} (h : stateTask entitled p a = .ok t) :
    t = .entitle a ∨ ∃ old, t = .upgrade old a := by
  unfold stateTask at h
  split at h
  · obtain ⟨old, -, rfl⟩ := upgradeTask_eq_ok.mp h
    exact .inr ⟨old, rfl⟩
  · exact .inl (Except.ok.inj h).symm

theorem stateTask_subject {entitled : List Application} {p : TransitionPlan} {a : Application}
    {t : ApplicationTask} (h : stateTask entitled p a = .ok t) : t.subject = a := by
  rcases stateTask_cases h with rfl | ⟨old, rfl⟩ <;> rfl

theorem stateTask_work {c : Capabilities} {entitled : List Application} {p : TransitionPlan}
    {a : Application} {w : ApplicationWork}
    (h : (if p.upgrade.contains a.name then do upgradeWork c a (← installedVersion entitled a)
      else entitleWork c a) = Except.ok w) :
    ∃ t, stateTask entitled p a = .ok t ∧ t.work c = .ok w := by
  unfold stateTask
  split at h
  · rename_i changes
    rw [if_pos changes]
    exact upgradeTask_work h
  · rename_i stays
    rw [if_neg stays]
    exact ⟨.entitle a, rfl, h⟩

/-- The task for an application that a request names, if it is not for a state. -/
def requestTask (entitled : List Application) (a : Application) :
    EntitlementType → Except Refusal ApplicationTask
  | .revoke => .ok (.revoke a)
  | .upgrade => upgradeTask entitled a
  | .entitle | .state => .ok (.entitle a)

theorem requestTask_subject {entitled : List Application} {a : Application}
    {type : EntitlementType} {t : ApplicationTask} (h : requestTask entitled a type = .ok t) :
    t.subject = a := by
  cases type with
  | upgrade => exact upgradeTask_subject h
  | entitle | revoke | state =>
    obtain rfl := Except.ok.inj h
    rfl

/-- What a request for another type calls for, application by application. -/
theorem planned_request_iff {input : FlowInput} {type : EntitlementType} (no_state : type ≠ .state)
    {t : ApplicationTask} :
    Planned input type t ↔
      ∃ a ∈ input.applications, requestTask input.entitled a type = .ok t := by
  constructor
  · intro ht
    cases ht with
    | entitle ha => exact ⟨_, ha, rfl⟩
    | revoke ha => exact ⟨_, ha, rfl⟩
    | upgrade ha hold => exact ⟨_, ha, upgradeTask_eq_ok.mpr ⟨_, hold, rfl⟩⟩
    | stateRevoke | stateUpgrade | stateEntitle => exact absurd rfl no_state
  · rintro ⟨a, ha, ht⟩
    cases type with
    | entitle =>
      obtain rfl := Except.ok.inj ht
      exact .entitle ha
    | revoke =>
      obtain rfl := Except.ok.inj ht
      exact .revoke ha
    | upgrade =>
      obtain ⟨old, hold, rfl⟩ := upgradeTask_eq_ok.mp ht
      exact .upgrade ha hold
    | state => exact absurd rfl no_state

/-- The applications of the tenant that go when a state is brought about. -/
def revoked (input : FlowInput) (p : TransitionPlan) : List Application :=
  input.entitled.filter fun a => p.revoke.contains a.name

/-- The requested applications that come then. -/
def targets (input : FlowInput) (p : TransitionPlan) : List Application :=
  input.applications.filter fun a => p.entitle.contains a.name || p.upgrade.contains a.name

/-- What a request for a state calls for, application by application. -/
theorem planned_state_iff {input : FlowInput} {p : TransitionPlan} (planned : input.plan = some p)
    {t : ApplicationTask} :
    Planned input .state t ↔
      (∃ a ∈ revoked input p, .revoke a = t) ∨
        ∃ a ∈ targets input p, stateTask input.entitled p a = .ok t := by
  simp only [revoked, targets, List.mem_filter, Bool.or_eq_true, List.contains_iff_mem]
  constructor
  · intro ht
    cases ht with
    | @stateRevoke _ a hp ha goes =>
      obtain rfl := Option.some.inj (planned.symm.trans hp)
      exact .inl ⟨a, ⟨ha, goes⟩, rfl⟩
    | @stateUpgrade _ a old hp ha changes hold =>
      obtain rfl := Option.some.inj (planned.symm.trans hp)
      refine .inr ⟨a, ⟨ha, .inr changes⟩, ?_⟩
      rw [stateTask, if_pos (List.contains_iff_mem.mpr changes)]
      exact upgradeTask_eq_ok.mpr ⟨old, hold, rfl⟩
    | @stateEntitle _ a hp ha comes new =>
      obtain rfl := Option.some.inj (planned.symm.trans hp)
      refine .inr ⟨a, ⟨ha, .inl comes⟩, ?_⟩
      rw [stateTask, if_neg fun h => new (List.contains_iff_mem.mp h)]
  · rintro (⟨a, ⟨ha, goes⟩, rfl⟩ | ⟨a, ⟨ha, comes⟩, ht⟩)
    · exact .stateRevoke planned ha goes
    · unfold stateTask at ht
      split at ht <;> rename_i changes <;> rw [List.contains_iff_mem] at changes
      · obtain ⟨old, hold, rfl⟩ := upgradeTask_eq_ok.mp ht
        exact .stateUpgrade planned ha changes hold
      · obtain rfl := Except.ok.inj ht
        exact .stateEntitle planned ha (comes.resolve_right changes) changes

/-! ## What a flow plan is built of -/

/-- The layers in which a request processes the applications that it names, if it is not for a
state. -/
def requestLayers (type : EntitlementType) (applications : List Application) :
    Except Refusal (List (List String)) :=
  if type = .revoke then
    (InstallationGraph.ofApplications applications).removalLayers
  else
    (InstallationGraph.ofApplications applications).installationLayers

theorem requestLayers_perm {type : EntitlementType} {applications : List Application}
    {layers : List (List String)} (nodup : (applications.map (·.id)).Nodup)
    (h : requestLayers type applications = .ok layers) :
    layers.flatten.Perm (applications.map (·.id)) := by
  unfold requestLayers at h
  split at h
  · exact InstallationGraph.removalLayers_perm nodup h
  · exact InstallationGraph.installationLayers_perm nodup h

section

variable {c : Capabilities} {ids : FlowIds} {r : EntitlementRequest} {input : FlowInput}
  {plan : FlowPlan} {p : TransitionPlan} {nodes : StageNodes} {refs : List ApplicationFlowRef}

theorem make_eq_ok (h : make c ids r input = .ok plan) :
    plan.flow.header = rootHeader ids r ∧
      requestNodes c ids r input = .ok (plan.flow.nodes, plan.applicationFlows) := by
  rw [make, Except.bind_eq_ok] at h
  obtain ⟨made, hmade, h⟩ := h
  obtain rfl := Except.ok.inj h
  exact ⟨rfl, hmade⟩

theorem requestNodes_state (state : r.type = .state)
    (h : requestNodes c ids r input = .ok (nodes, refs)) :
    ∃ p, input.plan = some p ∧ stateNodes c ids input p = .ok (nodes, refs) := by
  unfold requestNodes at h
  simp only [state] at h
  cases hplan : input.plan with
  | none => simp [hplan] at h
  | some p =>
    simp only [hplan, ofRefusal_eq_ok] at h
    exact ⟨p, rfl, h⟩

/-- A request that is not for a state has a task for each application that it names. -/
theorem requestNodes_layout (no_state : r.type ≠ .state)
    (h : requestNodes c ids r input = .ok (nodes, refs)) :
    ∃ work layers, requestLayers r.type input.applications = .ok layers ∧
      (∀ a w, work a = .ok w →
        ∃ t, requestTask input.entitled a r.type = .ok t ∧ t.work c = .ok w) ∧
      (layout r input.applications work).build ids 0 layers = .ok (nodes, refs) := by
  unfold requestNodes at h
  cases htype : r.type with
  | entitle =>
    simp only [htype, ofRefusal_eq_ok, Except.bind_eq_ok] at h
    obtain ⟨layers, hlayers, h⟩ := h
    exact ⟨_, layers, hlayers, fun a w hw => ⟨.entitle a, rfl, hw⟩, h⟩
  | revoke =>
    simp only [htype, ofRefusal_eq_ok, Except.bind_eq_ok] at h
    obtain ⟨layers, hlayers, h⟩ := h
    exact ⟨_, layers, hlayers, fun a w hw => ⟨.revoke a, rfl, hw⟩, h⟩
  | upgrade =>
    simp only [htype, ofRefusal_eq_ok, Except.bind_eq_ok] at h
    obtain ⟨layers, hlayers, h⟩ := h
    exact ⟨_, layers, hlayers, fun a w => upgradeTask_work, h⟩
  | state => exact absurd htype no_state

/-- A request for a state has a task for each application that goes, and then one for each that
comes. -/
theorem stateNodes_layouts (h : stateNodes c ids input p = .ok (nodes, refs)) :
    ∃ work goingLayers going comingLayers coming,
      (InstallationGraph.ofApplications (revoked input p)).removalLayers = .ok goingLayers ∧
      (stateLayout revokedGroup (revoked input p) (revokeWork c)).build ids 0 goingLayers
        = .ok going ∧
      (InstallationGraph.ofApplications (targets input p)).installationLayers = .ok comingLayers ∧
      (∀ a w, work a = .ok w →
        ∃ t, stateTask input.entitled p a = .ok t ∧ t.work c = .ok w) ∧
      (stateLayout requestedGroup (targets input p) work).build ids going.2.length comingLayers
        = .ok coming ∧
      nodes = going.1 ++ coming.1 ∧ refs = going.2 ++ coming.2 := by
  rw [stateNodes, Except.bind_eq_ok] at h
  obtain ⟨goingLayers, hgoingLayers, h⟩ := h
  obtain ⟨going, hgoing, h⟩ := Except.bind_eq_ok.mp h
  obtain ⟨comingLayers, hcomingLayers, h⟩ := Except.bind_eq_ok.mp h
  obtain ⟨coming, hcoming, h⟩ := Except.bind_eq_ok.mp h
  obtain ⟨rfl, rfl⟩ := Prod.mk.inj (Except.ok.inj h)
  exact ⟨_, goingLayers, going, comingLayers, coming, hgoingLayers, hgoing, hcomingLayers,
    fun a w => stateTask_work, hcoming, rfl, rfl⟩

/-- The flows of what goes in a state and of what comes are numbered one after another. -/
theorem stateNodes_realizes (h : stateNodes c ids input p = .ok (nodes, refs)) :
    ∃ goingLayers comingLayers going coming ts us,
      (InstallationGraph.ofApplications (revoked input p)).removalLayers = .ok goingLayers ∧
      (InstallationGraph.ofApplications (targets input p)).installationLayers = .ok comingLayers ∧
      nodes = groups revokedGroup going ++ groups requestedGroup coming ∧
      Realizes c ids (fun a => .ok (.revoke a)) 0 (layered (revoked input p) goingLayers)
        going.flatten ts ∧
      Realizes c ids (stateTask input.entitled p) going.flatten.length
        (layered (targets input p) comingLayers) coming.flatten us ∧
      (going.flatten ++ coming.flatten).map (·.ref.flowId)
        = (List.range' 0 (going.flatten ++ coming.flatten).length).map ids.application := by
  obtain ⟨work, goingLayers, built, comingLayers, built', hgoingLayers, hgoing, hcomingLayers,
    does, hcoming, rfl, -⟩ := stateNodes_layouts h
  obtain ⟨going, ts, hn, hr, goes⟩ := Layout.build_realizes
    (fun a => .ok (.revoke a)) layout_identified (fun a w hw => ⟨_, rfl, hw⟩) hgoing
  have numbered : built.2.length = going.flatten.length := by rw [hr, List.length_map]
  rw [numbered] at hcoming
  obtain ⟨coming, us, hn', -, comes⟩ := Layout.build_realizes
    (stateTask input.entitled p) layout_identified does hcoming
  refine ⟨goingLayers, comingLayers, going, coming, ts, us, hgoingLayers, hcomingLayers, ?_, goes,
    comes, ?_⟩
  · rw [hn, hn']
    rfl
  · rw [List.map_append, goes.flowIds, comes.flowIds, ← List.map_append, List.length_append]
    congr 1
    simpa using List.range'_append_1 (s := 0)

end

/-! ## The tasks of a flow plan -/

/-- A flow plan whose flow has groups of applications that go and of applications that come, and
does the tasks. -/
structure Built (c : Capabilities) (ids : FlowIds) (r : EntitlementRequest) (input : FlowInput)
    (plan : FlowPlan) (going coming : List (List ApplicationFlow)) (tasks : List ApplicationTask) :
    Prop where
  /-- The flow carries out the request. -/
  header : plan.flow.header = rootHeader ids r
  /-- It has the groups. -/
  nodes : plan.flow.nodes = groups revokedGroup going ++ groups requestedGroup coming
  /-- The flow of an application does one of the tasks. -/
  does : ∀ f ∈ going.flatten ++ coming.flatten, Does c tasks f
  /-- The flows are numbered. -/
  flowIds : (going.flatten ++ coming.flatten).map (·.ref.flowId)
    = (List.range' 0 (going.flatten ++ coming.flatten).length).map ids.application
  /-- One flow has the stages of each task, and the other flows have none. -/
  each : ((going.flatten ++ coming.flatten).map (·.node.stages)).filter (!·.isEmpty)
    = tasks.map (·.stages c)
  /-- No task is there twice. -/
  distinct : tasks.Nodup
  /-- Each task can be done. -/
  works : ∀ t ∈ tasks, ∃ w, t.work c = .ok w
  /-- The tasks are those that the request calls for. -/
  planned : ∀ t, t ∈ tasks ↔ Planned input r.type t
  /-- There is a version to upgrade for each application that is to be upgraded. -/
  installed : ∀ a ∈ input.applications,
    r.type = .upgrade ∨ r.type = .state ∧ (∃ p, input.plan = some p ∧ a.name ∈ p.upgrade) →
      ∃ old, installedVersion input.entitled a = .ok old

/-- Layers of requested applications become groups that come. -/
theorem Built.ofRequested {c : Capabilities} {ids : FlowIds} {r : EntitlementRequest}
    {input : FlowInput} {plan : FlowPlan} (requested : (input.applications.map (·.id)).Nodup)
    (no_state : r.type ≠ .state) (header : plan.flow.header = rootHeader ids r)
    (h : requestNodes c ids r input = .ok (plan.flow.nodes, plan.applicationFlows)) :
    ∃ going coming tasks, Built c ids r input plan going coming tasks := by
  obtain ⟨work, layers, hlayers, does, built⟩ := requestNodes_layout no_state h
  obtain ⟨coming, tasks, nodes, -, realizes⟩ :=
    Layout.build_realizes (requestTask input.entitled · r.type) layout_identified does built
  have perm := requestLayers_perm requested hlayers
  have covered := mem_layered requested perm
  refine ⟨[], coming, tasks, header, by rw [nodes]; rfl, by simpa using realizes.does,
    by simpa using realizes.flowIds, by simpa using realizes.each,
    realizes.nodup (nodup_layered requested perm) fun a t => requestTask_subject,
    realizes.works, ?_, ?_⟩
  · intro t
    rw [realizes.mem_tasks, planned_request_iff no_state]
    exact exists_congr fun a => and_congr_left' (covered a)
  · intro a ha needed
    have upgrade := needed.resolve_right fun h => no_state h.1
    obtain ⟨t, -, ht⟩ := realizes.covers ((covered a).mpr ha)
    rw [upgrade] at ht
    obtain ⟨old, hold, -⟩ := upgradeTask_eq_ok.mp ht
    exact ⟨old, hold⟩

/-- Layers of what goes and of what comes in a state become groups of both kinds. -/
theorem Built.ofState {c : Capabilities} {ids : FlowIds} {r : EntitlementRequest}
    {input : FlowInput} {plan : FlowPlan} {p : TransitionPlan} {refs : List ApplicationFlowRef}
    (requested : (input.applications.map (·.id)).Nodup)
    (entitled : (input.entitled.map (·.id)).Nodup) (state : r.type = .state)
    (planned : input.plan = some p) (header : plan.flow.header = rootHeader ids r)
    (h : stateNodes c ids input p = .ok (plan.flow.nodes, refs)) :
    ∃ going coming tasks, Built c ids r input plan going coming tasks := by
  obtain ⟨goingLayers, comingLayers, going, coming, ts, us, hgoing, hcoming, nodes, goes, comes,
    flowIds⟩ := stateNodes_realizes h
  have goingIds : ((revoked input p).map (·.id)).Nodup :=
    entitled.sublist ((List.filter_sublist).map _)
  have comingIds : ((targets input p).map (·.id)).Nodup :=
    requested.sublist ((List.filter_sublist).map _)
  have goingPerm := InstallationGraph.removalLayers_perm goingIds hgoing
  have comingPerm := InstallationGraph.installationLayers_perm comingIds hcoming
  refine ⟨going, coming, ts ++ us, header, nodes, does_append goes.does comes.does, flowIds, ?_, ?_,
    List.forall_mem_append.mpr ⟨goes.works, comes.works⟩, ?_, ?_⟩
  · rw [List.map_append, List.filter_append, goes.each, comes.each, ← List.map_append]
  · have goingNodup := goes.nodup (nodup_layered goingIds goingPerm) fun a t ht =>
      (Except.ok.inj ht) ▸ rfl
    have comingNodup := comes.nodup (nodup_layered comingIds comingPerm) fun a t =>
      stateTask_subject
    refine List.nodup_append.mpr ⟨goingNodup, comingNodup, ?_⟩
    rintro t ht t' ht' rfl
    obtain ⟨a, -, hr⟩ := (goes.mem_tasks t).mp ht
    obtain ⟨b, -, hs⟩ := (comes.mem_tasks t).mp ht'
    obtain rfl := Except.ok.inj hr
    rcases stateTask_cases hs with h | ⟨old, h⟩ <;> cases h
  · intro t
    have revokes (a : Application) :
        (.ok (.revoke a) : Except Refusal _) = .ok t ↔ .revoke a = t := by simp
    have gone := exists_congr fun a => and_congr (mem_layered goingIds goingPerm a) (revokes a)
    have come := exists_congr fun a => and_congr_left' (c := stateTask input.entitled p a = .ok t)
      (mem_layered comingIds comingPerm a)
    rw [List.mem_append, goes.mem_tasks, comes.mem_tasks, state, planned_state_iff planned]
    exact or_congr gone come
  · intro a ha needed
    obtain ⟨-, p', hp', changes⟩ := needed.resolve_left (by simp [state])
    obtain rfl := Option.some.inj (planned.symm.trans hp')
    have target : a ∈ targets input p := by simp [targets, ha, changes]
    obtain ⟨t, -, ht⟩ := comes.covers ((mem_layered comingIds comingPerm a).mpr target)
    rw [stateTask, if_pos (List.contains_iff_mem.mpr changes)] at ht
    obtain ⟨old, hold, -⟩ := upgradeTask_eq_ok.mp ht
    exact ⟨old, hold⟩

/-- The flow of a request does the tasks that the request calls for. -/
theorem make_built {c : Capabilities} {ids : FlowIds} {r : EntitlementRequest} {input : FlowInput}
    {plan : FlowPlan} (requested : (input.applications.map (·.id)).Nodup)
    (entitled : (input.entitled.map (·.id)).Nodup) (h : make c ids r input = .ok plan) :
    ∃ going coming tasks, Built c ids r input plan going coming tasks := by
  obtain ⟨header, h⟩ := make_eq_ok h
  by_cases state : r.type = .state
  · obtain ⟨p, planned, h⟩ := requestNodes_state state h
    exact Built.ofState requested entitled state planned header h
  · exact Built.ofRequested requested state header h

/-- The outermost flow of a request names the tenant. -/
theorem root_tenant (ids : FlowIds) (r : EntitlementRequest) :
    (FlowInfo.root (rootHeader ids r)).scope.text? tenantParam = some r.tenantId := by
  have types : tenantParam ≠ typeParam := by decide
  have purge : tenantParam ≠ purgeParam := by decide
  simp [Scope.text?, Scope.get?, FlowInfo.root, rootHeader, OrderedMap.ofList,
    OrderedMap.get?_insert, types, purge, Data.text?]

/-- The flow of an application sees the tenant of the flow around it. -/
theorem tenant_of_child (info : FlowInfo) (id applicationId type : String)
    (skipReason : Option String) :
    (info.child
      { id
        params := .ofList [(applicationIdParam, .text applicationId), (typeParam, .text type)]
        skipReason }).scope.text? tenantParam = info.scope.text? tenantParam := by
  have types : tenantParam ≠ typeParam := by decide
  have applications : tenantParam ≠ applicationIdParam := by decide
  simp [Scope.text?, Scope.get?, FlowInfo.child, OrderedMap.ofList, OrderedMap.get?_insert, types,
    applications]

namespace Built

variable {c : Capabilities} {ids : FlowIds} {r : EntitlementRequest} {input : FlowInput}
  {plan : FlowPlan} {going coming : List (List ApplicationFlow)} {tasks : List ApplicationTask}

/-- Whatever the request says about failures, the flow of an application cancels on them. -/
theorem cancels (built : Built c ids r input plan going coming tasks) :
    allCancelIn plan.flow.nodes := by
  have first := allCancelIn_groups revokedGroup fun f hf =>
    (built.does f (List.mem_append_left _ hf)).direct.flat
  have second := allCancelIn_groups requestedGroup fun f hf =>
    (built.does f (List.mem_append_right _ hf)).direct.flat
  rw [built.nodes]
  generalize groups revokedGroup going = ns at first
  induction ns with
  | nil => exact second
  | cons node rest ih =>
    rw [allCancelIn, Bool.and_eq_true] at first
    rw [List.cons_append, allCancelIn, first.1, ih first.2, Bool.true_and]

theorem closed (built : Built c ids r input plan going coming tasks) {β : Type}
    (f : EntitlementStage → β) : (plan.flow.map f).cancelClosed := by
  have cancels : allCancelIn (plan.flow.map f).nodes := by
    rw [Flow.map, FlowNode.allCancelIn_map]
    exact built.cancels
  unfold Flow.cancelClosed FlowNode.cancelClosed
  cases (plan.flow.map f).header.strategy with
  | cancelOnError => exact cancels
  | ignoreOnError => exact FlowNode.cancelClosedIn_of_allCancelIn cancels

theorem runs (built : Built c ids r input plan going coming tasks) :
    plan.flow.header.skipReason = none := by rw [built.header, rootHeader]

theorem stages (built : Built c ids r input plan going coming tasks) :
    (going.flatten ++ coming.flatten).flatMap (·.node.stages) = tasks.flatMap (·.stages c) := by
  rw [List.flatMap_def, ← List.flatten_filter_not_isEmpty, built.each, List.flatMap_def]

/-- The stages of the flow are those of the tasks. -/
theorem leaves_stages (built : Built c ids r input plan going coming tasks) :
    plan.flow.leaves.map (·.stage) = tasks.flatMap (·.stages c) := by
  simp only [Flow.leaves, built.runs, Option.isSome_none, Bool.false_eq_true, ↓reduceIte]
  rw [FlowNode.leavesIn_stages, built.nodes, FlowNode.stagesIn_append, stagesIn_groups,
    stagesIn_groups, ← List.flatMap_append, built.stages]

/-- Each stage of the flow is a stage of a task. -/
theorem mem_leaves (built : Built c ids r input plan going coming tasks)
    {l : Leaf EntitlementStage} (hl : l ∈ plan.flow.leaves) :
    ∃ t ∈ tasks, l.stage ∈ t.stages c := by
  have hs : l.stage ∈ plan.flow.leaves.map (·.stage) := List.mem_map_of_mem hl
  rwa [built.leaves_stages, List.mem_flatMap] at hs

/-- Each stage of the flow is in the flow of an application in a group. -/
theorem mem_leaves_flow (built : Built c ids r input plan going coming tasks)
    {l : Leaf EntitlementStage} (hl : l ∈ plan.flow.leaves) :
    ∃ (groupName : String) (i : Nat), groupName ∈ [revokedGroup, requestedGroup] ∧
      ∃ f ∈ going.flatten ++ coming.flatten, ∃ header, f.node = .flow header f.nodes ∧
        l ∈ leavesIn ((FlowInfo.root (rootHeader ids r)).child header)
          (FlowNode.childPath (FlowNode.childPath ids.root s!"{groupName}-l{i}") f.ref.flowId)
          f.nodes := by
  simp only [Flow.leaves, built.runs, Option.isSome_none, Bool.false_eq_true, ↓reduceIte] at hl
  rw [built.nodes, FlowNode.leavesIn_append, List.mem_append, Flow.id, built.header] at hl
  rcases hl with hl | hl
  · obtain ⟨i, f, hf, header, nodes, hn, hl⟩ := mem_leavesIn_groups hl
    obtain ⟨rfl, rfl⟩ := FlowNode.flow.inj hn
    exact ⟨_, i, by simp, f, List.mem_append_left _ hf, _, rfl, hl⟩
  · obtain ⟨i, f, hf, header, nodes, hn, hl⟩ := mem_leavesIn_groups hl
    obtain ⟨rfl, rfl⟩ := FlowNode.flow.inj hn
    exact ⟨_, i, by simp, f, List.mem_append_right _ hf, _, rfl, hl⟩

/-- Each stage of the flow sees the tenant of the request. -/
theorem tenant (built : Built c ids r input plan going coming tasks)
    {l : Leaf EntitlementStage} (hl : l ∈ plan.flow.leaves) :
    l.scope.text? tenantParam = some r.tenantId := by
  obtain ⟨groupName, i, -, f, hf, header, hn, hl⟩ := built.mem_leaves_flow hl
  obtain ⟨rfl, -⟩ := FlowNode.flow.inj hn
  rw [FlowNode.scope_of_flatIn (built.does f hf).direct.flat hl]
  rw [tenant_of_child]
  exact root_tenant ids r

end Built

end FlowPlan

end Provisioning
