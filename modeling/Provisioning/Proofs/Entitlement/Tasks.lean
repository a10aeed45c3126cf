import Provisioning.Entitlement.FlowPlan
import Provisioning.Proofs.Flow.Leaves
import Provisioning.Proofs.Layering.Coverage

/-!
# Tasks of a flow plan

A flow plan does one task for each application that it processes: it entitles the tenant to it,
revokes it, or puts it in the place of another version. The stages of a task change modules, the
routes and the auth resources of the application, and at the end of it the entitlement.
-/

namespace Provisioning

namespace EntitlementStage

/-- Whether the stage makes changes that it holds. -/
def makesChanges : EntitlementStage → Bool
  | module _ | installBatch _ | uninstallBatch _ => true
  | _ => false

/-- Whether the stage changes modules. -/
def changesModules : EntitlementStage → Bool
  | deprecatedModules _ => true
  | s => s.makesChanges

/-- Whether the stage changes an entitlement. -/
def changesEntitlement : EntitlementStage → Bool
  | saveEntitlement _ | removeEntitlement _ | updateEntitlement _ _ => true
  | _ => false

end EntitlementStage

/-- What is done with an application. -/
inductive ApplicationTask where
  /-- The tenant gets the application. -/
  | entitle (a : Application)
  /-- The tenant loses the application. -/
  | revoke (a : Application)
  /-- The tenant gets an application in the place of another version. -/
  | upgrade (old a : Application)
deriving DecidableEq, Repr

namespace ApplicationTask

/-- The application that the task is about. -/
def subject : ApplicationTask → Application
  | entitle a | revoke a | upgrade _ a => a

/-- What is done with the application. -/
def type : ApplicationTask → EntitlementType
  | entitle _ => .entitle
  | revoke _ => .revoke
  | upgrade _ _ => .upgrade

/-- The version that the tenant has in its place. -/
def replaced? : ApplicationTask → Option Application
  | entitle _ | revoke _ => none
  | upgrade old _ => some old

/-- What is done with a module of the application. -/
def change? : ApplicationTask → ModuleStep → Option ModuleChange
  | entitle _, s => some (.enable s.new.id)
  | revoke _, s => some (.disable s.new.id)
  | upgrade _ _, s => FlowPlan.upgradeChange? s

theorem id_of_change? {t : ApplicationTask} {step : ModuleStep} {c : ModuleChange}
    (h : t.change? step = some c) : c.id = step.new.id := by
  cases t with
  | entitle a | revoke a => exact Option.some.inj h ▸ rfl
  | upgrade old a =>
    rw [change?, FlowPlan.upgradeChange?] at h
    split at h
    · exact Option.some.inj h ▸ rfl
    · simp only [Option.ite_none_left_eq_some, Option.some.injEq] at h
      exact h.2 ▸ rfl

/-- How the task is done. -/
def work (c : Capabilities) : ApplicationTask → Except Refusal ApplicationWork
  | entitle a => FlowPlan.entitleWork c a
  | revoke a => FlowPlan.revokeWork c a
  | upgrade old a => FlowPlan.upgradeWork c a old

/-- The stages of the task, if it can be done. -/
def stages (c : Capabilities) (t : ApplicationTask) : List EntitlementStage :=
  match t.work c with
  | .ok w => FlowNode.stagesIn w.nodes
  | .error _ => []

/-- The exchange of one version for another one. -/
def exchange (old a : Application) : ApplicationUpgrade :=
  { replacedId := old.id, id := a.id, replacedModuleIds := old.moduleIds, moduleIds := a.moduleIds }

/-- The stage that changes the routes. -/
def routeStage : ApplicationTask → EntitlementStage
  | entitle a => .createRoutes a.id a.moduleIds
  | revoke a => .removeRoutes a.id a.moduleIds
  | upgrade old a => .updateRoutes (exchange old a)

/-- The stage that changes the auth resources. -/
def resourceStage : ApplicationTask → EntitlementStage
  | entitle a => .createResources a.id a.moduleIds
  | revoke a => .removeResources a.id a.moduleIds
  | upgrade old a => .updateResources (exchange old a)

/-- The stage that changes the entitlement. -/
def lastStage : ApplicationTask → EntitlementStage
  | entitle a => .saveEntitlement a.id
  | revoke a => .removeEntitlement a.id
  | upgrade old a => .updateEntitlement old.id a.id

/-- The nodes in front of that stage, for the sequences of the modules of both kinds. -/
def front (c : Capabilities) (backend ui : ModuleSequence) (t : ApplicationTask) : StageNodes :=
  let changes := FlowPlan.changesOf t.change?
  let routes := FlowPlan.onlyIf (c.gateway == .kong) t.routeStage
  let resources := FlowPlan.onlyIf (c.auth == .keycloak) t.resourceStage
  match t with
  | entitle _ =>
    FlowPlan.moduleNodes c.moduleInstaller (changes backend) (changes ui) ++ routes ++ resources
  | revoke _ =>
    resources ++ routes
      ++ FlowPlan.moduleRemovalNodes c.moduleInstaller (changes backend) (changes ui)
  | upgrade _ _ =>
    let deprecated := (backend.deprecated ++ ui.deprecated).flatten.map (·.id)
    FlowPlan.moduleNodes c.moduleInstaller (changes backend) (changes ui)
      ++ FlowPlan.onlyIf (!deprecated.isEmpty) (.deprecatedModules deprecated)
      ++ routes ++ resources

/-- A task can be done if its modules can be brought into an order. -/
theorem work_eq_ok {c : Capabilities} {t : ApplicationTask} {w : ApplicationWork}
    (h : t.work c = .ok w) :
    ∃ backend ui, moduleSequence t.subject t.replaced? t.type .backend = .ok backend ∧
      moduleSequence t.subject t.replaced? t.type .ui = .ok ui ∧
      w = { type := t.type, nodes := t.front c backend ui ++ [.stage t.lastStage] } := by
  cases t with
  | entitle a | revoke a | upgrade old a =>
    obtain ⟨backend, hb, h⟩ := Except.bind_eq_ok.mp h
    obtain ⟨ui, hu, h⟩ := Except.bind_eq_ok.mp h
    exact ⟨backend, ui, hb, hu, (Except.ok.inj h).symm⟩

end ApplicationTask

namespace FlowPlan

open FlowNode (flatIn stagesIn)

/-! ## The nodes of a task -/

/-- Nodes that are stages, or groups of stages that make one change each. -/
def Direct (nodes : StageNodes) : Prop :=
  ∀ node ∈ nodes, (∃ s, node = .stage s) ∨
    ∃ (name : String) (changes : List ModuleChange),
      node = .parallel name (changes.map fun change => .stage (.module change))

theorem Direct.append {ns ms : StageNodes} (hn : Direct ns) (hm : Direct ms) :
    Direct (ns ++ ms) := by
  intro node h
  rcases List.mem_append.mp h with h | h
  · exact hn node h
  · exact hm node h

theorem direct_stage (s : EntitlementStage) : Direct [.stage s] := by
  intro node h
  exact .inl ⟨s, List.mem_singleton.mp h⟩

theorem direct_nil : Direct [] := by
  intro node h
  exact absurd h List.not_mem_nil

theorem stagesIn_map_stage (ss : List EntitlementStage) :
    stagesIn (ss.map FlowNode.stage) = ss := by
  induction ss with
  | nil => rfl
  | cons s rest ih => simp [stagesIn, FlowNode.stages, ih]

theorem stagesIn_map_change (changes : List ModuleChange) :
    stagesIn (changes.map fun change => .stage (.module change))
      = changes.map EntitlementStage.module := by
  have h := stagesIn_map_stage (changes.map EntitlementStage.module)
  rwa [List.map_map] at h

theorem flatIn_map_stage (ss : List EntitlementStage) : flatIn (ss.map FlowNode.stage) := by
  rw [FlowNode.flatIn_iff]
  intro node hn
  obtain ⟨s, -, rfl⟩ := List.mem_map.mp hn
  rfl

theorem Direct.flat {nodes : StageNodes} (direct : Direct nodes) : flatIn nodes := by
  rw [FlowNode.flatIn_iff]
  intro node hn
  obtain ⟨s, rfl⟩ | ⟨name, changes, rfl⟩ := direct node hn
  · rfl
  · have flat := flatIn_map_stage (changes.map EntitlementStage.module)
    rwa [List.map_map] at flat

/-- A stage that does not make a single change stands directly below the flow. -/
theorem Direct.leaf {nodes : StageNodes} (direct : Direct nodes) {info : FlowInfo} {path : String}
    {l : Leaf EntitlementStage} (hl : l ∈ FlowNode.leavesIn info path nodes) :
    (∃ change, l.stage = .module change) ∨ l = info.leaf path l.stage := by
  induction nodes with
  | nil => simp [FlowNode.leavesIn] at hl
  | cons node rest ih =>
    rw [FlowNode.leavesIn, List.mem_append] at hl
    rcases hl with hl | hl
    · have hs : l.stage ∈ node.stages := by
        rw [← FlowNode.leaves_stages info path node]
        exact List.mem_map_of_mem hl
      obtain ⟨s, rfl⟩ | ⟨name, changes, rfl⟩ := direct node List.mem_cons_self
      · obtain rfl := List.mem_singleton.mp hl
        exact .inr rfl
      · rw [FlowNode.stages, stagesIn_map_change, List.mem_map] at hs
        obtain ⟨change, -, hc⟩ := hs
        exact .inl ⟨change, hc.symm⟩
    · exact ih (fun node h => direct node (List.mem_cons_of_mem _ h)) hl

/-- Nodes that only make changes. -/
structure ModuleNodes (nodes : StageNodes) : Prop where
  /-- They are stages and groups. -/
  direct : Direct nodes
  /-- Each stage makes changes. -/
  stages : ∀ s ∈ stagesIn nodes, s.makesChanges

theorem ModuleNodes.append {ns ms : StageNodes} (hn : ModuleNodes ns) (hm : ModuleNodes ms) :
    ModuleNodes (ns ++ ms) := by
  refine ⟨hn.direct.append hm.direct, fun s hs => ?_⟩
  rw [FlowNode.stagesIn_append, List.mem_append] at hs
  rcases hs with hs | hs
  · exact hn.stages s hs
  · exact hm.stages s hs

theorem moduleGroups_nodes (groupName : String) (layers : List (List ModuleChange)) :
    ModuleNodes (moduleGroups groupName layers) := by
  refine ⟨fun node hn => ?_, ?_⟩
  · rw [moduleGroups, List.mem_mapIdx] at hn
    obtain ⟨i, hi, rfl⟩ := hn
    exact .inr ⟨_, _, rfl⟩
  · unfold moduleGroups
    generalize layers.filter (!·.isEmpty) = layers
    suffices general : ∀ name : Nat → String, ∀ s ∈ stagesIn (layers.mapIdx fun i
        (layer : List ModuleChange) => FlowNode.parallel (name i)
          (layer.map fun change => .stage (EntitlementStage.module change))),
        s.makesChanges from general fun i => s!"{groupName}-l{i}"
    induction layers with
    | nil =>
      intro _ s hs
      exact absurd hs List.not_mem_nil
    | cons layer rest ih =>
      intro name s hs
      rw [List.mapIdx_cons, stagesIn, FlowNode.stages, stagesIn_map_change, List.mem_append] at hs
      rcases hs with hs | hs
      · obtain ⟨change, -, rfl⟩ := List.mem_map.mp hs
        rfl
      · exact ih (fun i => name (i + 1)) s hs

theorem batch_nodes {stage : List ModuleChange → EntitlementStage}
    (changes_made : ∀ changes, (stage changes).makesChanges) (changes : List ModuleChange) :
    ModuleNodes (batch stage changes) := by
  unfold batch
  split
  · exact ⟨direct_nil, by simp [stagesIn]⟩
  · exact ⟨direct_stage _, fun s hs => by simp_all [stagesIn, FlowNode.stages]⟩

theorem moduleNodes_nodes (mode : ModuleInstallerMode) (backend ui : List (List ModuleChange)) :
    ModuleNodes (moduleNodes mode backend ui) := by
  cases mode with
  | folio => exact (moduleGroups_nodes _ _).append (moduleGroups_nodes _ _)
  | okapi => exact batch_nodes (fun _ => rfl) _

theorem moduleRemovalNodes_nodes (mode : ModuleInstallerMode)
    (backend ui : List (List ModuleChange)) :
    ModuleNodes (moduleRemovalNodes mode backend ui) := by
  cases mode with
  | folio => exact (moduleGroups_nodes _ _).append (moduleGroups_nodes _ _)
  | okapi => exact batch_nodes (fun _ => rfl) _

theorem direct_onlyIf (condition : Bool) (s : EntitlementStage) : Direct (onlyIf condition s) := by
  unfold onlyIf
  split
  · exact direct_stage s
  · exact direct_nil

theorem mem_stagesIn_onlyIf {condition : Bool} {s s' : EntitlementStage}
    (h : s' ∈ stagesIn (onlyIf condition s)) : s' = s := by
  unfold onlyIf at h
  split at h <;> simp_all [stagesIn, FlowNode.stages]

end FlowPlan

namespace ApplicationTask

open FlowNode (flatIn stagesIn)

/-- The nodes of a task: what changes modules, routes and auth resources, and then the stage that
changes the entitlement. -/
structure Nodes (t : ApplicationTask) (nodes : StageNodes) : Prop where
  /-- They are stages, and groups of single changes. -/
  direct : FlowPlan.Direct nodes
  /-- The entitlement is changed last, and there is one list of modules that are left behind. -/
  stages : ∃ before deprecated, stagesIn nodes = before ++ [t.lastStage] ∧
    ∀ s ∈ before, s.makesChanges ∨ s = .deprecatedModules deprecated ∨ s = t.routeStage ∨
      s = t.resourceStage

/-- Nodes that come in front of the last stage of a task, with the modules that it leaves behind. -/
structure Before (t : ApplicationTask) (deprecated : List String) (nodes : StageNodes) : Prop where
  /-- They are stages, and groups of single changes. -/
  direct : FlowPlan.Direct nodes
  /-- The entitlement is not changed. -/
  stages : ∀ s ∈ stagesIn nodes, s.makesChanges ∨ s = .deprecatedModules deprecated ∨
    s = t.routeStage ∨ s = t.resourceStage

namespace Before

variable {t : ApplicationTask} {deprecated : List String} {ns ms : StageNodes}

theorem append (hn : t.Before deprecated ns) (hm : t.Before deprecated ms) :
    t.Before deprecated (ns ++ ms) := by
  refine ⟨hn.direct.append hm.direct, fun s hs => ?_⟩
  rw [FlowNode.stagesIn_append, List.mem_append] at hs
  rcases hs with hs | hs
  · exact hn.stages s hs
  · exact hm.stages s hs

theorem ofModules (h : FlowPlan.ModuleNodes ns) : t.Before deprecated ns :=
  ⟨h.direct, fun s hs => .inl (h.stages s hs)⟩

theorem onlyIf (condition : Bool) {s : EntitlementStage}
    (kind : s = .deprecatedModules deprecated ∨ s = t.routeStage ∨ s = t.resourceStage) :
    t.Before deprecated (FlowPlan.onlyIf condition s) := by
  refine ⟨FlowPlan.direct_onlyIf condition s, fun s' hs => .inr ?_⟩
  rw [FlowPlan.mem_stagesIn_onlyIf hs]
  exact kind

theorem nodes (h : t.Before deprecated ns) : t.Nodes (ns ++ [.stage t.lastStage]) := by
  refine ⟨h.direct.append (FlowPlan.direct_stage _), _, deprecated, ?_, h.stages⟩
  rw [FlowNode.stagesIn_append]
  rfl

end Before

theorem work_nodes {c : Capabilities} {t : ApplicationTask} {w : ApplicationWork}
    (h : t.work c = .ok w) : t.Nodes w.nodes := by
  obtain ⟨backend, ui, -, -, rfl⟩ := work_eq_ok h
  let changes := FlowPlan.changesOf t.change?
  let deprecated := (backend.deprecated ++ ui.deprecated).flatten.map (·.id)
  have arriving : t.Before deprecated
      (FlowPlan.moduleNodes c.moduleInstaller (changes backend) (changes ui)) :=
    .ofModules (FlowPlan.moduleNodes_nodes _ _ _)
  have leaving : t.Before deprecated
      (FlowPlan.moduleRemovalNodes c.moduleInstaller (changes backend) (changes ui)) :=
    .ofModules (FlowPlan.moduleRemovalNodes_nodes _ _ _)
  have left : t.Before deprecated _ := .onlyIf (!deprecated.isEmpty) (.inl rfl)
  have routes : t.Before deprecated _ := .onlyIf (c.gateway == .kong) (.inr (.inl rfl))
  have resources : t.Before deprecated _ := .onlyIf (c.auth == .keycloak) (.inr (.inr rfl))
  have front : t.Before deprecated (t.front c backend ui) := by
    cases t with
    | entitle a => exact (arriving.append routes).append resources
    | revoke a => exact (resources.append routes).append leaving
    | upgrade old a => exact ((arriving.append left).append routes).append resources
  exact front.nodes

/-- The stages of a task that can be done. -/
theorem stages_eq {c : Capabilities} {t : ApplicationTask} {w : ApplicationWork}
    (h : t.work c = .ok w) : t.stages c = stagesIn w.nodes := by
  rw [stages, h]

/-- Every stage of a task makes changes, disables the modules that the task leaves behind, or is one
of three stages of the task. -/
theorem stages_kinds (c : Capabilities) (t : ApplicationTask) :
    ∃ deprecated, ∀ s ∈ t.stages c, s.makesChanges ∨ s = .deprecatedModules deprecated ∨
      s = t.routeStage ∨ s = t.resourceStage ∨ s = t.lastStage := by
  unfold stages
  split
  · rename_i w hw
    obtain ⟨before, deprecated, hb, kinds⟩ := (work_nodes hw).stages
    refine ⟨deprecated, fun s hs => ?_⟩
    rw [hb, List.mem_append, List.mem_singleton] at hs
    rcases hs with hs | hs
    · rcases kinds s hs with h | h | h | h
      · exact .inl h
      · exact .inr (.inl h)
      · exact .inr (.inr (.inl h))
      · exact .inr (.inr (.inr (.inl h)))
    · exact .inr (.inr (.inr (.inr hs)))
  · exact ⟨[], by simp⟩

/-- Every stage of a task changes modules or is one of three stages of the task. -/
theorem mem_stages {c : Capabilities} {t : ApplicationTask} {s : EntitlementStage}
    (hs : s ∈ t.stages c) :
    s.changesModules ∨ s = t.routeStage ∨ s = t.resourceStage ∨ s = t.lastStage := by
  obtain ⟨deprecated, kinds⟩ := t.stages_kinds c
  rcases kinds s hs with h | rfl | h
  · refine .inl ?_
    cases s <;> simp_all [EntitlementStage.makesChanges, EntitlementStage.changesModules]
  · exact .inl rfl
  · exact .inr h

end ApplicationTask

end Provisioning
