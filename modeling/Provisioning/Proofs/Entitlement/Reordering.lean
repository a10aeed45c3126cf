import Mathlib.Logic.Function.Basic
import Provisioning.Proofs.Entitlement.Arrangement
import Provisioning.Proofs.Entitlement.Paths
import Provisioning.Proofs.Layering.Canonical

/-!
# The order of a request does not matter

Whoever asks for the same applications in another order, and has them described in another order,
gets the same flow, or the same refusal. Two flows made at different times have identifiers of
their own, and are the same up to those.
-/

namespace Provisioning

/-! ## Renaming -/

variable {α : Type}

namespace FlowNode

mutual

/-- The node with other identifiers of flows. -/
def rename (ρ : String → String) : FlowNode α → FlowNode α
  | stage s => stage s
  | flow header nodes => flow { header with id := ρ header.id } (renameAll ρ nodes)
  | parallel name children => parallel name (renameAll ρ children)

/-- The nodes with other identifiers of flows. -/
def renameAll (ρ : String → String) : List (FlowNode α) → List (FlowNode α)
  | [] => []
  | node :: rest => rename ρ node :: renameAll ρ rest

end

theorem renameAll_eq_map (ρ : String → String) (nodes : List (FlowNode α)) :
    renameAll ρ nodes = nodes.map (rename ρ) := by
  induction nodes with
  | nil => rfl
  | cons node rest ih => rw [renameAll, List.map_cons, ih]

mutual

theorem rename_of_flat (ρ : String → String) {node : FlowNode α} (h : node.flat) :
    rename ρ node = node := by
  cases node with
  | stage s => rfl
  | flow header nodes => exact absurd h Bool.false_ne_true
  | parallel name children => rw [rename, renameAll_of_flatIn ρ h]

/-- Where no flow is nested there is nothing to rename. -/
theorem renameAll_of_flatIn (ρ : String → String) {nodes : List (FlowNode α)} (h : flatIn nodes) :
    renameAll ρ nodes = nodes := by
  cases nodes with
  | nil => rfl
  | cons node rest =>
    rw [flatIn, Bool.and_eq_true] at h
    rw [renameAll, rename_of_flat ρ h.1, renameAll_of_flatIn ρ h.2]

end

end FlowNode

/-- The flow with other identifiers of flows. -/
def Flow.rename (ρ : String → String) (f : Flow α) : Flow α :=
  { header := { f.header with id := ρ f.header.id }, nodes := FlowNode.renameAll ρ f.nodes }

/-- The reference to a flow with another identifier. -/
def ApplicationFlowRef.rename (ρ : String → String) (ref : ApplicationFlowRef) :
    ApplicationFlowRef :=
  { ref with flowId := ρ ref.flowId }

/-- The plan with other identifiers of flows. -/
def FlowPlan.rename (ρ : String → String) (p : FlowPlan) : FlowPlan :=
  { flow := p.flow.rename ρ, applicationFlows := p.applicationFlows.map (·.rename ρ) }

namespace FlowIds

/-- No two flows get the same identifier. -/
structure Distinct (ids : FlowIds) : Prop where
  /-- The outermost flow has one of its own. -/
  root : ∀ k, ids.application k ≠ ids.root
  /-- So has the flow of each application. -/
  application : Function.Injective ids.application

/-- The identifiers. -/
def all (ids : FlowIds) : Set String := insert ids.root (Set.range ids.application)

/-- Takes the identifiers of one flow to those of another one, place by place. -/
structure Renaming (ids ids' : FlowIds) (ρ : String → String) : Prop where
  /-- The outermost flow. -/
  root : ρ ids.root = ids'.root
  /-- The flows of applications. -/
  application : ∀ k, ρ (ids.application k) = ids'.application k

theorem exists_renaming {ids : FlowIds} (distinct : ids.Distinct) (ids' : FlowIds) :
    ∃ ρ, ids.Renaming ids' ρ := by
  classical
  refine ⟨Function.update (Function.extend ids.application ids'.application id) ids.root ids'.root,
    Function.update_self _ _ _, fun k => ?_⟩
  rw [Function.update_of_ne (distinct.root k), distinct.application.extend_apply]

theorem Renaming.injOn {ids ids' : FlowIds} {ρ : String → String} (carries : ids.Renaming ids' ρ)
    (distinct : ids'.Distinct) : Set.InjOn ρ ids.all := by
  rintro _ (rfl | ⟨k, rfl⟩) _ (rfl | ⟨l, rfl⟩) same
  · rfl
  · rw [carries.root, carries.application] at same
    exact absurd same.symm (distinct.root l)
  · rw [carries.root, carries.application] at same
    exact absurd same (distinct.root k)
  · rw [carries.application, carries.application] at same
    rw [distinct.application same]

end FlowIds

/-! ## Flows with other identifiers -/

namespace FlowPlan

/-- The flow of an application with another identifier. -/
def ApplicationFlow.rename (ρ : String → String) (f : ApplicationFlow) : ApplicationFlow :=
  { ref := f.ref.rename ρ, nodes := FlowNode.renameAll ρ f.nodes }

variable {ids ids' : FlowIds} {ρ : String → String}

theorem ofRefusal_map {β γ : Type} (f : β → γ) (x : Except Refusal β) :
    Failure.ofRefusal (f <$> x) = f <$> Failure.ofRefusal x := by
  cases x <;> rfl

theorem renameAll_groups (ρ : String → String) (groupName : String)
    (layers : List (List ApplicationFlow)) :
    groups groupName (layers.map (List.map (·.rename ρ)))
      = FlowNode.renameAll ρ (groups groupName layers) := by
  have group (name : String) (flows : List ApplicationFlow) :
      FlowNode.parallel name ((flows.map (·.rename ρ)).map (·.node))
        = (FlowNode.parallel name (flows.map (·.node))).rename ρ := by
    rw [FlowNode.rename, FlowNode.renameAll_eq_map, List.map_map, List.map_map]
    rfl
  rw [FlowNode.renameAll_eq_map, groups, groups]
  refine List.ext_getElem (by simp) fun i _ _ => ?_
  simp only [List.getElem_mapIdx, List.getElem_map, group]

section

variable (carries : ids.Renaming ids' ρ)

include carries

theorem flowsFor_rename {w : ApplicationWork} (flat : FlowNode.flatIn w.nodes) (start : Nat)
    (id : String) (repetitions : Nat) :
    flowsFor ids' start id w repetitions
      = (flowsFor ids start id w repetitions).map (·.rename ρ) := by
  rw [flowsFor, flowsFor, List.map_map]
  refine List.map_congr_left fun i _ => ?_
  rw [Function.comp_apply, ApplicationFlow.rename, ApplicationFlowRef.rename,
    carries.application]
  congr 1
  split
  · exact (FlowNode.renameAll_of_flatIn ρ flat).symm
  · rfl

namespace Layout

variable {l : Layout} (flat : ∀ a w, l.work a = .ok w → FlowNode.flatIn w.nodes)

include flat

theorem layerFlows_rename (start : Nat) (layer : List String) :
    l.layerFlows ids' start layer = List.map (·.rename ρ) <$> l.layerFlows ids start layer := by
  induction layer generalizing start with
  | nil => rfl
  | cons id rest ih =>
    cases found : l.applications.get? id with
    | none =>
      simp only [layerFlows, found]
      exact ih start
    | some a =>
      simp only [layerFlows, found, map_bind]
      cases hw : l.work a with
      | error refusal => rfl
      | ok w =>
        change (pure w >>= _ : Except Refusal _) = pure w >>= _
        simp only [pure_bind, flowsFor_rename carries (flat a w hw), List.length_map, ih,
          bind_map_left, map_pure, List.map_append]

theorem allFlows_rename (start : Nat) (layers : List (List String)) :
    l.allFlows ids' start layers
      = List.map (List.map (·.rename ρ)) <$> l.allFlows ids start layers := by
  induction layers generalizing start with
  | nil => rfl
  | cons layer rest ih =>
    simp only [allFlows, layerFlows_rename carries flat, ih, List.length_map, bind_map_left,
      map_bind, map_pure, List.map_cons]

/-- The nodes and the references that are made, with other identifiers. -/
theorem build_rename (start : Nat) (layers : List (List String)) :
    l.build ids' start layers
      = Prod.map (FlowNode.renameAll ρ) (List.map (·.rename ρ)) <$> l.build ids start layers := by
  simp only [build, allFlows_rename carries flat, bind_map_left, map_bind, map_pure,
    renameAll_groups, Prod.map_apply, ← List.map_flatten, List.map_map]
  rfl

end Layout

theorem stateNodes_rename (c : Capabilities) (input : FlowInput) (plan : TransitionPlan) :
    stateNodes c ids' input plan
      = Prod.map (FlowNode.renameAll ρ) (List.map (·.rename ρ)) <$>
          stateNodes c ids input plan := by
  have goes (a : Application) (w : ApplicationWork) (hw : revokeWork c a = .ok w) :
      FlowNode.flatIn w.nodes := (ApplicationTask.work_nodes (t := .revoke a) hw).direct.flat
  have comes (a : Application) (w : ApplicationWork)
      (hw : (if plan.upgrade.contains a.name then do
          upgradeWork c a (← installedVersion input.entitled a)
        else entitleWork c a) = Except.ok w) : FlowNode.flatIn w.nodes := by
    obtain ⟨t, -, ht⟩ := stateTask_work hw
    exact (ApplicationTask.work_nodes ht).direct.flat
  simp only [stateNodes, map_bind]
  refine bind_congr fun goingLayers => ?_
  rw [Layout.build_rename carries goes, bind_map_left]
  refine bind_congr ?_
  rintro ⟨goingNodes, going⟩
  refine bind_congr fun comingLayers => ?_
  rw [Prod.map_apply, List.length_map, Layout.build_rename carries comes, bind_map_left]
  refine bind_congr ?_
  rintro ⟨comingNodes, coming⟩
  simp only [Prod.map_apply, map_pure, FlowNode.renameAll_eq_map, List.map_append]

theorem requestNodes_rename (c : Capabilities) (r : EntitlementRequest) (input : FlowInput) :
    requestNodes c ids' r input
      = Prod.map (FlowNode.renameAll ρ) (List.map (·.rename ρ)) <$>
          requestNodes c ids r input := by
  have build {work : Application → Except Refusal ApplicationWork}
      (does : ∀ a w, work a = .ok w → ∃ t : ApplicationTask, t.work c = .ok w)
      (layers : Except Refusal (List (List String))) :
      Failure.ofRefusal (do (layout r input.applications work).build ids' 0 (← layers))
        = Prod.map (FlowNode.renameAll ρ) (List.map (·.rename ρ)) <$>
            Failure.ofRefusal (do (layout r input.applications work).build ids 0 (← layers)) := by
    rw [← ofRefusal_map, map_bind]
    congr 1
    refine bind_congr fun layers => Layout.build_rename carries (fun a w hw => ?_) 0 layers
    obtain ⟨t, ht⟩ := does a w hw
    exact (ApplicationTask.work_nodes ht).direct.flat
  unfold requestNodes
  cases r.type with
  | entitle => exact build (fun a w hw => ⟨.entitle a, hw⟩) _
  | revoke => exact build (fun a w hw => ⟨.revoke a, hw⟩) _
  | upgrade =>
    refine build (fun a w hw => ?_) _
    obtain ⟨t, -, ht⟩ := upgradeTask_work hw
    exact ⟨t, ht⟩
  | state =>
    cases input.plan with
    | none => rfl
    | some plan =>
      dsimp only
      rw [stateNodes_rename carries, ofRefusal_map]

/-- A flow that is made with other identifiers is the same flow under other names, or is refused
for the same reason. -/
theorem make_of_renaming (c : Capabilities) (r : EntitlementRequest) (input : FlowInput) :
    make c ids' r input = (make c ids r input).map (rename ρ) := by
  have root : rootHeader ids' r = { rootHeader ids r with id := ρ (rootHeader ids r).id } := by
    rw [rootHeader, rootHeader, carries.root]
  change _ = rename ρ <$> make c ids r input
  rw [make, make, requestNodes_rename carries, bind_map_left, map_bind]
  refine bind_congr ?_
  rintro ⟨nodes, refs⟩
  rw [Prod.map_apply, root]
  rfl

end

/-! ## Requests in another order -/

theorem layout_of_perm {r r' : EntitlementRequest} {applications applications' : List Application}
    (requested : r'.applicationIds.Perm r.applicationIds)
    (described : applications'.Perm applications) (distinct : (applications.map (·.id)).Nodup)
    (work : Application → Except Refusal ApplicationWork) :
    layout r' applications' work = layout r applications work := by
  have keys : ((applications.map fun a => (a.id, a)).map (·.1)).Nodup := by
    rwa [List.map_map]
  have repeated : repetitions r'.applicationIds = repetitions r.applicationIds := by
    funext id
    rw [repetitions, requested.count_eq, repetitions]
  rw [layout, layout, OrderedMap.ofList_eq_of_perm keys (described.map _), repeated]

theorem stateLayout_of_perm {applications applications' : List Application} (groupName : String)
    (described : applications'.Perm applications) (distinct : (applications.map (·.id)).Nodup)
    (work : Application → Except Refusal ApplicationWork) :
    stateLayout groupName applications' work = stateLayout groupName applications work := by
  have keys : ((applications.map fun a => (a.id, a)).map (·.1)).Nodup := by
    rwa [List.map_map]
  rw [stateLayout, stateLayout, OrderedMap.ofList_eq_of_perm keys (described.map _)]

theorem make_of_perm (c : Capabilities) (ids : FlowIds) {r : EntitlementRequest}
    {input : FlowInput} {named : List String} {applications : List Application}
    (requested : named.Perm r.applicationIds) (described : applications.Perm input.applications)
    (distinct : (input.applications.map (·.id)).Nodup) :
    make c ids { r with applicationIds := named } { input with applications } = make c ids r input := by
  have nodes : requestNodes c ids { r with applicationIds := named } { input with applications }
      = requestNodes c ids r input := by
    have installation := InstallationGraph.installationLayers_of_perm described distinct
    have removal := InstallationGraph.removalLayers_of_perm described distinct
    unfold requestNodes
    cases r.type with
    | entitle | upgrade =>
      simp only [installation]
      exact congrArg _ (bind_congr fun layers => by
        rw [layout_of_perm (r := r) requested described distinct])
    | revoke =>
      simp only [removal]
      exact congrArg _ (bind_congr fun layers => by
        rw [layout_of_perm (r := r) requested described distinct])
    | state =>
      cases input.plan with
      | none => rfl
      | some plan =>
        have among := described.filter fun a =>
          plan.entitle.contains a.name || plan.upgrade.contains a.name
        have keys := distinct.sublist
          ((input.applications.filter_sublist (p := fun a =>
            plan.entitle.contains a.name || plan.upgrade.contains a.name)).map (·.id))
        simp only [stateNodes, InstallationGraph.installationLayers_of_perm among keys,
          stateLayout_of_perm _ among keys]
  rw [make, make, nodes]
  rfl

/-- The flow of a request depends neither on the order in which the applications are named nor on
the order in which they are described: either both requests are refused for the same reason, or the
flows are the same but for their identifiers, which correspond one to one. -/
theorem make_reordered (c : Capabilities) {ids ids' : FlowIds} (fresh : ids.Distinct)
    (fresh' : ids'.Distinct) {r : EntitlementRequest} {input : FlowInput} {named : List String}
    {applications : List Application} (requested : named.Perm r.applicationIds)
    (described : applications.Perm input.applications)
    (distinct : (input.applications.map (·.id)).Nodup) :
    ((∃ plan, make c ids' { r with applicationIds := named } { input with applications } = .ok plan) ↔
        ∃ plan, make c ids r input = .ok plan) ∧
      ∃ ρ, ids.Renaming ids' ρ ∧ Set.InjOn ρ ids.all ∧
        make c ids' { r with applicationIds := named } { input with applications }
          = (make c ids r input).map (rename ρ) := by
  obtain ⟨ρ, carries⟩ := FlowIds.exists_renaming fresh ids'
  have same : make c ids' { r with applicationIds := named } { input with applications }
      = (make c ids r input).map (rename ρ) := by
    rw [make_of_perm c ids' requested described distinct, make_of_renaming carries]
  refine ⟨?_, ρ, carries, carries.injOn fresh', same⟩
  rw [same]
  cases make c ids r input <;> simp [Except.map]

theorem lettered_distinct (name : String) : (lettered name).Distinct where
  root := fun k same => by
    have lengths := congrArg String.length same
    simp only [lettered, String.length_append] at lengths
    have longer : (toString "-l").length = 2 := rfl
    have own : (toString name).length = name.length := rfl
    omega
  application := lettered_injective name

/-- The application that is needed comes first, and the flow that is skipped beside it, however the
two are named and described. -/
theorem make_reordered_repeating :
    ∃ ρ plan, (lettered "f").Renaming (lettered "g") ρ ∧
      make {} (lettered "f") repeating repeatingInput = .ok plan ∧
      make {} (lettered "g")
          { repeating with applicationIds := ["a-1.0.0", "b-1.0.0", "a-1.0.0"] }
          { repeatingInput with applications := repeatingInput.applications.reverse }
        = .ok (plan.rename ρ) := by
  obtain ⟨-, ρ, carries, -, same⟩ := make_reordered {} (lettered_distinct "f")
    (lettered_distinct "g") (r := repeating) (List.Perm.swap "b-1.0.0" "a-1.0.0" ["a-1.0.0"])
    (List.reverse_perm repeatingInput.applications) (by decide)
  have made : (make {} (lettered "f") repeating repeatingInput).toOption.isSome := by
    decide +kernel
  cases h : make {} (lettered "f") repeating repeatingInput with
  | error failure =>
    rw [h] at made
    cases made
  | ok plan => exact ⟨ρ, plan, carries, rfl, by rw [same, h]; rfl⟩

end FlowPlan

end Provisioning
