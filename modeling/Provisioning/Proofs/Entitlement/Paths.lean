import Provisioning.Proofs.Entitlement.Layout
import Provisioning.Proofs.Flow.Paths
import Provisioning.Proofs.Ledger.Balance

/-!
# The paths of the stages of a flow plan

The stages of the flow of a request have different paths exactly if each has a name that tells it
from its siblings. All groups and flows have such names, and all stages but those that change one
module each: their names leave the version out.
-/

namespace Provisioning

open FlowNode (Legible siblingsIn)

/-! ## Names of stages -/

theorem ModuleAction.dash_notMem_agent (a : ModuleAction) : '-' ∉ a.agent.toList := by
  cases a <;> decide

/-- The name of the stage for a change tells the name of the module. -/
theorem EntitlementStage.nameOf_of_name {x y : ModuleChange}
    (same : (module x).name = (module y).name) :
    ModuleDescriptor.nameOf x.id = ModuleDescriptor.nameOf y.id := by
  have parts (z : ModuleChange) : (module z).name.toList
      = (ModuleDescriptor.nameOf z.id).toList ++ '-' :: z.action.agent.toList := by
    simp [name, toString]
  have lists := congrArg String.toList same
  rw [parts, parts] at lists
  have dash (z : ModuleChange) := z.action.dash_notMem_agent
  exact String.toList_inj.mp (FlowNode.append_char_inj (.inr ⟨dash x, dash y⟩) lists).1

namespace FlowPlan

/-! ## Names of nodes -/

/-- The names of numbered groups. -/
def numbered (groupName : String) (n : Nat) : List String :=
  (List.range n).map fun i => s!"{groupName}-l{i}"

theorem numbered_nodup (groupName : String) (n : Nat) : (numbered groupName n).Nodup :=
  List.nodup_range.map fun _ _ same => (FlowNode.group_inj same).2

theorem numbered_disjoint {g h : String} (ne : g ≠ h) (n k : Nat) :
    (numbered g n).Disjoint (numbered h k) := by
  intro x hx hy
  obtain ⟨i, -, rfl⟩ := List.mem_map.mp hx
  obtain ⟨j, -, same⟩ := List.mem_map.mp hy
  exact ne (FlowNode.group_inj same).1.symm

theorem mapIdx_names {β : Type} {node : Nat → β → FlowNode EntitlementStage} {groupName : String}
    (named : ∀ i b, (node i b).name = s!"{groupName}-l{i}") (bs : List β) :
    (bs.mapIdx node).map FlowNode.name = numbered groupName bs.length := by
  rw [List.mapIdx_eq_zipIdx_map, List.map_map, numbered, List.range_eq_range',
    ← List.zipIdx_map_snd 0 bs, List.map_map]
  exact List.map_congr_left fun x _ => named x.2 x.1

theorem groups_names (groupName : String) (layers : List (List ApplicationFlow)) :
    (groups groupName layers).map FlowNode.name = numbered groupName layers.length :=
  mapIdx_names (fun _ _ => rfl) layers

theorem moduleGroups_names (groupName : String) (layers : List (List ModuleChange)) :
    (moduleGroups groupName layers).map FlowNode.name
      = numbered groupName (layers.filter (!·.isEmpty)).length :=
  mapIdx_names (fun _ _ => rfl) _

/-- Nodes with some of the given names, in order. -/
def Among (names : List String) (nodes : StageNodes) : Prop :=
  (nodes.map FlowNode.name).Sublist names

theorem Among.append {names names' : List String} {nodes nodes' : StageNodes}
    (first : Among names nodes) (second : Among names' nodes') :
    Among (names ++ names') (nodes ++ nodes') := by
  unfold Among
  rw [List.map_append]
  exact List.Sublist.append first second

theorem among_stage (s : EntitlementStage) {n : String} (named : s.name = n) :
    Among [n] [.stage s] := by
  subst named
  exact List.Sublist.refl _

theorem among_onlyIf (condition : Bool) (s : EntitlementStage) {n : String} (named : s.name = n) :
    Among [n] (onlyIf condition s) := by
  unfold onlyIf
  split
  · exact among_stage s named
  · exact List.nil_sublist _

/-- The names of nodes that change modules: those of groups, or that of one batch. -/
structure ModuleNames (batchName : String) (names : List String) : Prop where
  /-- There is none twice. -/
  nodup : names.Nodup
  /-- It is the batch or a group. -/
  kinds : ∀ n ∈ names, n = batchName ∨
    ∃ g, g ∈ [backendGroup, uiGroup] ∧ ∃ i : Nat, n = s!"{g}-l{i}"

theorem moduleGroups_moduleNames (batchName : String) {g h : String} (ne : g ≠ h)
    (hg : g ∈ [backendGroup, uiGroup]) (hh : h ∈ [backendGroup, uiGroup])
    (first second : List (List ModuleChange)) :
    ModuleNames batchName
      ((moduleGroups g first ++ moduleGroups h second).map FlowNode.name) := by
  rw [List.map_append, moduleGroups_names, moduleGroups_names]
  refine ⟨(numbered_nodup g _).append (numbered_nodup h _) (numbered_disjoint ne _ _), ?_⟩
  intro n hn
  rcases List.mem_append.mp hn with hn | hn
  · obtain ⟨i, -, rfl⟩ := List.mem_map.mp hn
    exact .inr ⟨g, hg, i, rfl⟩
  · obtain ⟨i, -, rfl⟩ := List.mem_map.mp hn
    exact .inr ⟨h, hh, i, rfl⟩

theorem batch_moduleNames {batchName : String} {stage : List ModuleChange → EntitlementStage}
    (named : ∀ changes, (stage changes).name = batchName) (changes : List ModuleChange) :
    ModuleNames batchName ((batch stage changes).map FlowNode.name) := by
  unfold batch
  split
  · exact ⟨List.nodup_nil, fun n hn => absurd hn List.not_mem_nil⟩
  · refine ⟨List.nodup_singleton _, fun n hn => .inl ?_⟩
    exact (List.mem_singleton.mp hn).trans (named changes)

theorem moduleNodes_names (mode : ModuleInstallerMode) (backend ui : List (List ModuleChange)) :
    ModuleNames "OkapiModulesInstaller" ((moduleNodes mode backend ui).map FlowNode.name) := by
  cases mode with
  | folio => exact moduleGroups_moduleNames _ (by decide) (by simp) (by simp) _ _
  | okapi =>
    have named (changes : List ModuleChange) :
        (EntitlementStage.installBatch changes).name = "OkapiModulesInstaller" := rfl
    exact batch_moduleNames named _

theorem moduleRemovalNodes_names (mode : ModuleInstallerMode)
    (backend ui : List (List ModuleChange)) :
    ModuleNames "OkapiModulesUninstaller"
      ((moduleRemovalNodes mode backend ui).map FlowNode.name) := by
  cases mode with
  | folio => exact moduleGroups_moduleNames _ (by decide) (by simp) (by simp) _ _
  | okapi =>
    have named (changes : List ModuleChange) :
        (EntitlementStage.uninstallBatch changes).name = "OkapiModulesUninstaller" := rfl
    exact batch_moduleNames named _

/-- Nodes that change modules and fixed stages around them, whose names have neither dashes nor
slashes, have names of their own. -/
theorem ModuleNames.between {batchName : String} {front mods back : StageNodes}
    {names names' : List String} (h : ModuleNames batchName (mods.map FlowNode.name))
    (before : Among names front) (after : Among names' back)
    (nodup : (batchName :: (names ++ names')).Nodup)
    (plain : ∀ n ∈ batchName :: (names ++ names'), '-' ∉ n.toList ∧ '/' ∉ n.toList) :
    ((front ++ mods ++ back).map FlowNode.name).Nodup ∧
      ∀ node ∈ front ++ mods ++ back, '/' ∉ node.name.toList := by
  have fixed := before.append after
  have once := List.nodup_cons.mp nodup
  -- A group has a dash in its name.
  have apart : ((front ++ back).map FlowNode.name).Disjoint (mods.map FlowNode.name) := by
    intro n hn hm
    have known := fixed.subset hn
    rcases h.kinds n hm with rfl | ⟨g, -, i, rfl⟩
    · exact once.1 known
    · refine (plain _ (List.mem_cons_of_mem _ known)).1 ?_
      rw [FlowNode.group_toList]
      simp
  have perm : (front ++ back ++ mods).Perm (front ++ mods ++ back) := by
    rw [List.append_assoc, List.append_assoc]
    exact List.perm_append_comm.append_left front
  constructor
  · rw [← (perm.map FlowNode.name).nodup_iff, List.map_append]
    exact (once.2.sublist fixed).append h.nodup apart
  · intro node hn
    rcases List.mem_append.mp (perm.mem_iff.mpr hn) with hn | hn
    · exact (plain _ (List.mem_cons_of_mem _ (fixed.subset (List.mem_map_of_mem hn)))).2
    · rcases h.kinds _ (List.mem_map_of_mem hn) with batch | ⟨g, hg, i, group⟩
      · rw [batch]
        exact (plain _ List.mem_cons_self).2
      · rw [group]
        refine FlowNode.slash_notMem_group ?_ i
        rcases List.mem_pair.mp hg with rfl | rfl <;> decide

/-- The nodes of a task have names of their own. -/
theorem work_names {c : Capabilities} {t : ApplicationTask} {w : ApplicationWork}
    (h : t.work c = .ok w) :
    (w.nodes.map FlowNode.name).Nodup ∧ ∀ node ∈ w.nodes, '/' ∉ node.name.toList := by
  have nothing : Among [] [] := List.Sublist.refl _
  obtain ⟨backend, ui, -, -, rfl⟩ := ApplicationTask.work_eq_ok h
  cases t with
  | entitle a =>
    have routes : Among ["KongRouteCreator"] _ :=
      among_onlyIf (c.gateway == .kong) (.createRoutes a.id a.moduleIds) rfl
    have resources : Among ["KeycloakAuthResourceCreator"] _ :=
      among_onlyIf (c.auth == .keycloak) (.createResources a.id a.moduleIds) rfl
    have last : Among ["EntitlementSaver"] _ := among_stage (.saveEntitlement a.id) rfl
    have after := (routes.append resources).append last
    simp only [ApplicationTask.front, List.append_assoc] at after ⊢
    exact (moduleNodes_names _ _ _).between nothing after (by decide) (by decide)
  | revoke a =>
    have resources : Among ["KeycloakAuthResourceCleaner"] _ :=
      among_onlyIf (c.auth == .keycloak) (.removeResources a.id a.moduleIds) rfl
    have routes : Among ["KongRouteCleaner"] _ :=
      among_onlyIf (c.gateway == .kong) (.removeRoutes a.id a.moduleIds) rfl
    have last : Among ["EntitlementRemover"] _ := among_stage (.removeEntitlement a.id) rfl
    exact (moduleRemovalNodes_names _ _ _).between (resources.append routes) last (by decide)
      (by decide)
  | upgrade old a =>
    let deprecated := (backend.deprecated ++ ui.deprecated).flatten.map (·.id)
    let exchange := ApplicationTask.exchange old a
    have left : Among ["DeprecatedModulesUninstaller"] _ :=
      among_onlyIf (!deprecated.isEmpty) (.deprecatedModules deprecated) rfl
    have routes : Among ["KongRouteUpdater"] _ :=
      among_onlyIf (c.gateway == .kong) (.updateRoutes exchange) rfl
    have resources : Among ["KeycloakAuthResourceUpdater"] _ :=
      among_onlyIf (c.auth == .keycloak) (.updateResources exchange) rfl
    have last : Among ["EntitlementUpdater"] _ := among_stage (.updateEntitlement old.id a.id) rfl
    have after := ((left.append routes).append resources).append last
    simp only [ApplicationTask.front, List.append_assoc] at after ⊢
    exact (moduleNodes_names _ _ _).between nothing after (by decide) (by decide)

theorem work_legible {c : Capabilities} {t : ApplicationTask} {w : ApplicationWork}
    (h : t.work c = .ok w) : Legible w.nodes := by
  have names := work_names h
  refine .named names.2 names.1 fun node hn => ?_
  obtain ⟨s, rfl⟩ | ⟨name, changes, rfl⟩ := (ApplicationTask.work_nodes h).direct node hn
  · exact .stages []
  · have stages := Legible.stages (changes.map EntitlementStage.module)
    rwa [List.map_map] at stages

end FlowPlan

/-! ## Names of modules -/

/-- The modules of a layer have names of their own if all modules have. -/
theorem layerModules_names {applicationId : String} {modules : List ModuleDescriptor}
    {layers : List (List ModuleDescriptor)} (h : layerModules applicationId modules = .ok layers)
    (names : (modules.map (·.name)).Nodup) {layer : List ModuleDescriptor} (hl : layer ∈ layers) :
    (layer.map (·.name)).Nodup := by
  obtain ⟨known, ids⟩ := layerModules_spec h
  have sub : layer.Sublist layers.flatten := List.sublist_flatten_of_mem hl
  have all : (layers.flatten.map (·.id)).Nodup :=
    ids.nodup_iff.mpr (ModuleDescriptor.ids_nodup modules)
  refine List.Nodup.map_on (fun m hm m' hm' same => ?_) ((all.of_map _).sublist sub)
  exact List.inj_on_of_nodup_map names (known m (sub.subset hm)) (known m' (sub.subset hm')) same

/-- The modules of a sequence are those of the application, layer by layer. -/
theorem moduleSequence_layers {a : Application} {installed : Option Application}
    {type : EntitlementType} {kind : ModuleKind} {s : ModuleSequence}
    (h : moduleSequence a installed type kind = .ok s) :
    ∃ layers, layerModules a.id (a.modulesOf kind) = .ok layers ∧
      ∀ layer ∈ s.layers, layer.map (·.new) ∈ layers := by
  have fresh {layers : List (List ModuleDescriptor)} {layer : List ModuleStep}
      (there : layer ∈ (ModuleSequence.fresh layers).layers) : layer.map (·.new) ∈ layers := by
    obtain ⟨ms, hm, rfl⟩ := List.mem_map.mp there
    simpa [Function.comp_def] using hm
  have paired {old : ModuleDescriptor → Option ModuleDescriptor}
      {layers : List (List ModuleDescriptor)} {layer : List ModuleStep}
      (there : layer ∈ layers.map fun ms => ms.map fun m => { new := m, old := old m }) :
      layer.map (·.new) ∈ layers := by
    obtain ⟨ms, hm, rfl⟩ := List.mem_map.mp there
    simpa [Function.comp_def] using hm
  unfold moduleSequence at h
  split at h <;> obtain ⟨layers, hl, h⟩ := Except.bind_eq_ok.mp h <;>
    refine ⟨layers, hl, fun layer there => ?_⟩
  · obtain rfl := Except.ok.inj h
    exact List.mem_reverse.mp (fresh there)
  · obtain ⟨deprecated, -, h⟩ := Except.bind_eq_ok.mp h
    obtain rfl := Except.ok.inj h
    exact paired there
  · obtain ⟨deprecated, -, h⟩ := Except.bind_eq_ok.mp h
    obtain rfl := Except.ok.inj h
    exact paired there
  · obtain rfl := Except.ok.inj h
    exact fresh there

namespace FlowPlan

/-- The stages for the changes of a layer have names of their own if all modules of the application
have. -/
theorem changesOf_names {a : Application} {installed : Option Application}
    {type : EntitlementType} {kind : ModuleKind} {s : ModuleSequence}
    (h : moduleSequence a installed type kind = .ok s)
    (names : ((a.modulesOf kind).map (·.name)).Nodup) {change : ModuleStep → Option ModuleChange}
    (about : ∀ step c, change step = some c → c.id = step.new.id) {layer : List ModuleChange}
    (hl : layer ∈ changesOf change s) :
    ((layer.map EntitlementStage.module).map Named.name).Nodup := by
  obtain ⟨layers, hm, known⟩ := moduleSequence_layers h
  obtain ⟨steps, hs, rfl⟩ := List.mem_map.mp hl
  have own := layerModules_names hm names (known steps hs)
  rw [List.map_map] at own
  rw [List.map_map]
  refine List.pairwise_map.mpr (List.pairwise_filterMap.mpr ?_)
  refine (List.pairwise_map.mp own).imp fun differ c hc c' hc' same => differ ?_
  have names := EntitlementStage.nameOf_of_name same
  rwa [about _ c hc, about _ c' hc'] at names

theorem siblingsIn_changes (changes : List ModuleChange) :
    siblingsIn (changes.map fun change => FlowNode.stage (EntitlementStage.module change))
      = [] := by
  induction changes with
  | nil => rfl
  | cons change rest ih =>
    rw [List.map_cons, siblingsIn, ih]
    rfl

/-- The siblings within groups that change modules are the changes of a layer. -/
theorem mem_siblingsIn_moduleGroups {groupName : String} {layers : List (List ModuleChange)}
    {ss : List EntitlementStage} (hs : ss ∈ siblingsIn (moduleGroups groupName layers)) :
    ∃ layer ∈ layers, ss = layer.map EntitlementStage.module := by
  rw [FlowNode.siblingsIn_eq, List.mem_flatMap] at hs
  obtain ⟨node, hn, hs⟩ := hs
  rw [moduleGroups, List.mem_mapIdx] at hn
  obtain ⟨i, hi, rfl⟩ := hn
  have there := List.getElem_mem hi
  generalize (layers.filter (!·.isEmpty))[i] = layer at hs there
  refine ⟨layer, (List.mem_filter.mp there).1, ?_⟩
  have direct : (layer.map fun change => FlowNode.stage (EntitlementStage.module change)).filterMap
      FlowNode.stage? = layer.map EntitlementStage.module := by
    rw [List.filterMap_map, ← List.filterMap_eq_map]
    rfl
  rw [FlowNode.siblings, direct, siblingsIn_changes, List.mem_singleton] at hs
  exact hs

theorem siblingsIn_append (ns ms : StageNodes) :
    siblingsIn (ns ++ ms) = siblingsIn ns ++ siblingsIn ms := by
  rw [FlowNode.siblingsIn_eq, FlowNode.siblingsIn_eq, FlowNode.siblingsIn_eq, List.flatMap_append]

@[simp] theorem siblingsIn_stage (s : EntitlementStage) :
    siblingsIn [FlowNode.stage s] = [] := rfl

@[simp]
theorem siblingsIn_onlyIf (condition : Bool) (s : EntitlementStage) :
    siblingsIn (onlyIf condition s) = [] := by
  unfold onlyIf
  split <;> rfl

theorem siblingsIn_batch (stage : List ModuleChange → EntitlementStage)
    (changes : List ModuleChange) : siblingsIn (batch stage changes) = [] := by
  unfold batch
  split <;> rfl

/-- Only in groups there are changes that are siblings. -/
theorem mem_siblingsIn_moduleNodes {mode : ModuleInstallerMode}
    {backend ui : List (List ModuleChange)} {ss : List EntitlementStage}
    (hs : ss ∈ siblingsIn (moduleNodes mode backend ui)) :
    mode = .folio ∧ ∃ layer, (layer ∈ backend ∨ layer ∈ ui) ∧
      ss = layer.map EntitlementStage.module := by
  cases mode with
  | okapi => simp [moduleNodes, siblingsIn_batch] at hs
  | folio =>
    rw [moduleNodes, siblingsIn_append, List.mem_append] at hs
    rcases hs with hs | hs
    · obtain ⟨layer, hl, rfl⟩ := mem_siblingsIn_moduleGroups hs
      exact ⟨rfl, layer, .inl hl, rfl⟩
    · obtain ⟨layer, hl, rfl⟩ := mem_siblingsIn_moduleGroups hs
      exact ⟨rfl, layer, .inr hl, rfl⟩

theorem mem_siblingsIn_moduleRemovalNodes {mode : ModuleInstallerMode}
    {backend ui : List (List ModuleChange)} {ss : List EntitlementStage}
    (hs : ss ∈ siblingsIn (moduleRemovalNodes mode backend ui)) :
    mode = .folio ∧ ∃ layer, (layer ∈ backend ∨ layer ∈ ui) ∧
      ss = layer.map EntitlementStage.module := by
  cases mode with
  | okapi => simp [moduleRemovalNodes, siblingsIn_batch] at hs
  | folio =>
    rw [moduleRemovalNodes, siblingsIn_append, List.mem_append] at hs
    rcases hs with hs | hs
    · obtain ⟨layer, hl, rfl⟩ := mem_siblingsIn_moduleGroups hs
      exact ⟨rfl, layer, .inr hl, rfl⟩
    · obtain ⟨layer, hl, rfl⟩ := mem_siblingsIn_moduleGroups hs
      exact ⟨rfl, layer, .inl hl, rfl⟩

/-- Whether each module of an application has a name that tells it from the others of its kind. -/
def OwnNames (a : Application) : Prop := ∀ kind, ((a.modulesOf kind).map (·.name)).Nodup

/-- The changes of a task have names that tell them from their siblings if they are made in one
batch, or if the modules of the application have names of their own. -/
theorem work_siblings {c : Capabilities} {t : ApplicationTask} {w : ApplicationWork}
    (h : t.work c = .ok w) (apart : c.moduleInstaller = .folio → OwnNames t.subject)
    {ss : List EntitlementStage} (hs : ss ∈ siblingsIn w.nodes) : (ss.map Named.name).Nodup := by
  obtain ⟨backend, ui, hb, hu, rfl⟩ := ApplicationTask.work_eq_ok h
  obtain ⟨folio, layer, hl, rfl⟩ : c.moduleInstaller = .folio ∧ ∃ layer,
      (layer ∈ changesOf t.change? backend ∨ layer ∈ changesOf t.change? ui) ∧
        ss = layer.map EntitlementStage.module := by
    rw [siblingsIn_append, siblingsIn_stage, List.append_nil] at hs
    cases t with
    | entitle a | upgrade old a =>
      simp only [ApplicationTask.front, siblingsIn_append, siblingsIn_onlyIf, List.append_nil] at hs
      exact mem_siblingsIn_moduleNodes hs
    | revoke a =>
      simp only [ApplicationTask.front, siblingsIn_append, siblingsIn_onlyIf, List.nil_append] at hs
      exact mem_siblingsIn_moduleRemovalNodes hs
  rcases hl with hl | hl
  · exact changesOf_names hb (apart folio .backend) (fun _ _ => ApplicationTask.id_of_change?) hl
  · exact changesOf_names hu (apart folio .ui) (fun _ _ => ApplicationTask.id_of_change?) hl

/-! ## The flow of a request -/

/-- Groups of flows that do tasks about applications of a request. -/
structure Grouped (c : Capabilities) (ids : FlowIds) (input : FlowInput) (nodes : StageNodes)
    (going coming : List (List ApplicationFlow)) : Prop where
  /-- The groups of applications that go, and of those that come. -/
  nodes : nodes = groups revokedGroup going ++ groups requestedGroup coming
  /-- The flows are numbered. -/
  flowIds : (going.flatten ++ coming.flatten).map (·.ref.flowId)
    = (List.range' 0 (going.flatten ++ coming.flatten).length).map ids.application
  /-- A flow has the nodes of a task, or none at all. -/
  does : ∀ f ∈ going.flatten ++ coming.flatten, f.nodes = [] ∨
    ∃ (t : ApplicationTask) (w : ApplicationWork),
      t.subject ∈ input.applications ++ input.entitled ∧ t.work c = .ok w ∧ f.nodes = w.nodes

theorem Realizes.does_about {c : Capabilities} {ids : FlowIds}
    {taskOf : Application → Except Refusal ApplicationTask} {start : Nat}
    {as known : List Application} {flows : List ApplicationFlow} {tasks : List ApplicationTask}
    (realizes : Realizes c ids taskOf start as flows tasks) (sub : ∀ a ∈ as, a ∈ known)
    (subject : ∀ a t, taskOf a = .ok t → t.subject = a) {f : ApplicationFlow} (hf : f ∈ flows) :
    f.nodes = [] ∨ ∃ (t : ApplicationTask) (w : ApplicationWork),
      t.subject ∈ known ∧ t.work c = .ok w ∧ f.nodes = w.nodes := by
  refine (realizes.does f hf).imp_right ?_
  rintro ⟨t, ht, w, hw, nodes⟩
  obtain ⟨a, ha, task⟩ := (realizes.mem_tasks t).mp ht
  exact ⟨t, w, subject a t task ▸ sub a ha, hw, nodes⟩

/-- The flow of a request consists of groups of flows. -/
theorem make_grouped {c : Capabilities} {ids : FlowIds} {r : EntitlementRequest} {input : FlowInput}
    {plan : FlowPlan} (h : make c ids r input = .ok plan) :
    ∃ going coming, Grouped c ids input plan.flow.nodes going coming := by
  obtain ⟨-, h⟩ := make_eq_ok h
  by_cases state : r.type = .state
  · obtain ⟨p, -, h⟩ := requestNodes_state state h
    obtain ⟨goingLayers, comingLayers, going, coming, ts, us, -, -, nodes, goes, comes, flowIds⟩ :=
      stateNodes_realizes h
    refine ⟨going, coming, nodes, flowIds, fun f hf => ?_⟩
    rcases List.mem_append.mp hf with hf | hf
    · refine goes.does_about (fun a ha => ?_) (fun a t ht => Except.ok.inj ht ▸ rfl) hf
      exact List.mem_append_right _ (List.mem_filter.mp (mem_of_layered ha)).1
    · refine comes.does_about (fun a ha => ?_) (fun a t => stateTask_subject) hf
      exact List.mem_append_left _ (List.mem_filter.mp (mem_of_layered ha)).1
  · obtain ⟨work, layers, -, does, built⟩ := requestNodes_layout state h
    obtain ⟨coming, tasks, nodes, -, realizes⟩ :=
      Layout.build_realizes (requestTask input.entitled · r.type) layout_identified does built
    refine ⟨[], coming, nodes, by simpa using realizes.flowIds, fun f hf => ?_⟩
    exact realizes.does_about (fun a ha => List.mem_append_left _ (mem_of_layered ha))
      (fun a t => requestTask_subject) hf

namespace Grouped

variable {c : Capabilities} {ids : FlowIds} {input : FlowInput} {nodes : StageNodes}
  {going coming : List (List ApplicationFlow)}

/-- The nodes are groups of some of the flows. -/
theorem mem_nodes (grouped : Grouped c ids input nodes going coming)
    {node : FlowNode EntitlementStage} (hn : node ∈ nodes) :
    ∃ (name : String) (flows : List ApplicationFlow),
      flows.Sublist (going.flatten ++ coming.flatten) ∧
      node = .parallel name (flows.map (·.node)) := by
  rw [grouped.nodes, List.mem_append, groups, groups, List.mem_mapIdx, List.mem_mapIdx] at hn
  rcases hn with ⟨i, hi, rfl⟩ | ⟨i, hi, rfl⟩
  · have sub := List.sublist_flatten_of_mem (List.getElem_mem hi)
    exact ⟨_, _, sub.trans (List.sublist_append_left _ _), rfl⟩
  · have sub := List.sublist_flatten_of_mem (List.getElem_mem hi)
    exact ⟨_, _, sub.trans (List.sublist_append_right _ _), rfl⟩

theorem names (grouped : Grouped c ids input nodes going coming) :
    nodes.map FlowNode.name
      = numbered revokedGroup going.length ++ numbered requestedGroup coming.length := by
  rw [grouped.nodes, List.map_append, groups_names, groups_names]

theorem names_nodup (grouped : Grouped c ids input nodes going coming) :
    (nodes.map FlowNode.name).Nodup := by
  rw [grouped.names]
  exact (numbered_nodup _ _).append (numbered_nodup _ _) (numbered_disjoint (by decide) _ _)

theorem flow_names {flows : List ApplicationFlow} :
    (flows.map (·.node)).map FlowNode.name = flows.map (·.ref.flowId) := List.map_map

theorem flow_names_nodup (grouped : Grouped c ids input nodes going coming)
    (distinct : Function.Injective ids.application) {flows : List ApplicationFlow}
    (sub : flows.Sublist (going.flatten ++ coming.flatten)) :
    ((flows.map (·.node)).map FlowNode.name).Nodup := by
  have own : ((going.flatten ++ coming.flatten).map (·.ref.flowId)).Nodup := by
    rw [grouped.flowIds]
    exact List.Nodup.map distinct List.nodup_range'
  rw [flow_names]
  exact own.sublist (sub.map _)

/-- The flows of a group have names of their own, and so has what is in a flow. -/
theorem flows_legible (grouped : Grouped c ids input nodes going coming)
    (distinct : Function.Injective ids.application)
    (plain : ∀ n, '/' ∉ (ids.application n).toList) {flows : List ApplicationFlow}
    (sub : flows.Sublist (going.flatten ++ coming.flatten)) : Legible (flows.map (·.node)) := by
  refine .named (fun node hn => ?_) (grouped.flow_names_nodup distinct sub) fun node hn => ?_
  · obtain ⟨f, hf, rfl⟩ := List.mem_map.mp hn
    have there : f.ref.flowId ∈ (going.flatten ++ coming.flatten).map (·.ref.flowId) :=
      List.mem_map_of_mem (sub.subset hf)
    rw [grouped.flowIds] at there
    obtain ⟨i, -, same⟩ := List.mem_map.mp there
    change '/' ∉ f.ref.flowId.toList
    rw [← same]
    exact plain i
  · obtain ⟨f, hf, rfl⟩ := List.mem_map.mp hn
    change Legible f.nodes
    rcases grouped.does f (sub.subset hf) with none | ⟨t, w, -, hw, same⟩
    · rw [none]
      exact .stages []
    · rw [same]
      exact work_legible hw

theorem legible (grouped : Grouped c ids input nodes going coming)
    (distinct : Function.Injective ids.application)
    (plain : ∀ n, '/' ∉ (ids.application n).toList) : Legible nodes := by
  refine .named (fun node hn => ?_) grouped.names_nodup fun node hn => ?_
  · have there : node.name ∈ nodes.map FlowNode.name := List.mem_map_of_mem hn
    rw [grouped.names, List.mem_append] at there
    rcases there with there | there
    · obtain ⟨i, -, same⟩ := List.mem_map.mp there
      exact same ▸ FlowNode.slash_notMem_group (by decide) i
    · obtain ⟨i, -, same⟩ := List.mem_map.mp there
      exact same ▸ FlowNode.slash_notMem_group (by decide) i
  · obtain ⟨name, flows, sub, rfl⟩ := grouped.mem_nodes hn
    exact grouped.flows_legible distinct plain sub

/-- Stages have names of their own among their siblings if those that change modules have. -/
theorem siblings (grouped : Grouped c ids input nodes going coming)
    (distinct : Function.Injective ids.application)
    (apart : c.moduleInstaller = .folio →
      ∀ a ∈ input.applications ++ input.entitled, OwnNames a)
    {ss : List EntitlementStage} (hs : ss ∈ nodes.filterMap FlowNode.stage? :: siblingsIn nodes) :
    (ss.map Named.name).Nodup := by
  rw [List.mem_cons, FlowNode.siblingsIn_eq, List.mem_flatMap] at hs
  rcases hs with rfl | ⟨group, hg, hs⟩
  · exact grouped.names_nodup.sublist (FlowNode.direct_names nodes)
  obtain ⟨name, flows, sub, rfl⟩ := grouped.mem_nodes hg
  rw [FlowNode.siblings, List.mem_cons, FlowNode.siblingsIn_eq, List.mem_flatMap] at hs
  rcases hs with rfl | ⟨node, hn, hs⟩
  · exact (grouped.flow_names_nodup distinct sub).sublist (FlowNode.direct_names _)
  obtain ⟨f, hf, rfl⟩ := List.mem_map.mp hn
  rw [ApplicationFlow.node, FlowNode.siblings, List.mem_cons] at hs
  rcases grouped.does f (sub.subset hf) with none | ⟨t, w, about, hw, same⟩
  · rw [none] at hs
    rcases hs with rfl | hs
    · exact List.nodup_nil
    · exact absurd hs List.not_mem_nil
  · rw [same] at hs
    rcases hs with rfl | hs
    · exact (work_names hw).1.sublist (FlowNode.direct_names w.nodes)
    · exact work_siblings hw (fun folio => apart folio _ about) hs

end Grouped

/-- The stages of the flow of a request have different paths exactly if each has a name that tells
it from its siblings. They have such names if modules are changed in batches, and if the modules of
each application have names of their own. -/
theorem make_stagePaths_nodup {c : Capabilities} {ids : FlowIds} {r : EntitlementRequest}
    {input : FlowInput} {plan : FlowPlan} (h : make c ids r input = .ok plan)
    (distinct : Function.Injective ids.application)
    (plain : ∀ n, '/' ∉ (ids.application n).toList) :
    (plan.flow.stagePaths.Nodup ↔ plan.flow.siblingsDiffer) ∧
      (c.moduleInstaller = .okapi → plan.flow.siblingsDiffer) ∧
      ((∀ a ∈ input.applications ++ input.entitled, OwnNames a) → plan.flow.siblingsDiffer) := by
  obtain ⟨going, coming, grouped⟩ := make_grouped h
  have differ : plan.flow.siblingsDiffer ↔
      ∀ ss ∈ plan.flow.siblings, (ss.map Named.name).Nodup := by
    simp [Flow.siblingsDiffer]
  have paths := (grouped.legible distinct plain).stagePathsOf_nodup_iff plan.flow.id
  refine ⟨paths.trans differ.symm, fun okapi => differ.mpr fun ss hs => ?_,
    fun own => differ.mpr fun ss hs => ?_⟩
  · exact grouped.siblings distinct (fun folio => absurd (okapi.symm.trans folio) (by decide)) hs
  · exact grouped.siblings distinct (fun _ => own) hs

/-- Identifiers that consist of a name and a number. -/
def lettered (name : String) : FlowIds :=
  { root := name, application := fun i => s!"{name}-l{i}" }

theorem lettered_injective (name : String) : Function.Injective (lettered name).application :=
  fun _ _ same => (FlowNode.group_inj same).2

theorem lettered_plain {name : String} (plain : '/' ∉ name.toList) (n : Nat) :
    '/' ∉ ((lettered name).application n).toList :=
  FlowNode.slash_notMem_group plain n

/-- A request for one application. -/
def single : EntitlementRequest :=
  { tenantId := "t", type := .entitle, applicationIds := ["a-1.0.0"] }

/-- An application with two versions of a module, of which the second one may need the first one. -/
def twins (requires : List InterfaceReference) : FlowInput where
  applications :=
    [{ name := "a", version := "1.0.0"
       modules := [{ id := "m-1.0.0", provides := [{ id := "i", version := "1.0" }] },
         { id := "m-2.0.0", requires }] }]
  entitled := []

/-- Two versions of a module have stages with different paths if one needs the other one. -/
theorem make_stagePaths_nodup_layered :
    ∃ plan, make {} (lettered "f") single (twins [{ id := "i", version := "1.0" }]) = .ok plan ∧
      plan.flow.siblingsDiffer = true ∧ plan.flow.stagePaths.Nodup := by
  have made : (make {} (lettered "f") single (twins [{ id := "i", version := "1.0" }])).toOption.map
      (fun plan => plan.flow.siblingsDiffer) = some true := by decide +kernel
  cases h : make {} (lettered "f") single (twins [{ id := "i", version := "1.0" }]) with
  | error failure =>
    rw [h] at made
    cases made
  | ok plan =>
    rw [h] at made
    have differ : plan.flow.siblingsDiffer = true := Option.some.inj made
    have paths := (make_stagePaths_nodup h (lettered_injective "f") (lettered_plain (by decide))).1
    exact ⟨plan, rfl, differ, paths.mpr differ⟩

/-- Two versions of a module that are independent of each other share the path of their stages. -/
theorem make_twins :
    Function.Injective (lettered "f").application ∧
      (∀ n, '/' ∉ ((lettered "f").application n).toList) ∧
      (∀ a ∈ (twins []).applications, (a.allModules.map (·.id)).Nodup) ∧
      ∃ plan, make {} (lettered "f") single (twins []) = .ok plan ∧ ¬ plan.flow.stagePaths.Nodup := by
  refine ⟨lettered_injective "f", lettered_plain (by decide), by decide, ?_⟩
  have made : (make {} (lettered "f") single (twins [])).toOption.map
      (fun plan => decide plan.flow.stagePaths.Nodup) = some false := by decide +kernel
  cases h : make {} (lettered "f") single (twins []) with
  | error failure =>
    rw [h] at made
    cases made
  | ok plan =>
    rw [h] at made
    exact ⟨plan, rfl, of_decide_eq_false (Option.some.inj made)⟩

end FlowPlan

end Provisioning
