import Mathlib.Data.List.Dedup
import Provisioning.Proofs.Layering.Modules
import Provisioning.Proofs.Ledger.Cancellation

/-!
# Modules that come and modules that go

What a task enables, together with the modules of what goes, is what it disables, together with the
modules of what comes (`ApplicationTask.balanced`). An upgrade finds the module that a new one takes
over from by its name alone, so a name must not stand for several modules of one kind.
-/

namespace Provisioning

/-! ## The modules of a version -/

namespace ModuleDescriptor

/-- The identifiers of modules, each once. -/
def ids (modules : List ModuleDescriptor) : List String := (modules.map (·.id)).dedup

variable {modules old new : List ModuleDescriptor} {m : ModuleDescriptor} {x : String}

theorem mem_ids : x ∈ ids modules ↔ ∃ m ∈ modules, m.id = x := by
  rw [ids, List.mem_dedup, List.mem_map]

theorem ids_nodup (modules : List ModuleDescriptor) : (ids modules).Nodup := List.nodup_dedup _

theorem name_eq_of_id {m m' : ModuleDescriptor} (h : m.id = m'.id) : m.name = m'.name :=
  congrArg nameOf h

theorem nodes_ids (modules : List ModuleDescriptor) :
    ((nodes modules).map (·.id)).Perm (ids modules) := by
  let known := OrderedMap.ofList (modules.map fun m => (m.id, m))
  have keys : (nodes modules).map (·.id) = known.keys := by
    simp [nodes, OrderedMap.keys, known, Function.comp_def]
  rw [keys]
  refine (List.perm_ext_iff_of_nodup known.keys_nodup (ids_nodup modules)).mpr fun x => ?_
  rw [OrderedMap.mem_keys_iff, OrderedMap.contains_ofList, ids, List.mem_dedup, List.map_map]
  rfl

end ModuleDescriptor

theorem layerModules_spec {applicationId : String} {modules : List ModuleDescriptor}
    {layers : List (List ModuleDescriptor)} (h : layerModules applicationId modules = .ok layers) :
    (∀ m ∈ layers.flatten, m ∈ modules) ∧
      (layers.flatten.map (·.id)).Perm (ModuleDescriptor.ids modules) := by
  obtain ⟨nodeLayers, hl, rfl⟩ := ModuleDescriptor.layerModules_eq_ok.mp h
  have perm := Node.layersAfter_perm hl
  have flat : (nodeLayers.map fun layer => layer.map (·.item)).flatten
      = nodeLayers.flatten.map (·.item) := List.map_flatten.symm
  rw [flat]
  refine ⟨fun m hm => ?_, ?_⟩
  · obtain ⟨node, hn, rfl⟩ := List.mem_map.mp hm
    exact (ModuleDescriptor.nodes_item (perm.mem_iff.mp hn)).1
  · rw [List.map_map]
    have same : nodeLayers.flatten.map ((·.id) ∘ (·.item)) = nodeLayers.flatten.map (·.id) := by
      refine List.map_congr_left fun node hn => ?_
      exact (ModuleDescriptor.nodes_item (perm.mem_iff.mp hn)).2.1
    rw [same]
    exact (perm.map _).trans (ModuleDescriptor.nodes_ids modules)

namespace Application

/-- The identifiers of the modules of an application, each once for each kind. -/
def bundledIds (a : Application) : List String :=
  ModuleDescriptor.ids (a.modulesOf .backend) ++ ModuleDescriptor.ids (a.modulesOf .ui)

theorem mem_bundledIds {a : Application} {x : String} :
    x ∈ a.bundledIds ↔ x ∈ a.allModules.map (·.id) := by
  rw [bundledIds, ModuleDescriptor.ids, ModuleDescriptor.ids, List.mem_append, List.mem_dedup,
    List.mem_dedup, allModules, List.map_append, List.mem_append, modulesOf, modulesOf]

end Application

/-! ## Changes that balance -/

namespace ModuleChange

/-- The modules that are there after a change because of it. -/
def enables (c : ModuleChange) : List String :=
  match c.action with
  | .enable | .upgrade => [c.id]
  | .disable => []

/-- The modules that a change takes away. -/
def disables (c : ModuleChange) : List String :=
  match c.action with
  | .enable => []
  | .upgrade => c.replaced.toList
  | .disable => [c.id]

/-- With what goes there are as many modules enabled as there are disabled with what comes. -/
def Balanced (changes : List ModuleChange) (going coming : List String) : Prop :=
  ∀ x, (changes.flatMap (·.enables)).count x + going.count x
    = (changes.flatMap (·.disables)).count x + coming.count x

variable {changes changes' : List ModuleChange} {going going' coming coming' : List String}

theorem Balanced.append (first : Balanced changes going coming)
    (second : Balanced changes' going' coming') :
    Balanced (changes ++ changes') (going ++ going') (coming ++ coming') := by
  intro x
  have first := first x
  have second := second x
  simp only [List.flatMap_append, List.count_append]
  omega

theorem Balanced.perm (balanced : Balanced changes going coming) (order : changes.Perm changes')
    (goes : going.Perm going') (comes : coming.Perm coming') :
    Balanced changes' going' coming' := by
  intro x
  rw [← (order.flatMap_right _).count_eq, ← (order.flatMap_right _).count_eq, ← goes.count_eq,
    ← comes.count_eq]
  exact balanced x

theorem balanced_enable (ids : List String) : Balanced (ids.map enable) [] ids := by
  intro x
  induction ids with
  | nil => rfl
  | cons id rest ih =>
    simp_all [enable, enables, disables, List.count_cons]
    omega

theorem balanced_disable (ids : List String) : Balanced (ids.map disable) ids [] := by
  intro x
  induction ids with
  | nil => rfl
  | cons id rest ih =>
    simp_all [disable, enables, disables, List.count_cons]
    omega

end ModuleChange

/-! ## Upgrades -/

namespace ModuleDescriptor

/-- Modules of two versions that are paired by their names: a name of both is that of one module in
each of them. -/
structure Pairs (old new : List ModuleDescriptor) : Prop where
  /-- Only one module goes under the name of a module that comes. -/
  going : ∀ m ∈ new, ∀ o ∈ old, ∀ o' ∈ old, o.name = m.name → o'.name = m.name → o.id = o'.id
  /-- Only one module comes under the name of a module that goes. -/
  coming : ∀ o ∈ old, ∀ m ∈ new, ∀ m' ∈ new, m.name = o.name → m'.name = o.name → m.id = m'.id

/-- The module that a new one takes over from. -/
def partner (old : List ModuleDescriptor) (m : ModuleDescriptor) : Option ModuleDescriptor :=
  (modulesByName old).get? m.name

variable {old new : List ModuleDescriptor} {m o : ModuleDescriptor}

theorem partner_eq_some (h : partner old m = some o) : o ∈ old ∧ o.name = m.name :=
  OrderedMap.mem_of_get?_keyed h

theorem partner_isSome (ho : o ∈ old) (name : o.name = m.name) : ∃ o', partner old m = some o' := by
  refine Option.isSome_iff_exists.mp ?_
  show (modulesByName old).contains m.name
  rw [modulesByName, OrderedMap.contains_ofList, List.map_map, ← name]
  exact List.mem_map_of_mem ho

/-- A module that comes is enabled, and its partner is disabled, unless they are the same. -/
theorem balanced_upgrade (partner : ModuleDescriptor → Option ModuleDescriptor)
    (news : List ModuleDescriptor) :
    ModuleChange.Balanced
      (news.filterMap fun m => FlowPlan.upgradeChange? { new := m, old := partner m })
      ((news.filterMap partner).map (·.id)) (news.map (·.id)) := by
  intro x
  induction news with
  | nil => rfl
  | cons m rest ih =>
    cases hp : partner m with
    | none =>
      simp_all [FlowPlan.upgradeChange?, ModuleChange.enable, ModuleChange.enables,
        ModuleChange.disables, List.count_cons]
      omega
    | some o =>
      by_cases same : o.id = m.id
      · simp_all [FlowPlan.upgradeChange?, List.count_cons]
        omega
      · simp_all [FlowPlan.upgradeChange?, ModuleChange.upgrade, ModuleChange.enables,
          ModuleChange.disables, List.count_cons]
        omega

/-- What has a partner and what is left over make up the modules that go. -/
theorem Pairs.perm (pairs : Pairs old new) {news left : List ModuleDescriptor}
    (known : ∀ m ∈ news, m ∈ new) (perm : (news.map (·.id)).Perm (ids new))
    (others : (left.map (·.id)).Perm
      (ids (old.filter fun m => !(new.map (·.name)).contains m.name))) :
    ((news.filterMap (partner old)).map (·.id) ++ left.map (·.id)).Perm (ids old) := by
  have distinct : (news.map (·.id)).Nodup := perm.nodup_iff.mpr (ids_nodup new)
  have unnamed {x : String} : x ∈ left.map (·.id) ↔
      ∃ o ∈ old, o.name ∉ new.map (·.name) ∧ o.id = x := by
    rw [others.mem_iff, mem_ids]
    simp [and_assoc]
  have partners : ((news.filterMap (partner old)).map (·.id)).Nodup := by
    rw [List.Nodup, List.pairwise_map, List.pairwise_filterMap]
    refine (List.pairwise_map.mp distinct).imp_of_mem fun {m m'} hm hm' other o ho o' ho' same => ?_
    obtain ⟨hold, name⟩ := partner_eq_some ho
    obtain ⟨-, name'⟩ := partner_eq_some ho'
    rw [← name_eq_of_id same] at name'
    exact other (pairs.coming o hold m (known m hm) m' (known m' hm') name.symm name'.symm)
  have apart : ((news.filterMap (partner old)).map (·.id)).Disjoint (left.map (·.id)) := by
    intro x hx hl
    obtain ⟨o, ho, rfl⟩ := List.mem_map.mp hx
    obtain ⟨m, hm, ho⟩ := List.mem_filterMap.mp ho
    obtain ⟨o', -, unnamed, same⟩ := unnamed.mp hl
    rw [name_eq_of_id same, (partner_eq_some ho).2] at unnamed
    exact unnamed (List.mem_map_of_mem (known m hm))
  have nodup := List.Nodup.append partners (others.nodup_iff.mpr (ids_nodup _)) apart
  refine (List.perm_ext_iff_of_nodup nodup (ids_nodup old)).mpr fun x => ?_
  rw [List.mem_append, unnamed, mem_ids]
  constructor
  · rintro (hx | ⟨o, ho, -, rfl⟩)
    · obtain ⟨o, ho, rfl⟩ := List.mem_map.mp hx
      obtain ⟨m, -, ho⟩ := List.mem_filterMap.mp ho
      exact ⟨o, (partner_eq_some ho).1, rfl⟩
    · exact ⟨o, ho, rfl⟩
  · rintro ⟨o, ho, rfl⟩
    by_cases named : o.name ∈ new.map (·.name)
    · left
      obtain ⟨m, hm, name⟩ := List.mem_map.mp named
      obtain ⟨m', hm', same⟩ := List.mem_map.mp (perm.mem_iff.mpr (mem_ids.mpr ⟨m, hm, rfl⟩))
      rw [← name_eq_of_id same] at name
      obtain ⟨o', ho'⟩ := partner_isSome ho name.symm
      obtain ⟨hold, name'⟩ := partner_eq_some ho'
      rw [pairs.going m' (known m' hm') o ho o' hold name.symm name']
      exact List.mem_map_of_mem (List.mem_filterMap.mpr ⟨m', hm', ho'⟩)
    · exact .inr ⟨o, ho, named, rfl⟩

end ModuleDescriptor

/-! ## Sequences of modules -/

section

variable {a old : Application} {kind : ModuleKind} {s : ModuleSequence}

theorem flatten_changesOf (change : ModuleStep → Option ModuleChange) (s : ModuleSequence) :
    (FlowPlan.changesOf change s).flatten = s.steps.filterMap change :=
  List.filterMap_flatten.symm

theorem steps_fresh (layers : List (List ModuleDescriptor)) :
    (ModuleSequence.fresh layers).steps = layers.flatten.map fun m => { new := m } :=
  List.map_flatten.symm

theorem balanced_entitle (h : moduleSequence a none .entitle kind = .ok s) :
    ModuleChange.Balanced (FlowPlan.changesOf (fun s => some (.enable s.new.id)) s).flatten []
      (ModuleDescriptor.ids (a.modulesOf kind)) := by
  obtain ⟨layers, hl, h⟩ := Except.bind_eq_ok.mp h
  obtain rfl := Except.ok.inj h
  rw [flatten_changesOf, steps_fresh, List.filterMap_map]
  have enabled := ModuleChange.balanced_enable (layers.flatten.map (·.id))
  rw [List.map_map, ← List.filterMap_eq_map] at enabled
  exact enabled.perm (.refl _) (.refl _) (layerModules_spec hl).2

theorem balanced_revoke (h : moduleSequence a none .revoke kind = .ok s) :
    ModuleChange.Balanced (FlowPlan.changesOf (fun s => some (.disable s.new.id)) s).flatten
      (ModuleDescriptor.ids (a.modulesOf kind)) [] := by
  obtain ⟨layers, hl, h⟩ := Except.bind_eq_ok.mp h
  obtain rfl := Except.ok.inj h
  rw [flatten_changesOf, steps_fresh, List.filterMap_map]
  have disabled := ModuleChange.balanced_disable (layers.reverse.flatten.map (·.id))
  rw [List.map_map, ← List.filterMap_eq_map] at disabled
  have order := ((List.reverse_perm layers).flatten.map (·.id)).trans (layerModules_spec hl).2
  exact disabled.perm (.refl _) order (.refl _)

/-- The changes of an upgrade for the modules of a kind. -/
def ModuleSequence.upgradeChanges (s : ModuleSequence) : List ModuleChange :=
  (FlowPlan.changesOf FlowPlan.upgradeChange? s).flatten
    ++ (s.deprecated.flatten.map (·.id)).map .disable

theorem balanced_sequence (pairs : ModuleDescriptor.Pairs (old.modulesOf kind) (a.modulesOf kind))
    (h : moduleSequence a (some old) .upgrade kind = .ok s) :
    ModuleChange.Balanced s.upgradeChanges (ModuleDescriptor.ids (old.modulesOf kind))
      (ModuleDescriptor.ids (a.modulesOf kind)) := by
  obtain ⟨layers, hl, h⟩ := Except.bind_eq_ok.mp h
  obtain ⟨deprecated, hd, h⟩ := Except.bind_eq_ok.mp h
  obtain rfl := Except.ok.inj h
  obtain ⟨known, ids⟩ := layerModules_spec hl
  have left := ((List.reverse_perm deprecated).flatten.map (·.id)).trans (layerModules_spec hd).2
  have upgraded := ModuleDescriptor.balanced_upgrade
    (ModuleDescriptor.partner (old.modulesOf kind)) layers.flatten
  have disabled := ModuleChange.balanced_disable (deprecated.reverse.flatten.map (·.id))
  have balanced := upgraded.append disabled
  rw [List.append_nil] at balanced
  replace balanced := balanced.perm (.refl _) (pairs.perm known ids left) ids
  rw [ModuleSequence.upgradeChanges, flatten_changesOf, ModuleSequence.steps, ← List.map_flatten,
    List.filterMap_map]
  exact balanced

theorem disables_entitle (s : ModuleSequence) :
    ((FlowPlan.changesOf (fun s => some (.enable s.new.id)) s).flatten).flatMap
      (·.disables) = [] := by
  rw [flatten_changesOf, List.flatMap_eq_nil_iff]
  intro change hc
  obtain ⟨step, -, made⟩ := List.mem_filterMap.mp hc
  rw [← Option.some.inj made]
  rfl

theorem disables_revoke (h : moduleSequence a none .revoke kind = .ok s) {x : String}
    (hx : x ∈ ((FlowPlan.changesOf (fun s => some (.disable s.new.id)) s).flatten).flatMap
      (·.disables)) : x ∈ ModuleDescriptor.ids (a.modulesOf kind) := by
  obtain ⟨layers, hl, h⟩ := Except.bind_eq_ok.mp h
  obtain rfl := Except.ok.inj h
  rw [flatten_changesOf, steps_fresh] at hx
  obtain ⟨change, hc, hx⟩ := List.mem_flatMap.mp hx
  obtain ⟨step, hs, made⟩ := List.mem_filterMap.mp hc
  obtain ⟨m, hm, rfl⟩ := List.mem_map.mp hs
  rw [← Option.some.inj made] at hx
  obtain rfl := List.mem_singleton.mp hx
  have known := (layerModules_spec hl).1 m ((List.reverse_perm layers).flatten.mem_iff.mp hm)
  exact ModuleDescriptor.mem_ids.mpr ⟨m, known, rfl⟩

theorem disables_sequence (h : moduleSequence a (some old) .upgrade kind = .ok s) {x : String}
    (hx : x ∈ s.upgradeChanges.flatMap (·.disables)) :
    x ∈ ModuleDescriptor.ids (old.modulesOf kind) := by
  obtain ⟨layers, hl, h⟩ := Except.bind_eq_ok.mp h
  obtain ⟨deprecated, hd, h⟩ := Except.bind_eq_ok.mp h
  obtain rfl := Except.ok.inj h
  rw [ModuleSequence.upgradeChanges, flatten_changesOf, ModuleSequence.steps, ← List.map_flatten]
    at hx
  obtain ⟨change, hc, hx⟩ := List.mem_flatMap.mp hx
  rw [ModuleDescriptor.mem_ids]
  rcases List.mem_append.mp hc with hc | hc
  · obtain ⟨step, hs, made⟩ := List.mem_filterMap.mp hc
    obtain ⟨m, hm, rfl⟩ := List.mem_map.mp hs
    unfold FlowPlan.upgradeChange? at made
    split at made
    · rw [← Option.some.inj made] at hx
      exact absurd hx List.not_mem_nil
    · rename_i o partner
      split at made
      · cases made
      · rw [← Option.some.inj made] at hx
        obtain rfl := List.mem_singleton.mp hx
        exact ⟨o, (ModuleDescriptor.partner_eq_some partner).1, rfl⟩
  · obtain ⟨id, hid, rfl⟩ := List.mem_map.mp hc
    obtain ⟨m, hm, rfl⟩ := List.mem_map.mp hid
    obtain rfl := List.mem_singleton.mp hx
    have left := (layerModules_spec hd).1 m ((List.reverse_perm deprecated).flatten.mem_iff.mp hm)
    exact ⟨m, (List.mem_filter.mp left).1, rfl⟩

end

/-! ## Tasks -/

namespace FlowPlan

open FlowNode (stagesIn)

/-- The changes of the stages of nodes. -/
def changesIn (nodes : StageNodes) : List ModuleChange := (stagesIn nodes).flatMap (·.changes)

theorem changesIn_append (ns ms : StageNodes) :
    changesIn (ns ++ ms) = changesIn ns ++ changesIn ms := by
  rw [changesIn, FlowNode.stagesIn_append, List.flatMap_append, changesIn, changesIn]

theorem changesIn_stage (s : EntitlementStage) : changesIn [.stage s] = s.changes := by
  simp [changesIn, stagesIn, FlowNode.stages]

theorem changesIn_onlyIf (condition : Bool) (s : EntitlementStage) :
    changesIn (onlyIf condition s) = if condition then s.changes else [] := by
  cases condition <;> simp [changesIn, onlyIf, stagesIn, FlowNode.stages]

theorem changesIn_deprecatedModules (ids : List String) :
    changesIn (onlyIf (!ids.isEmpty) (.deprecatedModules ids)) = ids.map .disable := by
  rw [changesIn_onlyIf, EntitlementStage.changes]
  cases ids <;> rfl

theorem changesIn_moduleGroups (groupName : String) (layers : List (List ModuleChange)) :
    changesIn (moduleGroups groupName layers) = layers.flatten := by
  rw [← List.flatten_filter_not_isEmpty, moduleGroups]
  generalize layers.filter (!·.isEmpty) = layers
  suffices general : ∀ name : Nat → String, changesIn (layers.mapIdx fun i
      (layer : List ModuleChange) => FlowNode.parallel (name i)
        (layer.map fun change => .stage (EntitlementStage.module change)))
      = layers.flatten from general fun i => s!"{groupName}-l{i}"
  induction layers with
  | nil =>
    intro _
    rfl
  | cons layer rest ih =>
    intro name
    have here : (layer.map EntitlementStage.module).flatMap (·.changes) = layer := by
      simp [List.flatMap_map, EntitlementStage.changes]
    rw [List.mapIdx_cons, List.flatten_cons, ← ih fun i => name (i + 1), changesIn, stagesIn,
      FlowNode.stages, stagesIn_map_change, List.flatMap_append, here, changesIn]

theorem changesIn_batch {stage : List ModuleChange → EntitlementStage}
    (holds : ∀ changes, (stage changes).changes = changes) (changes : List ModuleChange) :
    changesIn (batch stage changes) = changes := by
  unfold batch
  split
  · rename_i empty
    rw [List.isEmpty_iff.mp empty]
    rfl
  · simp [changesIn, stagesIn, FlowNode.stages, holds]

theorem changesIn_moduleNodes (mode : ModuleInstallerMode) (backend ui : List (List ModuleChange)) :
    changesIn (moduleNodes mode backend ui) = backend.flatten ++ ui.flatten := by
  cases mode with
  | folio => rw [moduleNodes, changesIn_append, changesIn_moduleGroups, changesIn_moduleGroups]
  | okapi => exact changesIn_batch (fun _ => rfl) _

theorem changesIn_moduleRemovalNodes (mode : ModuleInstallerMode)
    (backend ui : List (List ModuleChange)) :
    changesIn (moduleRemovalNodes mode backend ui) = ui.flatten ++ backend.flatten := by
  cases mode with
  | folio =>
    rw [moduleRemovalNodes, changesIn_append, changesIn_moduleGroups, changesIn_moduleGroups]
  | okapi => exact changesIn_batch (fun _ => rfl) _

/-- An upgrade makes the changes for the modules that come, and then disables those that it leaves
behind. -/
theorem changesIn_upgradeWork {c : Capabilities} {old a : Application} {w : ApplicationWork}
    (h : upgradeWork c a old = .ok w) :
    ∃ backend ui, moduleSequence a (some old) .upgrade .backend = .ok backend ∧
      moduleSequence a (some old) .upgrade .ui = .ok ui ∧ changesIn w.nodes
        = (changesOf upgradeChange? backend).flatten ++ (changesOf upgradeChange? ui).flatten
          ++ ((backend.deprecated.flatten ++ ui.deprecated.flatten).map (·.id)).map .disable := by
  obtain ⟨backend, ui, hb, hu, rfl⟩ := ApplicationTask.work_eq_ok (t := .upgrade old a) h
  refine ⟨backend, ui, hb, hu, ?_⟩
  simp only [ApplicationTask.front, changesIn_append]
  rw [changesIn_deprecatedModules]
  simp only [changesIn_onlyIf, ApplicationTask.routeStage, ApplicationTask.resourceStage,
    changesIn_moduleNodes, changesIn_stage, ApplicationTask.lastStage, EntitlementStage.changes,
    ite_self, List.append_nil, List.flatten_append]
  rfl

end FlowPlan

namespace ApplicationTask

open FlowNode (stagesIn)

/-- Versions whose modules are paired by their names, those of each kind. -/
def Pairs : ApplicationTask → Prop
  | upgrade old a => ∀ kind, ModuleDescriptor.Pairs (old.modulesOf kind) (a.modulesOf kind)
  | _ => True

/-- The changes that the stages of a task make. -/
def changes (c : Capabilities) (t : ApplicationTask) : List ModuleChange :=
  (t.stages c).flatMap (·.changes)

variable {c : Capabilities} {t : ApplicationTask} {w : ApplicationWork}

theorem changes_eq (h : t.work c = .ok w) : t.changes c = FlowPlan.changesIn w.nodes := by
  rw [changes, stages_eq h]
  rfl

/-- An application that comes has its modules enabled. -/
theorem entitle_changes {a : Application} (h : (entitle a).work c = .ok w) :
    ∃ backend ui, moduleSequence a none .entitle .backend = .ok backend ∧
      moduleSequence a none .entitle .ui = .ok ui ∧ (entitle a).changes c
        = (FlowPlan.changesOf (fun s => some (.enable s.new.id)) backend).flatten
          ++ (FlowPlan.changesOf (fun s => some (.enable s.new.id)) ui).flatten := by
  rw [changes_eq h]
  obtain ⟨backend, ui, hb, hu, rfl⟩ := work_eq_ok h
  refine ⟨backend, ui, hb, hu, ?_⟩
  simp only [front, FlowPlan.changesIn_append, FlowPlan.changesIn_onlyIf, routeStage, resourceStage,
    FlowPlan.changesIn_moduleNodes, FlowPlan.changesIn_stage, lastStage, EntitlementStage.changes,
    ite_self, List.append_nil]
  rfl

/-- An application that goes has its modules disabled. -/
theorem revoke_changes {a : Application} (h : (revoke a).work c = .ok w) :
    ∃ backend ui, moduleSequence a none .revoke .backend = .ok backend ∧
      moduleSequence a none .revoke .ui = .ok ui ∧ (revoke a).changes c
        = (FlowPlan.changesOf (fun s => some (.disable s.new.id)) ui).flatten
          ++ (FlowPlan.changesOf (fun s => some (.disable s.new.id)) backend).flatten := by
  rw [changes_eq h]
  obtain ⟨backend, ui, hb, hu, rfl⟩ := work_eq_ok h
  refine ⟨backend, ui, hb, hu, ?_⟩
  simp only [front, FlowPlan.changesIn_append, FlowPlan.changesIn_onlyIf, routeStage, resourceStage,
    FlowPlan.changesIn_moduleRemovalNodes, FlowPlan.changesIn_stage, lastStage,
    EntitlementStage.changes, ite_self, List.append_nil, List.nil_append]
  rfl

/-- The changes of an upgrade are those of each kind of modules, in another order. -/
theorem upgrade_changes {old a : Application} (h : (upgrade old a).work c = .ok w) :
    ∃ backend ui, moduleSequence a (some old) .upgrade .backend = .ok backend ∧
      moduleSequence a (some old) .upgrade .ui = .ok ui ∧
      (backend.upgradeChanges ++ ui.upgradeChanges).Perm ((upgrade old a).changes c) := by
  obtain ⟨backend, ui, hb, hu, changes⟩ := FlowPlan.changesIn_upgradeWork h
  refine ⟨backend, ui, hb, hu, ?_⟩
  rw [changes_eq h, changes]
  simp only [ModuleSequence.upgradeChanges, List.map_append]
  refine List.perm_iff_count.mpr fun x => ?_
  simp only [List.count_append]
  omega

/-- What a task enables, together with the modules of what goes, is what it disables, together with
the modules of what comes. -/
theorem balanced (h : t.work c = .ok w) (pairs : t.Pairs) :
    ModuleChange.Balanced (t.changes c) (t.leaving.flatMap (·.bundledIds))
      (t.arriving.flatMap (·.bundledIds)) := by
  cases t with
  | entitle a =>
    obtain ⟨backend, ui, hb, hu, changes⟩ := entitle_changes h
    rw [changes]
    have both := (balanced_entitle hb).append (balanced_entitle hu)
    simpa [leaving, arriving, Application.bundledIds] using both
  | revoke a =>
    obtain ⟨backend, ui, hb, hu, changes⟩ := revoke_changes h
    rw [changes]
    have both := (balanced_revoke hb).append (balanced_revoke hu)
    replace both := both.perm List.perm_append_comm (.refl _) (.refl _)
    simpa [leaving, arriving, Application.bundledIds] using both
  | upgrade old a =>
    obtain ⟨backend, ui, hb, hu, changes⟩ := upgrade_changes h
    have both := (balanced_sequence (pairs .backend) hb).append (balanced_sequence (pairs .ui) hu)
    replace both := both.perm changes (.refl _) (.refl _)
    simpa [leaving, arriving, Application.bundledIds] using both

/-- A task disables only modules of what goes. -/
theorem disables_leaving (h : t.work c = .ok w) {x : String}
    (hx : x ∈ (t.changes c).flatMap (·.disables)) : ∃ a ∈ t.leaving, x ∈ a.bundledIds := by
  have kinds {a : Application} (hx : ∃ kind, x ∈ ModuleDescriptor.ids (a.modulesOf kind)) :
      x ∈ a.bundledIds := by
    obtain ⟨kind, hx⟩ := hx
    rw [Application.bundledIds, List.mem_append]
    cases kind
    · exact .inl hx
    · exact .inr hx
  cases t with
  | entitle a =>
    obtain ⟨backend, ui, hb, hu, changes⟩ := entitle_changes h
    rw [changes, List.flatMap_append, disables_entitle, disables_entitle] at hx
    exact absurd hx List.not_mem_nil
  | revoke a =>
    obtain ⟨backend, ui, hb, hu, changes⟩ := revoke_changes h
    rw [changes, List.flatMap_append, List.mem_append] at hx
    refine ⟨a, List.mem_cons_self, kinds ?_⟩
    rcases hx with hx | hx
    · exact ⟨.ui, disables_revoke hu hx⟩
    · exact ⟨.backend, disables_revoke hb hx⟩
  | upgrade old a =>
    obtain ⟨backend, ui, hb, hu, changes⟩ := upgrade_changes h
    rw [← (changes.flatMap_right _).mem_iff, List.flatMap_append, List.mem_append] at hx
    refine ⟨old, List.mem_cons_self, kinds ?_⟩
    rcases hx with hx | hx
    · exact ⟨.backend, disables_sequence hb hx⟩
    · exact ⟨.ui, disables_sequence hu hx⟩

/-- A module of what comes for nothing is enabled by a stage that changes no entitlement. -/
theorem enabled_of_arriving (h : t.work c = .ok w) (free : t.leaving = []) {a : Application}
    (ha : a ∈ t.arriving) {x : String} (hx : x ∈ a.bundledIds) :
    ∃ s ∈ t.stages c, s.changesEntitlement = false ∧ x ∈ s.changes.flatMap (·.enables) := by
  have pairs : t.Pairs := by
    cases t with
    | upgrade => exact absurd free (List.cons_ne_nil _ _)
    | _ => trivial
  have balanced := balanced h pairs x
  rw [free, List.flatMap_nil, List.count_nil] at balanced
  have comes : 0 < (t.arriving.flatMap (·.bundledIds)).count x :=
    List.count_pos_iff.mpr (List.mem_flatMap.mpr ⟨a, ha, hx⟩)
  have enabled : x ∈ (t.changes c).flatMap (·.enables) := List.count_pos_iff.mp (by omega)
  rw [changes, List.flatMap_assoc, List.mem_flatMap] at enabled
  obtain ⟨s, hs, enabled⟩ := enabled
  refine ⟨s, hs, ?_, enabled⟩
  cases s <;> simp_all [EntitlementStage.changes, EntitlementStage.changesEntitlement]

end ApplicationTask

end Provisioning
