import Mathlib.Order.Bounds.Basic
import Provisioning.Layering.Modules
import Provisioning.Proofs.Layering.Canonical

/-!
# The order of modules

The modules of an application have layers exactly if they do not require each other in a circle.
Then each module lies in the earliest layer that comes after those of the modules it requires
(`Layered`), removal goes the other way round, and an upgrade has the layers of the version that
comes and takes away the modules whose names that version does not have.

Requirements count within one list only. So the modules that an upgrade takes away are put in order
by what they require of each other, whatever they require of modules that stay.
-/

namespace Provisioning

open Relation

namespace ModuleDescriptor

/-- A module requires another one of a list if that provides an interface it requires. -/
def Requires (modules : List ModuleDescriptor) (m other : ModuleDescriptor) : Prop :=
  other ∈ modules ∧ other.id ≠ m.id ∧ ∃ r ∈ m.requires, ∃ p ∈ other.provides, p.id = r.id

/-- The layers of modules that leave no choice. -/
structure Layered (modules : List ModuleDescriptor) (layers : List (List ModuleDescriptor)) :
    Prop where
  /-- Each module is there, and only once. -/
  once : layers.flatten.Perm modules
  /-- A module is in the earliest layer after those of all modules that it requires. -/
  earliest : ∀ m ∈ modules, ∀ i, m ∈ layers.getD i [] ↔
    IsLeast {k | ∀ other, Requires modules m other → ∃ j < k, other ∈ layers.getD j []} i
  /-- No layer is empty. -/
  nonempty : ∀ layer ∈ layers, layer ≠ []
  /-- The identifiers in a layer ascend. -/
  sorted : ∀ layer ∈ layers, (layer.map (·.id)).Pairwise (· < ·)

variable {modules : List ModuleDescriptor} {m other : ModuleDescriptor}
  {layers : List (List ModuleDescriptor)}

/-! ## The nodes of modules -/

theorem mem_needsOf {id : String} :
    id ∈ needsOf modules m ↔ ∃ other, Requires modules m other ∧ other.id = id := by
  simp only [needsOf, List.mem_filter, List.mem_flatMap, List.mem_map, List.any_eq_true,
    decide_eq_true_eq]
  constructor
  · rintro ⟨⟨r, hr, other, ⟨hother, p, hp, same⟩, rfl⟩, ne⟩
    exact ⟨other, ⟨hother, ne, r, hr, p, hp, same⟩, rfl⟩
  · rintro ⟨other, ⟨hother, ne, r, hr, p, hp, same⟩, rfl⟩
    exact ⟨⟨r, hr, other, ⟨hother, p, hp, same⟩, rfl⟩, ne⟩

/-- Each node stands for a module of the list and needs what that requires. -/
theorem nodes_item {node : Node ModuleDescriptor} (h : node ∈ nodes modules) :
    node.item ∈ modules ∧ node.item.id = node.id ∧ node.needs = needsOf modules node.item := by
  obtain ⟨⟨id, m⟩, he, rfl⟩ := List.mem_map.mp h
  obtain ⟨hm, rfl⟩ := OrderedMap.mem_of_get?_keyed (OrderedMap.get?_eq_some_iff.mpr he)
  exact ⟨hm, rfl, rfl⟩

theorem exists_node (hm : m ∈ modules) : ∃ node ∈ nodes modules, node.id = m.id := by
  have there : (OrderedMap.ofList (modules.map fun m => (m.id, m))).contains m.id := by
    rw [OrderedMap.contains_ofList, List.map_map]
    exact List.mem_map_of_mem hm
  obtain ⟨m', found⟩ := Option.isSome_iff_exists.mp there
  exact ⟨_, List.mem_map_of_mem (OrderedMap.get?_eq_some_iff.mp found), rfl⟩

theorem nodes_ascending (modules : List ModuleDescriptor) :
    ((nodes modules).map (·.id)).Pairwise (· < ·) := by
  rw [nodes, List.map_map, List.pairwise_map]
  exact (OrderedMap.ofList (modules.map fun m => (m.id, m))).ascending.imp
    Std.LawfulLTCmp.eq_lt_iff_lt.mp

section

variable (ids : (modules.map (·.id)).Nodup)

include ids

/-- The node that is called like a module stands for it. -/
theorem item_eq (hm : m ∈ modules) {node : Node ModuleDescriptor} (h : node ∈ nodes modules)
    (named : node.id = m.id) : node.item = m := by
  obtain ⟨there, own, -⟩ := nodes_item h
  exact List.inj_on_of_nodup_map ids there hm (own.trans named)

theorem nodes_perm : ((nodes modules).map (·.item)).Perm modules := by
  have keys : ((modules.map fun m => (m.id, m)).map (·.1)).Nodup := by
    simpa [Function.comp_def] using ids
  have entries := (OrderedMap.ofList_perm keys).map (·.2)
  simpa [nodes, Function.comp_def] using entries

end

/-! ## Layers -/

theorem layerModules_eq_ok {applicationId : String} :
    layerModules applicationId modules = .ok layers ↔
      ∃ nodeLayers, Node.layers (nodes modules) = .ok nodeLayers ∧
        nodeLayers.map (fun layer => layer.map (·.item)) = layers := by
  unfold layerModules
  cases Node.layers (nodes modules) with
  | error stuck => simp
  | ok nodeLayers => simp

section

variable {applicationId : String} (ids : (modules.map (·.id)).Nodup)

include ids

section

variable (h : layerModules applicationId modules = .ok layers)

include h

theorem layerModules_perm : layers.flatten.Perm modules := by
  obtain ⟨nodeLayers, hl, rfl⟩ := layerModules_eq_ok.mp h
  have placed := (Node.layersAfter_perm hl).map (·.item)
  rw [List.map_flatten] at placed
  exact placed.trans (nodes_perm ids)

/-- What a module requires is in a layer before its own. -/
theorem layerModules_ordered {i : Nat} (hm : m ∈ layers.getD i [])
    (requires : Requires modules m other) : ∃ j < i, other ∈ layers.getD j [] := by
  obtain ⟨nodeLayers, hl, rfl⟩ := layerModules_eq_ok.mp h
  rw [getD_map_map] at hm
  obtain ⟨node, hnode, rfl⟩ := List.mem_map.mp hm
  have inside {i : Nat} {node : Node ModuleDescriptor} (h : node ∈ nodeLayers.getD i []) :
      node ∈ nodes modules :=
    (Node.layersAfter_perm hl).mem_iff.mp (mem_flatten_of_getD h)
  have needed : other.id ∈ node.needs := by
    rw [(nodes_item (inside hnode)).2.2, mem_needsOf]
    exact ⟨other, requires, rfl⟩
  rcases Node.layersAfter_ordered hl hnode needed with before | ⟨j, hj, node', hnode', named⟩
  · cases before
  · refine ⟨j, hj, ?_⟩
    rw [getD_map_map, ← item_eq ids requires.1 (inside hnode') named]
    exact List.mem_map_of_mem hnode'

/-- A module that is not in the first layer requires one of the layer before. -/
theorem layerModules_tight {i : Nat} (hm : m ∈ layers.getD (i + 1) []) :
    ∃ other, Requires modules m other ∧ other ∈ layers.getD i [] := by
  obtain ⟨nodeLayers, hl, rfl⟩ := layerModules_eq_ok.mp h
  rw [getD_map_map] at hm ⊢
  obtain ⟨node, hnode, rfl⟩ := List.mem_map.mp hm
  have inside {i : Nat} {node : Node ModuleDescriptor} (h : node ∈ nodeLayers.getD i []) :
      node ∈ nodes modules :=
    (Node.layersAfter_perm hl).mem_iff.mp (mem_flatten_of_getD h)
  obtain ⟨_, hneed, node', hnode', rfl⟩ := Node.layersAfter_tight hl hnode
  rw [(nodes_item (inside hnode)).2.2, mem_needsOf] at hneed
  obtain ⟨other, requires, named⟩ := hneed
  refine ⟨other, requires, ?_⟩
  rw [← item_eq ids requires.1 (inside hnode') named.symm]
  exact List.mem_map_of_mem hnode'

/-- Whatever a module requires, directly or not, is in a layer before its own. -/
theorem layerModules_before (chain : TransGen (Requires modules) m other) {i : Nat}
    (hm : m ∈ layers.getD i []) : ∃ j < i, other ∈ layers.getD j [] := by
  induction chain using TransGen.head_induction_on generalizing i with
  | single requires => exact layerModules_ordered ids h hm requires
  | head requires _ ih =>
    obtain ⟨k, hk, there⟩ := layerModules_ordered ids h hm requires
    obtain ⟨j, hj, found⟩ := ih there
    exact ⟨j, hj.trans hk, found⟩

theorem layered_of_ok : Layered modules layers := by
  have once := layerModules_perm ids h
  have nodup : layers.flatten.Nodup := once.nodup_iff.mpr (List.Nodup.of_map _ ids)
  have least {m : ModuleDescriptor} {i : Nat} (hm : m ∈ layers.getD i []) :
      IsLeast {k | ∀ other, Requires modules m other → ∃ j < k, other ∈ layers.getD j []} i := by
    refine ⟨fun other requires => layerModules_ordered ids h hm requires, fun k after => ?_⟩
    cases i with
    | zero => exact Nat.zero_le k
    | succ i =>
      obtain ⟨other, requires, there⟩ := layerModules_tight ids h hm
      obtain ⟨j, hj, found⟩ := after other requires
      obtain rfl := layer_unique nodup found there
      exact hj
  have each : ∀ layer ∈ layers, layer ≠ [] ∧ (layer.map (·.id)).Pairwise (· < ·) := by
    obtain ⟨nodeLayers, hl, rfl⟩ := layerModules_eq_ok.mp h
    rw [List.forall_mem_map]
    intro layer hlayer
    obtain ⟨some_in, sublist⟩ := Node.layersAfter_layer hl layer hlayer
    have names : (layer.map (·.item)).map (·.id) = layer.map (·.id) := by
      rw [List.map_map]
      refine List.map_congr_left fun node hnode => ?_
      exact (nodes_item (sublist.subset hnode)).2.1
    rw [names]
    exact ⟨by simpa using some_in, (nodes_ascending modules).sublist (sublist.map _)⟩
  refine ⟨once, fun m hm i => ⟨least, fun earliest => ?_⟩, fun layer hlayer => (each layer hlayer).1,
    fun layer hlayer => (each layer hlayer).2⟩
  obtain ⟨j, there⟩ := exists_layer (once.mem_iff.mpr hm)
  rwa [earliest.unique (least there)]

end

/-- Modules have layers exactly if none of them requires itself, directly or not. -/
theorem layerModules_isOk_iff : (∃ layers, layerModules applicationId modules = .ok layers) ↔
    ∀ m ∈ modules, ¬ TransGen (Requires modules) m m := by
  constructor
  · rintro ⟨layers, h⟩ m hm circle
    have once := layerModules_perm ids h
    have nodup : layers.flatten.Nodup := once.nodup_iff.mpr (List.Nodup.of_map _ ids)
    obtain ⟨i, there⟩ := exists_layer (once.mem_iff.mpr hm)
    obtain ⟨j, hj, found⟩ := layerModules_before ids h circle there
    exact absurd (layer_unique nodup found there) hj.ne
  · intro free
    cases hl : Node.layers (nodes modules) with
    | ok nodeLayers => exact ⟨_, layerModules_eq_ok.mpr ⟨nodeLayers, hl, rfl⟩⟩
    | error stuck =>
      have circle : ∃ m ∈ modules, TransGen (Requires modules) m m := by
        refine Node.exists_circle_of_error (·.id) ?_ (fun m hm => exists_node hm) ?_ hl
        · intro node hnode
          exact ⟨node.item, (nodes_item hnode).1, (nodes_item hnode).2.1⟩
        · intro m hm node hnode named x hx
          rw [(nodes_item hnode).2.2, item_eq ids hm hnode named, mem_needsOf] at hx
          obtain ⟨other, requires, same⟩ := hx
          exact ⟨other, requires.1, requires, same⟩
      obtain ⟨m, hm, turning⟩ := circle
      exact absurd turning (free m hm)

end

end ModuleDescriptor

/-! ## Sequences -/

open ModuleDescriptor

namespace ModuleSequence

/-- The modules of a sequence, layer by layer. -/
def modules (s : ModuleSequence) : List (List ModuleDescriptor) :=
  s.layers.map fun layer => layer.map (·.new)

theorem modules_fresh (layers : List (List ModuleDescriptor)) : (fresh layers).modules = layers := by
  simp [modules, fresh, Function.comp_def]

end ModuleSequence

variable {a : Application} {kind : ModuleKind} {s : ModuleSequence}

/-- An application that comes for nothing has the layers of its modules. -/
theorem moduleSequence_entitle (a : Application) (installed : Option Application)
    (kind : ModuleKind) : moduleSequence a installed .entitle kind
      = (layerModules a.id (a.modulesOf kind)).map .fresh := by
  cases hl : layerModules a.id (a.modulesOf kind) <;> simp [moduleSequence, hl] <;> rfl

theorem moduleSequence_revoke (a : Application) (installed : Option Application)
    (kind : ModuleKind) : moduleSequence a installed .revoke kind
      = (layerModules a.id (a.modulesOf kind)).map fun layers => .fresh layers.reverse := by
  cases hl : layerModules a.id (a.modulesOf kind) <;> simp [moduleSequence, hl] <;> rfl

/-- The modules of an installed version whose names the other version does not have. -/
def droppedModules (old a : Application) (kind : ModuleKind) : List ModuleDescriptor :=
  (old.modulesOf kind).filter fun m => !((a.modulesOf kind).map (·.name)).contains m.name

/-- An upgrade has the layers of the version that comes, and those of the modules that it drops. -/
theorem of_moduleSequence_upgrade {old : Application} {type : EntitlementType}
    (upgrades : type = .upgrade ∨ type = .state)
    (h : moduleSequence a (some old) type kind = .ok s) :
    ∃ layers dropped, layerModules a.id (a.modulesOf kind) = .ok layers ∧
      layerModules old.id (droppedModules old a kind) = .ok dropped ∧
      s.modules = layers ∧ s.deprecated = dropped.reverse := by
  have h : moduleSequence a (some old) .upgrade kind = .ok s := by
    rcases upgrades with rfl | rfl <;> exact h
  obtain ⟨layers, hl, h⟩ := Except.bind_eq_ok.mp h
  obtain ⟨dropped, hd, h⟩ := Except.bind_eq_ok.mp h
  obtain rfl := Except.ok.inj h
  exact ⟨layers, dropped, hl, hd, by simp [ModuleSequence.modules, Function.comp_def], rfl⟩

/-- An application has an order of its modules exactly if these do not require each other in a
circle, and in that order each module is in the earliest layer after what it requires. Removal has
the same layers the other way round, or fails for the same reason. An upgrade that is possible has
the layers of the version that comes, and takes away exactly the modules whose names this does not
have, each before the others of them that it requires. -/
theorem moduleSequence_layered {installed : Option Application}
    (ids : ((a.modulesOf kind).map (·.id)).Nodup)
    (installedIds : ∀ old ∈ installed, ((old.modulesOf kind).map (·.id)).Nodup) :
    ((∃ s, moduleSequence a installed .entitle kind = .ok s) ↔
        ∀ m ∈ a.modulesOf kind, ¬ TransGen (Requires (a.modulesOf kind)) m m) ∧
      (∀ s, moduleSequence a installed .entitle kind = .ok s →
        Layered (a.modulesOf kind) s.modules ∧ s.deprecated = []) ∧
      (moduleSequence a installed .revoke kind = (moduleSequence a installed .entitle kind).map
        fun s => { s with layers := s.layers.reverse }) ∧
      ∀ type, type = .upgrade ∨ type = .state → ∀ old ∈ installed, ∀ s,
        moduleSequence a installed type kind = .ok s →
        (∃ first, moduleSequence a installed .entitle kind = .ok first ∧
          s.modules = first.modules) ∧
        s.deprecated.flatten.Perm ((old.modulesOf kind).filter fun m =>
          m.name ∉ (a.modulesOf kind).map (·.name)) ∧
        ∀ i j, ∀ m ∈ s.deprecated.getD i [], ∀ other ∈ s.deprecated.getD j [],
          other.id ≠ m.id → (∃ r ∈ m.requires, ∃ p ∈ other.provides, p.id = r.id) → i < j := by
  rw [moduleSequence_entitle, moduleSequence_revoke]
  refine ⟨?_, fun s h => ?_, ?_, fun type upgrades old hold s h => ?_⟩
  · rw [← layerModules_isOk_iff ids]
    constructor
    · rintro ⟨s, h⟩
      obtain ⟨layers, hl, -⟩ := Except.map_eq_ok.mp h
      exact ⟨layers, hl⟩
    · rintro ⟨layers, hl⟩
      exact ⟨_, Except.map_eq_ok.mpr ⟨layers, hl, rfl⟩⟩
  · obtain ⟨layers, hl, rfl⟩ := Except.map_eq_ok.mp h
    rw [ModuleSequence.modules_fresh]
    exact ⟨layered_of_ok ids hl, rfl⟩
  · cases layerModules a.id (a.modulesOf kind) with
    | error e => rfl
    | ok layers => simp [Except.map, ModuleSequence.fresh]
  · obtain rfl := Option.mem_def.mp hold
    obtain ⟨layers, dropped, hl, hd, same, removed⟩ := of_moduleSequence_upgrade upgrades h
    have droppedIds : ((droppedModules old a kind).map (·.id)).Nodup :=
      (installedIds old rfl).sublist (List.filter_sublist.map _)
    have perm := layerModules_perm droppedIds hd
    refine ⟨⟨_, Except.map_eq_ok.mpr ⟨layers, hl, rfl⟩, ?_⟩, ?_, ?_⟩
    · rw [same, ModuleSequence.modules_fresh]
    · have kept : droppedModules old a kind = (old.modulesOf kind).filter fun m =>
          m.name ∉ (a.modulesOf kind).map (·.name) := by
        refine List.filter_congr fun m _ => ?_
        rw [List.contains_eq_mem, decide_not]
      rw [removed, ← kept]
      exact (List.reverse_perm dropped).flatten.trans perm
    · intro i j m hm other hother ne requires
      rw [removed] at hm hother
      obtain ⟨hi, hm⟩ := mem_getD_reverse.mp hm
      obtain ⟨hj, hother⟩ := mem_getD_reverse.mp hother
      -- Among the layers that are reversed, what is required comes first.
      have there := perm.mem_iff.mp (mem_flatten_of_getD hother)
      obtain ⟨k, hk, found⟩ := layerModules_ordered droppedIds hd hm ⟨there, ne, requires⟩
      have nodup : dropped.flatten.Nodup := perm.nodup_iff.mpr (List.Nodup.of_map _ droppedIds)
      have same := layer_unique nodup found hother
      omega

/-- Its module `log` requires an interface that it provides itself, as `trace` does. -/
def relayed : Application where
  name := "relay"
  version := "2.0.0"
  modules := [
    { id := "web-2.0.0", requires := [⟨"log", "1.0"⟩, ⟨"store", "1.0"⟩, ⟨"mail", "1.0"⟩] },
    { id := "store-2.0.0", provides := [⟨"store", "1.0"⟩], requires := [⟨"log", "1.0"⟩] },
    { id := "log-2.0.0", provides := [⟨"log", "1.0"⟩], requires := [⟨"log", "1.0"⟩] },
    { id := "trace-1.0.0", provides := [⟨"log", "1.0"⟩] }]

/-- The version before. Its `store` and `cache` require each other, and only `store` stays. -/
def relaying : Application where
  name := "relay"
  version := "1.0.0"
  modules := [
    { id := "cache-1.0.0", provides := [⟨"cache", "1.0"⟩], requires := [⟨"store", "1.0"⟩] },
    { id := "proxy-1.0.0", requires := [⟨"cache", "1.0"⟩, ⟨"store", "1.0"⟩] },
    { id := "store-1.0.0", provides := [⟨"store", "1.0"⟩], requires := [⟨"cache", "1.0"⟩] }]

/-- What `store` requires of `cache` is of no account once `store` stays. -/
theorem moduleSequence_layered_relayed :
    ((relayed.modulesOf .backend).map (·.id)).Nodup ∧
      (∀ m ∈ relayed.modulesOf .backend, ¬ TransGen (Requires (relayed.modulesOf .backend)) m m) ∧
      ∃ s, moduleSequence relayed (some relaying) .upgrade .backend = .ok s ∧
        Layered (relayed.modulesOf .backend) s.modules ∧
        (s.modules.map fun layer => layer.map (·.id))
          = [["trace-1.0.0"], ["log-2.0.0"], ["store-2.0.0"], ["web-2.0.0"]] ∧
        (s.deprecated.map fun layer => layer.map (·.id)) = [["proxy-1.0.0"], ["cache-1.0.0"]] ∧
        s.deprecated.flatten.Perm ((relaying.modulesOf .backend).filter fun m =>
          m.name ∉ (relayed.modulesOf .backend).map (·.name)) := by
  have ids : ((relayed.modulesOf .backend).map (·.id)).Nodup := by decide
  have installedIds : ∀ old ∈ some relaying, ((old.modulesOf .backend).map (·.id)).Nodup := by
    decide
  have made : ((moduleSequence relayed (some relaying) .upgrade .backend).toOption.map fun s =>
      (s.modules.map fun layer => layer.map (·.id), s.deprecated.map fun layer => layer.map (·.id)))
      = some ([["trace-1.0.0"], ["log-2.0.0"], ["store-2.0.0"], ["web-2.0.0"]],
        [["proxy-1.0.0"], ["cache-1.0.0"]]) := by
    decide +kernel
  obtain ⟨s, hs, read⟩ := Option.map_eq_some_iff.mp made
  obtain ⟨named, removed⟩ := Prod.mk.inj read
  have upgraded := Except.toOption_eq_some.mp hs
  obtain ⟨exist, layered, -, upgrades⟩ := moduleSequence_layered ids installedIds
  obtain ⟨⟨first, hfirst, same⟩, dropped, -⟩ := upgrades _ (.inl rfl) _ rfl s upgraded
  refine ⟨ids, exist.mp ⟨first, hfirst⟩, s, upgraded, ?_, named, removed, dropped⟩
  rw [same]
  exact (layered first hfirst).1

end Provisioning
