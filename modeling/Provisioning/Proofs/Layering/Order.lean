import Mathlib.Data.List.Nodup
import Provisioning.Proofs.Layering.Coverage

/-!
# Layers keep the order of needs

Whatever a node needs lies in a layer before its own. So an application is installed in a later layer
than the members of its set whose names it depends on, and removed in an earlier one.
-/

namespace Provisioning

/-! ## Places in layers -/

section

variable {α : Type}

theorem mem_flatten_of_getD {layers : List (List α)} {i : Nat} {a : α}
    (h : a ∈ layers.getD i []) : a ∈ layers.flatten := by
  rw [List.getD_eq_getElem?_getD] at h
  cases hlayer : layers[i]? with
  | none => simp [hlayer] at h
  | some layer =>
    rw [hlayer] at h
    exact List.mem_flatten.mpr ⟨layer, List.mem_of_getElem? hlayer, h⟩

theorem exists_layer {layers : List (List α)} {a : α} (h : a ∈ layers.flatten) :
    ∃ i, a ∈ layers.getD i [] := by
  obtain ⟨layer, hlayer, ha⟩ := List.mem_flatten.mp h
  obtain ⟨i, hi⟩ := List.mem_iff_getElem?.mp hlayer
  refine ⟨i, ?_⟩
  rw [List.getD_eq_getElem?_getD, hi]
  exact ha

theorem getD_map_map {β : Type} (f : α → β) (layers : List (List α)) (i : Nat) :
    (layers.map fun layer => layer.map f).getD i [] = (layers.getD i []).map f := by
  simp only [List.getD_eq_getElem?_getD, List.getElem?_map]
  cases layers[i]? <;> rfl

/-- What is in two layers of a list without repetitions is in one layer. -/
theorem layer_unique {layers : List (List α)} (nodup : layers.flatten.Nodup) {i j : Nat} {a : α}
    (hi : a ∈ layers.getD i []) (hj : a ∈ layers.getD j []) : i = j := by
  induction layers generalizing i j with
  | nil => simp at hi
  | cons layer rest ih =>
    rw [List.flatten_cons, List.nodup_append] at nodup
    obtain ⟨-, later, apart⟩ := nodup
    cases i with
    | zero =>
      cases j with
      | zero => rfl
      | succ j => exact absurd rfl (apart a hi a (mem_flatten_of_getD hj))
    | succ i =>
      cases j with
      | zero => exact absurd rfl (apart a hj a (mem_flatten_of_getD hi))
      | succ j => rw [ih later hi hj]

theorem mem_getD_reverse {layers : List (List α)} {i : Nat} {a : α} :
    a ∈ layers.reverse.getD i [] ↔ i < layers.length ∧ a ∈ layers.getD (layers.length - 1 - i) [] := by
  by_cases hi : i < layers.length
  · rw [List.getD_eq_getElem?_getD, List.getElem?_reverse hi, ← List.getD_eq_getElem?_getD]
    exact ⟨fun h => ⟨hi, h⟩, And.right⟩
  · simp [List.getD_eq_getElem?_getD, hi]

end

namespace Node

variable {α : Type}

/-- What a node needs was placed before, or is in a layer before its own. -/
theorem layersAfter_ordered {placed : List String} {remaining : List (Node α)}
    {layers : List (List (Node α))} (h : layersAfter placed remaining = .ok layers) {i : Nat}
    {node : Node α} (hnode : node ∈ layers.getD i []) {m : String} (hm : m ∈ node.needs) :
    m ∈ placed ∨ ∃ j, j < i ∧ ∃ other ∈ layers.getD j [], other.id = m := by
  induction layers generalizing placed remaining i with
  | nil => simp at hnode
  | cons first rest ih =>
    obtain ⟨-, none_left⟩ | ⟨-, rest', same, later⟩ := layersAfter_eq_ok h
    · cases none_left
    · obtain ⟨rfl, rfl⟩ := List.cons.inj same
      cases i with
      | zero =>
        have is_ready : node.isReady placed = true := (List.mem_filter.mp hnode).2
        exact .inl (List.contains_iff_mem.mp (List.all_eq_true.mp is_ready m hm))
      | succ i =>
        rcases ih later hnode with earlier | ⟨j, hj, other, hother, same⟩
        · rcases List.mem_append.mp earlier with earlier | here
          · exact .inl earlier
          · obtain ⟨other, hother, same⟩ := List.mem_map.mp here
            exact .inr ⟨0, Nat.succ_pos i, other, hother, same⟩
        · exact .inr ⟨j + 1, Nat.succ_lt_succ hj, other, hother, same⟩

end Node

namespace InstallationGraph

variable {applications : List Application} {layers : List (List String)} {a b : Application}

theorem mem_needsOf {id : String} :
    id ∈ needsOf applications a ↔
      (∃ d ∈ a.dependencies, ∃ b ∈ applications, b.name = d.name ∧ b.id = id) ∧ id ≠ a.id := by
  simp [needsOf, and_assoc]

/-- Each node stands for an application of the set and needs what that requires. -/
theorem exists_application {node : Node Unit} (h : node ∈ (ofApplications applications).nodes) :
    ∃ a ∈ applications, a.id = node.id ∧ node.needs = needsOf applications a := by
  obtain ⟨⟨id, needs⟩, entry, rfl⟩ := List.mem_map.mp h
  have given := OrderedMap.mem_of_get?_ofList (OrderedMap.get?_eq_some_iff.mpr entry)
  obtain ⟨a, ha, same⟩ := List.mem_map.mp given
  obtain ⟨rfl, rfl⟩ := Prod.mk.inj same
  exact ⟨a, ha, rfl, rfl⟩

/-- An application is installed after the others of its set whose names it depends on. -/
theorem installationLayers_ordered (ids : (applications.map (·.id)).Nodup)
    (h : (ofApplications applications).installationLayers = .ok layers) (ha : a ∈ applications)
    (hb : b ∈ applications) (other : a.id ≠ b.id) (needs : ∃ d ∈ a.dependencies, d.name = b.name)
    {i j : Nat} (hi : a.id ∈ layers.getD i []) (hj : b.id ∈ layers.getD j []) : j < i := by
  have nodup : layers.flatten.Nodup := (installationLayers_perm ids h).nodup_iff.mpr ids
  obtain ⟨nodeLayers, hl, rfl⟩ := installationLayers_eq_ok.mp h
  rw [getD_map_map] at hi
  obtain ⟨node, hnode, named⟩ := List.mem_map.mp hi
  have placed : node ∈ (ofApplications applications).nodes :=
    (Node.layersAfter_perm hl).mem_iff.mp (mem_flatten_of_getD hnode)
  -- The node of the application has the needs of the application.
  obtain ⟨a', ha', named', own_needs⟩ := exists_application placed
  obtain rfl : a' = a := List.inj_on_of_nodup_map ids ha' ha (named'.trans named)
  obtain ⟨d, hd, name⟩ := needs
  have needed : b.id ∈ node.needs := by
    rw [own_needs, mem_needsOf]
    exact ⟨⟨d, hd, b, hb, name.symm, rfl⟩, other.symm⟩
  rcases Node.layersAfter_ordered hl hnode needed with before | ⟨k, hk, node', hnode', named'⟩
  · cases before
  · have hkb : b.id ∈ (nodeLayers.map fun layer => layer.map (·.id)).getD k [] := by
      rw [getD_map_map, ← named']
      exact List.mem_map_of_mem hnode'
    exact layer_unique nodup hkb hj ▸ hk

/-- An application is removed before the others of its set whose names it depends on. -/
theorem removalLayers_ordered (ids : (applications.map (·.id)).Nodup)
    (h : (ofApplications applications).removalLayers = .ok layers) (ha : a ∈ applications)
    (hb : b ∈ applications) (other : a.id ≠ b.id) (needs : ∃ d ∈ a.dependencies, d.name = b.name)
    {i j : Nat} (hi : a.id ∈ layers.getD i []) (hj : b.id ∈ layers.getD j []) : i < j := by
  obtain ⟨installation, hl, rfl⟩ := Except.map_eq_ok.mp h
  obtain ⟨hilt, hi⟩ := mem_getD_reverse.mp hi
  obtain ⟨hjlt, hj⟩ := mem_getD_reverse.mp hj
  have before := installationLayers_ordered ids hl ha hb other needs hi hj
  omega

end InstallationGraph

end Provisioning
