import Provisioning.Layering.Applications
import Provisioning.Proofs.Ordered.Lookup

/-!
# Layers cover their nodes

Whatever is put into layers is in exactly one of them. So the layers of a set of applications, in
the order of installation or of removal, hold each of its identifiers once.
-/

namespace Provisioning

namespace Node

variable {α : Type} {placed : List String} {remaining : List (Node α)}
  {layers : List (List (Node α))}

theorem ready_append_waiting_perm (placed : List String) (nodes : List (Node α)) :
    (ready placed nodes ++ waiting placed nodes).Perm nodes :=
  List.filter_append_perm _ nodes

/-- The layers are those of the nodes that are ready and then those of the nodes that wait. -/
theorem layersAfter_eq_ok (h : layersAfter placed remaining = .ok layers) :
    (remaining = [] ∧ layers = []) ∨
      ready placed remaining ≠ [] ∧ ∃ rest, layers = ready placed remaining :: rest ∧
        layersAfter (placed ++ (ready placed remaining).map (·.id)) (waiting placed remaining)
          = .ok rest := by
  rw [layersAfter] at h
  split at h
  next empty => exact .inl ⟨List.isEmpty_iff.mp empty, (Except.ok.inj h).symm⟩
  next nonempty =>
    split at h
    next none_ready => cases h
    next some_ready =>
      obtain ⟨rest, hrest, rfl⟩ := Except.map_eq_ok.mp h
      exact .inr ⟨some_ready, rest, rfl, hrest⟩

/-- The layers hold each node once. -/
theorem layersAfter_perm (h : layersAfter placed remaining = .ok layers) :
    layers.flatten.Perm remaining := by
  induction layers generalizing placed remaining with
  | nil =>
    obtain ⟨rfl, -⟩ | ⟨-, rest, none_left, -⟩ := layersAfter_eq_ok h
    · exact .refl _
    · cases none_left
  | cons first rest ih =>
    obtain ⟨-, none_left⟩ | ⟨-, rest', same, later⟩ := layersAfter_eq_ok h
    · cases none_left
    · obtain ⟨rfl, rfl⟩ := List.cons.inj same
      rw [List.flatten_cons]
      exact ((ih later).append_left _).trans (ready_append_waiting_perm placed remaining)

end Node

namespace InstallationGraph

variable {applications : List Application} {layers : List (List String)}

/-- The layers of a graph are the identifiers in the layers of its nodes. -/
theorem installationLayers_eq_ok {g : InstallationGraph} :
    g.installationLayers = .ok layers ↔
      ∃ nodeLayers, Node.layers g.nodes = .ok nodeLayers ∧
        nodeLayers.map (fun layer => layer.map (·.id)) = layers := by
  unfold installationLayers
  cases Node.layers g.nodes with
  | error stuck => simp
  | ok nodeLayers => simp

theorem installationLayers_perm (ids : (applications.map (·.id)).Nodup)
    (h : (ofApplications applications).installationLayers = .ok layers) :
    layers.flatten.Perm (applications.map (·.id)) := by
  obtain ⟨nodeLayers, hl, rfl⟩ := installationLayers_eq_ok.mp h
  have nodes := (Node.layersAfter_perm hl).map (·.id)
  have keys : ((applications.map fun a => (a.id, needsOf applications a)).map (·.1)).Nodup := by
    simpa [Function.comp_def] using ids
  have entries := (OrderedMap.ofList_perm keys).map (·.1)
  rw [List.map_flatten] at nodes
  refine nodes.trans ?_
  simpa [ofApplications, InstallationGraph.nodes, Function.comp_def] using entries

theorem removalLayers_perm (ids : (applications.map (·.id)).Nodup)
    (h : (ofApplications applications).removalLayers = .ok layers) :
    layers.flatten.Perm (applications.map (·.id)) := by
  obtain ⟨installation, hl, rfl⟩ := Except.map_eq_ok.mp h
  exact (List.reverse_perm installation).flatten.trans (installationLayers_perm ids hl)

end InstallationGraph

end Provisioning
