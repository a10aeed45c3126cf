import Mathlib.Data.Set.Finite.Basic
import Mathlib.Data.String.Basic
import Mathlib.Logic.Relation
import Mathlib.Order.WellFounded
import Provisioning.Proofs.Layering.Order

/-!
# Layers are canonical

A set of applications has layers exactly if they do not require each other in a circle. Then each
application lies as deep as the longest chain of requirements that starts at it, so no other way of
putting requirements first has fewer layers.

Both follow from what one round does. What comes next in a round requires something of the round
before (`Node.layersAfter_tight`), and what no round can take requires something else that no round
can take (`Node.layersAfter_stuck`).
-/

namespace Provisioning

open Relation

/-- Where everything leads to something of the same list, something leads back to itself. -/
theorem exists_circle {α : Type} {r : α → α → Prop} {stuck : List α} (some_stuck : stuck ≠ [])
    (leads : ∀ a ∈ stuck, ∃ b ∈ stuck, r a b) : ∃ a ∈ stuck, TransGen r a a := by
  by_contra no_circle
  have finite : Finite {a // a ∈ stuck} := stuck.finite_toSet
  -- Going backwards along `r` would be well-founded, but nothing in the list comes first.
  let back (b a : {a // a ∈ stuck}) : Prop := TransGen r a.1 b.1
  have trans : IsTrans _ back := ⟨fun _ _ _ hab hbc => hbc.trans hab⟩
  have irrefl : Std.Irrefl back := ⟨fun a circle => no_circle ⟨a.1, a.2, circle⟩⟩
  obtain ⟨a, ha⟩ := List.exists_mem_of_ne_nil stuck some_stuck
  obtain ⟨first, -, least⟩ :=
    (Finite.wellFounded_of_trans_of_irrefl back).has_min Set.univ ⟨⟨a, ha⟩, trivial⟩
  obtain ⟨b, hb, step⟩ := leads first.1 first.2
  exact least ⟨b, hb⟩ trivial (.single step)

/-! ## Rounds -/

namespace Node

variable {α : Type} {placed : List String} {remaining : List (Node α)}
  {layers : List (List (Node α))}

/-- Each layer takes some of the nodes, in their order. -/
theorem layersAfter_layer (h : layersAfter placed remaining = .ok layers) :
    ∀ layer ∈ layers, layer ≠ [] ∧ layer.Sublist remaining := by
  induction layers generalizing placed remaining with
  | nil => simp
  | cons first rest ih =>
    obtain ⟨-, none_left⟩ | ⟨some_ready, rest', same, later⟩ := layersAfter_eq_ok h
    · cases none_left
    · obtain ⟨rfl, rfl⟩ := List.cons.inj same
      refine List.forall_mem_cons.mpr ⟨⟨some_ready, List.filter_sublist⟩, fun layer hlayer => ?_⟩
      obtain ⟨some_in, sublist⟩ := ih later layer hlayer
      exact ⟨some_in, sublist.trans List.filter_sublist⟩

/-- A node that waits for a round needs a node of the round before. -/
theorem layersAfter_tight (h : layersAfter placed remaining = .ok layers) {i : Nat} {node : Node α}
    (hnode : node ∈ layers.getD (i + 1) []) :
    ∃ m ∈ node.needs, ∃ other ∈ layers.getD i [], other.id = m := by
  induction i generalizing placed remaining layers with
  | zero =>
    obtain ⟨-, rfl⟩ | ⟨-, rest, rfl, later⟩ := layersAfter_eq_ok h
    · simp at hnode
    · obtain ⟨-, rfl⟩ | ⟨-, rest', rfl, -⟩ := layersAfter_eq_ok later
      · simp at hnode
      · -- The node waited, but is ready when the nodes of the first layer are placed.
        have hnode : node ∈ ready _ (waiting placed remaining) := hnode
        obtain ⟨waits, now_ready⟩ := List.mem_filter.mp hnode
        have not_ready : node.isReady placed = false := by
          simpa using (List.mem_filter.mp waits).2
        obtain ⟨m, hm, missing⟩ := List.all_eq_false.mp not_ready
        have there : m ∈ placed ++ (ready placed remaining).map (·.id) :=
          List.contains_iff_mem.mp (List.all_eq_true.mp now_ready m hm)
        have new : m ∉ placed := fun old => missing (List.contains_iff_mem.mpr old)
        obtain ⟨other, hother, named⟩ :=
          List.mem_map.mp ((List.mem_append.mp there).resolve_left new)
        exact ⟨m, hm, other, hother, named⟩
  | succ i ih =>
    obtain ⟨-, rfl⟩ | ⟨-, rest, rfl, later⟩ := layersAfter_eq_ok h
    · simp at hnode
    · exact ih later hnode

/-- If not all nodes can be put into layers, there are some each of which needs another one of them,
unless it needs what is nowhere. -/
theorem layersAfter_stuck {ids : List String} (h : layersAfter placed remaining = .error ids) :
    ∃ stuck, stuck ≠ [] ∧ (∀ node ∈ stuck, node ∈ remaining) ∧
      ∀ node ∈ stuck, ∃ m ∈ node.needs, m ∉ placed ∧
        ∀ other ∈ remaining, other.id = m → other ∈ stuck := by
  induction placed, remaining using layersAfter.induct with
  | case1 placed remaining empty =>
    rw [layersAfter, if_pos empty] at h
    cases h
  | case2 placed remaining nonempty none_ready =>
    refine ⟨remaining, by simpa using nonempty, fun _ hnode => hnode, fun node hnode => ?_⟩
    have not_ready : ¬ node.isReady placed := fun is_ready => by
      have there : node ∈ ready placed remaining := List.mem_filter.mpr ⟨hnode, is_ready⟩
      rw [none_ready] at there
      cases there
    obtain ⟨m, hm, missing⟩ := List.all_eq_false.mp (Bool.not_eq_true _ ▸ not_ready)
    exact ⟨m, hm, fun there => missing (List.contains_iff_mem.mpr there), fun _ hother _ => hother⟩
  | case3 placed remaining nonempty some_ready ih =>
    rw [layersAfter, if_neg nonempty, dif_neg some_ready, Except.map_eq_error] at h
    obtain ⟨stuck, some_stuck, waits, needs⟩ := ih h
    refine ⟨stuck, some_stuck, fun node hnode => (List.mem_filter.mp (waits node hnode)).1, ?_⟩
    intro node hnode
    obtain ⟨m, hm, missing, among⟩ := needs node hnode
    rw [List.mem_append, not_or] at missing
    refine ⟨m, hm, missing.1, fun other hother named => among other ?_ named⟩
    -- What is ready is placed, and what is needed is not.
    refine List.mem_filter.mpr ⟨hother, ?_⟩
    rw [Bool.not_eq_true', ← Bool.not_eq_true]
    intro is_ready
    exact missing.2 (List.mem_map.mpr ⟨other, List.mem_filter.mpr ⟨hother, is_ready⟩, named⟩)

/-- If nodes have no layers, the things that they stand for lead to each other in a circle. -/
theorem exists_circle_of_error {β : Type} {things : List β} (key : β → String) {r : β → β → Prop}
    {nodes : List (Node α)} {ids : List String}
    (stands : ∀ node ∈ nodes, ∃ b ∈ things, key b = node.id)
    (has : ∀ b ∈ things, ∃ node ∈ nodes, node.id = key b)
    (needs : ∀ b ∈ things, ∀ node ∈ nodes, node.id = key b → ∀ m ∈ node.needs,
      ∃ b' ∈ things, r b b' ∧ key b' = m)
    (h : Node.layers nodes = .error ids) : ∃ b ∈ things, TransGen r b b := by
  obtain ⟨stuck, some_stuck, there, among⟩ := layersAfter_stuck h
  -- The things whose nodes are stuck.
  let held := things.filter fun b => (stuck.map (·.id)).contains (key b)
  have mem_held (b : β) : b ∈ held ↔ b ∈ things ∧ ∃ node ∈ stuck, node.id = key b := by
    simp [held]
  have some_held : held ≠ [] := by
    obtain ⟨node, hnode⟩ := List.exists_mem_of_ne_nil stuck some_stuck
    obtain ⟨b, hb, named⟩ := stands node (there node hnode)
    exact List.ne_nil_of_mem ((mem_held b).mpr ⟨hb, node, hnode, named.symm⟩)
  have leads : ∀ b ∈ held, ∃ b' ∈ held, r b b' := by
    intro b hheld
    obtain ⟨hb, node, hnode, named⟩ := (mem_held b).mp hheld
    obtain ⟨m, hm, -, among⟩ := among node hnode
    obtain ⟨b', hb', step, rfl⟩ := needs b hb node (there node hnode) named m hm
    obtain ⟨other, hother, same⟩ := has b' hb'
    exact ⟨b', (mem_held b').mpr ⟨hb', other, among other hother same, same⟩, step⟩
  obtain ⟨b, hb, circle⟩ := exists_circle some_held leads
  exact ⟨b, ((mem_held b).mp hb).1, circle⟩

end Node

/-! ## Requirements -/

namespace InstallationGraph

/-- An application depends on the name of another one of a set. -/
def Requires (applications : List Application) (a b : Application) : Prop :=
  b ∈ applications ∧ b.id ≠ a.id ∧ ∃ d ∈ a.dependencies, d.name = b.name

/-- The longest chain in which each application requires the next one has a number of steps, if it
starts at the application. -/
structure Depth (applications : List Application) (a : Application) (steps : Nat) : Prop where
  /-- There is a chain with so many steps. -/
  attained : ∃ later, later.length = steps ∧ (a :: later).IsChain (Requires applications)
  /-- No chain has more. -/
  longest : ∀ later, (a :: later).IsChain (Requires applications) → later.length ≤ steps

/-- Each application is in a layer, and those that it requires are in earlier ones only. -/
structure Layering (applications : List Application) (layers : List (List String)) : Prop where
  /-- Each application has a layer. -/
  covers : ∀ a ∈ applications, ∃ i, a.id ∈ layers.getD i []
  /-- What is required comes first. -/
  ordered : ∀ a ∈ applications, ∀ b, Requires applications a b →
    ∀ i j, a.id ∈ layers.getD i [] → b.id ∈ layers.getD j [] → j < i

/-- The layers that leave no choice: each application lies as deep as it has to. -/
structure Canonical (applications : List Application) (layers : List (List String)) : Prop
    extends Layering applications layers where
  /-- No layer is empty. -/
  nonempty : ∀ layer ∈ layers, layer ≠ []
  /-- The identifiers in a layer ascend. -/
  sorted : ∀ layer ∈ layers, layer.Pairwise (· < ·)
  /-- Each identifier is there, and only once. -/
  once : layers.flatten.Perm (applications.map (·.id))
  /-- The longest chain of requirements tells the layer of an application. -/
  depth : ∀ a ∈ applications, ∀ i, a.id ∈ layers.getD i [] ↔ Depth applications a i
  /-- There is no way with fewer layers. -/
  fewest : ∀ other, Layering applications other → layers.length ≤ other.length

variable {applications : List Application} {layers : List (List String)} {a b : Application}

theorem Depth.unique {m n : Nat} (hm : Depth applications a m) (hn : Depth applications a n) :
    m = n := by
  obtain ⟨later, rfl, chain⟩ := hm.attained
  obtain ⟨later', rfl, chain'⟩ := hn.attained
  exact Nat.le_antisymm (hn.longest later chain) (hm.longest later' chain')

namespace Layering

/-- Layers leave room for each chain that starts in them. -/
theorem length_le (layering : Layering applications layers) (ha : a ∈ applications) {i : Nat}
    (hi : a.id ∈ layers.getD i []) {later : List Application}
    (chain : (a :: later).IsChain (Requires applications)) : later.length ≤ i := by
  induction later generalizing a i with
  | nil => exact Nat.zero_le i
  | cons b rest ih =>
    obtain ⟨requires, chain⟩ := List.isChain_cons_cons.mp chain
    obtain ⟨j, hj⟩ := layering.covers b requires.1
    have before : j < i := layering.ordered a ha b requires i j hi hj
    have shorter : rest.length ≤ j := ih requires.1 hj chain
    show rest.length + 1 ≤ i
    omega

/-- Who requires something, in any number of steps, comes later. -/
theorem lt_of_transGen (layering : Layering applications layers) (ha : a ∈ applications)
    (h : TransGen (Requires applications) a b) {i j : Nat} (hi : a.id ∈ layers.getD i [])
    (hj : b.id ∈ layers.getD j []) : j < i := by
  induction h using TransGen.head_induction_on generalizing i with
  | single requires => exact layering.ordered _ ha _ requires i j hi hj
  | head requires _ ih =>
    obtain ⟨k, hk⟩ := layering.covers _ requires.1
    exact (ih requires.1 hk).trans (layering.ordered _ ha _ requires i k hi hk)

theorem no_circle (layering : Layering applications layers) (ha : a ∈ applications) :
    ¬ TransGen (Requires applications) a a := by
  intro circle
  obtain ⟨i, hi⟩ := layering.covers a ha
  exact absurd (layering.lt_of_transGen ha circle hi hi) (Nat.lt_irrefl i)

end Layering

/-! ## The nodes of a graph -/

/-- Each application of the set has a node. -/
theorem exists_node (ha : a ∈ applications) :
    ∃ node ∈ (ofApplications applications).nodes, node.id = a.id := by
  have there : (ofApplications applications).edges.contains a.id := by
    rw [ofApplications, OrderedMap.contains_ofList, List.map_map]
    exact List.mem_map_of_mem ha
  obtain ⟨needs, found⟩ := Option.isSome_iff_exists.mp there
  exact ⟨_, List.mem_map_of_mem (OrderedMap.get?_eq_some_iff.mp found), rfl⟩

/-- What a node needs is what its application requires. -/
theorem mem_needs (ids : (applications.map (·.id)).Nodup) (ha : a ∈ applications)
    {node : Node Unit} (hnode : node ∈ (ofApplications applications).nodes)
    (named : node.id = a.id) {m : String} :
    m ∈ node.needs ↔ ∃ b, Requires applications a b ∧ b.id = m := by
  obtain ⟨a', ha', named', own⟩ := exists_application hnode
  obtain rfl : a' = a := List.inj_on_of_nodup_map ids ha' ha (named'.trans named)
  rw [own, mem_needsOf]
  constructor
  · rintro ⟨⟨d, hd, b, hb, same, rfl⟩, other⟩
    exact ⟨b, ⟨hb, other, d, hd, same.symm⟩, rfl⟩
  · rintro ⟨b, ⟨hb, other, d, hd, same⟩, rfl⟩
    exact ⟨⟨d, hd, b, hb, same.symm, rfl⟩, other⟩

/-! ## Layers that succeed -/

theorem layering_of_ok (ids : (applications.map (·.id)).Nodup)
    (h : (ofApplications applications).installationLayers = .ok layers) :
    Layering applications layers where
  covers := fun a ha => exists_layer <| by
    rw [(installationLayers_perm ids h).mem_iff]
    exact List.mem_map_of_mem ha
  ordered := fun a ha b ⟨hb, other, needs⟩ _ _ hi hj =>
    installationLayers_ordered ids h ha hb other.symm needs hi hj

/-- An application that is not installed at once requires one of the layer before. -/
theorem exists_required_before (ids : (applications.map (·.id)).Nodup)
    (h : (ofApplications applications).installationLayers = .ok layers) (ha : a ∈ applications)
    {i : Nat} (hi : a.id ∈ layers.getD (i + 1) []) :
    ∃ b, Requires applications a b ∧ b.id ∈ layers.getD i [] := by
  obtain ⟨nodeLayers, hl, rfl⟩ := installationLayers_eq_ok.mp h
  rw [getD_map_map] at hi ⊢
  obtain ⟨node, hnode, named⟩ := List.mem_map.mp hi
  have placed : node ∈ (ofApplications applications).nodes :=
    (Node.layersAfter_perm hl).mem_iff.mp (mem_flatten_of_getD hnode)
  obtain ⟨m, hm, other, hother, rfl⟩ := Node.layersAfter_tight hl hnode
  obtain ⟨b, requires, same⟩ := (mem_needs ids ha placed named).mp hm
  exact ⟨b, requires, same ▸ List.mem_map_of_mem hother⟩

/-- An application lies as deep as the longest chain of requirements that starts at it. -/
theorem depth_of_mem (ids : (applications.map (·.id)).Nodup)
    (h : (ofApplications applications).installationLayers = .ok layers) (ha : a ∈ applications)
    {i : Nat} (hi : a.id ∈ layers.getD i []) : Depth applications a i where
  attained := by
    induction i generalizing a with
    | zero => exact ⟨[], rfl, .singleton a⟩
    | succ i ih =>
      obtain ⟨b, requires, hb⟩ := exists_required_before ids h ha hi
      obtain ⟨later, rfl, chain⟩ := ih requires.1 hb
      exact ⟨b :: later, rfl, .cons_cons requires chain⟩
  longest := fun _ chain => (layering_of_ok ids h).length_le ha hi chain

theorem canonical_of_ok (ids : (applications.map (·.id)).Nodup)
    (h : (ofApplications applications).installationLayers = .ok layers) :
    Canonical applications layers := by
  have layering := layering_of_ok ids h
  have once := installationLayers_perm ids h
  obtain ⟨nodeLayers, hl, same⟩ := installationLayers_eq_ok.mp h
  have each : ∀ layer ∈ layers, layer ≠ [] ∧ layer.Pairwise (· < ·) := by
    have ascending : ((ofApplications applications).nodes.map (·.id)).Pairwise (· < ·) := by
      rw [nodes, List.map_map, List.pairwise_map]
      exact (ofApplications applications).edges.ascending.imp Std.LawfulLTCmp.eq_lt_iff_lt.mp
    rw [← same, List.forall_mem_map]
    intro layer hlayer
    obtain ⟨some_in, sublist⟩ := Node.layersAfter_layer hl layer hlayer
    exact ⟨by simpa using some_in, ascending.sublist (sublist.map _)⟩
  have depth : ∀ a ∈ applications, ∀ i, a.id ∈ layers.getD i [] ↔ Depth applications a i := by
    intro a ha i
    refine ⟨depth_of_mem ids h ha, fun deep => ?_⟩
    obtain ⟨j, hj⟩ := layering.covers a ha
    rwa [deep.unique (depth_of_mem ids h ha hj)]
  refine { layering with
    nonempty := fun layer hlayer => (each layer hlayer).1
    sorted := fun layer hlayer => (each layer hlayer).2
    once, depth, fewest := fun other others => ?_ }
  -- Whoever lies in the last layer has a chain of requirements that reaches down to the first.
  rcases List.eq_nil_or_concat' layers with none | ⟨before, last, rfl⟩
  · simp [none]
  · obtain ⟨id, hid⟩ := List.exists_mem_of_ne_nil last ((each last (by simp)).1)
    obtain ⟨a, ha, rfl⟩ : ∃ a ∈ applications, a.id = id := by
      rw [← List.mem_map, ← once.mem_iff]
      exact List.mem_flatten.mpr ⟨last, by simp, hid⟩
    have deep : Depth applications a before.length :=
      (depth a ha before.length).mp (by simpa using hid)
    obtain ⟨later, long, chain⟩ := deep.attained
    obtain ⟨i, hi⟩ := others.covers a ha
    have reach : later.length ≤ i := others.length_le ha hi chain
    have inside : i < other.length := by
      by_contra outside
      simp [List.getD_eq_getElem?_getD, List.getElem?_eq_none (Nat.le_of_not_lt outside)] at hi
    rw [List.length_append, List.length_singleton]
    omega

/-! ## Layers that fail -/

/-- Without layers there is a circle. -/
theorem circle_of_error (ids : (applications.map (·.id)).Nodup) {refusal : Refusal}
    (h : (ofApplications applications).installationLayers = .error refusal) :
    ∃ a ∈ applications, TransGen (Requires applications) a a := by
  have fails : ∃ stuck, Node.layers (ofApplications applications).nodes = .error stuck := by
    unfold installationLayers at h
    cases hl : Node.layers (ofApplications applications).nodes with
    | error stuck => exact ⟨stuck, rfl⟩
    | ok nodeLayers => simp [hl] at h
  obtain ⟨_, fails⟩ := fails
  refine Node.exists_circle_of_error (·.id) ?_ (fun a ha => exists_node ha) ?_ fails
  · intro node hnode
    obtain ⟨a, ha, named, -⟩ := exists_application hnode
    exact ⟨a, ha, named⟩
  · intro a ha node hnode named m hm
    obtain ⟨b, requires, same⟩ := (mem_needs ids ha hnode named).mp hm
    exact ⟨b, requires.1, requires, same⟩

/-! ## The order of a set does not matter -/

theorem installationLayers_error {g : InstallationGraph} {refusal : Refusal}
    (h : g.installationLayers = .error refusal) : refusal = .noIndependentApplication := by
  unfold installationLayers at h
  split at h
  · cases h
  · exact (Except.error.inj h).symm

section

variable {applications' : List Application} (perm : applications'.Perm applications)

include perm

theorem requires_of_perm : Requires applications' = Requires applications := by
  funext a b
  simp only [Requires, perm.mem_iff]

theorem depth_of_perm : Depth applications' = Depth applications := by
  have forward {as bs : List Application} (same : Requires as = Requires bs) {a : Application}
      {steps : Nat} (h : Depth as a steps) : Depth bs a steps :=
    ⟨same ▸ h.attained, same ▸ h.longest⟩
  funext a steps
  exact propext ⟨forward (requires_of_perm perm), forward (requires_of_perm perm).symm⟩

/-- There is one way at most to put a set into canonical layers. -/
theorem Canonical.unique {layers' : List (List String)} (h : Canonical applications layers)
    (h' : Canonical applications' layers') : layers' = layers := by
  have same (i : Nat) (id : String) : id ∈ layers'.getD i [] ↔ id ∈ layers.getD i [] := by
    have named {id : String} (hid : id ∈ applications.map (·.id)) :
        id ∈ layers'.getD i [] ↔ id ∈ layers.getD i [] := by
      obtain ⟨a, ha, rfl⟩ := List.mem_map.mp hid
      rw [h'.depth a (perm.mem_iff.mpr ha), h.depth a ha, depth_of_perm perm]
    constructor
    · intro hid
      refine (named ?_).mp hid
      exact (perm.map _).mem_iff.mp (h'.once.mem_iff.mp (mem_flatten_of_getD hid))
    · exact fun hid => (named (h.once.mem_iff.mp (mem_flatten_of_getD hid))).mpr hid
  have layering : Layering applications layers' :=
    ⟨fun a ha => h'.covers a (perm.mem_iff.mpr ha), fun a ha =>
      requires_of_perm perm ▸ h'.ordered a (perm.mem_iff.mpr ha)⟩
  have layering' : Layering applications' layers :=
    ⟨fun a ha => h.covers a (perm.mem_iff.mp ha), fun a ha =>
      requires_of_perm perm ▸ h.ordered a (perm.mem_iff.mp ha)⟩
  refine List.ext_getElem (Nat.le_antisymm (h'.fewest _ layering') (h.fewest _ layering)) ?_
  intro i hi' hi
  have sorted := h.sorted _ (List.getElem_mem hi)
  have sorted' := h'.sorted _ (List.getElem_mem hi')
  have members : layers'[i].Perm layers[i] := by
    refine (List.perm_ext_iff_of_nodup (sorted'.imp ne_of_lt) (sorted.imp ne_of_lt)).mpr fun id => ?_
    simpa [List.getD_eq_getElem?_getD, hi, hi'] using same i id
  exact members.eq_of_pairwise (fun _ _ _ _ before after => absurd after before.asymm) sorted' sorted

/-- The order in which the applications of a set are given makes no difference to the layers, nor
to whether there are any. -/
theorem installationLayers_of_perm (ids : (applications.map (·.id)).Nodup) :
    (ofApplications applications').installationLayers
      = (ofApplications applications).installationLayers := by
  have ids' : (applications'.map (·.id)).Nodup := ((perm.map _).nodup_iff).mpr ids
  cases h : (ofApplications applications).installationLayers with
  | ok layers =>
    cases h' : (ofApplications applications').installationLayers with
    | ok layers' => rw [(canonical_of_ok ids h).unique perm (canonical_of_ok ids' h')]
    | error refusal =>
      obtain ⟨a, ha, circle⟩ := circle_of_error ids' h'
      rw [requires_of_perm perm] at circle
      exact absurd circle ((layering_of_ok ids h).no_circle (perm.mem_iff.mp ha))
  | error refusal =>
    obtain ⟨a, ha, circle⟩ := circle_of_error ids h
    cases h' : (ofApplications applications').installationLayers with
    | ok layers' =>
      rw [← requires_of_perm perm] at circle
      exact absurd circle ((layering_of_ok ids' h').no_circle (perm.mem_iff.mpr ha))
    | error refusal' => rw [installationLayers_error h, installationLayers_error h']

theorem removalLayers_of_perm (ids : (applications.map (·.id)).Nodup) :
    (ofApplications applications').removalLayers = (ofApplications applications).removalLayers := by
  rw [removalLayers, installationLayers_of_perm perm ids, removalLayers]

end

/-- Applications have layers exactly if none of them requires itself, directly or not. The layers in
the order of installation are canonical. Those in the order of removal exist under the same
condition, hold each application once, and put whatever requires another application before it. -/
theorem installationLayers_canonical (ids : (applications.map (·.id)).Nodup) :
    ((∃ layers, (ofApplications applications).installationLayers = .ok layers) ↔
        ∀ a ∈ applications, ¬ TransGen (Requires applications) a a) ∧
      (∀ layers, (ofApplications applications).installationLayers = .ok layers →
        Canonical applications layers) ∧
      (∀ refusal, (ofApplications applications).removalLayers = .error refusal ↔
        (ofApplications applications).installationLayers = .error refusal) ∧
      ∀ layers, (ofApplications applications).removalLayers = .ok layers →
        layers.flatten.Perm (applications.map (·.id)) ∧
          ∀ a ∈ applications, ∀ b, Requires applications a b →
            ∀ i j, a.id ∈ layers.getD i [] → b.id ∈ layers.getD j [] → i < j := by
  refine ⟨⟨?_, ?_⟩, fun layers h => canonical_of_ok ids h, fun _ => Except.map_eq_error, ?_⟩
  · rintro ⟨layers, h⟩ a ha
    exact (layering_of_ok ids h).no_circle ha
  · intro free
    cases h : (ofApplications applications).installationLayers with
    | ok layers => exact ⟨layers, rfl⟩
    | error refusal =>
      obtain ⟨a, ha, circle⟩ := circle_of_error ids h
      exact absurd circle (free a ha)
  · intro layers h
    refine ⟨removalLayers_perm ids h, fun a ha b ⟨hb, other, needs⟩ i j hi hj => ?_⟩
    exact removalLayers_ordered ids h ha hb other.symm needs hi hj

/-- Two versions of one name, the later of which depends on the name, below two applications that a
last one depends on. -/
def stacked : List Application :=
  [{ name := "a", version := "1.0.0"
     dependencies := [{ name := "b", range := "^1.0.0" }, { name := "c", range := "^1.0.0" }] },
   { name := "b", version := "1.0.0", dependencies := [{ name := "d", range := "^1.0.0" }] },
   { name := "c", version := "1.0.0", dependencies := [{ name := "d", range := "^2.0.0" }] },
   { name := "d", version := "1.0.0" },
   { name := "d", version := "2.0.0", dependencies := [{ name := "d", range := "^1.0.0" }] }]

/-- One dependency on a name requires both versions of it, and one version requires the other. -/
theorem installationLayers_canonical_stacked :
    (stacked.map (·.id)).Nodup ∧ (∀ a ∈ stacked, ¬ TransGen (Requires stacked) a a) ∧
      Canonical stacked [["d-1.0.0"], ["d-2.0.0"], ["b-1.0.0", "c-1.0.0"], ["a-1.0.0"]] := by
  have ids : (stacked.map (·.id)).Nodup := by decide
  have layered : (ofApplications stacked).installationLayers
      = .ok [["d-1.0.0"], ["d-2.0.0"], ["b-1.0.0", "c-1.0.0"], ["a-1.0.0"]] := by
    decide +kernel
  obtain ⟨exist, canonical, -, -⟩ := installationLayers_canonical ids
  exact ⟨ids, exist.mp ⟨_, layered⟩, canonical _ layered⟩

end InstallationGraph

end Provisioning
