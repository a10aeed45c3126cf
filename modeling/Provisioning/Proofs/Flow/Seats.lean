import Mathlib.Data.List.Nodup
import Provisioning.Proofs.Flow.Trace

/-!
# The flows and the stages of a tree

The flows and the stages of a tree, each at its place and with what the run tells about it, in the
order in which they are announced. Two of them never share a place, and those at or below the place
of a flow are the flow and what is in it.
-/

namespace Provisioning

variable {α : Type}

/-- A flow or a stage of a tree. -/
inductive Seat (α : Type) where
  /-- A stage. -/
  | stage (place : Place) (leaf : Leaf α)
  /-- A flow, with its path and its nodes. -/
  | flow (place : Place) (path : String) (info : FlowInfo) (header : FlowHeader)
    (nodes : List (FlowNode α))

namespace Seat

/-- The place. -/
def place : Seat α → Place
  | stage place _ => place
  | flow place .. => place

/-- The path. -/
def path : Seat α → String
  | stage _ leaf => leaf.info.id
  | flow _ path .. => path

/-- The announcement. -/
def queued : Seat α → Event
  | stage _ leaf => .stageQueued leaf.info
  | flow _ _ info .. => .flowQueued info

/-- The flow, if it is one. -/
def flow? : Seat α → Option FlowInfo
  | stage .. => none
  | flow _ _ info .. => some info

/-- The stage, if it is one. -/
def stage? : Seat α → Option StageInfo
  | stage _ leaf => some leaf.info
  | flow .. => none

@[simp] theorem place_stage (p : Place) (l : Leaf α) : (stage p l).place = p := rfl

@[simp] theorem place_flow (p : Place) (path : String) (info : FlowInfo) (header : FlowHeader)
    (nodes : List (FlowNode α)) : (flow p path info header nodes).place = p := rfl

end Seat

namespace FlowNode

variable [Named α]

mutual

/-- The flows and stages of the node at a place, in order. -/
def seats (info : FlowInfo) (path : String) (place : Place) : FlowNode α → List (Seat α)
  | stage s => [.stage place (info.leaf path s)]
  | flow header nodes =>
    .flow place (childPath path header.id) (info.child header) header nodes ::
      seatsIn (info.child header) (childPath path header.id) place 0 nodes
  | parallel name children => seatsIn info (childPath path name) place 0 children

/-- The flows and stages of nodes, of which the first one is the child of a place with the
position. -/
def seatsIn (info : FlowInfo) (path : String) (place : Place) (i : Nat) :
    List (FlowNode α) → List (Seat α)
  | [] => []
  | node :: rest => seats info path (place ++ [i]) node ++ seatsIn info path place (i + 1) rest

end

mutual

theorem announce_eq (info : FlowInfo) (path : String) (place : Place) (node : FlowNode α) :
    node.announce info path = (node.seats info path place).map Seat.queued := by
  cases node with
  | stage s => rfl
  | flow header nodes =>
    rw [announce, seats, List.map_cons,
      announceAll_eq (info.child header) (childPath path header.id) place 0 nodes]
    rfl
  | parallel name children =>
    rw [announce, seats, announceAll_eq info (childPath path name) place 0 children]

theorem announceAll_eq (info : FlowInfo) (path : String) (place : Place) (i : Nat)
    (nodes : List (FlowNode α)) :
    announceAll info path nodes = (seatsIn info path place i nodes).map Seat.queued := by
  cases nodes with
  | nil => rfl
  | cons node rest =>
    rw [announceAll, seatsIn, List.map_append, announce_eq info path (place ++ [i]) node,
      announceAll_eq info path place (i + 1) rest]

end

/-! ## Places -/

mutual

theorem seats_below {info : FlowInfo} {path : String} {place : Place} {node : FlowNode α}
    {s : Seat α} (hs : s ∈ node.seats info path place) : place <+: s.place := by
  cases node with
  | stage _ =>
    rw [seats, List.mem_singleton] at hs
    exact hs ▸ List.prefix_refl _
  | flow header nodes =>
    rw [seats, List.mem_cons] at hs
    rcases hs with rfl | hs
    · exact List.prefix_refl _
    · obtain ⟨k, -, hk⟩ := seatsIn_below hs
      exact Place.below_of_child hk
  | parallel name children =>
    rw [seats] at hs
    obtain ⟨k, -, hk⟩ := seatsIn_below hs
    exact Place.below_of_child hk

theorem seatsIn_below {info : FlowInfo} {path : String} {place : Place} {i : Nat}
    {nodes : List (FlowNode α)} {s : Seat α} (hs : s ∈ seatsIn info path place i nodes) :
    ∃ k ≥ i, place ++ [k] <+: s.place := by
  cases nodes with
  | nil => simp [seatsIn] at hs
  | cons node rest =>
    rw [seatsIn, List.mem_append] at hs
    rcases hs with hs | hs
    · exact ⟨i, le_rfl, seats_below hs⟩
    · obtain ⟨k, hk, below⟩ := seatsIn_below hs
      exact ⟨k, by omega, below⟩

end

theorem seatsIn_above {info : FlowInfo} {path : String} {place : Place} {i : Nat}
    {nodes : List (FlowNode α)} {s : Seat α} (hs : s ∈ seatsIn info path place i nodes) :
    place <+: s.place := by
  obtain ⟨k, -, below⟩ := seatsIn_below hs
  exact Place.below_of_child below

/-- What is in a flow is not at the place of the flow. -/
theorem seatsIn_inside {info : FlowInfo} {path : String} {place : Place} {i : Nat}
    {nodes : List (FlowNode α)} {s : Seat α} (hs : s ∈ seatsIn info path place i nodes) :
    ¬ s.place <+: place := by
  obtain ⟨k, -, below⟩ := seatsIn_below hs
  intro above
  have shorter := (below.trans above).length_le
  rw [List.length_append, List.length_singleton] at shorter
  omega

mutual

theorem seats_nodup (info : FlowInfo) (path : String) (place : Place) (node : FlowNode α) :
    ((node.seats info path place).map Seat.place).Nodup := by
  cases node with
  | stage s => exact List.nodup_singleton _
  | flow header nodes =>
    rw [seats, List.map_cons, List.nodup_cons]
    refine ⟨fun h => ?_, seatsIn_nodup _ _ place 0 nodes⟩
    obtain ⟨s, hs, same⟩ := List.mem_map.mp h
    exact seatsIn_inside hs (same ▸ List.prefix_refl _)
  | parallel name children =>
    rw [seats]
    exact seatsIn_nodup _ _ place 0 children

theorem seatsIn_nodup (info : FlowInfo) (path : String) (place : Place) (i : Nat)
    (nodes : List (FlowNode α)) : ((seatsIn info path place i nodes).map Seat.place).Nodup := by
  cases nodes with
  | nil => exact List.nodup_nil
  | cons node rest =>
    rw [seatsIn, List.map_append]
    refine List.Nodup.append (seats_nodup info path (place ++ [i]) node)
      (seatsIn_nodup info path place (i + 1) rest) ?_
    intro p hp hq
    obtain ⟨s, hs, rfl⟩ := List.mem_map.mp hp
    obtain ⟨t, ht, same⟩ := List.mem_map.mp hq
    obtain ⟨k, hk, below⟩ := seatsIn_below ht
    have := Place.child_unique (seats_below hs) (same ▸ below)
    omega

end

mutual

/-- What is at or below the place of a flow is the flow or in it. -/
theorem mem_seats_of_below {info : FlowInfo} {path : String} {place : Place} {node : FlowNode α}
    {p : Place} {path' : String} {info' : FlowInfo} {header : FlowHeader}
    {nodes : List (FlowNode α)} {s : Seat α}
    (hf : .flow p path' info' header nodes ∈ node.seats info path place)
    (hs : s ∈ node.seats info path place) (below : p <+: s.place) :
    s = .flow p path' info' header nodes ∨ s ∈ seatsIn info' path' p 0 nodes := by
  cases node with
  | stage _ => simp [seats] at hf
  | flow own ownNodes =>
    rw [seats, List.mem_cons] at hf hs
    rcases hf with hf | hf
    · obtain ⟨rfl, rfl, rfl, rfl, rfl⟩ := Seat.flow.inj hf
      exact hs
    · rcases hs with rfl | hs
      · exact absurd below (seatsIn_inside hf)
      · exact mem_seatsIn_of_below hf hs below
  | parallel name children =>
    rw [seats] at hf hs
    exact mem_seatsIn_of_below hf hs below

theorem mem_seatsIn_of_below {info : FlowInfo} {path : String} {place : Place} {i : Nat}
    {siblings : List (FlowNode α)} {p : Place} {path' : String} {info' : FlowInfo}
    {header : FlowHeader} {nodes : List (FlowNode α)} {s : Seat α}
    (hf : .flow p path' info' header nodes ∈ seatsIn info path place i siblings)
    (hs : s ∈ seatsIn info path place i siblings) (below : p <+: s.place) :
    s = .flow p path' info' header nodes ∨ s ∈ seatsIn info' path' p 0 nodes := by
  cases siblings with
  | nil => simp [seatsIn] at hf
  | cons node rest =>
    rw [seatsIn, List.mem_append] at hf hs
    -- The flow and what is below its place are below one and the same child.
    rcases hf with hf | hf <;> rcases hs with hs | hs
    · exact mem_seats_of_below hf hs below
    · obtain ⟨k, hk, after⟩ := seatsIn_below hs
      have := Place.child_unique ((seats_below hf).trans below) after
      omega
    · obtain ⟨k, hk, after⟩ := seatsIn_below hf
      have := Place.child_unique (seats_below hs) (after.trans below)
      omega
    · exact mem_seatsIn_of_below hf hs below

end

end FlowNode

namespace Flow

variable [Named α]

/-- The flow itself, at the empty place. -/
def seat (f : Flow α) : Seat α := .flow [] f.id (FlowInfo.root f.header) f.header f.nodes

/-- The flows and stages of a flow, the flow itself first. -/
def seats (f : Flow α) : List (Seat α) :=
  f.seat :: FlowNode.seatsIn (FlowInfo.root f.header) f.id [] 0 f.nodes

theorem announce_eq (f : Flow α) : f.announce = f.seats.map Seat.queued := by
  rw [announce, seats, List.map_cons, FlowNode.announceAll_eq _ _ [] 0]
  rfl

theorem seats_nodup (f : Flow α) : (f.seats.map Seat.place).Nodup := by
  rw [seats, List.map_cons, List.nodup_cons]
  refine ⟨fun h => ?_, FlowNode.seatsIn_nodup _ _ [] 0 f.nodes⟩
  obtain ⟨s, hs, same⟩ := List.mem_map.mp h
  exact FlowNode.seatsIn_inside hs (same ▸ List.prefix_refl _)

theorem seat_unique {f : Flow α} {s t : Seat α} (hs : s ∈ f.seats) (ht : t ∈ f.seats)
    (same : s.place = t.place) : s = t :=
  List.inj_on_of_nodup_map f.seats_nodup hs ht same

theorem mem_seats_of_below {f : Flow α} {p : Place} {path : String} {info : FlowInfo}
    {header : FlowHeader} {nodes : List (FlowNode α)} {s : Seat α}
    (hf : .flow p path info header nodes ∈ f.seats) (hs : s ∈ f.seats) (below : p <+: s.place) :
    s = .flow p path info header nodes ∨ s ∈ FlowNode.seatsIn info path p 0 nodes := by
  rw [seats, List.mem_cons] at hf hs
  rcases hf with hf | hf
  · obtain ⟨rfl, rfl, rfl, rfl, rfl⟩ := Seat.flow.inj hf
    exact hs
  · rcases hs with rfl | hs
    · exact absurd below (FlowNode.seatsIn_inside hf)
    · exact FlowNode.mem_seatsIn_of_below hf hs below

end Flow

end Provisioning
