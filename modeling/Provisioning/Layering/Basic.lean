/-!
# Layers

Nodes that need each other are put into layers: each layer takes the nodes whose needs all lie in
earlier layers. The nodes of one layer are independent of each other, and a node lies in the
earliest layer that its needs allow. If nodes remain of which none can come next, there is a circle
among them.
-/

namespace Provisioning

/-- Something that has to come after the nodes that it needs. -/
structure Node (α : Type) where
  /-- What other nodes call it. -/
  id : String
  /-- What the node stands for. -/
  item : α
  /-- The nodes that it needs. -/
  needs : List String
deriving Repr

namespace Node

variable {α : Type}

/-- Whether all needs of the node are placed. -/
def isReady (placed : List String) (node : Node α) : Bool := node.needs.all placed.contains

/-- The nodes that may come next. -/
def ready (placed : List String) (nodes : List (Node α)) : List (Node α) :=
  nodes.filter (·.isReady placed)

/-- The nodes that have to wait. -/
def waiting (placed : List String) (nodes : List (Node α)) : List (Node α) :=
  nodes.filter fun node => !node.isReady placed

theorem length_ready_add_length_waiting (placed : List String) (nodes : List (Node α)) :
    (ready placed nodes).length + (waiting placed nodes).length = nodes.length := by
  induction nodes with
  | nil => rfl
  | cons node rest ih =>
    cases h : node.isReady placed <;> simp_all [ready, waiting] <;> omega

theorem length_waiting_lt {placed : List String} {nodes : List (Node α)}
    (h : ready placed nodes ≠ []) : (waiting placed nodes).length < nodes.length := by
  have := length_ready_add_length_waiting placed nodes
  have := List.length_pos_iff.2 h
  omega

/-- The layers of the remaining nodes behind those already placed, or the nodes among which there
is a circle. -/
def layersAfter (placed : List String) (remaining : List (Node α)) :
    Except (List String) (List (List (Node α))) :=
  if remaining.isEmpty then
    .ok []
  else if _h : ready placed remaining = [] then
    .error (remaining.map (·.id))
  else
    (layersAfter (placed ++ (ready placed remaining).map (·.id)) (waiting placed remaining)).map
      (ready placed remaining :: ·)
termination_by remaining.length
decreasing_by exact length_waiting_lt _h

/-- The layers of nodes, or those among which there is a circle. -/
def layers (nodes : List (Node α)) : Except (List String) (List (List (Node α))) :=
  layersAfter [] nodes

end Node

end Provisioning
