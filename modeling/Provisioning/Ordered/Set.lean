/-!
# Sets in ascending order

A set is the list of its members in ascending order, so two sets with the same members are equal.
-/

namespace Provisioning

variable {α : Type} [Ord α]

/-- Each member comes before the members after it. -/
def Ascending (members : List α) : Prop := members.Pairwise fun a b => compare a b = .lt

/-- Puts a member at its place, unless it is there. -/
def insertMember (a : α) : List α → List α
  | [] => [a]
  | b :: rest =>
    match compare a b with
    | .lt => a :: b :: rest
    | .eq => b :: rest
    | .gt => b :: insertMember a rest

theorem compare_insertMember [Std.TransOrd α] {a₀ a : α} {members : List α}
    (ha : compare a₀ a = .lt) (h : ∀ b ∈ members, compare a₀ b = .lt) :
    ∀ b ∈ insertMember a members, compare a₀ b = .lt := by
  induction members with
  | nil => simpa [insertMember] using ha
  | cons b' rest ih =>
    intro b hb
    simp only [insertMember] at hb
    split at hb
    · simp only [List.mem_cons] at hb
      rcases hb with rfl | rfl | hb
      · exact ha
      · exact h _ (by simp)
      · exact h _ (by simp [hb])
    · exact h b hb
    · simp only [List.mem_cons] at hb
      rcases hb with rfl | hb
      · exact h _ (by simp)
      · exact ih (fun c hc => h c (by simp [hc])) b hb

theorem Ascending.insertMember [Std.TransOrd α] {a : α} {members : List α}
    (h : Ascending members) : Ascending (insertMember a members) := by
  induction members with
  | nil => simp [Provisioning.insertMember, Ascending]
  | cons b rest ih =>
    have ⟨h₁, h₂⟩ := List.pairwise_cons.1 h
    simp only [Provisioning.insertMember]
    split
    next hlt =>
      refine List.pairwise_cons.2 ⟨fun c hc => ?_, h⟩
      rcases List.mem_cons.1 hc with rfl | hc
      · exact hlt
      · exact Std.TransCmp.lt_trans hlt (h₁ c hc)
    next => exact h
    next hgt =>
      exact List.pairwise_cons.2
        ⟨compare_insertMember (Std.OrientedCmp.gt_iff_lt.1 hgt) h₁, ih h₂⟩

/-- A set, its members ascending. -/
structure OrderedSet (α : Type) [Ord α] where
  /-- The members, in ascending order. -/
  toList : List α
  /-- No member occurs twice, and the members ascend. -/
  ascending : Ascending toList

namespace OrderedSet

/-- The set without members. -/
def empty : OrderedSet α := ⟨[], List.Pairwise.nil⟩

instance : Inhabited (OrderedSet α) := ⟨empty⟩

/-- Whether the element is a member. -/
def contains (s : OrderedSet α) (a : α) : Bool := s.toList.any fun b => compare a b == .eq

/-- The number of members. -/
def size (s : OrderedSet α) : Nat := s.toList.length

/-- Whether there are no members. -/
def isEmpty (s : OrderedSet α) : Bool := s.toList.isEmpty

/-- The members with the property. -/
def filter (s : OrderedSet α) (p : α → Bool) : OrderedSet α :=
  ⟨s.toList.filter p, s.ascending.filter p⟩

/-- The set without an element. -/
def erase (s : OrderedSet α) (a : α) : OrderedSet α := s.filter fun b => compare a b != .eq

variable [Std.TransOrd α]

/-- The set with one more member. -/
def insert (s : OrderedSet α) (a : α) : OrderedSet α :=
  ⟨insertMember a s.toList, s.ascending.insertMember⟩

/-- The set of the elements of a list. -/
def ofList (members : List α) : OrderedSet α := members.foldl insert empty

end OrderedSet

end Provisioning
