/-!
# Maps with ascending keys

A map is the list of its entries in ascending order of their keys, so two maps with the same
entries are equal, and whoever walks a map sees the order in which it is written out. Names and
identifiers are compared by code point, which is also the order of their UTF-8 bytes.
-/

namespace Provisioning

variable {κ : Type} {α β : Type} [Ord κ]

/-- Each key comes before the keys after it. -/
def AscendingKeys (entries : List (κ × α)) : Prop :=
  entries.Pairwise fun a b => compare a.1 b.1 = .lt

/-- Puts an entry at its place, instead of an earlier entry of the same key. -/
def insertEntry (k : κ) (v : α) : List (κ × α) → List (κ × α)
  | [] => [(k, v)]
  | (k', v') :: rest =>
    match compare k k' with
    | .lt => (k, v) :: (k', v') :: rest
    | .eq => (k, v) :: rest
    | .gt => (k', v') :: insertEntry k v rest

theorem compare_insertEntry [Std.TransOrd κ] {k₀ k : κ} {v : α} {entries : List (κ × α)}
    (hk : compare k₀ k = .lt) (h : ∀ e ∈ entries, compare k₀ e.1 = .lt) :
    ∀ e ∈ insertEntry k v entries, compare k₀ e.1 = .lt := by
  induction entries with
  | nil => simpa [insertEntry] using hk
  | cons entry rest ih =>
    intro e he
    simp only [insertEntry] at he
    split at he
    · simp only [List.mem_cons] at he
      rcases he with rfl | rfl | he
      · exact hk
      · exact h _ (by simp)
      · exact h _ (by simp [he])
    · simp only [List.mem_cons] at he
      rcases he with rfl | he
      · exact hk
      · exact h _ (by simp [he])
    · simp only [List.mem_cons] at he
      rcases he with rfl | he
      · exact h _ (by simp)
      · exact ih (fun e' he' => h e' (by simp [he'])) e he

theorem AscendingKeys.insertEntry [Std.TransOrd κ] [Std.LawfulEqOrd κ] {k : κ} {v : α}
    {entries : List (κ × α)} (h : AscendingKeys entries) :
    AscendingKeys (insertEntry k v entries) := by
  induction entries with
  | nil => simp [Provisioning.insertEntry, AscendingKeys]
  | cons entry rest ih =>
    obtain ⟨k', v'⟩ := entry
    have ⟨h₁, h₂⟩ := List.pairwise_cons.1 h
    simp only [Provisioning.insertEntry]
    split
    next hlt =>
      refine List.pairwise_cons.2 ⟨fun e he => ?_, h⟩
      rcases List.mem_cons.1 he with rfl | he
      · exact hlt
      · exact Std.TransCmp.lt_trans hlt (h₁ e he)
    next heq =>
      have : k = k' := Std.LawfulEqCmp.eq_of_compare heq
      subst this
      exact List.pairwise_cons.2 ⟨h₁, h₂⟩
    next hgt =>
      exact List.pairwise_cons.2
        ⟨compare_insertEntry (Std.OrientedCmp.gt_iff_lt.1 hgt) h₁, ih h₂⟩

/-- A map, its entries ascending by key. -/
structure OrderedMap (κ α : Type) [Ord κ] where
  /-- The entries, in ascending order of their keys. -/
  entries : List (κ × α)
  /-- No key occurs twice, and the keys ascend. -/
  ascending : AscendingKeys entries

namespace OrderedMap

/-- The map without entries. -/
def empty : OrderedMap κ α := ⟨[], List.Pairwise.nil⟩

instance : Inhabited (OrderedMap κ α) := ⟨empty⟩

/-- The keys, ascending. -/
def keys (m : OrderedMap κ α) : List κ := m.entries.map (·.1)

/-- The values, in the order of their keys. -/
def values (m : OrderedMap κ α) : List α := m.entries.map (·.2)

/-- The value of a key. -/
def get? (m : OrderedMap κ α) (k : κ) : Option α :=
  (m.entries.find? fun e => compare k e.1 == .eq).map (·.2)

/-- Whether the map has a value for the key. -/
def contains (m : OrderedMap κ α) (k : κ) : Bool := (m.get? k).isSome

/-- The number of entries. -/
def size (m : OrderedMap κ α) : Nat := m.entries.length

/-- The map without a key. -/
def erase (m : OrderedMap κ α) (k : κ) : OrderedMap κ α :=
  ⟨m.entries.filter fun e => compare k e.1 != .eq, m.ascending.filter _⟩

/-- Whether there are no entries. -/
def isEmpty (m : OrderedMap κ α) : Bool := m.entries.isEmpty

variable [Std.TransOrd κ] [Std.LawfulEqOrd κ]

/-- The map in which the key has the value, whatever it had before. -/
def insert (m : OrderedMap κ α) (k : κ) (v : α) : OrderedMap κ α :=
  ⟨insertEntry k v m.entries, m.ascending.insertEntry⟩

/-- The map of the entries; of several entries with one key the last one counts. -/
def ofList (entries : List (κ × α)) : OrderedMap κ α :=
  entries.foldl (fun m e => m.insert e.1 e.2) empty

/-- The map in which the key's value is computed from its former one. -/
def alter (m : OrderedMap κ α) (k : κ) (f : Option α → α) : OrderedMap κ α :=
  m.insert k (f (m.get? k))

end OrderedMap

end Provisioning
