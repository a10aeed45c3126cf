import Mathlib.Data.List.Perm.Basic
import Provisioning.Ordered.Map
import Provisioning.Ordered.Set

/-!
# Looking things up in maps and sets

An ascending map is a finite function and an ascending set a finite predicate: what an operation
does is said by `get?` and `contains`.
-/

namespace Provisioning

variable {κ α : Type} [Ord κ] [Std.LawfulEqOrd κ]

theorem compare_beq_eq {k k' : κ} : (compare k k' == .eq) = true ↔ k = k' := by
  rw [beq_iff_eq]
  exact Std.LawfulEqCmp.compare_eq_iff_eq

/-! ## Maps -/

/-- An entry of a new key is added, and nothing else changes. -/
theorem insertEntry_perm {k : κ} (v : α) {entries : List (κ × α)} (new : ∀ e ∈ entries, e.1 ≠ k) :
    (insertEntry k v entries).Perm ((k, v) :: entries) := by
  induction entries with
  | nil => exact .refl _
  | cons entry rest ih =>
    rw [insertEntry]
    split
    next => exact .refl _
    next heq =>
      exact absurd (Std.LawfulEqCmp.eq_of_compare heq).symm (new entry List.mem_cons_self)
    next =>
      exact ((ih fun e he => new e (List.mem_cons_of_mem _ he)).cons _).trans (.swap _ _ _)

namespace OrderedMap

omit [Std.LawfulEqOrd κ] in
@[simp]
theorem get?_empty (k : κ) : (empty : OrderedMap κ α).get? k = none := rfl

omit [Std.LawfulEqOrd κ] in
@[simp]
theorem contains_empty (k : κ) : (empty : OrderedMap κ α).contains k = false := rfl

theorem get?_eq_some_iff {m : OrderedMap κ α} {k : κ} {v : α} :
    m.get? k = some v ↔ (k, v) ∈ m.entries := by
  obtain ⟨entries, ascending⟩ := m
  unfold get?
  induction entries with
  | nil => simp
  | cons entry rest ih =>
    have ⟨before, after⟩ := List.pairwise_cons.1 ascending
    by_cases hk : k = entry.1
    · subst hk
      have absent : (entry.1, v) ∉ rest := fun h => by
        simpa [Std.ReflCmp.compare_self] using before _ h
      simp only [List.find?_cons, Std.ReflCmp.compare_self, beq_self_eq_true, Option.map_some,
        Option.some.injEq, List.mem_cons, absent, or_false]
      exact ⟨fun h => h ▸ rfl, fun h => by rw [← h]⟩
    · have hc : (compare k entry.1 == .eq) = false := by
        simpa [Bool.eq_false_iff] using fun h => hk (compare_beq_eq.mp (by simpa using h))
      simp only [List.find?_cons, hc, List.mem_cons]
      rw [ih after]
      exact ⟨.inr, fun h => h.resolve_left fun h => hk (h ▸ rfl)⟩

theorem mem_keys_iff {m : OrderedMap κ α} {k : κ} : k ∈ m.keys ↔ m.contains k := by
  simp only [keys, List.mem_map, Prod.exists, exists_and_right, exists_eq_right, contains,
    Option.isSome_iff_exists, get?_eq_some_iff]

theorem keys_nodup (m : OrderedMap κ α) : m.keys.Nodup := by
  refine List.pairwise_map.mpr (List.Pairwise.imp (fun {a b} h heq => ?_) m.ascending)
  simp [heq, Std.ReflCmp.compare_self] at h

/-- Two maps agree on a key if they have the same entries for it. -/
theorem get?_congr {m : OrderedMap κ α} {k : κ} {o : Option α}
    (h : ∀ v, (k, v) ∈ m.entries ↔ o = some v) : m.get? k = o :=
  Option.ext fun v => by rw [get?_eq_some_iff, h]

section

variable [DecidableEq κ]

theorem get?_erase (m : OrderedMap κ α) (k k' : κ) :
    (m.erase k).get? k' = if k' = k then none else m.get? k' := by
  refine get?_congr fun v => ?_
  have hb : (compare k k' != .eq) = true ↔ k' ≠ k := by
    rw [bne, Bool.not_eq_true', ← Bool.not_eq_true, compare_beq_eq, ne_comm, ne_eq]
  rw [erase, List.mem_filter, hb]
  split <;> rename_i h
  · simp [h]
  · simp [h, get?_eq_some_iff]

end

variable [Std.TransOrd κ]

theorem mem_insert_entries (m : OrderedMap κ α) (k : κ) (v : α) (e : κ × α) :
    e ∈ (m.insert k v).entries ↔ e = (k, v) ∨ e ∈ m.entries ∧ e.1 ≠ k := by
  obtain ⟨entries, ascending⟩ := m
  change e ∈ insertEntry k v entries ↔ _
  induction entries with
  | nil => simp [insertEntry]
  | cons entry rest ih =>
    obtain ⟨before, after⟩ := List.pairwise_cons.1 ascending
    have ih := ih after
    simp only [insertEntry]
    split
    next hlt =>
      have later : ∀ e' ∈ entry :: rest, e'.1 ≠ k := by
        intro e' he' heq
        rcases List.mem_cons.mp he' with rfl | he'
        · simp [heq, Std.ReflCmp.compare_self] at hlt
        · have := Std.TransCmp.lt_trans hlt (before e' he')
          simp [heq, Std.ReflCmp.compare_self] at this
      rw [List.mem_cons]
      exact or_congr_right ⟨fun h => ⟨h, later e h⟩, And.left⟩
    next heq =>
      have hk : k = entry.1 := Std.LawfulEqCmp.eq_of_compare heq
      have later : ∀ e' ∈ rest, e'.1 ≠ k := by
        intro e' he' h
        have := before e' he'
        simp [h, hk, Std.ReflCmp.compare_self] at this
      rw [List.mem_cons, List.mem_cons]
      refine or_congr_right ⟨fun h => ⟨.inr h, later e h⟩, fun h => h.1.resolve_left ?_⟩
      rintro rfl
      exact h.2 hk.symm
    next hgt =>
      have hne : entry.1 ≠ k := fun h => by simp [h, Std.ReflCmp.compare_self] at hgt
      rw [List.mem_cons, ih, List.mem_cons]
      constructor
      · rintro (rfl | rfl | ⟨h, hk⟩)
        · exact .inr ⟨.inl rfl, hne⟩
        · exact .inl rfl
        · exact .inr ⟨.inr h, hk⟩
      · rintro (rfl | ⟨rfl | h, hk⟩)
        · exact .inr (.inl rfl)
        · exact .inl rfl
        · exact .inr (.inr ⟨h, hk⟩)

variable [DecidableEq κ]

theorem get?_insert (m : OrderedMap κ α) (k k' : κ) (v : α) :
    (m.insert k v).get? k' = if k' = k then some v else m.get? k' := by
  refine get?_congr fun v' => ?_
  rw [mem_insert_entries]
  split <;> rename_i h
  · simp [h, eq_comm]
  · simp [h, get?_eq_some_iff]

theorem contains_insert (m : OrderedMap κ α) (k k' : κ) (v : α) :
    (m.insert k v).contains k' ↔ k' = k ∨ m.contains k' := by
  unfold contains
  rw [get?_insert]
  split <;> simp_all

omit [Std.TransOrd κ] in
theorem contains_erase (m : OrderedMap κ α) (k k' : κ) :
    (m.erase k).contains k' ↔ k' ≠ k ∧ m.contains k' := by
  unfold contains
  rw [get?_erase]
  split <;> simp_all

/-- What a map made of a list has is in the list. -/
theorem mem_of_get?_ofList {entries : List (κ × α)} {k : κ} {v : α}
    (h : (ofList entries).get? k = some v) : (k, v) ∈ entries := by
  suffices general : ∀ (entries : List (κ × α)) (m : OrderedMap κ α),
      (entries.foldl (fun m e => m.insert e.1 e.2) m).get? k = some v →
      (k, v) ∈ entries ∨ m.get? k = some v by
    exact (general entries empty h).resolve_right (by simp)
  intro entries
  induction entries with
  | nil => exact fun m h => .inr h
  | cons e rest ih =>
    intro m h
    rcases ih _ h with h | h
    · exact .inl (List.mem_cons_of_mem _ h)
    · rw [get?_insert] at h
      split at h <;> rename_i hk
      · refine .inl ?_
        simp only [Option.some.injEq] at h
        simp [hk, ← h]
      · exact .inr h

/-- A map made of a list has the keys of the list. -/
theorem contains_ofList {entries : List (κ × α)} {k : κ} :
    (ofList entries).contains k ↔ k ∈ entries.map (·.1) := by
  suffices general : ∀ (entries : List (κ × α)) (m : OrderedMap κ α),
      (entries.foldl (fun m e => m.insert e.1 e.2) m).contains k ↔
        k ∈ entries.map (·.1) ∨ m.contains k by
    simpa [ofList] using general entries empty
  intro entries
  induction entries with
  | nil => simp
  | cons e rest ih =>
    intro m
    rw [List.foldl_cons, ih, contains_insert, List.map_cons, List.mem_cons, or_left_comm,
      or_assoc]

omit [DecidableEq κ] in
/-- A map made of a list without repeated keys has the entries of the list. -/
theorem ofList_perm {entries : List (κ × α)} (nodup : (entries.map (·.1)).Nodup) :
    (ofList entries).entries.Perm entries := by
  suffices general : ∀ (entries : List (κ × α)) (m : OrderedMap κ α),
      ((m.entries ++ entries).map (·.1)).Nodup →
      (entries.foldl (fun m e => m.insert e.1 e.2) m).entries.Perm (m.entries ++ entries) by
    simpa [ofList, empty] using general entries empty (by simpa [empty] using nodup)
  intro entries
  induction entries with
  | nil => exact fun m _ => by simp
  | cons e rest ih =>
    intro m nodup
    have new : ∀ e' ∈ m.entries, e'.1 ≠ e.1 := by
      intro e' he' heq
      rw [List.map_append, List.nodup_append] at nodup
      exact nodup.2.2 e'.1 (List.mem_map_of_mem he') e.1 (by simp) heq
    have step : (m.insert e.1 e.2).entries.Perm (e :: m.entries) := insertEntry_perm e.2 new
    have moved : ((m.insert e.1 e.2).entries ++ rest).Perm (m.entries ++ e :: rest) :=
      (step.append_right rest).trans List.perm_middle.symm
    exact (ih _ (((moved.map (·.1)).nodup_iff).mpr nodup)).trans moved

omit [DecidableEq κ] in
/-- Lists without repeated keys that have the same entries make the same map. -/
theorem ofList_eq_of_perm {entries entries' : List (κ × α)} (nodup : (entries.map (·.1)).Nodup)
    (perm : entries'.Perm entries) : ofList entries' = ofList entries := by
  have nodup' : (entries'.map (·.1)).Nodup := ((perm.map (·.1)).nodup_iff).mpr nodup
  have same : (ofList entries').entries.Perm (ofList entries).entries :=
    (ofList_perm nodup').trans (perm.trans (ofList_perm nodup).symm)
  have equal : (ofList entries').entries = (ofList entries).entries := by
    refine same.eq_of_pairwise (fun a b _ _ before after => ?_) (ofList entries').ascending
      (ofList entries).ascending
    rw [Std.OrientedCmp.gt_of_lt after] at before
    cases before
  cases h : ofList entries'
  cases h' : ofList entries
  simp_all only

omit [DecidableEq κ] in
theorem get?_ofList {entries : List (κ × α)} (nodup : (entries.map (·.1)).Nodup) {k : κ} {v : α} :
    (ofList entries).get? k = some v ↔ (k, v) ∈ entries := by
  rw [get?_eq_some_iff, (ofList_perm nodup).mem_iff]

/-- What a map of values by one of their parts has under a key is a value with that key. -/
theorem mem_of_get?_keyed {key : α → κ} {values : List α} {k : κ} {v : α}
    (h : (ofList (values.map fun v => (key v, v))).get? k = some v) : v ∈ values ∧ key v = k := by
  obtain ⟨v', hv, same⟩ := List.mem_map.mp (mem_of_get?_ofList h)
  obtain ⟨named, rfl⟩ := Prod.mk.inj same
  exact ⟨hv, named⟩

/-- It has all the values if no two of them have the same key. -/
theorem get?_keyed {key : α → κ} {values : List α} (nodup : (values.map key).Nodup) {k : κ}
    {v : α} :
    (ofList (values.map fun v => (key v, v))).get? k = some v ↔ v ∈ values ∧ key v = k := by
  refine ⟨mem_of_get?_keyed, ?_⟩
  rintro ⟨hv, rfl⟩
  have keys : ((values.map fun v => (key v, v)).map (·.1)).Nodup := by rwa [List.map_map]
  exact (get?_ofList keys).mpr (List.mem_map_of_mem (f := fun v => (key v, v)) hv)

end OrderedMap

/-! ## Sets -/

theorem mem_insertMember {a b : κ} {members : List κ} :
    b ∈ insertMember a members ↔ b = a ∨ b ∈ members := by
  induction members with
  | nil => simp [insertMember]
  | cons c rest ih =>
    rw [insertMember]
    split
    next => exact List.mem_cons
    next heq =>
      rw [Std.LawfulEqCmp.eq_of_compare heq, List.mem_cons]
      exact ⟨.inr, fun h => h.elim .inl id⟩
    next =>
      rw [List.mem_cons, ih, List.mem_cons]
      exact or_left_comm

namespace OrderedSet

omit [Std.LawfulEqOrd κ] in
@[simp]
theorem contains_empty (a : κ) : (empty : OrderedSet κ).contains a = false := rfl

theorem contains_iff_mem {s : OrderedSet κ} {a : κ} : s.contains a ↔ a ∈ s.toList := by
  simp [contains]

theorem contains_insert [Std.TransOrd κ] (s : OrderedSet κ) (a b : κ) :
    (s.insert a).contains b ↔ b = a ∨ s.contains b := by
  rw [contains_iff_mem, contains_iff_mem]
  exact mem_insertMember

theorem mem_ofList [Std.TransOrd κ] {members : List κ} {a : κ} :
    a ∈ (ofList members).toList ↔ a ∈ members := by
  suffices general : ∀ (members : List κ) (s : OrderedSet κ),
      a ∈ (members.foldl insert s).toList ↔ a ∈ s.toList ∨ a ∈ members by
    have start := general members empty
    rwa [empty, List.mem_nil_iff, false_or] at start
  intro members
  induction members with
  | nil => simp
  | cons b rest ih =>
    intro s
    rw [List.foldl_cons, ih, insert, mem_insertMember, List.mem_cons, or_comm (a := a = b),
      or_assoc]

theorem contains_filter (s : OrderedSet κ) (p : κ → Bool) (a : κ) :
    (s.filter p).contains a ↔ s.contains a ∧ p a := by
  rw [contains_iff_mem, contains_iff_mem]
  exact List.mem_filter

theorem contains_erase (s : OrderedSet κ) (a b : κ) :
    (s.erase a).contains b ↔ b ≠ a ∧ s.contains b := by
  rw [erase, contains_filter, bne, Bool.not_eq_true', ← Bool.not_eq_true, compare_beq_eq, ne_comm,
    and_comm]

/-- A set is determined by its members. -/
theorem ext_contains [Std.OrientedOrd κ] {s s' : OrderedSet κ}
    (same : ∀ a, s.contains a ↔ s'.contains a) : s = s' := by
  obtain ⟨members, ascending⟩ := s
  obtain ⟨members', ascending'⟩ := s'
  have nodup {members : List κ} (ascending : Ascending members) : members.Nodup := by
    refine ascending.imp fun {a b} before equal => ?_
    simp [equal, Std.ReflCmp.compare_self] at before
  have perm : members.Perm members' := by
    rw [List.perm_ext_iff_of_nodup (nodup ascending) (nodup ascending')]
    exact fun a => contains_iff_mem.symm.trans ((same a).trans contains_iff_mem)
  obtain rfl : members = members' := by
    refine perm.eq_of_pairwise (fun a b _ _ before after => ?_) ascending ascending'
    rw [Std.OrientedCmp.gt_of_lt after] at before
    cases before
  rfl

theorem erase_insert [Std.TransOrd κ] {s : OrderedSet κ} {a : κ} (absent : ¬s.contains a) :
    (s.insert a).erase a = s := by
  refine ext_contains fun b => ?_
  rw [contains_erase, contains_insert]
  refine ⟨fun h => h.2.resolve_left h.1, fun h => ⟨?_, .inr h⟩⟩
  rintro rfl
  exact absent h

theorem insert_erase [Std.TransOrd κ] {s : OrderedSet κ} {a : κ} (there : s.contains a) :
    (s.erase a).insert a = s := by
  refine ext_contains fun b => ?_
  rw [contains_insert, contains_erase]
  by_cases hb : b = a
  · simp [hb, there]
  · simp [hb]

end OrderedSet

end Provisioning
