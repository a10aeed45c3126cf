import Mathlib.Data.List.DropRight
import Provisioning.Refusal

/-!
# Reading identifiers

The identifier of the name and the version that are read of a text is that text without the blanks
around it (`VersionedName.id_of_read?`), and they are read of it again (`VersionedName.read?_id`).
So two texts that can be read name one version of one application exactly if they differ in the
blanks around them alone.
-/

namespace Provisioning

namespace Text

theorem trimChars_eq (cs : List Char) :
    trimChars cs = (cs.dropWhile isBlank).rdropWhile isBlank := rfl

theorem dropWhile_trimChars (cs : List Char) :
    (trimChars cs).dropWhile isBlank = trimChars cs := by
  cases ht : trimChars cs with
  | nil => rfl
  | cons c rest =>
    -- What is dropped at the end leaves the first character as it is.
    obtain ⟨dropped, whole⟩ : trimChars cs <+: cs.dropWhile isBlank :=
      List.rdropWhile_prefix isBlank (cs.dropWhile isBlank)
    rw [ht, List.cons_append] at whole
    have first := List.head?_dropWhile_not isBlank cs
    rw [← whole] at first
    have solid : isBlank c = false := first
    rw [List.dropWhile_cons, solid]
    rfl

theorem trimChars_trimChars (cs : List Char) : trimChars (trimChars cs) = trimChars cs := by
  rw [trimChars_eq (trimChars cs), dropWhile_trimChars, trimChars_eq,
    List.rdropWhile_idempotent]

end Text

namespace VersionedName

variable {cs name version : List Char} {s s' : String} {v v' : VersionedName}

theorem parse_eq_ok : parse s = .ok v ↔ read? s = some v := by
  unfold parse
  cases read? s <;> simp

/-- A cut takes a hyphen out, and nothing else. -/
theorem append_of_cut? (h : cut? cs = some (name, version)) : name ++ '-' :: version = cs := by
  induction cs generalizing name with
  | nil => cases h
  | cons c rest ih =>
    rw [cut?] at h
    split at h
    · rename_i here
      obtain ⟨rfl, rfl⟩ := Prod.mk.inj (Option.some.inj h)
      rw [here.1]
      rfl
    · obtain ⟨⟨before, after⟩, hcut, h⟩ := Option.map_eq_some_iff.mp h
      obtain ⟨rfl, rfl⟩ := Prod.mk.inj h
      rw [List.cons_append, ih hcut]

theorem append_of_splitChars? (h : splitChars? cs = some (name, version)) :
    name ++ '-' :: version = cs := by
  cases cs with
  | nil => cases h
  | cons c rest =>
    rw [splitChars?] at h
    split at h
    · cases h
    · obtain ⟨⟨before, after⟩, hcut, h⟩ := Option.map_eq_some_iff.mp h
      obtain ⟨rfl, rfl⟩ := Prod.mk.inj h
      rw [List.cons_append, append_of_cut? hcut]

/-- What is read makes up the text, blanks around it apart. -/
theorem id_of_read? (h : read? s = some v) : v.id = Text.trim s := by
  obtain ⟨⟨name, version⟩, hsplit, rfl⟩ := Option.map_eq_some_iff.mp h
  rw [Text.trim, ← append_of_splitChars? hsplit]
  simp [id, String.append_assoc]

theorem read?_trim (s : String) : read? (Text.trim s) = read? s := by
  rw [read?, Text.trim, String.toList_ofList, Text.trimChars_trimChars, read?]

/-- What has been read can be read again. -/
theorem read?_id (h : read? s = some v) : read? v.id = some v := by
  rw [id_of_read? h, read?_trim, h]

theorem eq_of_id (hv : read? s = some v) (hv' : read? s' = some v') (same : v.id = v'.id) :
    v = v' := by
  have again := read?_id hv
  rw [same, read?_id hv'] at again
  exact (Option.some.inj again).symm

end VersionedName

end Provisioning
