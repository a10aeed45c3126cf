import Mathlib.Order.Bounds.Basic
import Mathlib.Order.Nat
import Provisioning.Proofs.Application.Separation

/-!
# The first cut point

A hyphen of a text that is not its first character and that three numbers follow is a cut point of
the text. A text that is a single line and has a cut point is read as a name and a version, with its
first cut point between them; every other text is refused. So an identifier is read in one way only,
and two texts that can be read name the same version exactly if they are equal without the blanks
around them (`VersionedName.parse_canonical`).
-/

namespace Provisioning

namespace VersionedName

variable {cs digits rest name version : List Char} {i : Nat} {s : String} {v : VersionedName}

/-! ## Three numbers -/

/-- Decimal digits of any script, at least one of them. -/
def IsNumber (cs : List Char) : Prop := cs ≠ [] ∧ ∀ c ∈ cs, Text.isDecimalDigit c

/-- Three numbers with a dot between each two of them, and whatever comes then. -/
def StartsWithNumbers (cs : List Char) : Prop :=
  ∃ major minor patch rest, IsNumber major ∧ IsNumber minor ∧ IsNumber patch ∧
    cs = major ++ '.' :: (minor ++ '.' :: (patch ++ rest))

theorem IsNumber.exists_cons (h : IsNumber digits) : ∃ c tail, digits = c :: tail ∧
    Text.isDecimalDigit c ∧ ∀ d ∈ tail, Text.isDecimalDigit d := by
  obtain ⟨nonempty, digit⟩ := h
  cases digits with
  | nil => exact absurd rfl nonempty
  | cons c tail => exact ⟨c, tail, rfl, List.forall_mem_cons.mp digit⟩

/-- What is left behind the digits of a text was behind a number. -/
theorem exists_number_of_afterDigits? (h : afterDigits? cs = some rest) :
    ∃ digits, IsNumber digits ∧ cs = digits ++ rest := by
  cases cs with
  | nil => cases h
  | cons c cs =>
    rw [afterDigits?] at h
    split at h
    next first =>
      obtain rfl := Option.some.inj h
      have others : ∀ d ∈ cs.takeWhile Text.isDecimalDigit, Text.isDecimalDigit d :=
        fun d hd => List.mem_takeWhile_imp hd
      refine ⟨c :: cs.takeWhile Text.isDecimalDigit, ⟨List.cons_ne_nil _ _, ?_⟩, ?_⟩
      · exact List.forall_mem_cons.mpr ⟨first, others⟩
      · rw [List.cons_append, List.takeWhile_append_dropWhile]
    · cases h

theorem IsNumber.afterDigits?_append (h : IsNumber digits) :
    afterDigits? (digits ++ '.' :: rest) = some ('.' :: rest) := by
  obtain ⟨c, tail, rfl, first, others⟩ := h.exists_cons
  exact afterDigits?_digits first others

/-- A version could start where three numbers do. -/
theorem startsVersion_iff : startsVersion cs ↔ StartsWithNumbers cs := by
  constructor
  · intro h
    unfold startsVersion at h
    split at h
    next behindMajor hmajor =>
      split at h
      next c behindPatch hminor =>
        obtain ⟨major, isMajor, rfl⟩ := exists_number_of_afterDigits? hmajor
        obtain ⟨minor, isMinor, rfl⟩ := exists_number_of_afterDigits? hminor
        -- The digits of the third number are not counted: its first one will do.
        have isPatch : IsNumber [c] := ⟨List.cons_ne_nil _ _, by simpa using h⟩
        exact ⟨major, minor, [c], behindPatch, isMajor, isMinor, isPatch, rfl⟩
      · cases h
    · cases h
  · rintro ⟨major, minor, patch, rest, isMajor, isMinor, isPatch, rfl⟩
    obtain ⟨c, tail, rfl, digit, -⟩ := isPatch.exists_cons
    unfold startsVersion
    rw [isMajor.afterDigits?_append]
    simp only
    rw [isMinor.afterDigits?_append]
    exact digit

/-! ## Cut points -/

/-- The position of a hyphen of the text that is not its first character and that three numbers
follow. -/
structure IsCutPoint (cs : List Char) (i : Nat) : Prop where
  notFirst : i ≠ 0
  hyphen : cs[i]? = some '-'
  followed : StartsWithNumbers (cs.drop (i + 1))

theorem isCutPoint_iff :
    IsCutPoint cs i ↔ i ≠ 0 ∧ cs[i]? = some '-' ∧ startsVersion (cs.drop (i + 1)) := by
  rw [startsVersion_iff]
  constructor
  · exact fun h => ⟨h.notFirst, h.hyphen, h.followed⟩
  · exact fun ⟨notFirst, hyphen, followed⟩ => ⟨notFirst, hyphen, followed⟩

theorem IsCutPoint.exists_append (h : IsCutPoint cs i) :
    ∃ before after, before.length = i ∧ cs = before ++ '-' :: after := by
  obtain ⟨short, hyphen⟩ := List.getElem?_eq_some_iff.mp h.hyphen
  refine ⟨cs.take i, cs.drop (i + 1), List.length_take_of_le (Nat.le_of_lt short), ?_⟩
  rw [← hyphen, ← List.drop_eq_getElem_cons short, List.take_append_drop]

theorem isCutPoint_length_iff :
    IsCutPoint (name ++ '-' :: version) name.length ↔ name ≠ [] ∧ startsVersion version := by
  rw [isCutPoint_iff]
  simp

/-- What stands behind a hyphen is of no account to the cut points before it. -/
theorem isCutPoint_append_iff (before : i < name.length) :
    IsCutPoint (name ++ '-' :: version) i ↔ IsCutPoint name i := by
  rw [isCutPoint_iff, isCutPoint_iff, List.getElem?_append_left before,
    List.drop_append_of_le_length before, startsVersion_append]

/-- The hyphen behind a name is the first cut point if it is one and the name has none. -/
theorem isLeast_cutPoint_iff :
    IsLeast {i | IsCutPoint (name ++ '-' :: version) i} name.length ↔
      name ≠ [] ∧ startsVersion version ∧
        ∀ before after, name = before ++ '-' :: after → before ≠ [] → ¬ startsVersion after := by
  have first : name.length ∈ lowerBounds {i | IsCutPoint (name ++ '-' :: version) i} ↔
      ∀ before after, name = before ++ '-' :: after → before ≠ [] → ¬ startsVersion after := by
    constructor
    · rintro least before after rfl nonempty starts
      have shorter : before.length < (before ++ '-' :: after).length := by simp
      have cut : IsCutPoint (before ++ '-' :: after) before.length :=
        isCutPoint_length_iff.mpr ⟨nonempty, starts⟩
      have bound := least ((isCutPoint_append_iff shorter).mpr cut)
      omega
    · intro uncut i cut
      by_contra short
      have inside := (isCutPoint_append_iff (Nat.lt_of_not_le short)).mp cut
      obtain ⟨before, after, rfl, rfl⟩ := inside.exists_append
      obtain ⟨nonempty, starts⟩ := isCutPoint_length_iff.mp inside
      exact uncut before after rfl nonempty starts
  rw [IsLeast, first, Set.mem_ofPred_eq, isCutPoint_length_iff, and_assoc]

/-! ## Reading at the first cut point -/

/-- A single line is cut at its first cut point. -/
theorem splitChars?_eq_some_iff :
    splitChars? cs = some (name, version) ↔ '\n' ∉ cs ∧
      ∃ i, IsLeast {i | IsCutPoint cs i} i ∧ name = cs.take i ∧ version = cs.drop (i + 1) := by
  constructor
  · intro h
    obtain rfl := append_of_splitChars? h
    obtain ⟨named, line, starts, uncut⟩ := splitChars?_append_iff.mp h
    exact ⟨line, name.length, isLeast_cutPoint_iff.mpr ⟨named, starts, uncut⟩, by simp, by simp⟩
  · rintro ⟨line, i, least, rfl, rfl⟩
    obtain ⟨before, after, rfl, rfl⟩ := least.1.exists_append
    obtain ⟨named, starts, uncut⟩ := isLeast_cutPoint_iff.mp least
    have cut := splitChars?_append_iff.mpr ⟨named, line, starts, uncut⟩
    simpa using cut

theorem parse_eq_ok_iff :
    parse s = .ok v ↔ '\n' ∉ (Text.trim s).toList ∧
      ∃ i, IsLeast {i | IsCutPoint (Text.trim s).toList i} i ∧
        v.name.toList = (Text.trim s).toList.take i ∧
        v.version.toList = (Text.trim s).toList.drop (i + 1) := by
  rw [parse_eq_ok, read?_eq_some_iff, splitChars?_eq_some_iff, Text.trim, String.toList_ofList]

theorem exists_parse_iff :
    (∃ v, parse s = .ok v) ↔
      (∃ i, IsCutPoint (Text.trim s).toList i) ∧ '\n' ∉ (Text.trim s).toList := by
  constructor
  · rintro ⟨v, h⟩
    obtain ⟨line, i, least, -⟩ := parse_eq_ok_iff.mp h
    exact ⟨⟨i, least.1⟩, line⟩
  · rintro ⟨cuts, line⟩
    classical
    refine ⟨⟨String.ofList ((Text.trim s).toList.take (Nat.find cuts)),
      String.ofList ((Text.trim s).toList.drop (Nat.find cuts + 1))⟩, parse_eq_ok_iff.mpr ⟨line, ?_⟩⟩
    exact ⟨Nat.find cuts, Nat.isLeast_find cuts, String.toList_ofList, String.toList_ofList⟩

theorem parse_id (h : parse s = .ok v) : parse v.id = .ok v := by
  rw [parse_eq_ok] at h ⊢
  exact read?_id h

/-- A text can be read exactly if, without the blanks around it, it has a cut point and no line feed.
Its name is then what stands before the first cut point, name and version make up the text without
those blanks, and they are read of that again. So two texts that can be read are read alike exactly
if they are equal without the blanks around them. -/
theorem parse_canonical (s s' : String) :
    ((∃ v, parse s = .ok v) ↔
      (∃ i, IsCutPoint (Text.trim s).toList i) ∧ '\n' ∉ (Text.trim s).toList) ∧
    (∀ v, parse s = .ok v →
      (∃ i, IsLeast {i | IsCutPoint (Text.trim s).toList i} i ∧
        v.name = String.ofList ((Text.trim s).toList.take i)) ∧
      v.id = Text.trim s ∧ parse v.id = .ok v) ∧
    ∀ v v', parse s = .ok v → parse s' = .ok v' → (v = v' ↔ Text.trim s = Text.trim s') := by
  have id_of_parse {s : String} {v : VersionedName} (h : parse s = .ok v) : v.id = Text.trim s :=
    id_of_read? (parse_eq_ok.mp h)
  refine ⟨exists_parse_iff, fun v h => ?_, fun v v' h h' => ?_⟩
  · obtain ⟨-, i, least, before, -⟩ := parse_eq_ok_iff.mp h
    refine ⟨⟨i, least, ?_⟩, id_of_parse h, parse_id h⟩
    rw [← before, String.ofList_toList]
  · rw [← id_of_parse h, ← id_of_parse h']
    constructor
    · exact fun same => same ▸ rfl
    · exact eq_of_id (parse_eq_ok.mp h) (parse_eq_ok.mp h')

/-- A hyphen that is no cut point stands in front of the name and a cut point stands in the version,
whose digits are not all of one script. -/
def hyphenated : VersionedName := { name := "-1.0.0", version := "\u0663.1.0-2.0.0" }

/-- It is read of two texts that have blanks of different kinds at different ends. -/
theorem parse_canonical_hyphenated :
    parse " -1.0.0-\u0663.1.0-2.0.0\t" = .ok hyphenated ∧
      parse "-1.0.0-\u0663.1.0-2.0.0\u2003" = .ok hyphenated ∧
      (∃ i, IsLeast {i | IsCutPoint (Text.trim " -1.0.0-\u0663.1.0-2.0.0\t").toList i} i ∧
        "-1.0.0" = String.ofList ((Text.trim " -1.0.0-\u0663.1.0-2.0.0\t").toList.take i)) ∧
      hyphenated.id = Text.trim " -1.0.0-\u0663.1.0-2.0.0\t" ∧
      parse hyphenated.id = .ok hyphenated ∧
      Text.trim " -1.0.0-\u0663.1.0-2.0.0\t" = Text.trim "-1.0.0-\u0663.1.0-2.0.0\u2003" := by
  have padded : parse " -1.0.0-\u0663.1.0-2.0.0\t" = .ok hyphenated :=
    parse_eq_ok.mpr (by decide +kernel)
  have spaced : parse "-1.0.0-\u0663.1.0-2.0.0\u2003" = .ok hyphenated :=
    parse_eq_ok.mpr (by decide +kernel)
  obtain ⟨-, reads, alike⟩ := parse_canonical " -1.0.0-\u0663.1.0-2.0.0\t"
    "-1.0.0-\u0663.1.0-2.0.0\u2003"
  obtain ⟨first, whole, again⟩ := reads hyphenated padded
  exact ⟨padded, spaced, first, whole, again, (alike hyphenated hyphenated padded spaced).mp rfl⟩

end VersionedName

end Provisioning
