import Mathlib.Data.List.DropRight
import Mathlib.Data.List.TakeWhile
import Provisioning.Proofs.Application.Identifiers

/-!
# Telling the name from the version

The identifier of an application is its name and its version with a hyphen between them. It is cut
again at the first hyphen at which a version could start, so the name and the version are read of it
exactly if no such hyphen is in the name and nothing at the ends of the identifier is blank
(`Application.read?_id_iff`).
-/

namespace Provisioning

namespace Text

theorem trimChars_eq_self_iff {cs : List Char} :
    trimChars cs = cs ↔ (∀ c ∈ cs.head?, ¬ isBlank c) ∧ ∀ c ∈ cs.getLast?, ¬ isBlank c := by
  have leading : cs.dropWhile isBlank = cs ↔ ∀ c ∈ cs.head?, ¬ isBlank c := by
    cases cs with
    | nil => simp
    | cons c rest => simp [List.dropWhile_eq_self_iff]
  have trailing : cs.rdropWhile isBlank = cs ↔ ∀ c ∈ cs.getLast?, ¬ isBlank c := by
    rw [List.rdropWhile_eq_self_iff]
    constructor
    · intro h c hc
      obtain ⟨nonempty, rfl⟩ := List.mem_getLast?_eq_getLast hc
      exact h nonempty
    · exact fun h nonempty => h _ (List.getLast_mem_getLast? nonempty)
  rw [← leading, ← trailing, trimChars_eq]
  constructor
  · intro h
    have first : cs.dropWhile isBlank = cs := by
      have again := dropWhile_trimChars cs
      rwa [trimChars_eq, h] at again
    exact ⟨first, by rwa [first] at h⟩
  · rintro ⟨first, last⟩
    rw [first, last]

theorem trim_eq_self_iff {s : String} : trim s = s ↔ trimChars s.toList = s.toList := by
  rw [trim, ← String.toList_inj, String.toList_ofList]

/-- No digit is blank. -/
theorem not_isBlank_of_isDecimalDigit {c : Char} (h : isDecimalDigit c) : ¬ isBlank c := by
  have apart : ∀ digits ∈ decimalDigitRanges, ∀ blanks ∈ blankRanges,
      digits.2 < blanks.1 ∨ blanks.2 < digits.1 := by decide
  intro blank
  obtain ⟨digits, hd, inside⟩ := List.any_eq_true.mp h
  obtain ⟨blanks, hb, among⟩ := List.any_eq_true.mp blank
  simp only [Bool.and_eq_true, decide_eq_true_eq] at inside among
  have := apart digits hd blanks hb
  omega

end Text

namespace VersionedName

/-! ## Where a version could start -/

theorem isDecimalDigit_hyphen : Text.isDecimalDigit '-' = false := by decide

/-- A row of digits ends before a dot. -/
theorem afterDigits?_digits {c : Char} {digits rest : List Char} (first : Text.isDecimalDigit c)
    (others : ∀ d ∈ digits, Text.isDecimalDigit d) :
    afterDigits? (c :: (digits ++ '.' :: rest)) = some ('.' :: rest) := by
  have stops : ('.' :: rest).dropWhile Text.isDecimalDigit = '.' :: rest :=
    List.dropWhile_cons_of_neg (by decide)
  rw [afterDigits?, if_pos first, List.dropWhile_append_of_pos others, stops]

/-- A row of digits ends before a hyphen. -/
theorem afterDigits?_append (cs rest : List Char) :
    afterDigits? (cs ++ '-' :: rest) = (afterDigits? cs).map (· ++ '-' :: rest) := by
  cases cs with
  | nil => simp [afterDigits?, isDecimalDigit_hyphen]
  | cons c cs =>
    rw [List.cons_append, afterDigits?, afterDigits?]
    split
    · have stays : ('-' :: rest).dropWhile Text.isDecimalDigit = '-' :: rest :=
        List.dropWhile_cons_of_neg (by simp [isDecimalDigit_hyphen])
      rw [List.dropWhile_append, stays]
      split
      next all =>
        rw [List.isEmpty_iff.mp all]
        rfl
      · rfl
    · rfl

/-- Whether a version could start is decided before the next hyphen. -/
theorem startsVersion_append (cs rest : List Char) :
    startsVersion (cs ++ '-' :: rest) = startsVersion cs := by
  unfold startsVersion
  rw [afterDigits?_append]
  rcases afterDigits? cs with _ | _ | ⟨c, tail⟩
  · rfl
  · rfl
  · by_cases dot : c = '.'
    · subst dot
      simp only [Option.map_some, List.cons_append]
      rw [afterDigits?_append]
      rcases afterDigits? tail with _ | _ | ⟨d, _ | ⟨e, tail⟩⟩
      · rfl
      · rfl
      · by_cases dot : d = '.'
        · subst dot
          exact isDecimalDigit_hyphen
        · simp [dot]
      · by_cases dot : d = '.' <;> simp [dot]
    · simp [dot]

/-- A version starts with a digit. -/
theorem eq_cons_of_startsVersion {cs : List Char} (h : startsVersion cs) :
    ∃ c rest, cs = c :: rest ∧ Text.isDecimalDigit c := by
  cases cs with
  | nil => cases h
  | cons c rest =>
    refine ⟨c, rest, rfl, ?_⟩
    by_contra other
    simp [startsVersion, afterDigits?, other] at h

/-- Nothing at the ends of an identifier is blank if the name does not start with a blank and there
is none at the ends of the version. -/
theorem trimChars_append_iff {name version : List Char} (named : name ≠ [])
    (starts : startsVersion version) :
    Text.trimChars (name ++ '-' :: version) = name ++ '-' :: version ↔
      (∀ c ∈ name.head?, ¬ Text.isBlank c) ∧ Text.trimChars version = version := by
  obtain ⟨digit, rest, rfl, first⟩ := eq_cons_of_startsVersion starts
  have solid : ∀ c ∈ (digit :: rest).head?, ¬ Text.isBlank c := by
    simpa using Text.not_isBlank_of_isDecimalDigit first
  have last : (name ++ '-' :: digit :: rest).getLast? = (digit :: rest).getLast? := by
    rw [List.getLast?_append_cons, List.getLast?_cons_cons]
  rw [Text.trimChars_eq_self_iff, Text.trimChars_eq_self_iff, last,
    List.head?_append_of_ne_nil _ named]
  exact and_congr_right fun _ => (and_iff_right solid).symm

/-! ## Where an identifier is cut -/

/-- A text is cut at a hyphen if a version could start behind it and behind no hyphen before. -/
theorem cut?_append_iff {before after : List Char} :
    cut? (before ++ '-' :: after) = some (before, after) ↔
      startsVersion after ∧ ∀ name rest, before = name ++ '-' :: rest → ¬ startsVersion rest := by
  induction before with
  | nil =>
    rw [List.nil_append, cut?]
    by_cases starts : startsVersion after
    · simp [starts]
    · simp [starts]
  | cons c before ih =>
    have earlier : (∀ name rest, c :: before = name ++ '-' :: rest → ¬ startsVersion rest) ↔
        ¬ (c = '-' ∧ startsVersion before) ∧
          ∀ name rest, before = name ++ '-' :: rest → ¬ startsVersion rest := by
      constructor
      · intro h
        exact ⟨fun first => h [] before (congrArg (· :: before) first.1) first.2,
          fun name rest split => h (c :: name) rest (congrArg (c :: ·) split)⟩
      · rintro ⟨first, later⟩ name rest split
        cases name with
        | nil =>
          obtain ⟨rfl, rfl⟩ := List.cons.inj split
          exact fun starts => first ⟨rfl, starts⟩
        | cons d name => exact later name rest (List.cons.inj split).2
    rw [List.cons_append, cut?, startsVersion_append, earlier]
    by_cases here : c = '-' ∧ startsVersion before
    · simp [here]
    · rw [if_neg here, ← and_assoc, and_comm (a := startsVersion after = true), and_assoc, ← ih]
      simp [here]

theorem read?_eq_some_iff {s : String} {v : VersionedName} :
    read? s = some v ↔
      splitChars? (Text.trimChars s.toList) = some (v.name.toList, v.version.toList) := by
  obtain ⟨name, version⟩ := v
  rw [read?, Option.map_eq_some_iff]
  constructor
  · rintro ⟨⟨before, after⟩, hcut, h⟩
    obtain ⟨rfl, rfl⟩ := VersionedName.mk.inj h
    rw [String.toList_ofList, String.toList_ofList, hcut]
  · intro hcut
    refine ⟨_, hcut, ?_⟩
    simp only [String.ofList_toList]

/-- The name and the version are cut out of their identifier if it is a single line, the name is not
empty and a version starts behind the name and, its first character apart, behind no hyphen in it. -/
theorem splitChars?_append_iff {name version : List Char} :
    splitChars? (name ++ '-' :: version) = some (name, version) ↔
      name ≠ [] ∧ '\n' ∉ name ++ '-' :: version ∧ startsVersion version ∧
        ∀ before after, name = before ++ '-' :: after → before ≠ [] → ¬ startsVersion after := by
  cases name with
  | nil =>
    simp [splitChars?]
  | cons c name =>
    have later : (∀ before after, c :: name = before ++ '-' :: after → before ≠ [] →
          ¬ startsVersion after) ↔
        ∀ before after, name = before ++ '-' :: after → ¬ startsVersion after := by
      constructor
      · exact fun h before after split =>
          h (c :: before) after (congrArg (c :: ·) split) (List.cons_ne_nil _ _)
      · intro h before after split nonempty
        cases before with
        | nil => exact absurd rfl nonempty
        | cons d before => exact h before after (List.cons.inj split).2
    rw [List.cons_append, splitChars?, later, ← cut?_append_iff]
    by_cases line : '\n' ∈ c :: (name ++ '-' :: version)
    · simp [line]
    · simp [line]

end VersionedName

/-! ## Versions -/

namespace VersionGrammar

theorem number_eq_ok {part : VersionPart} {cs rest : List Char} {n : Nat}
    (h : number part cs = .ok (n, rest)) :
    ∃ c digits, c.isDigit ∧ (∀ d ∈ digits, d.isDigit) ∧ cs = c :: (digits ++ rest) := by
  unfold number at h
  split at h
  · split at h <;> cases h
  · cases h
  next digits nonempty _ =>
    split at h
    · obtain ⟨-, rfl⟩ := Prod.mk.inj (Except.ok.inj h)
      have digit : ∀ d ∈ cs.takeWhile Char.isDigit, d.isDigit := fun d hd => List.mem_takeWhile_imp hd
      have whole := List.takeWhile_append_dropWhile (p := Char.isDigit) (l := cs)
      cases hw : cs.takeWhile Char.isDigit with
      | nil => exact absurd hw nonempty
      | cons c digits =>
        rw [hw] at digit whole
        rw [List.forall_mem_cons] at digit
        exact ⟨c, digits, digit.1, digit.2, whole.symm⟩
    · cases h

theorem afterDigits?_of_number {part : VersionPart} {cs rest : List Char} {n : Nat}
    (h : number part cs = .ok (n, '.' :: rest)) :
    VersionedName.afterDigits? cs = some ('.' :: rest) := by
  obtain ⟨c, digits, first, others, rfl⟩ := number_eq_ok h
  exact VersionedName.afterDigits?_digits (Text.isDecimalDigit_of_isDigit first)
    fun d hd => Text.isDecimalDigit_of_isDigit (others d hd)

theorem dot_eq_ok {part : VersionPart} {cs rest : List Char} (h : dot part cs = .ok rest) :
    cs = '.' :: rest := by
  unfold dot at h
  split at h <;> cases h
  rfl

/-- What is read as a version is where a version could start. -/
theorem startsVersion_of_version {cs : List Char} {v : Version} (h : version cs = .ok v) :
    VersionedName.startsVersion cs := by
  rw [version] at h
  split at h
  · cases h
  · obtain ⟨⟨major, cs₁⟩, hmajor, h⟩ := Except.bind_eq_ok.mp h
    obtain ⟨cs₂, hdot, h⟩ := Except.bind_eq_ok.mp h
    obtain ⟨⟨minor, cs₃⟩, hminor, h⟩ := Except.bind_eq_ok.mp h
    obtain ⟨cs₄, hdot', h⟩ := Except.bind_eq_ok.mp h
    obtain ⟨⟨patch, cs₅⟩, hpatch, h⟩ := Except.bind_eq_ok.mp h
    obtain rfl := dot_eq_ok hdot
    obtain rfl := dot_eq_ok hdot'
    obtain ⟨c, digits, digit, -, rfl⟩ := number_eq_ok hpatch
    unfold VersionedName.startsVersion
    rw [afterDigits?_of_number hmajor]
    simp only
    rw [afterDigits?_of_number hminor]
    exact Text.isDecimalDigit_of_isDigit digit

end VersionGrammar

/-! ## Applications -/

namespace Application

/-- The identifier of the application lets its name be told from its version. -/
structure Separable (a : Application) : Prop where
  named : a.name.toList ≠ []
  leading : ∀ c ∈ a.name.toList.head?, ¬ Text.isBlank c
  trimmed : Text.trim a.version = a.version
  oneLine : '\n' ∉ a.id.toList
  /-- A version could start behind no hyphen of the name but its first character. -/
  uncut : ∀ before after, a.name.toList = before ++ '-' :: after → before ≠ [] →
    ¬ VersionedName.startsVersion after

theorem id_toList (a : Application) : a.id.toList = a.name.toList ++ '-' :: a.version.toList := by
  simp [id, VersionedName.id]

/-- The name and the version of an application are read of its identifier exactly if they can be
told apart in it. -/
theorem read?_id_iff {a : Application} {v : Version} (h : a.semver = .ok v) :
    VersionedName.read? a.id = some ⟨a.name, a.version⟩ ↔ a.Separable := by
  have written : VersionGrammar.version (Text.trimChars a.version.toList) = .ok v :=
    Except.mapError_eq_ok.mp h
  have starts (solid : Text.trimChars a.version.toList = a.version.toList) :
      VersionedName.startsVersion a.version.toList :=
    solid ▸ VersionGrammar.startsVersion_of_version written
  rw [VersionedName.read?_eq_some_iff, id_toList]
  constructor
  · intro reads
    have whole := VersionedName.append_of_splitChars? reads
    rw [← whole, VersionedName.splitChars?_append_iff] at reads
    obtain ⟨named, oneLine, starts, uncut⟩ := reads
    obtain ⟨leading, solid⟩ := (VersionedName.trimChars_append_iff named starts).mp whole.symm
    exact ⟨named, leading, Text.trim_eq_self_iff.mpr solid, id_toList a ▸ oneLine, uncut⟩
  · intro separable
    have solid := Text.trim_eq_self_iff.mp separable.trimmed
    rw [(VersionedName.trimChars_append_iff separable.named (starts solid)).mpr
      ⟨separable.leading, solid⟩, VersionedName.splitChars?_append_iff]
    exact ⟨separable.named, id_toList a ▸ separable.oneLine, starts solid, separable.uncut⟩

end Application

end Provisioning
