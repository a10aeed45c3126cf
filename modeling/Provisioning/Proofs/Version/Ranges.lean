import Mathlib.Data.List.Forall2
import Mathlib.Data.List.TakeWhile
import Provisioning.Refusal
import Provisioning.Version.Range

/-!
# What the reading of a range keeps

An alternative of a range is brought into the form that comparators are read from: blanks around
words become commas between comparators, and an operator that stands apart is put in front of its
version. An operator that no version follows, because another operator comes next or because the
alternative ends, is left out. So nothing but blanks and commas is lost exactly if there is no such
operator (`VersionRange.read_keeps_iff`).
-/

namespace Provisioning

theorem Except.forall₂_of_mapM {ε α β : Type} {read : α → Except ε β} {as : List α} {bs : List β}
    (h : as.mapM read = .ok bs) : List.Forall₂ (fun a b => read a = .ok b) as bs := by
  induction as generalizing bs with
  | nil =>
    obtain rfl : [] = bs := by simpa [pure, Except.pure] using h
    exact .nil
  | cons a rest ih =>
    rw [List.mapM_cons] at h
    obtain ⟨b, hb, h⟩ := Except.bind_eq_ok.mp h
    obtain ⟨bs', later, h⟩ := Except.bind_eq_ok.mp h
    obtain rfl := Except.ok.inj h
    exact .cons hb (ih later)

namespace VersionRange

/-! ## Solid characters -/

/-- Whether the character is neither a blank nor a comma. -/
def isSolid (c : Char) : Bool := !Text.isBlank c && c ≠ ','

/-- The text without blanks and commas. -/
def solid (cs : List Char) : List Char := cs.filter isSolid

theorem solid_append (cs ds : List Char) : solid (cs ++ ds) = solid cs ++ solid ds :=
  List.filter_append _ _

theorem isSolid_of_operator {c : Char} (h : isOperatorChar c) : isSolid c := by
  simp only [isOperatorChar, List.mem_cons, List.not_mem_nil, or_false, decide_eq_true_eq] at h
  rcases h with rfl | rfl | rfl | rfl | rfl <;> decide

theorem wordsOf_blank {c : Char} (blank : Text.isBlank c) (cs : List Char) :
    Text.wordsOf (c :: cs) = Text.wordsOf cs := by
  simp [Text.wordsOf, blank]

/-- A character that is not blank is a word of its own or starts the first word of the rest. -/
theorem wordsOf_cons {c : Char} (solid : ¬ Text.isBlank c) (cs : List Char) :
    Text.wordsOf (c :: cs) = [c] :: Text.wordsOf cs ∨
      ∃ word words, Text.wordsOf cs = word :: words ∧
        Text.wordsOf (c :: cs) = (c :: word) :: words := by
  obtain ⟨read, same⟩ : ∃ read, Text.wordsOf (c :: cs) = read := ⟨_, rfl⟩
  rw [same]
  unfold Text.wordsOf at same
  rw [if_neg solid] at same
  subst same
  split
  next d rest word words found =>
    split
    · exact .inl (congrArg ([c] :: ·) found.symm)
    · exact .inr ⟨word, words, found, rfl⟩
  · exact .inl rfl

theorem wordsOf_flatten (cs : List Char) :
    (Text.wordsOf cs).flatten = cs.filter (!Text.isBlank ·) := by
  induction cs with
  | nil => rfl
  | cons c cs ih =>
    by_cases blank : Text.isBlank c
    · rw [wordsOf_blank blank, ih, List.filter_cons_of_neg (by simpa using blank)]
    · rw [List.filter_cons_of_pos (by simpa using blank), ← ih]
      rcases wordsOf_cons blank cs with alone | ⟨word, words, found, first⟩
      · rw [alone]
        rfl
      · rw [first, found]
        rfl

theorem wordsOf_ne_nil {cs word : List Char} (h : word ∈ Text.wordsOf cs) : word ≠ [] := by
  induction cs generalizing word with
  | nil => simp [Text.wordsOf] at h
  | cons c cs ih =>
    by_cases blank : Text.isBlank c
    · rw [wordsOf_blank blank] at h
      exact ih h
    · rcases wordsOf_cons blank cs with alone | ⟨first, words, found, longer⟩
      · rw [alone, List.mem_cons] at h
        rcases h with rfl | h
        · exact List.cons_ne_nil _ _
        · exact ih h
      · rw [longer, List.mem_cons] at h
        rcases h with rfl | h
        · exact List.cons_ne_nil _ _
        · exact ih (found ▸ List.mem_cons_of_mem _ h)

theorem solid_wordsOf (cs : List Char) : solid (Text.wordsOf cs).flatten = solid cs := by
  rw [wordsOf_flatten, solid, List.filter_filter]
  refine List.filter_congr fun c _ => ?_
  cases h : Text.isBlank c <;> simp [isSolid, h]

theorem solid_dropTrailingCommas (word : List Char) : solid (dropTrailingCommas word) = solid word := by
  have whole := List.takeWhile_append_dropWhile (p := (· = ',')) (l := word.reverse)
  have commas : solid (word.reverse.takeWhile (· = ',')) = [] := by
    refine List.filter_eq_nil_iff.mpr fun c hc => ?_
    have comma := List.mem_takeWhile_imp hc
    simp_all [isSolid]
  have reversed : solid word.reverse = solid (word.reverse.dropWhile (· = ',')) := by
    conv_lhs => rw [← whole, solid_append, commas, List.nil_append]
  rw [dropTrailingCommas, solid, List.filter_reverse]
  rw [solid, solid, List.filter_reverse] at reversed
  rw [← reversed, List.reverse_reverse, solid]

theorem solid_intercalate (words : List (List Char)) :
    solid ([',', ' '].intercalate words) = solid words.flatten := by
  induction words with
  | nil => rfl
  | cons word words ih =>
    cases words with
    | nil => simp
    | cons next words =>
      have separator : solid [',', ' '] = [] := by decide
      rw [List.intercalate_cons_cons, solid_append, solid_append, ih, separator, List.append_nil,
        ← solid_append]
      rfl

/-! ## Operators that no version follows -/

/-- Whether the word consists of operator characters. -/
abbrev IsOperator (word : List Char) : Prop := word.all isOperatorChar

/-- An operator that no version follows: it is the last word, or another operator comes next. -/
def Stranded (words : List (List Char)) (word : List Char) : Prop :=
  ∃ before after, words = before ++ word :: after ∧ IsOperator word ∧
    ∀ next ∈ after.head?, IsOperator next

/-- The words without such operators. -/
def applied : List (List Char) → List (List Char)
  | [] => []
  | word :: words =>
    if IsOperator word ∧ ∀ next ∈ words.head?, IsOperator next then applied words
    else word :: applied words

theorem stranded_cons {word found : List Char} {words : List (List Char)} :
    Stranded (word :: words) found ↔
      (found = word ∧ IsOperator word ∧ ∀ next ∈ words.head?, IsOperator next) ∨
        Stranded words found := by
  constructor
  · rintro ⟨before, after, split, op, ends⟩
    cases before with
    | nil =>
      obtain ⟨rfl, rfl⟩ := List.cons.inj split
      exact .inl ⟨rfl, op, ends⟩
    | cons first before =>
      obtain ⟨rfl, rfl⟩ := List.cons.inj split
      exact .inr ⟨before, after, rfl, op, ends⟩
  · rintro (⟨rfl, op, ends⟩ | ⟨before, after, rfl, op, ends⟩)
    · exact ⟨[], words, rfl, op, ends⟩
    · exact ⟨word :: before, after, rfl, op, ends⟩

/-- Words of which no operator is stranded stay as they are. -/
theorem applied_of_none_stranded {words : List (List Char)} (none : ∀ word, ¬ Stranded words word) :
    applied words = words := by
  induction words with
  | nil => rfl
  | cons word words ih =>
    have own : ¬ (IsOperator word ∧ ∀ next ∈ words.head?, IsOperator next) := fun h =>
      none word (stranded_cons.mpr (.inl ⟨rfl, h⟩))
    rw [applied, if_neg own, ih fun found h => none found (stranded_cons.mpr (.inr h))]

/-- Without stranded operators a text is not longer. -/
theorem solid_applied_length (words : List (List Char)) :
    (solid (applied words).flatten).length ≤ (solid words.flatten).length := by
  induction words with
  | nil => exact Nat.le_refl _
  | cons word words ih =>
    rw [applied, List.flatten_cons, solid_append, List.length_append]
    split
    · omega
    · rw [List.flatten_cons, solid_append, List.length_append]
      omega

/-- Without a stranded operator a text is shorter. -/
theorem solid_applied_lt {words : List (List Char)} {found : List Char}
    (nonempty : ∀ word ∈ words, word ≠ []) (stranded : Stranded words found) :
    (solid (applied words).flatten).length < (solid words.flatten).length := by
  induction words with
  | nil =>
    obtain ⟨before, after, split, -⟩ := stranded
    simp at split
  | cons word words ih =>
    have shorter := solid_applied_length words
    rw [applied, List.flatten_cons, solid_append, List.length_append]
    split
    next own =>
      have whole : solid word = word :=
        List.filter_eq_self.mpr fun c hc => isSolid_of_operator (List.all_eq_true.mp own.1 c hc)
      have := List.length_pos_iff.mpr (nonempty word List.mem_cons_self)
      rw [whole]
      omega
    next other =>
      have later := ih (fun w hw => nonempty w (List.mem_cons_of_mem _ hw))
        ((stranded_cons.mp stranded).resolve_left fun h => other h.2)
      rw [List.flatten_cons, solid_append, List.length_append]
      omega

/-! ## Comparators -/

/-- Comparators have the characters of the words that are applied, also of an operator in front. -/
theorem solid_comparatorsOf {pending : List Char} (op : IsOperator pending)
    (words : List (List Char)) :
    solid (comparatorsOf pending words).flatten = solid (applied (pending :: words)).flatten := by
  induction words generalizing pending with
  | nil =>
    rw [applied, if_pos ⟨op, fun _ h => nomatch h⟩]
    rfl
  | cons word words ih =>
    rw [comparatorsOf, applied]
    split
    next own => rw [ih own, if_pos ⟨op, by simpa using own⟩]
    next other =>
      have later : solid (comparatorsOf [] words).flatten = solid (applied words).flatten := by
        rw [ih rfl, applied]
        split <;> rfl
      rw [if_neg fun h => other (h.2 word rfl), applied, if_neg fun h => other h.1,
        List.flatten_cons, List.flatten_cons, List.flatten_cons, solid_append, solid_append,
        solid_append, solid_append, solid_dropTrailingCommas, later, List.append_assoc]

/-- What an alternative is brought into has the characters of the words that are applied. -/
theorem solid_normalize (alternative : List Char) :
    solid (normalize alternative) = solid (applied (Text.wordsOf alternative)).flatten := by
  rw [normalize, solid_intercalate, solid_comparatorsOf rfl, applied]
  split <;> rfl

/-- Nothing but blanks and commas is lost exactly if no operator is stranded. -/
theorem solid_normalize_iff {alternative : List Char} :
    solid (normalize alternative) = solid alternative ↔
      ∀ word, ¬ Stranded (Text.wordsOf alternative) word := by
  rw [solid_normalize, ← solid_wordsOf alternative]
  constructor
  · intro same word stranded
    have shorter := solid_applied_lt (fun _ h => wordsOf_ne_nil h) stranded
    rw [same] at shorter
    exact Nat.lt_irrefl _ shorter
  · intro none
    rw [applied_of_none_stranded none]

end VersionRange

/-! ## Requirements without comparators -/

namespace VersionGrammar

theorem mem_skipSpaces {c : Char} {cs : List Char} (h : c ∈ cs) : c = ' ' ∨ c ∈ skipSpaces cs := by
  rw [← List.takeWhile_append_dropWhile (p := (· = ' ')) (l := cs), List.mem_append] at h
  refine h.imp (fun spaces => ?_) id
  simpa using List.mem_takeWhile_imp spaces

theorem wildcard?_eq_some {cs rest : List Char} {c : Char} (h : wildcard? cs = some (c, rest)) :
    cs = c :: rest ∧ (c = '*' ∨ c = 'x' ∨ c = 'X') := by
  unfold wildcard? at h
  split at h <;> cases h <;> simp

theorem comparators_ne_nil (n : Nat) (cs : List Char) : comparators n cs ≠ .ok [] := by
  cases n with
  | zero => simp [comparators]
  | succ more =>
    rw [comparators]
    split
    · simp
    · simp
    · intro h
      obtain ⟨_, -, impossible⟩ := Except.map_eq_ok.mp h
      exact absurd impossible (List.cons_ne_nil _ _)
    · simp

/-- A requirement without comparators is written by a wildcard among spaces. -/
theorem requirement_nil {cs : List Char} (h : requirement cs = .ok []) {c : Char} (hc : c ∈ cs) :
    c = ' ' ∨ c = '*' ∨ c = 'x' ∨ c = 'X' := by
  simp only [requirement] at h
  split at h
  next wildcard rest found =>
    obtain ⟨split, wild⟩ := wildcard?_eq_some found
    split at h
    next ends =>
      rcases mem_skipSpaces hc with space | hc
      · exact .inl space
      · rw [split, List.mem_cons] at hc
        rcases hc with rfl | hc
        · exact .inr wild
        · exact .inl ((mem_skipSpaces hc).resolve_right (by simp [ends]))
    · simp at h
    · simp at h
  next => exact absurd h (comparators_ne_nil _ _)

end VersionGrammar

namespace VersionRange

/-- An alternative that is no restriction is read from a text without operators. -/
theorem readAlternative_nil {alternative : List Char} (h : readAlternative alternative = .ok [])
    {c : Char} (hc : c ∈ normalize alternative) : ¬ isOperatorChar c := by
  simp only [readAlternative] at h
  split at h
  next plain =>
    rcases plain with empty | latest
    · simp [empty] at hc
    · have letters : "latest".toList.all (!isOperatorChar ·) := by decide
      simpa using List.all_eq_true.mp letters c (latest ▸ hc)
  next =>
    rcases VersionGrammar.requirement_nil h hc with rfl | rfl | rfl | rfl <;> decide

/-- Operators alone are read as no restriction. -/
theorem readAlternative_operators {alternative : List Char}
    (operators : ∀ word ∈ Text.wordsOf alternative, IsOperator word) :
    readAlternative alternative = .ok [] := by
  have none (pending : List Char) (words : List (List Char)) (all : ∀ word ∈ words, IsOperator word) :
      comparatorsOf pending words = [] := by
    induction words generalizing pending with
    | nil => rfl
    | cons word words ih =>
      rw [List.forall_mem_cons] at all
      rw [comparatorsOf, if_pos all.1, ih word all.2]
  have empty : normalize alternative = [] := by
    rw [normalize, none [] _ operators]
    rfl
  rw [readAlternative, if_pos (.inl empty)]

/-- What an alternative of a range that is accepted has in common with its reading. -/
structure Keeps (alternative : List Char) (requirement : Requirement) : Prop where
  /-- It is read as the requirement. -/
  read : readAlternative alternative = .ok requirement
  /-- Of the words all are kept but the operators that no version follows. -/
  applied : solid (normalize alternative)
    = solid (VersionRange.applied (Text.wordsOf alternative)).flatten
  /-- Nothing but blanks and commas is lost exactly if there is no such operator. -/
  whole : solid (normalize alternative) = solid alternative ↔
    ∀ word, ¬ Stranded (Text.wordsOf alternative) word
  /-- If there is none, an operator is not turned into no restriction. -/
  restricts : (∀ word, ¬ Stranded (Text.wordsOf alternative) word) →
    (∃ c ∈ alternative, isOperatorChar c) → requirement ≠ []
  /-- If there is nothing else, the operators are turned into no restriction. -/
  unrestricted : (∀ word ∈ Text.wordsOf alternative, IsOperator word) → requirement = []

theorem keeps {alternative : List Char} {requirement : Requirement}
    (read : readAlternative alternative = .ok requirement) : Keeps alternative requirement where
  read := read
  applied := solid_normalize alternative
  whole := solid_normalize_iff
  restricts := by
    rintro none ⟨c, hc, op⟩ rfl
    have there : c ∈ solid (normalize alternative) := by
      rw [solid_normalize_iff.mpr none]
      exact List.mem_filter.mpr ⟨hc, isSolid_of_operator op⟩
    exact readAlternative_nil read (List.mem_of_mem_filter there) op
  unrestricted operators := Except.ok.inj (read.symm.trans (readAlternative_operators operators))

/-- The alternatives of a range that is accepted keep all characters but blanks and commas, unless an
operator has no version behind it. -/
theorem read_keeps_iff {s : String} {range : VersionRange} (accepted : read s = .ok range) :
    List.Forall₂ Keeps (Text.splitBars s.toList) range.alternatives := by
  obtain ⟨alternatives, each, rfl⟩ := Except.map_eq_ok.mp accepted
  exact (Except.forall₂_of_mapM each).imp fun _ _ => keeps

/-- A range with operators that stand apart from their versions, commas and a lone wildcard. -/
def detached : VersionRange :=
  { text := ">= 1.0.0, < 2.0.0,||*"
    alternatives :=
      [[{ op := .greaterEq, major := 1, minor := some 0, patch := some 0 },
        { op := .less, major := 2, minor := some 0, patch := some 0 }], []] }

/-- It is accepted, and of no alternative more than blanks and commas is lost. -/
theorem read_keeps_detached :
    read detached.text = .ok detached ∧
      List.Forall₂ Keeps (Text.splitBars detached.text.toList) detached.alternatives ∧
      ∀ alternative ∈ Text.splitBars detached.text.toList,
        solid (normalize alternative) = solid alternative := by
  have accepted : read detached.text = .ok detached := by decide +kernel
  exact ⟨accepted, read_keeps_iff accepted, by decide +kernel⟩

/-- An operator on its own is accepted and is no restriction, and of two operators with a blank between
them only the second one counts. -/
theorem read_stranded :
    read ">=" = .ok { text := ">=", alternatives := [[]] } ∧
      (∃ alternative ∈ Text.splitBars ">=".toList,
        solid (normalize alternative) ≠ solid alternative) ∧
      (read "> = 1.0.0").map (·.alternatives) = (read "= 1.0.0").map (·.alternatives) ∧
      solid (normalize "> = 1.0.0".toList) ≠ solid "> = 1.0.0".toList := by
  decide +kernel

end VersionRange

end Provisioning
