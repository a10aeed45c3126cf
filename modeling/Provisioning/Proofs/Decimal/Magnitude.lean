import Mathlib
import Provisioning.Decimal.Binary64

/-!
# Signs and magnitudes of floating point numbers

Crude facts about the arithmetic of 64 bits: what is made of numbers without a sign has none, and a
result lies below a power of two that follows from those above its operands. They suffice where a
number only has to be told from the negative ones and from infinity.
-/

namespace Provisioning.Magnitude

open Float.Model Float.Model.UnpackedFloat

/-- A number without a sign: none below zero, nor the zero that has one. -/
inductive Unsigned : UnpackedFloat → Prop where
  | infinity : Unsigned (.infinity .positive)
  | zero : Unsigned (.zero .positive)
  | finite {m : ℕ} {e : ℤ} {pos : 0 < m} : Unsigned (.finite .positive m e pos)
  | notANumber : Unsigned .notANumber

/-- A finite number whose magnitude is less than the power of two. -/
inductive Below (t : ℤ) : UnpackedFloat → Prop where
  | zero {s : Sign} : Below t (.zero s)
  | finite {s : Sign} {m : ℕ} {e : ℤ} {pos : 0 < m} (bound : totalExponent m e ≤ t) :
    Below t (.finite s m e pos)

theorem Below.mono {t t' : ℤ} {u : UnpackedFloat} (h : Below t u) (le : t ≤ t') : Below t' u := by
  cases h with
  | zero => exact .zero
  | finite bound => exact .finite (le_trans bound le)

/-! ## Rounding -/

theorem mantissa_shiftRight (em : ExtendedMantissa) (k : ℕ) :
    (em >>> k).mantissa = em.mantissa / 2 ^ k := by
  show (Nat.repeat _ k em).mantissa = _
  induction k with
  | zero => simp [Nat.repeat]
  | succ k ih =>
    rw [Nat.repeat, ExtendedMantissa.shiftRightOne, ih, Nat.div_div_eq_div_mul, pow_succ]

theorem mantissa_ofMantissaAndAccuracy (m : ℕ) (a : Accuracy) :
    (ExtendedMantissa.ofMantissaAndAccuracy m a).mantissa = m := by
  rcases a with _ | ⟨_ | _ | _⟩ <;> rfl

theorem roundedMantissa_le (em : ExtendedMantissa) : em.roundedMantissa ≤ em.mantissa + 1 := by
  unfold ExtendedMantissa.roundedMantissa Accuracy.roundToNearestEven
  split <;> omega

theorem left_ne_zero_of_div {m n : ℕ} (h : m / n ≠ 0) : m ≠ 0 := by
  rintro rfl
  simp at h

theorem log2_div_add_le {m k : ℕ} (h : m / 2 ^ k ≠ 0) : (m / 2 ^ k).log2 + k ≤ m.log2 := by
  rw [Nat.le_log2 (left_ne_zero_of_div h), pow_add]
  calc 2 ^ (m / 2 ^ k).log2 * 2 ^ k ≤ m / 2 ^ k * 2 ^ k :=
        Nat.mul_le_mul_right _ (Nat.log2_self_le h)
    _ ≤ m := Nat.div_mul_le_self m _

theorem log2_le_log2_succ {m n : ℕ} (h : n ≤ m + 1) : n.log2 ≤ m.log2 + 1 := by
  rcases eq_or_ne n 0 with rfl | hn
  · simp
  · have bound : m < 2 ^ (m.log2 + 1) := Nat.lt_log2_self
    have carried : n < 2 ^ (m.log2 + 2) := by
      rw [pow_succ]
      omega
    have := (Nat.log2_lt hn).2 carried
    omega

/-- Shifting right loses digits and does not raise the magnitude. -/
theorem totalExponent_shift_le {m k : ℕ} {e : ℤ} (h : m / 2 ^ k ≠ 0) :
    totalExponent (m / 2 ^ k) (e + k) ≤ totalExponent m e := by
  have := log2_div_add_le h
  unfold totalExponent
  omega

theorem totalExponent_shiftLeft {m k : ℕ} {e : ℤ} (h : m ≠ 0) :
    totalExponent (m <<< k) (e - k) = totalExponent m e := by
  have : (m <<< k).log2 = m.log2 + k := by
    rw [Nat.shiftLeft_eq, Nat.log2_eq_iff (by positivity), pow_succ, pow_add]
    have low := Nat.mul_le_mul_right (2 ^ k) (Nat.log2_self_le h)
    have high := Nat.mul_lt_mul_of_pos_right (Nat.lt_log2_self (n := m)) (Nat.two_pow_pos k)
    rw [pow_succ] at high
    constructor <;> linarith
  unfold totalExponent
  omega

theorem targetExponent_eq (t : ℤ) :
    Format.binary64.targetExponent t = max (t - 53) (-1074) := by
  rfl

/-- Rounding to 53 digits may carry into one digit more. -/
theorem below_roundWithAccuracy {s : Sign} {m : ℕ} {e t : ℤ} {a : Accuracy}
    (h : totalExponent m e < t) (low : -1073 ≤ t) :
    Below t (roundWithAccuracy Format.binary64 s m e a) := by
  unfold roundWithAccuracy shiftToTargetExponent shiftToExponent
  simp only [targetExponent_eq, mantissa_shiftRight, mantissa_ofMantissaAndAccuracy]
  split
  · exact .zero
  rename_i finite
  refine .finite (le_trans (totalExponent_shift_le finite) ?_)
  have nonzero := left_ne_zero_of_div finite
  revert nonzero
  generalize hk : (max (totalExponent m e - 53) (-1074) - e).toNat = k
  have carry := roundedMantissa_le (ExtendedMantissa.ofMantissaAndAccuracy m a >>> k)
  rw [mantissa_shiftRight, mantissa_ofMantissaAndAccuracy] at carry
  revert carry
  generalize (ExtendedMantissa.ofMantissaAndAccuracy m a >>> k).roundedMantissa = r
  intro carry nonzero
  unfold totalExponent at h hk ⊢
  by_cases lost : m / 2 ^ k = 0
  · -- All digits are shifted out, so that at most the smallest number is left.
    obtain rfl : r = 1 := by omega
    have one : Nat.log2 1 = 0 := rfl
    rcases eq_or_ne m 0 with rfl | hm
    · have zero : Nat.log2 0 = 0 := rfl
      omega
    · have small : m < 2 ^ k := (Nat.div_eq_zero_iff.1 lost).resolve_left (by positivity)
      have shifted := (Nat.log2_lt hm).2 small
      omega
  · have rounded := log2_le_log2_succ carry
    have shifted := log2_div_add_le lost
    omega

theorem unsigned_roundWithAccuracy {m : ℕ} {e : ℤ} {a : Accuracy} :
    Unsigned (roundWithAccuracy Format.binary64 .positive m e a) := by
  unfold roundWithAccuracy
  dsimp only
  split
  · exact .zero
  · exact .finite

theorem below_round {s : Sign} {m : ℕ} {e t : ℤ} (hm : m ≠ 0) (h : totalExponent m e < t)
    (low : -1073 ≤ t) : Below t (round Format.binary64 s m e) := by
  unfold UnpackedFloat.round decreaseExponent
  refine below_roundWithAccuracy ?_ low
  rwa [totalExponent_shiftLeft hm]

theorem unsigned_round {m : ℕ} {e : ℤ} : Unsigned (round Format.binary64 .positive m e) :=
  unsigned_roundWithAccuracy

theorem normalize_natCast (n : ℕ) (e : ℤ) :
    normalize Format.binary64 n e .positive
      = if n = 0 then .zero .positive else round Format.binary64 .positive n e := by
  unfold UnpackedFloat.normalize
  rcases eq_or_ne n 0 with rfl | hn
  · rfl
  · have positive : compare (n : ℤ) 0 = .gt := Int.compare_eq_gt.2 (by omega)
    simp [positive, hn]

theorem below_normalize {n : ℕ} {e t : ℤ} (h : n ≠ 0 → totalExponent n e < t)
    (low : -1073 ≤ t) : Below t (normalize Format.binary64 n e .positive) := by
  rw [normalize_natCast]
  split
  · exact .zero
  · rename_i hn
    exact below_round hn (h hn) low

theorem unsigned_normalize {n : ℕ} {e : ℤ} :
    Unsigned (normalize Format.binary64 n e .positive) := by
  rw [normalize_natCast]
  split
  · exact .zero
  · exact unsigned_round

/-! ## Operations -/

theorem log2_mul_le {m n : ℕ} (hm : m ≠ 0) (hn : n ≠ 0) :
    (m * n).log2 ≤ m.log2 + n.log2 + 1 := by
  have bound : m * n < 2 ^ (m.log2 + n.log2 + 2) := by
    calc m * n < 2 ^ (m.log2 + 1) * 2 ^ (n.log2 + 1) :=
          Nat.mul_lt_mul'' Nat.lt_log2_self Nat.lt_log2_self
      _ = 2 ^ (m.log2 + n.log2 + 2) := by ring
  have := (Nat.log2_lt (Nat.mul_ne_zero hm hn)).2 bound
  omega

theorem below_mul {u v : UnpackedFloat} {t t' : ℤ} (hu : Below t u) (hv : Below t' v)
    (low : -1074 ≤ t + t') : Below (t + t' + 1) (UnpackedFloat.mul Format.binary64 u v) := by
  cases hu with
  | zero => cases hv <;> exact .zero
  | @finite s m e pos first =>
    cases hv with
    | zero => exact .zero
    | @finite s' m' e' pos' second =>
      refine below_roundWithAccuracy ?_ (by omega)
      have product := log2_mul_le pos.ne' pos'.ne'
      unfold totalExponent at first second ⊢
      omega

theorem unsigned_mul {u v : UnpackedFloat} (hu : Unsigned u) (hv : Unsigned v) :
    Unsigned (UnpackedFloat.mul Format.binary64 u v) := by
  cases hu <;> cases hv
  case finite.finite => exact unsigned_roundWithAccuracy
  all_goals constructor

/-- A quotient by a number of which only the exponent counts. -/
theorem below_div {u : UnpackedFloat} {s : Sign} {m : ℕ} {e t : ℤ} {pos : 0 < m}
    (hu : Below t u) (low : -1074 ≤ t - e) :
    Below (t - e + 1) (UnpackedFloat.div Format.binary64 u (.finite s m e pos)) := by
  cases hu with
  | zero => exact .zero
  | @finite s' m' e' pos' bound =>
    refine below_roundWithAccuracy ?_ (by omega)
    generalize Format.binary64.targetExponent (totalExponent m' e' - totalExponent m e) = target
    generalize hk : (e' - e - min (e' - e) target).toNat = k
    have quotient : (m' <<< k / m).log2 ≤ m'.log2 + k := by
      have shifted := totalExponent_shiftLeft (k := k) (e := e') pos'.ne'
      have smaller := Nat.log_mono_right (b := 2) (Nat.div_le_self (m' <<< k) m)
      rw [← Nat.log2_eq_log_two, ← Nat.log2_eq_log_two] at smaller
      unfold totalExponent at shifted
      omega
    unfold totalExponent at bound ⊢
    omega

theorem unsigned_div {u v : UnpackedFloat} (hu : Unsigned u) (hv : Unsigned v) :
    Unsigned (UnpackedFloat.div Format.binary64 u v) := by
  cases hu <;> cases hv
  case finite.finite => exact unsigned_roundWithAccuracy
  all_goals constructor

/-- The magnitude of a number of which the significand is brought to a smaller exponent. -/
theorem decreaseExponent_lt {m : ℕ} {e e' t : ℤ} (pos : 0 < m) (le : e' ≤ e)
    (h : totalExponent m e ≤ t) : (decreaseExponent m e e').1 < 2 ^ (t - e').toNat := by
  unfold decreaseExponent
  have nonzero : m <<< (e - e').toNat ≠ 0 := by
    rw [Nat.shiftLeft_eq]
    positivity
  refine (Nat.log2_lt nonzero).1 ?_
  have shifted := totalExponent_shiftLeft (k := (e - e').toNat) (e := e) pos.ne'
  unfold totalExponent at h shifted
  omega

theorem below_add {u v : UnpackedFloat} {t : ℤ} (hu : Below t u) (hv : Below t v)
    (su : Unsigned u) (sv : Unsigned v) (low : -1074 ≤ t) :
    Below (t + 2) (UnpackedFloat.add Format.binary64 u v) := by
  cases hu with
  | zero =>
    cases su
    cases hv with
    | zero =>
      cases sv
      exact .zero
    | finite bound => exact .finite (by omega)
  | @finite s m e pos first =>
    cases su
    cases hv with
    | zero => exact .finite (by omega)
    | @finite s' m' e' pos' second =>
      cases sv
      have one := decreaseExponent_lt pos (min_le_left e e') first
      have other := decreaseExponent_lt pos' (min_le_right e e') second
      show Below (t + 2) (normalize Format.binary64
        ((decreaseExponent m e (min e e')).1 + (decreaseExponent m' e' (min e e')).1 : ℕ)
        (min e e') .positive)
      generalize (decreaseExponent m e (min e e')).1 = n at one ⊢
      generalize (decreaseExponent m' e' (min e e')).1 = n' at other ⊢
      refine below_normalize (fun nonzero => ?_) (by omega)
      have bound : n + n' < 2 ^ ((t - min e e').toNat + 1) := by
        rw [pow_succ]
        omega
      have sum := (Nat.log2_lt nonzero).2 bound
      unfold totalExponent at first ⊢
      omega

theorem unsigned_add {u v : UnpackedFloat} (hu : Unsigned u) (hv : Unsigned v) :
    Unsigned (UnpackedFloat.add Format.binary64 u v) := by
  cases hu <;> cases hv
  case finite.finite m e pos m' e' pos' =>
    exact unsigned_normalize
      (n := (decreaseExponent m e (min e e')).1 + (decreaseExponent m' e' (min e e')).1)
  all_goals constructor

/-- Comparing puts a number without a sign at or above zero. -/
theorem not_lt_zero {u : UnpackedFloat} (h : Unsigned u) :
    UnpackedFloat.lt u (.zero .positive) = false := by
  cases h <;> rfl

/-- What is not below a positive number has no sign. -/
theorem unsigned_of_not_lt {u : UnpackedFloat} {m : ℕ} {e : ℤ} {pos : 0 < m}
    (h : UnpackedFloat.lt u (.finite .positive m e pos) = false) : Unsigned u := by
  cases u with
  | notANumber => exact .notANumber
  | zero s => cases h
  | infinity s =>
    cases s with
    | positive => exact .infinity
    | negative => cases h
  | finite s m' e' pos' =>
    cases s with
    | positive => exact .finite
    | negative => cases h

/-! ## Packing -/

theorem unpackSign_packComponents {s : Sign} {e : BitVec 11} {m : BitVec 52} :
    unpackSign (packComponents Format.binary64 s e m) = s.toBitVec := by
  show (s.toBitVec ++ e ++ m).extractLsb' 63 1 = s.toBitVec
  rw [BitVec.extractLsb'_append_eq_of_le (by decide),
    BitVec.extractLsb'_append_eq_of_le (by decide)]
  cases s <;> rfl

theorem pack_of_unsigned {u : UnpackedFloat} (h : Unsigned u) :
    ∃ e m, UnpackedFloat.pack Format.binary64 u = packComponents Format.binary64 .positive e m := by
  cases h with
  | notANumber => exact ⟨_, _, rfl⟩
  | infinity => exact ⟨_, _, rfl⟩
  | zero => exact ⟨_, _, rfl⟩
  | finite =>
    unfold UnpackedFloat.pack
    dsimp only
    split
    · exact ⟨_, _, rfl⟩
    · split <;> exact ⟨_, _, rfl⟩

theorem unsigned_unpack {b : BitVec 64} (h : @unpackSign Format.binary64 b = 0#1) :
    Unsigned (UnpackedFloat.unpack Format.binary64 b) := by
  unfold UnpackedFloat.unpack
  rw [h]
  dsimp only
  split
  · split
    · exact .infinity
    · exact .notANumber
  · split
    · split
      · exact .zero
      · exact .finite
    · exact .finite

theorem unsigned_pack {u : UnpackedFloat} (h : Unsigned u) :
    Unsigned (Float.Model.pack u).unpack := by
  obtain ⟨e, m, packed⟩ := pack_of_unsigned h
  refine unsigned_unpack ?_
  show unpackSign (UnpackedFloat.pack Format.binary64 u) = 0#1
  rw [packed, unpackSign_packComponents]
  rfl

theorem implicit_bit (m : BitVec 52) : (1#1 ++ m).toNat = 2 ^ 52 + m.toNat := by
  rw [BitVec.toNat_append, ← Nat.shiftLeft_add_eq_or_of_lt m.isLt]
  rfl

/-- The numbers that bits stand for: 53 digits, or fewer with the smallest exponent. -/
theorem unpack_finite {b : BitVec 64} {s : Sign} {m : ℕ} {e : ℤ} {pos : 0 < m}
    (h : UnpackedFloat.unpack Format.binary64 b = .finite s m e pos) :
    m < 2 ^ 53 ∧ -1074 ≤ e ∧ (e = -1074 ∨ 2 ^ 52 ≤ m) := by
  unfold UnpackedFloat.unpack at h
  dsimp only at h
  have fraction := (@unpackMantissa Format.binary64 b).isLt
  split at h
  · split at h <;> cases h
  · split at h
    · rename_i zero
      split at h
      · cases h
      · cases h
        rw [zero]
        change _ < 2 ^ 52 at fraction
        have bias : ((0#11).toNat : ℤ) - (1023 + 52) + 1 = -1074 := by decide
        exact ⟨by omega, bias.ge, .inl bias⟩
    · rename_i nonzero
      cases h
      have positive : (@unpackExponent Format.binary64 b).toNat ≠ 0 :=
        fun none => nonzero (BitVec.eq_of_toNat_eq none)
      have leading := implicit_bit (@unpackMantissa Format.binary64 b)
      rw [leading]
      change _ < 2 ^ 52 at fraction
      refine ⟨by omega, ?_, .inr (by omega)⟩
      show -1074 ≤ ((@unpackExponent Format.binary64 b).toNat : ℤ) - (1023 + 52)
      omega

theorem below_unpack {b : BitVec 64} {t : ℤ}
    (finite : @unpackExponent Format.binary64 b ≠ -1#11)
    (h : ((@unpackExponent Format.binary64 b).toNat : ℤ) - 1022 ≤ t) :
    Below t (UnpackedFloat.unpack Format.binary64 b) := by
  generalize hu : UnpackedFloat.unpack Format.binary64 b = u
  have whole := hu
  unfold UnpackedFloat.unpack at hu
  dsimp only at hu
  rw [if_neg finite] at hu
  split at hu
  · rename_i zero
    split at hu
    · rw [← hu]
      exact .zero
    · rename_i fraction
      have bound := (@unpackMantissa Format.binary64 b).isLt
      change _ < 2 ^ 52 at bound
      have nonzero : (@unpackMantissa Format.binary64 b).toNat ≠ 0 :=
        fun none => fraction (BitVec.eq_of_toNat_eq none)
      rw [← hu, zero]
      have digits := (Nat.log2_lt nonzero).2 bound
      have none : ((@unpackExponent Format.binary64 b).toNat : ℤ) = 0 := by
        rw [zero]
        rfl
      refine .finite ?_
      show (Nat.log2 _ : ℤ) + 1 + (0 - (1023 + 52) + 1) ≤ t
      omega
  · cases u with
    | finite s m e pos =>
      obtain ⟨bound, -, -⟩ := unpack_finite whole
      have digits := (Nat.log2_lt pos.ne').2 bound
      injection hu with _ _ exponent
      change ((@unpackExponent Format.binary64 b).toNat : ℤ) - (1023 + 52) = e
        at exponent
      refine .finite ?_
      unfold totalExponent
      omega
    | zero s => cases hu
    | infinity s => cases hu
    | notANumber => cases hu

theorem below_pack {u : UnpackedFloat} {t : ℤ} (h : Below t u) (low : -1022 ≤ t)
    (high : t ≤ 900) : Below t (Float.Model.pack u).unpack := by
  have exponent : ∀ s (f : BitVec 11) (m : BitVec 52),
      unpackExponent (packComponents Format.binary64 s f m) = f := fun _ _ _ =>
    unpackExponent_packComponents
  have small : ∀ {s m}, UnpackedFloat.pack Format.binary64 u
      = packComponents Format.binary64 s 0#11 m → Below t (Float.Model.pack u).unpack := by
    intro s m packed
    refine below_unpack (b := UnpackedFloat.pack Format.binary64 u) ?_ ?_
    · rw [packed, exponent]
      decide
    · rw [packed, exponent]
      exact low
  cases h with
  | zero => exact small rfl
  | @finite s m e pos bound =>
    unfold totalExponent at bound
    have packed : UnpackedFloat.pack Format.binary64 (.finite s m e pos)
        = if 2048 ≤ (e + 1023 + 52).toNat + 1 then packedInfinity Format.binary64 s
          else if m.log2 + 1 = 53 then
            packComponents Format.binary64 s (BitVec.ofNat 11 (e + 1023 + 52).toNat)
              (BitVec.ofNat 52 m)
          else packComponents Format.binary64 s 0#11 (BitVec.ofNat 52 m) := rfl
    rw [if_neg (by omega)] at packed
    split at packed
    · have field : (BitVec.ofNat 11 (e + 1023 + 52).toNat).toNat = (e + 1023 + 52).toNat := by
        rw [BitVec.toNat_ofNat]
        exact Nat.mod_eq_of_lt (by omega)
      refine below_unpack (b := UnpackedFloat.pack Format.binary64 (.finite s m e pos)) ?_ ?_
      · rw [packed, exponent]
        intro all
        have := congrArg BitVec.toNat all
        rw [field] at this
        change _ = 2047 at this
        omega
      · rw [packed, exponent]
        change ((BitVec.ofNat 11 (e + 1023 + 52).toNat).toNat : ℤ) - 1022 ≤ t
        omega
    · exact small packed

/-! ## Numbers -/

/-- What is less than a number without a sign has a magnitude below the same power of two, if it
has no sign either. -/
theorem below_of_lt {x y : Float} {t : ℤ} (hx : Unsigned x.toModel.unpack)
    (hy : Below t y.toModel.unpack) (sy : Unsigned y.toModel.unpack) (low : -1021 ≤ t)
    (lt : x < y) : Below t x.toModel.unpack := by
  have less : UnpackedFloat.lt x.toModel.unpack y.toModel.unpack = true := of_decide_eq_true lt
  generalize hu : x.toModel.unpack = u at *
  generalize hv : y.toModel.unpack = v at *
  cases hy with
  | zero =>
    cases sy
    rw [not_lt_zero hx] at less
    cases less
  | @finite s' m' e' pos' bound =>
    cases sy
    cases hx with
    | zero => exact .zero
    | notANumber => cases less
    | infinity => cases less
    | @finite m e pos =>
      obtain ⟨digits, -, -⟩ := unpack_finite hu
      obtain ⟨-, -, normal⟩ := unpack_finite hv
      have short := (Nat.log2_lt pos.ne').2 digits
      have exponents : e ≤ e' := by
        by_contra above
        have order : compare e e' = .gt := Int.compare_eq_gt.2 (by omega)
        unfold UnpackedFloat.lt at less
        simp [UnpackedFloat.compare, order] at less
      refine .finite ?_
      unfold totalExponent at bound ⊢
      rcases normal with smallest | full
      · omega
      · have := (Nat.le_log2 pos'.ne').2 full
        omega

theorem toFloat_unpack (n : UInt64) : n.toFloat.toModel.unpack
    = (Float.Model.pack (normalize Format.binary64 n.toNat 0 .positive)).unpack := rfl

theorem one_unpack : (1 : Float).toModel.unpack
    = .finite .positive (2 ^ 52) (-52) (by decide) := rfl

theorem unsigned_float_mul {x y : Float} (hx : Unsigned x.toModel.unpack)
    (hy : Unsigned y.toModel.unpack) : Unsigned (x * y).toModel.unpack :=
  unsigned_pack (unsigned_mul hx hy)

/-- The two ways in which a whole number becomes a floating point one: through 64 bits, and
through a decimal number. -/
theorem ofNat_toModel (n : ℕ) :
    (n < 2 ^ 53 ∧ (Float.ofNat n).toModel = (n.toUInt64.toFloat * 1).toModel) ∨
    (Float.ofNat n).toModel
      = Float.Model.pack (UnpackedFloat.ofScientific Format.binary64 n 0) := by
  have form : Float.ofNat n = if n < 2 ^ 53 ∧ 0 ≤ 22 then n.toUInt64.toFloat * 1
      else .ofModel (Float.Model.ofScientific n 0) := by
    show Float.ofScientific n false 0 = _
    unfold Float.ofScientific
    split <;> rfl
  rw [form]
  split
  · rename_i small
    exact .inl ⟨small.1, rfl⟩
  · exact .inr rfl

theorem ofScientific_zero {n : ℕ} (hn : n ≠ 0) :
    UnpackedFloat.ofScientific Format.binary64 n 0
      = roundWithAccuracy Format.binary64 .positive (n <<< 53) (-53) .exact := by
  have width : (2 : ℤ) ^ Format.binary64.exponentBits = 2048 := rfl
  unfold UnpackedFloat.ofScientific
  rw [dif_neg hn, if_neg (by omega), if_neg (by omega), if_pos le_rfl]
  show roundWithAccuracy Format.binary64 .positive (n <<< 53 * 1) (-53) .exact = _
  rw [mul_one]

theorem unsigned_ofNat (n : ℕ) : Unsigned (Float.ofNat n).toModel.unpack := by
  rcases ofNat_toModel n with ⟨-, form⟩ | form
  · rw [form]
    refine unsigned_float_mul ?_ ?_
    · rw [toFloat_unpack]
      exact unsigned_pack unsigned_normalize
    · rw [one_unpack]
      exact .finite
  · rw [form]
    refine unsigned_pack ?_
    rcases eq_or_ne n 0 with rfl | hn
    · exact .zero
    · rw [ofScientific_zero hn]
      exact unsigned_roundWithAccuracy

theorem below_ofNat {n t : ℕ} (h : n < 2 ^ t) (high : t ≤ 800) :
    Below (t + 3) (Float.ofNat n).toModel.unpack := by
  have digits : n ≠ 0 → n.log2 < t := fun hn => (Nat.log2_lt hn).2 h
  rcases ofNat_toModel n with ⟨small, form⟩ | form
  · have same : n.toUInt64.toNat = n := Nat.mod_eq_of_lt (by omega)
    have converted : Below (t + 1) n.toUInt64.toFloat.toModel.unpack := by
      rw [toFloat_unpack, same]
      refine below_pack (below_normalize (fun hn => ?_) (by omega)) (by omega) (by omega)
      have := digits hn
      unfold totalExponent
      omega
    have one : Below 1 (1 : Float).toModel.unpack := by
      rw [one_unpack]
      refine .finite ?_
      unfold totalExponent
      rw [Nat.log2_two_pow]
      rfl
    rw [form]
    refine below_pack ((below_mul converted one ?_).mono ?_) ?_ ?_ <;> omega
  · rw [form]
    refine below_pack ?_ (by omega) (by omega)
    rcases eq_or_ne n 0 with rfl | hn
    · exact .zero
    · rw [ofScientific_zero hn]
      refine below_roundWithAccuracy ?_ (by omega)
      have shifted := totalExponent_shiftLeft (k := 53) (e := 0) hn
      have := digits hn
      unfold totalExponent at shifted ⊢
      omega

end Provisioning.Magnitude
