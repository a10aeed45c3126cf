import Provisioning.Config.Basic
import Provisioning.Proofs.Decimal.Magnitude
import Provisioning.Text.Number

/-!
# Delays that can be computed

The delay between two attempts has no sign and is at most the longest delay. So it can be computed
as long as delays do not shrink and the longest one is a number of milliseconds that has 64 bits, as
it is in every configuration. A longer one may be rounded up to more seconds than a delay can have.
-/

namespace Provisioning

open Float.Model Float.Model.UnpackedFloat Magnitude

/-! ## Fields -/

namespace Binary64

theorem exponentField_ofFloat (x : Float) : (ofFloat x).exponentField
    = (@unpackExponent Format.binary64 x.toBits.toBitVec).toNat := by
  show x.toBits.toNat >>> 52 &&& (2 ^ 11 - 1) = (x.toBits.toNat >>> 52) % 2 ^ 11
  exact Nat.and_two_pow_sub_one_eq_mod _ 11

theorem fractionField_ofFloat (x : Float) : (ofFloat x).fractionField
    = (@unpackMantissa Format.binary64 x.toBits.toBitVec).toNat := by
  show x.toBits.toNat &&& (2 ^ 52 - 1) = (x.toBits.toNat >>> 0) % 2 ^ 52
  exact Nat.and_two_pow_sub_one_eq_mod _ 52

theorem lt_pow_of_totalExponent_le {m : ℕ} {e t : ℤ} (h : totalExponent m e ≤ t) {k : ℕ}
    (scale : (k : ℤ) = e + 1074) : m * twoTo k < twoTo (t + 1074).toNat := by
  unfold totalExponent at h
  calc m * 2 ^ k < 2 ^ (m.log2 + 1) * 2 ^ k :=
        Nat.mul_lt_mul_of_pos_right Nat.lt_log2_self (Nat.two_pow_pos k)
    _ = 2 ^ (m.log2 + 1 + k) := (pow_add 2 _ _).symm
    _ ≤ 2 ^ (t + 1074).toNat := Nat.pow_le_pow_right (by decide) (by omega)

/-- A number below a power of two is finite, and its magnitude is bounded. -/
theorem units_lt_of_below {x : Float} {t : ℤ} (h : Below t x.toModel.unpack) :
    (ofFloat x).isFinite = true ∧ (ofFloat x).units < twoTo (t + 1074).toNat := by
  unfold isFinite units significand scale
  rw [bne_iff_ne, exponentField_ofFloat, fractionField_ofFloat]
  change Below t (UnpackedFloat.unpack Format.binary64 x.toBits.toBitVec) at h
  generalize x.toBits.toBitVec = b at h ⊢
  have fraction := (@unpackMantissa Format.binary64 b).isLt
  unfold UnpackedFloat.unpack at h
  dsimp only at h
  split at h
  · split at h <;> cases h
  · rename_i finite
    refine ⟨fun all => finite (BitVec.eq_of_toNat_eq all), ?_⟩
    split at h
    · rename_i zero
      rw [zero]
      split at h
      · rename_i none
        rw [none]
        exact Nat.two_pow_pos _
      · cases h with
        | finite bound =>
          refine lt_pow_of_totalExponent_le bound ?_
          rw [zero]
          rfl
    · rename_i nonzero
      have positive : (@unpackExponent Format.binary64 b).toNat ≠ 0 :=
        fun none => nonzero (BitVec.eq_of_toNat_eq none)
      rw [if_neg positive]
      have leading := implicit_bit (@unpackMantissa Format.binary64 b)
      cases h with
      | finite bound =>
        rw [leading] at bound
        refine lt_pow_of_totalExponent_le bound ?_
        show ((_ - 1 : ℕ) : ℤ)
          = (@unpackExponent Format.binary64 b).toNat - (1023 + 52) + 1074
        omega

end Binary64

/-! ## Delays -/

namespace Delay

/-- The longest time to wait. -/
def longest : Delay where
  nanoseconds := twoTo 64 * nanosPerSecond - 1
  bounded := by decide

theorem billion_unpack : (1000000000 : Float).toModel.unpack
    = .finite .positive 8388608000000000 (-23) (by decide) := rfl

theorem unsigned_billion : Unsigned (1000000000 : Float).toModel.unpack := by
  rw [billion_unpack]
  exact .finite

theorem unsigned_seconds (d : Delay) : Unsigned d.seconds.toModel.unpack :=
  unsigned_pack (unsigned_add (unsigned_ofNat _)
    (unsigned_pack (unsigned_div (unsigned_ofNat _) unsigned_billion)))

theorem below_seconds {d : Delay} (h : d.nanoseconds ≤ Text.maxUInt64 * 1000000) :
    Below 60 d.seconds.toModel.unpack := by
  have limit : Text.maxUInt64 = 2 ^ 64 - 1 := rfl
  have second : nanosPerSecond = 1000000000 := rfl
  have whole : Below 58 (Float.ofNat (d.nanoseconds / nanosPerSecond)).toModel.unpack :=
    below_ofNat (t := 55) (by rw [second]; omega) (by omega)
  have rest : Below 33 (Float.ofNat (d.nanoseconds % nanosPerSecond)).toModel.unpack :=
    below_ofNat (t := 30) (by rw [second]; omega) (by omega)
  have part : Below 58
      (Float.ofNat (d.nanoseconds % nanosPerSecond) / 1000000000).toModel.unpack := by
    show Below 58 (Float.Model.pack (UnpackedFloat.div Format.binary64
      (Float.ofNat (d.nanoseconds % nanosPerSecond)).toModel.unpack
      (1000000000 : Float).toModel.unpack)).unpack
    rw [billion_unpack]
    exact below_pack ((below_div rest (by omega)).mono (by omega)) (by omega) (by omega)
  exact below_pack (below_add whole part (unsigned_ofNat _)
    (unsigned_pack (unsigned_div (unsigned_ofNat _) unsigned_billion)) (by omega))
    (by omega) (by omega)

end Delay

namespace RetryConfig

theorem unsigned_powerFrom {result base : Float} {n : ℕ} (hr : Unsigned result.toModel.unpack)
    (hb : Unsigned base.toModel.unpack) : Unsigned (powerFrom result base n).toModel.unpack := by
  fun_induction powerFrom result base n with
  | case1 result base n next last =>
    show Unsigned (if n % 2 = 1 then result * base else result).toModel.unpack
    split
    · exact unsigned_float_mul hr hb
    · exact hr
  | case2 result base n next more ih =>
    refine ih ?_ (unsigned_float_mul hb hb)
    show Unsigned (if n % 2 = 1 then result * base else result).toModel.unpack
    split
    · exact unsigned_float_mul hr hb
    · exact hr

/-- A factor that does not shrink delays has no sign. -/
theorem unsigned_of_not_shrinking {x : Float} (h : ¬x < 1) : Unsigned x.toModel.unpack := by
  have above : UnpackedFloat.lt x.toModel.unpack (1 : Float).toModel.unpack = false :=
    Bool.eq_false_iff.2 fun less => h (decide_eq_true less)
  rw [one_unpack] at above
  exact unsigned_of_not_lt above

theorem twoTo_add (m n : ℕ) : twoTo (m + n) = twoTo m * twoTo n := pow_add 2 m n

theorem roundQuotient_le (n d : ℕ) : Decimal.roundQuotient n d ≤ n / d + 1 := by
  unfold Decimal.roundQuotient
  dsimp only
  split <;> omega

theorem nanoseconds?_isSome {x : Float} (hu : Unsigned x.toModel.unpack)
    (hb : Below 60 x.toModel.unpack) : (nanoseconds? x).isSome = true := by
  obtain ⟨finite, bound⟩ := Binary64.units_lt_of_below hb
  have above : ¬x < 0 := by
    intro less
    have none := not_lt_zero hu
    have some : UnpackedFloat.lt x.toModel.unpack (.zero .positive) = true :=
      of_decide_eq_true less
    rw [none] at some
    cases some
  have large : Decimal.roundQuotient ((Binary64.ofFloat x).units * nanosPerSecond) (twoTo 1074)
      / nanosPerSecond < twoTo 64 := by
    have second : nanosPerSecond = 1000000000 := rfl
    rw [second]
    have scaled : (Binary64.ofFloat x).units * 1000000000
        < twoTo 1074 * (twoTo 60 * 1000000000) := by
      have exponent : (60 + 1074 : ℤ).toNat = 1074 + 60 := rfl
      rw [exponent, twoTo_add] at bound
      rw [← mul_assoc]
      exact Nat.mul_lt_mul_of_pos_right bound (by decide)
    have quotient := Nat.div_lt_of_lt_mul scaled
    have rounded := roundQuotient_le ((Binary64.ofFloat x).units * 1000000000) (twoTo 1074)
    have most : twoTo 64 = 2 ^ 64 := rfl
    have few : twoTo 60 = 2 ^ 60 := rfl
    omega
  unfold nanoseconds?
  simp [finite, above, large]

theorem isNaN_of_below {x : Float} {t : ℤ} (h : Below t x.toModel.unpack) : x.isNaN = false := by
  show UnpackedFloat.isNaN x.toModel.unpack = false
  generalize x.toModel.unpack = u at h ⊢
  cases h <;> rfl

/-- A delay can be computed when delays do not shrink and the longest one is at most as long as a
number of milliseconds with 64 bits can say. -/
theorem delay?_isSome {config : RetryConfig} (growing : ¬config.factor.toFloat < 1)
    (limited : config.maxDelay.nanoseconds ≤ Text.maxUInt64 * 1000000) (attempt : ℕ) :
    (config.delay? attempt).isSome = true := by
  have limit := Delay.below_seconds limited
  have first : Unsigned (1 : Float).toModel.unpack := by
    rw [one_unpack]
    exact .finite
  have delay : Unsigned (config.baseDelay.seconds
      * powerFrom 1 config.factor.toFloat (min attempt maxExponent)).toModel.unpack :=
    unsigned_float_mul (Delay.unsigned_seconds _)
      (unsigned_powerFrom first (unsigned_of_not_shrinking growing))
  unfold delay?
  dsimp only
  generalize config.baseDelay.seconds * _ = x at delay ⊢
  unfold smaller
  split
  · exact nanoseconds?_isSome (Delay.unsigned_seconds _) limit
  · split
    · rename_i chosen
      have less : x < config.maxDelay.seconds := by
        rw [Bool.or_eq_true] at chosen
        rcases chosen with none | less
        · rw [isNaN_of_below limit] at none
          cases none
        · exact of_decide_eq_true less
      exact nanoseconds?_isSome delay
        (below_of_lt delay limit (Delay.unsigned_seconds _) (by omega) less)
    · exact nanoseconds?_isSome (Delay.unsigned_seconds _) limit

/-- The longest delay cannot be computed: its seconds are rounded up to a number with 65 bits. -/
theorem delay?_longest {config : RetryConfig} (base : config.baseDelay = .longest)
    (most : config.maxDelay = .longest) : config.delay? 0 = none := by
  unfold delay?
  rw [base, most, Nat.zero_min, powerFrom]
  show nanoseconds? (smaller (Delay.longest.seconds * 1) Delay.longest.seconds) = none
  decide +kernel

end RetryConfig

theorem Delay.ofMilliseconds_le (ms : UInt64) :
    (ofMilliseconds ms).nanoseconds ≤ Text.maxUInt64 * 1000000 :=
  Nat.mul_le_mul_right _ (Nat.le_of_lt_succ ms.toNat_lt)

/-- The delays of a configuration that passes its check can be computed. -/
theorem Config.check_delays {c : Config} (h : c.check = .ok ()) (attempt : ℕ) :
    (c.retry.config.delay? attempt).isSome = true := by
  refine RetryConfig.delay?_isSome ?_ (Delay.ofMilliseconds_le _) attempt
  intro shrinks
  change c.retry.factor.toFloat < 1 at shrinks
  unfold check at h
  rw [if_pos shrinks] at h
  split at h <;> cases h

end Provisioning
