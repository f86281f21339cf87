import Mathlib
import Apollo.M68882.Round

/-!
# What every operation shares

From `src/core/cpu/m68882/ap_m68882_arith.c`: the special values, the rule for a NAN, and the result of
an overflow.
-/

namespace Apollo.M68882

open Apollo.Lib

/-- `ap_m68882_op_t`. -/
structure Op where
  value : Extended
  exceptions : BitVec 32 := 0
deriving DecidableEq

/-- `make_nan`. -/
def makeNan : Extended where
  sign := false
  exponent := maxExponent
  mantissa := integerBit ||| quietBit

/-- `make_infinity`. -/
def makeInfinity (sign : Bool) : Extended where
  sign := sign
  exponent := maxExponent
  mantissa := integerBit

/-- `make_zero`. -/
def makeZero (sign : Bool) : Extended where
  sign := sign
  exponent := 0
  mantissa := 0

/-- `operand_error`. -/
def operandError : Op where
  value := makeNan
  exceptions := excOperr

/-- `propagate_nan`: a NAN beats everything, is made quiet, and the first operand's is preferred. -/
def propagateNan (a b : Extended) : Option Op :=
  if classify a ≠ .nan ∧ classify b ≠ .nan then none
  else
    let value := if classify a = .nan then a else b
    some
      { value := { value with mantissa := value.mantissa ||| quietBit }
        exceptions := if isSignallingNan a || isSignallingNan b then excSnan else 0 }

/-- `ap_m68882_overflow_exponent`. -/
def overflowExponent : Precision → BitVec 16
  | .single => 16383 + 128
  | .double => 16383 + 1024
  | .extended => maxExponent
  | .reserved => maxExponent

/-- Whether an overflow runs away to an infinity, or stops at the largest number. -/
def overflowsToInfinity (sign : Bool) : Rounding → Bool
  | .nearest => true
  | .zero => false
  | .minusInfinity => sign
  | .plusInfinity => !sign

/-- `ap_m68882_overflow_result`. -/
def overflowResult (sign : Bool) (mode : Rounding) (precision : Precision) : Extended :=
  if overflowsToInfinity sign mode then makeInfinity sign
  else
    { sign := sign
      exponent := overflowExponent precision - 1
      mantissa :=
        if 64 ≤ precision.bits then BitVec.allOnes 64
        else BitVec.allOnes 64 <<< (64 - precision.bits) }

theorem propagateNan_eq_none {a b : Extended} (ha : classify a ≠ .nan) (hb : classify b ≠ .nan) :
    propagateNan a b = none :=
  if_pos ⟨ha, hb⟩

theorem value_of_mantissa_zero {a : Extended} (h : a.mantissa = 0) : a.value = 0 := by
  unfold Extended.value
  rw [(magnitude_eq_zero_iff a).mpr h, Nat.cast_zero, zero_div]
  cases a.sign
  · rfl
  · exact neg_zero

theorem value_of_magnitude {x : Extended} {k : ℕ} (h : x.magnitude = k * 2 ^ unitPlace) :
    x.value = signed x.sign (k : ℚ) := by
  have hpos : ((2 ^ unitPlace : ℕ) : ℚ) ≠ 0 := by exact_mod_cast (Nat.two_pow_pos unitPlace).ne'
  unfold Extended.value
  rw [h, Nat.cast_mul, mul_div_cancel_right₀ _ hpos]

theorem signed_inj {s : Bool} {x y : ℚ} : signed s x = signed s y ↔ x = y := by
  cases s
  · exact Iff.rfl
  · exact neg_inj

/-!
## Significands

A number is a significand of 64 bits and a power of two. `decompose` (from
`src/core/cpu/m68882/ap_m68882_arith.c`) finds the one with the top bit set, denormals included, and with
it the power of two that the number is next above.
-/

/-- `decompose`. -/
def decompose (v : Extended) : BitVec 64 × Int :=
  normalizeSignificand v.mantissa (v.exponent.toNat - biasExtended) 64

/-- The extended format holds this number. -/
def Representable (x : ℚ) : Prop := ∃ y : Extended, y.Finite ∧ y.value = x

theorem abs_signed (s : Bool) (x : ℚ) : |signed s x| = |x| := by
  cases s
  · rfl
  · exact abs_neg x

theorem signed_mul (s : Bool) (x y : ℚ) : signed s x * y = signed s (x * y) := by
  cases s
  · rfl
  · exact neg_mul x y

/-! ## Powers of two -/

theorem value_eq (a : Extended) :
    a.value = signed a.sign ((a.mantissa.toNat : ℚ) * 2 ^ ((a.exponent.toNat : ℤ) - unitPlace)) := by
  have hunit : ((2 ^ unitPlace : ℕ) : ℚ) = 2 ^ (unitPlace : ℤ) := by
    rw [Nat.cast_pow, zpow_natCast]
    rfl
  unfold Extended.value Extended.magnitude
  rw [hunit, Nat.cast_mul, mul_div_assoc, Nat.cast_pow, zpow_sub₀ two_ne_zero, zpow_natCast 2 (_ : ℕ)]
  rfl

/-- A number by its significand, counted in places 64 below the smallest number, where no exponent is
negative. -/
theorem decompose_spec {v : Extended} (h : v.mantissa ≠ 0) :
    ∃ p : ℕ, (decompose v).2 = (p : Int) - (biasExtended + 64) ∧ p ≤ v.exponent.toNat + 64 ∧
      v.magnitude * 2 ^ 64 = (decompose v).1.toNat * 2 ^ p ∧ 2 ^ 63 ≤ (decompose v).1.toNat := by
  obtain ⟨k, hle, hmantissa, hexponent, hset⟩ :=
    normalizeSignificand_spec (v.exponent.toNat - biasExtended) h
  refine ⟨v.exponent.toNat + 64 - k, ?_, Nat.sub_le _ _, ?_, ?_⟩
  · unfold decompose
    rw [hexponent]
    omega
  · have hplaces : v.exponent.toNat + 64 = k + (v.exponent.toNat + 64 - k) := by omega
    unfold decompose Extended.magnitude
    rw [hmantissa, mul_assoc, mul_assoc, ← pow_add, ← pow_add, ← hplaces]
  · unfold decompose
    rw [hmantissa]
    exact hset

theorem value_eq_decompose {a : Extended} (h : a.mantissa ≠ 0) :
    a.value = signed a.sign (((decompose a).1.toNat : ℚ) * 2 ^ ((decompose a).2 - 63)) ∧
      2 ^ 63 ≤ (decompose a).1.toNat := by
  obtain ⟨k, -, hmantissa, hexponent, hset⟩ :=
    normalizeSignificand_spec (a.exponent.toNat - biasExtended) h
  unfold decompose
  rw [hexponent, hmantissa, value_eq]
  refine ⟨congrArg _ ?_, hset⟩
  have hplaces : (a.exponent.toNat : ℤ) - unitPlace = k + (a.exponent.toNat - biasExtended - k - 63) := by
    rw [← unitPlace_eq]
    unfold biasExtended
    push_cast
    ring
  rw [hplaces, zpow_add₀ two_ne_zero, zpow_natCast, ← mul_assoc]
  push_cast
  rfl

theorem abs_value_bounds {a : Extended} (h : a.mantissa ≠ 0) :
    2 ^ (decompose a).2 ≤ |a.value| ∧ |a.value| < 2 ^ ((decompose a).2 + 1) := by
  obtain ⟨hvalue, hset⟩ := value_eq_decompose h
  have hpos : (0 : ℚ) < 2 ^ ((decompose a).2 - 63) := zpow_pos two_pos _
  have hlt := (decompose a).1.isLt
  have habs : |a.value| = ((decompose a).1.toNat : ℚ) * 2 ^ ((decompose a).2 - 63) := by
    rw [hvalue, abs_signed]
    exact abs_of_nonneg (mul_nonneg (Nat.cast_nonneg _) hpos.le)
  have hlow : (2 : ℚ) ^ (decompose a).2 = ((2 ^ 63 : ℕ) : ℚ) * 2 ^ ((decompose a).2 - 63) := by
    rw [Nat.cast_pow, ← zpow_natCast, Nat.cast_ofNat, ← zpow_add₀ two_ne_zero]
    congr 1
    ring
  have hhigh : (2 : ℚ) ^ ((decompose a).2 + 1) = ((2 ^ 64 : ℕ) : ℚ) * 2 ^ ((decompose a).2 - 63) := by
    rw [Nat.cast_pow, ← zpow_natCast, Nat.cast_ofNat, ← zpow_add₀ two_ne_zero]
    congr 1
    ring
  rw [habs, hlow, hhigh]
  exact ⟨mul_le_mul_of_nonneg_right (Nat.cast_le.mpr hset) hpos.le,
    mul_lt_mul_of_pos_right (Nat.cast_lt.mpr hlt) hpos⟩

theorem abs_value_lt_of_finite {a : Extended} (h : a.Finite) : |a.value| < 2 ^ (biasExtended + 1) := by
  have hpos : (0 : ℚ) < 2 ^ ((a.exponent.toNat : ℤ) - unitPlace) := zpow_pos two_pos _
  have hlt := a.mantissa.isLt
  have hplaces : 64 + ((a.exponent.toNat : ℤ) - unitPlace) ≤ biasExtended + 1 := by
    unfold Extended.Finite at h
    rw [← unitPlace_eq]
    unfold biasExtended
    push_cast
    omega
  rw [value_eq, abs_signed, abs_of_nonneg (mul_nonneg (Nat.cast_nonneg _) hpos.le)]
  calc (a.mantissa.toNat : ℚ) * 2 ^ ((a.exponent.toNat : ℤ) - unitPlace)
      < ((2 ^ 64 : ℕ) : ℚ) * 2 ^ ((a.exponent.toNat : ℤ) - unitPlace) :=
        mul_lt_mul_of_pos_right (Nat.cast_lt.mpr hlt) hpos
    _ = 2 ^ (64 + ((a.exponent.toNat : ℤ) - unitPlace)) := by
        rw [Nat.cast_pow, ← zpow_natCast, Nat.cast_ofNat, ← zpow_add₀ two_ne_zero]
        rfl
    _ ≤ 2 ^ (biasExtended + 1) := zpow_le_zpow_right₀ one_le_two hplaces

end Apollo.M68882
