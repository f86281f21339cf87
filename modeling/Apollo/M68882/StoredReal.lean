import Mathlib
import Apollo.M68882.StoreReal

/-!
# What a single or a double holds

The value stored is the exact one rounded once to a unit of the format, with gradual underflow below the
normal numbers and what the mode makes of an overflow above them. `HalfSmallest` is the one row of
numbers for which the stores do not round at all: above half of the smallest subnormal, and below it.
-/

namespace Apollo.M68882

open Apollo.Lib

namespace RealFormat

variable {f : RealFormat} {v : Extended} {mode : Rounding}

/-- The unit of the row that a number is in. -/
def unit (f : RealFormat) (x : ℚ) : ℚ := 2 ^ (max (Int.log 2 |x|) (1 - f.bias) - f.fractionBits)

/-- The number rounded once. -/
def nearby (f : RealFormat) (mode : Rounding) (x : ℚ) : ℚ := mode.toGrid (f.unit x) x

/-- What an overflow leaves: the infinity, or the largest number of the format. -/
def Overflowed (f : RealFormat) (mode : Rounding) (negative : Bool) (stored : Extended) : Prop :=
  if overflowsToInfinity negative mode then stored = makeInfinity negative
  else
    stored.Finite ∧
      stored.value =
        signed negative (((2 ^ (f.fractionBits + 1) - 1 : ℕ) : ℚ) * 2 ^ (f.bias - f.fractionBits))

/-- A value is stored as it should be, and its exceptions say how. -/
structure StoresRounded (f : RealFormat) (v : Extended) (mode : Rounding) (stored : Extended)
    (exceptions : BitVec 32) : Prop where
  inRange : |f.nearby mode v.value| < 2 ^ (f.bias + 1) →
    stored.Finite ∧ stored.sign = v.sign ∧ stored.value = f.nearby mode v.value
  outOfRange : 2 ^ (f.bias + 1) ≤ |f.nearby mode v.value| → f.Overflowed mode v.sign stored
  inexact : exceptions &&& excInex2 ≠ 0 ↔ ¬ (stored.Finite ∧ stored.value = v.value)
  underflow : exceptions &&& excUnfl ≠ 0 ↔ |v.value| < 2 ^ (1 - f.bias)
  overflow : exceptions &&& excOvfl ≠ 0 ↔ 2 ^ (f.bias + 1) ≤ |f.nearby mode v.value|

/-- The exponent that a value would have in the format. -/
def rebiased (f : RealFormat) (v : Extended) : ℤ := (decompose v).2 + f.bias

/-- To the nearest, and strictly between half of the smallest subnormal and all of it. -/
def HalfSmallest (f : RealFormat) (v : Extended) (mode : Rounding) : Prop :=
  mode = .nearest ∧ f.rebiased v = -f.fractionBits ∧ (decompose v).1 ≠ integerBit

instance (f : RealFormat) (v : Extended) (mode : Rounding) : Decidable (f.HalfSmallest v mode) :=
  inferInstanceAs (Decidable (_ ∧ _))

/-! ## The number in its units -/

theorem log_abs_value (h : v.mantissa ≠ 0) : Int.log 2 |v.value| = (decompose v).2 := by
  obtain ⟨hlow, hhigh⟩ := abs_value_bounds h
  have hpos : 0 < |v.value| := (zpow_pos two_pos _).trans_le hlow
  refine le_antisymm (Int.lt_add_one_iff.mp ?_) ?_
  · exact (Int.lt_zpow_iff_log_lt (by decide) hpos).mp (by exact_mod_cast hhigh)
  · exact (Int.zpow_le_iff_le_log (by decide) hpos).mp (by exact_mod_cast hlow)

theorem unit_eq (h : v.mantissa ≠ 0) :
    f.unit v.value = 2 ^ ((row (f.rebiased v) : ℤ) - f.bias - f.fractionBits) := by
  unfold unit
  rw [log_abs_value h]
  congr 1
  unfold row rebiased
  omega

theorem significand_eq (hf : f.Sound) (h : v.mantissa ≠ 0) :
    ((decompose v).1.toNat : ℚ) * 2 ^ ((decompose v).2 - 63) / f.unit v.value =
      ((decompose v).1.toNat : ℚ) / (2 ^ f.places (f.rebiased v) : ℕ) := by
  have hle := hf.fraction_le
  have hplaces : ((decompose v).2 - 63) - ((row (f.rebiased v) : ℤ) - f.bias - f.fractionBits) =
      -(f.places (f.rebiased v) : ℤ) := by
    unfold places row rebiased
    omega
  rw [unit_eq h, mul_div_assoc, ← zpow_sub₀ two_ne_zero, hplaces, zpow_neg, zpow_natCast, Nat.cast_pow,
    Nat.cast_ofNat, div_eq_mul_inv]

theorem nearby_eq (hf : f.Sound) (h : v.mantissa ≠ 0) (mode : Rounding) :
    f.nearby mode v.value =
      signed v.sign ((f.count v.sign (decompose v).1 (f.rebiased v) mode : ℚ) *
        2 ^ ((row (f.rebiased v) : ℤ) - f.bias - f.fractionBits)) := by
  have hround := mode.toGrid_signed v.sign (Nat.two_pow_pos _) (significand_eq hf h)
  rw [← (value_eq_decompose h).1] at hround
  unfold nearby
  rw [hround, unit_eq h, mul_comm]
  rfl

theorem nearby_eq_iff (hf : f.Sound) (h : v.mantissa ≠ 0) (mode : Rounding) :
    f.nearby mode v.value = v.value ↔
      2 ^ f.places (f.rebiased v) ∣ (decompose v).1.toNat := by
  have hunit : (0 : ℚ) < f.unit v.value := zpow_pos two_pos _
  have hsignificand := significand_eq hf h
  rw [div_eq_iff hunit.ne'] at hsignificand
  rw [nearby_eq hf h, (value_eq_decompose h).1, hsignificand, ← unit_eq h, signed_inj,
    mul_left_inj' hunit.ne']
  exact Direction.quotient_eq_iff _ (Nat.two_pow_pos _)

theorem small_iff (h : v.mantissa ≠ 0) : |v.value| < 2 ^ (1 - f.bias) ↔ f.rebiased v ≤ 0 := by
  obtain ⟨hlow, hhigh⟩ := abs_value_bounds h
  unfold rebiased
  constructor
  · intro hlt
    have hexponents := (zpow_lt_zpow_iff_right₀ (one_lt_two (α := ℚ))).mp (hlow.trans_lt hlt)
    omega
  · intro hle
    exact hhigh.trans_le (zpow_le_zpow_right₀ one_le_two (by omega))

/-! ## The exceptions -/

section Raised

variable {s : Bool} {mantissa : BitVec 64} {rebiased : ℤ}

theorem raised_inex2 :
    f.raised s mantissa rebiased mode &&& excInex2 ≠ 0 ↔
      ¬ 2 ^ f.places rebiased ∣ mantissa.toNat := by
  unfold raised
  split_ifs with h <;> simp only [h, not_true, not_false_iff, iff_true, iff_false] <;> decide

theorem raised_unfl : f.raised s mantissa rebiased mode &&& excUnfl ≠ 0 ↔ rebiased ≤ 0 := by
  unfold raised
  by_cases h : rebiased ≤ 0
  · rw [if_pos h]
    refine iff_of_true ?_ h
    split_ifs <;> decide
  · rw [if_neg h]
    refine iff_of_false ?_ h
    split_ifs <;> decide

theorem raised_ovfl :
    f.raised s mantissa rebiased mode &&& excOvfl ≠ 0 ↔
      f.maxField * 2 ^ f.fractionBits ≤
        (row rebiased - 1) * 2 ^ f.fractionBits + f.count s mantissa rebiased mode := by
  unfold raised
  by_cases h : f.maxField * 2 ^ f.fractionBits ≤
      (row rebiased - 1) * 2 ^ f.fractionBits + f.count s mantissa rebiased mode
  · rw [if_pos h]
    refine iff_of_true ?_ h
    split_ifs <;> decide
  · rw [if_neg h]
    refine iff_of_false ?_ h
    split_ifs <;> decide

end Raised

/-! ## A count that is stored -/

theorem count_le (hf : f.Sound) (v : Extended) (mode : Rounding) :
    f.count v.sign (decompose v).1 (f.rebiased v) mode ≤ 2 ^ (f.fractionBits + 1) := by
  have hle := hf.fraction_le
  refine Direction.quotient_le _ (Nat.two_pow_pos _) ?_
  have hpow : 2 ^ 64 ≤ 2 ^ (f.fractionBits + 1) * 2 ^ f.places (f.rebiased v) := by
    rw [← pow_add]
    refine Nat.pow_le_pow_right (by decide) ?_
    unfold places
    omega
  exact ((decompose v).1.isLt.le).trans hpow

theorem le_count (hf : f.Sound) (h : v.mantissa ≠ 0) (hlow : 1 ≤ f.rebiased v) (mode : Rounding) :
    2 ^ f.fractionBits ≤ f.count v.sign (decompose v).1 (f.rebiased v) mode := by
  have hle := hf.fraction_le
  refine Direction.le_quotient _ (Nat.two_pow_pos _) ?_
  have hpow : 2 ^ f.fractionBits * 2 ^ f.places (f.rebiased v) = 2 ^ 63 := by
    rw [← pow_add]
    congr 1
    unfold places
    omega
  rw [hpow]
  exact (value_eq_decompose h).2

theorem units_lt (hf : f.Sound) {row count : ℕ} (hrow : 1 ≤ row)
    (hcount : count ≤ 2 ^ (f.fractionBits + 1)) (hlow : row < f.maxField)
    (hfinite : (row - 1) * 2 ^ f.fractionBits + count < f.maxField * 2 ^ f.fractionBits) :
    (count : ℚ) * 2 ^ ((row : ℤ) - f.bias - f.fractionBits) < 2 ^ (f.bias + 1) := by
  have hmax := hf.maxField_eq
  have hunit : (0 : ℚ) < 2 ^ ((row : ℤ) - f.bias - f.fractionBits) := zpow_pos two_pos _
  have hrowEnd : ((2 ^ (f.fractionBits + 1) : ℕ) : ℚ) * 2 ^ ((row : ℤ) - f.bias - f.fractionBits) =
      2 ^ ((row : ℤ) + 1 - f.bias) := by
    rw [Nat.cast_pow, Nat.cast_ofNat, ← zpow_natCast, ← zpow_add₀ two_ne_zero]
    congr 1
    push_cast
    ring
  rcases hcount.lt_or_eq with hlt | rfl
  · calc (count : ℚ) * 2 ^ ((row : ℤ) - f.bias - f.fractionBits)
        < ((2 ^ (f.fractionBits + 1) : ℕ) : ℚ) * 2 ^ ((row : ℤ) - f.bias - f.fractionBits) :=
          mul_lt_mul_of_pos_right (Nat.cast_lt.mpr hlt) hunit
      _ = 2 ^ ((row : ℤ) + 1 - f.bias) := hrowEnd
      _ ≤ 2 ^ (f.bias + 1) := zpow_le_zpow_right₀ one_le_two (by omega)
  · have hless : row + 1 < f.maxField := by
      refine Nat.lt_of_mul_lt_mul_right (a := 2 ^ f.fractionBits) (lt_of_eq_of_lt ?_ hfinite)
      obtain ⟨r, rfl⟩ : ∃ r, row = r + 1 := ⟨row - 1, by omega⟩
      rw [pow_succ, Nat.add_sub_cancel]
      ring
    rw [hrowEnd]
    exact zpow_lt_zpow_right₀ one_lt_two (by omega)

/-- A rounding that carries beyond the last row has gone up, and so the mode lets an overflow run to the
infinity. -/
theorem carries_up (hf : f.Sound) (hlow : 1 ≤ f.rebiased v)
    (hfull : f.count v.sign (decompose v).1 (f.rebiased v) mode = 2 ^ (f.fractionBits + 1)) :
    overflowsToInfinity v.sign mode = true ∧
      ¬ 2 ^ f.places (f.rebiased v) ∣ (decompose v).1.toNat := by
  have hle := hf.fraction_le
  have hbelow : (decompose v).1.toNat / 2 ^ f.places (f.rebiased v) < 2 ^ (f.fractionBits + 1) := by
    refine (Nat.div_lt_iff_lt_mul (Nat.two_pow_pos _)).mpr ((decompose v).1.isLt.trans_le ?_)
    rw [← pow_add]
    refine Nat.pow_le_pow_right (by decide) ?_
    unfold places
    omega
  unfold count at hfull
  constructor
  · by_contra hdown
    have hdirection : mode.direction v.sign = .down := by
      cases mode <;> cases hs : v.sign <;> rw [hs] at hdown <;> first | rfl | exact absurd rfl hdown
    rw [hdirection] at hfull
    exact absurd hfull hbelow.ne
  · intro hdvd
    rw [Direction.quotient_of_dvd _ (Nat.two_pow_pos _) hdvd] at hfull
    exact absurd hfull hbelow.ne

/-- A VALUE IS STORED RIGHT when the pattern is its count of units, and the exceptions are those of the
rounding. -/
theorem storesRounded_of_count (hf : f.Sound) (h : v.mantissa ≠ 0) {bits : BitVec 64}
    {exceptions : BitVec 32} (hhigh : f.rebiased v < f.maxField)
    (hbits : bits.toNat = f.pattern v.sign (row (f.rebiased v) - 1)
      (f.count v.sign (decompose v).1 (f.rebiased v) mode))
    (hinex2 : exceptions &&& excInex2 ≠ 0 ↔ ¬ 2 ^ f.places (f.rebiased v) ∣ (decompose v).1.toNat)
    (hunfl : exceptions &&& excUnfl ≠ 0 ↔ f.rebiased v ≤ 0)
    (hovfl : exceptions &&& excOvfl ≠ 0 ↔ f.maxField * 2 ^ f.fractionBits ≤
      (row (f.rebiased v) - 1) * 2 ^ f.fractionBits +
        f.count v.sign (decompose v).1 (f.rebiased v) mode) :
    f.StoresRounded v mode (f.decode bits) exceptions := by
  have hmax := hf.maxField_eq
  have hbias := hf.bias_pos
  have hcount := count_le hf v mode
  have hrow : 1 ≤ row (f.rebiased v) := by
    unfold row
    omega
  have hrowLt : row (f.rebiased v) < f.maxField := by
    unfold row
    omega
  have hnearby := nearby_eq hf h mode
  have habs : |f.nearby mode v.value| = (f.count v.sign (decompose v).1 (f.rebiased v) mode : ℚ) *
      2 ^ ((row (f.rebiased v) : ℤ) - f.bias - f.fractionBits) := by
    rw [hnearby, abs_signed]
    exact abs_of_nonneg (mul_nonneg (Nat.cast_nonneg _) (zpow_pos two_pos _).le)
  have hnormal : row (f.rebiased v) ≠ 1 →
      2 ^ f.fractionBits ≤ f.count v.sign (decompose v).1 (f.rebiased v) mode := by
    intro hne
    refine le_count hf h ?_ mode
    unfold row at hne
    omega
  by_cases hfinite : (row (f.rebiased v) - 1) * 2 ^ f.fractionBits +
      f.count v.sign (decompose v).1 (f.rebiased v) mode < f.maxField * 2 ^ f.fractionBits
  · obtain ⟨hfin, hsign, hvalue⟩ := value_decode hf _ _ hbits hrow hcount hnormal hfinite
    have hlt : |f.nearby mode v.value| < 2 ^ (f.bias + 1) := by
      rw [habs]
      exact units_lt hf hrow hcount hrowLt hfinite
    rw [← hnearby] at hvalue
    refine ⟨fun _ => ⟨hfin, hsign, hvalue⟩, fun hle => absurd hlt hle.not_gt, ?_, ?_, ?_⟩
    · rw [hinex2, hvalue, ← nearby_eq_iff hf h mode]
      exact not_congr ⟨fun heq => ⟨hfin, heq⟩, fun hboth => hboth.2⟩
    · rw [hunfl, small_iff h]
    · rw [hovfl]
      exact iff_of_false (not_le.mpr hfinite) hlt.not_ge
  · have hlast : row (f.rebiased v) + 1 = f.maxField ∧
        f.count v.sign (decompose v).1 (f.rebiased v) mode = 2 ^ (f.fractionBits + 1) := by
      have hp := Nat.two_pow_pos f.fractionBits
      have hmul : (row (f.rebiased v) + 1) * 2 ^ f.fractionBits ≤ f.maxField * 2 ^ f.fractionBits :=
        Nat.mul_le_mul_right _ hrowLt
      have hsplit : (row (f.rebiased v) + 1) * 2 ^ f.fractionBits =
          (row (f.rebiased v) - 1) * 2 ^ f.fractionBits + 2 * 2 ^ f.fractionBits := by
        rw [← add_mul]
        congr 1
        omega
      rw [pow_succ] at hcount ⊢
      refine ⟨Nat.eq_of_mul_eq_mul_right hp ?_, ?_⟩ <;> omega
    obtain ⟨hlastRow, hfull⟩ := hlast
    have hlow : 1 ≤ f.rebiased v := by
      unfold row at hlastRow
      omega
    obtain ⟨hinfinity, hinexact⟩ := carries_up hf hlow hfull
    have hdecode : f.decode bits = makeInfinity v.sign := by
      refine decode_infinity (hbits.trans (pattern_congr v.sign ?_))
      rw [hfull, ← hlastRow, pow_succ]
      obtain ⟨r, hr⟩ : ∃ r, row (f.rebiased v) = r + 1 := ⟨row (f.rebiased v) - 1, by omega⟩
      rw [hr, Nat.add_sub_cancel]
      ring
    have hge : 2 ^ (f.bias + 1) ≤ |f.nearby mode v.value| := by
      rw [habs, hfull, Nat.cast_pow, Nat.cast_ofNat, ← zpow_natCast, ← zpow_add₀ two_ne_zero]
      refine zpow_le_zpow_right₀ one_le_two ?_
      push_cast
      omega
    have hnotFinite : ¬ (makeInfinity v.sign).Finite :=
      fun hfin => absurd hfin (show ¬ 0x7FFF < 0x7FFF by decide)
    rw [hdecode]
    refine ⟨fun hlt => absurd hge hlt.not_ge, fun _ => ?_, ?_, ?_, ?_⟩
    · unfold Overflowed
      rw [if_pos hinfinity]
    · rw [hinex2]
      exact iff_of_true hinexact fun hboth => hnotFinite hboth.1
    · rw [hunfl, small_iff h]
    · rw [hovfl]
      exact iff_of_true (not_lt.mp hfinite) hge

/-! ## An overflow -/

theorem classify_makeInfinity (s : Bool) : classify (makeInfinity s) = .infinity := by
  cases s <;> decide

theorem storeOverflow_eq (hf : f.Sound) (s : Bool) (mode : Rounding) :
    (f.storeOverflow s mode).2 = excOvfl ||| excInex2 ∧
      (f.storeOverflow s mode).1.toNat =
        if overflowsToInfinity s mode then f.pattern s f.maxField 0
        else f.pattern s (f.maxField - 2) (2 ^ (f.fractionBits + 1) - 1) := by
  have hle := hf.fraction_le
  have hmax := hf.maxField_eq
  have hbias := hf.bias_pos
  have hp := Nat.two_pow_pos f.fractionBits
  refine ⟨rfl, ?_⟩
  unfold storeOverflow overflowResult
  dsimp only
  by_cases hinfinity : overflowsToInfinity s mode = true
  · rw [if_pos hinfinity, if_pos (classify_makeInfinity s), if_pos hinfinity]
    exact toNat_assemble hf s le_rfl 0 hp
  · have hexponent : ∀ m, classify ⟨s, overflowExponent f.precision - 1, m⟩ ≠ .infinity := by
      intro m
      refine (classify_finite_ne ?_).2
      unfold Extended.Finite precision
      dsimp only
      split_ifs <;> decide
    have hmantissa : (BitVec.allOnes 64 <<< (64 - f.precision.bits)).toNat =
        (2 ^ f.fractionBits + (2 ^ f.fractionBits - 1)) * 2 ^ (63 - f.fractionBits) := by
      have hplaces : 64 - f.precision.bits = 63 - f.fractionBits := by
        rw [hf.precision_bits]
        omega
      have hpow : 2 ^ 64 = 2 ^ (f.fractionBits + 1) * 2 ^ (63 - f.fractionBits) := by
        rw [← pow_add]
        congr 1
        omega
      have hlast := Nat.two_pow_pos (63 - f.fractionBits)
      have hall : ∀ m, 0 < m → (m * 2 ^ (63 - f.fractionBits) - 1) * 2 ^ (63 - f.fractionBits) %
          (m * 2 ^ (63 - f.fractionBits)) = (m - 1) * 2 ^ (63 - f.fractionBits) := by
        intro m hm
        rw [Nat.mul_mod_mul_right]
        congr 1
        obtain ⟨n, rfl⟩ : ∃ n, m = n + 1 := ⟨m - 1, by omega⟩
        have hsplit : (n + 1) * 2 ^ (63 - f.fractionBits) - 1 =
            n + (2 ^ (63 - f.fractionBits) - 1) * (n + 1) := by
          rw [Nat.sub_mul, one_mul, mul_comm]
          have hmul : n + 1 ≤ 2 ^ (63 - f.fractionBits) * (n + 1) := Nat.le_mul_of_pos_left _ hlast
          omega
        rw [hsplit, Nat.add_mul_mod_self_right, Nat.mod_eq_of_lt (Nat.lt_succ_self n)]
        rfl
      have hones : 2 ^ f.fractionBits + (2 ^ f.fractionBits - 1) = 2 ^ (f.fractionBits + 1) - 1 := by
        rw [pow_succ]
        omega
      rw [hplaces, BitVec.toNat_shiftLeft, BitVec.toNat_allOnes, Nat.shiftLeft_eq, hpow, hones]
      exact hall _ (Nat.two_pow_pos _)
    have hbits : ¬ 64 ≤ f.precision.bits := by
      rw [hf.precision_bits]
      omega
    have hfull := toNat_assemble_full (s := s) (e := f.maxField - 2) hf (by omega) hmantissa
      (Nat.sub_lt hp Nat.one_pos)
    have hones : 2 ^ f.fractionBits + (2 ^ f.fractionBits - 1) = 2 ^ (f.fractionBits + 1) - 1 := by
      rw [pow_succ]
      omega
    have hfield : f.maxField - 2 + 1 = f.maxField - 1 := by omega
    rw [hfield, hones] at hfull
    rw [if_neg hinfinity, if_neg (hexponent _), if_neg hbits, if_neg hinfinity]
    exact hfull

theorem storesRounded_overflow (hf : f.Sound) (h : v.mantissa ≠ 0) (hhigh : f.maxField ≤ f.rebiased v) :
    f.StoresRounded v mode (f.decode (f.storeOverflow v.sign mode).1) (f.storeOverflow v.sign mode).2 := by
  have hmax := hf.maxField_eq
  have hbias := hf.bias_pos
  obtain ⟨hexceptions, hbits⟩ := storeOverflow_eq hf v.sign mode
  have hlarge : (2 : ℚ) ^ (f.bias + 1) ≤ |v.value| := by
    refine (zpow_le_zpow_right₀ one_le_two ?_).trans (abs_value_bounds h).1
    unfold rebiased at hhigh
    omega
  have hrow : (row (f.rebiased v) : ℤ) = f.rebiased v := by
    unfold row
    omega
  have hge : 2 ^ (f.bias + 1) ≤ |f.nearby mode v.value| := by
    have hcount : ((2 ^ f.fractionBits : ℕ) : ℚ) ≤ f.count v.sign (decompose v).1 (f.rebiased v) mode :=
      Nat.cast_le.mpr (le_count hf h (by omega) mode)
    have hunit : (0 : ℚ) < 2 ^ ((row (f.rebiased v) : ℤ) - f.bias - f.fractionBits) :=
      zpow_pos two_pos _
    rw [nearby_eq hf h, abs_signed, abs_of_nonneg (mul_nonneg (Nat.cast_nonneg _) hunit.le)]
    refine le_trans ?_ (mul_le_mul_of_nonneg_right hcount hunit.le)
    rw [Nat.cast_pow, Nat.cast_ofNat, ← zpow_natCast, ← zpow_add₀ two_ne_zero, hrow]
    exact zpow_le_zpow_right₀ one_le_two (by omega)
  have hstored : f.Overflowed mode v.sign (f.decode (f.storeOverflow v.sign mode).1) ∧
      ¬ ((f.decode (f.storeOverflow v.sign mode).1).Finite ∧
        (f.decode (f.storeOverflow v.sign mode).1).value = v.value) := by
    unfold Overflowed
    by_cases hinfinity : overflowsToInfinity v.sign mode = true
    · rw [if_pos hinfinity] at hbits ⊢
      rw [decode_infinity hbits]
      exact ⟨rfl, fun hboth => absurd hboth.1 (show ¬ 0x7FFF < 0x7FFF by decide)⟩
    · rw [if_neg hinfinity] at hbits ⊢
      have hp := Nat.two_pow_pos f.fractionBits
      have hlast : f.maxField - 2 = f.maxField - 1 - 1 := by omega
      have hones : (f.maxField - 1 - 1) * 2 ^ f.fractionBits + (2 ^ (f.fractionBits + 1) - 1) <
          f.maxField * 2 ^ f.fractionBits := by
        have hsplit : (f.maxField - 1 - 1) * 2 ^ f.fractionBits + 2 * 2 ^ f.fractionBits =
            f.maxField * 2 ^ f.fractionBits := by
          rw [← add_mul]
          congr 1
          omega
        rw [pow_succ]
        omega
      have hcount : 2 ^ (f.fractionBits + 1) - 1 ≤ 2 ^ (f.fractionBits + 1) := Nat.sub_le _ _
      rw [hlast] at hbits
      obtain ⟨hfin, -, hvalue⟩ := value_decode hf _ _ hbits (by omega) hcount
        (fun _ => by rw [pow_succ]; omega) hones
      have hplace : ((f.maxField - 1 : ℕ) : ℤ) - f.bias - f.fractionBits = f.bias - f.fractionBits := by
        omega
      have hsmall := units_lt hf (show 1 ≤ f.maxField - 1 by omega) hcount (by omega) hones
      rw [hplace] at hvalue hsmall
      refine ⟨⟨hfin, hvalue⟩, fun hboth => ?_⟩
      have habs := congrArg abs hboth.2
      rw [hvalue, abs_signed, abs_of_nonneg (mul_nonneg (Nat.cast_nonneg _) (zpow_pos two_pos _).le)] at habs
      exact absurd hlarge (habs ▸ hsmall).not_ge
  rw [hexceptions]
  refine ⟨fun hlt => absurd hge hlt.not_ge, fun _ => hstored.1, iff_of_true (by decide) hstored.2,
    iff_of_false (by decide) ?_, iff_of_true (by decide) hge⟩
  rw [small_iff h]
  omega

/-! ## Not one bit left -/

theorem away_iff (s : Bool) (mode : Rounding) :
    ((mode == .plusInfinity && !s) || (mode == .minusInfinity && s)) =
      decide (mode.direction s = .up) := by
  cases mode <;> cases s <;> decide

theorem storeNothing_eq (hf : f.Sound) (s : Bool) (mode : Rounding) :
    (f.storeNothing s mode).1.toNat =
      f.pattern s 0 (if mode.direction s = .up then 1 else 0) := by
  have hone : 1 < 2 ^ f.fractionBits := Nat.one_lt_two_pow (by have := hf.fraction_pos; omega)
  unfold storeNothing
  dsimp only
  rw [away_iff]
  by_cases hup : mode.direction s = .up
  · rw [decide_eq_true hup, if_pos rfl, if_pos hup]
    exact toNat_assemble hf s (Nat.zero_le _) 1 hone
  · rw [decide_eq_false hup, if_neg Bool.false_ne_true, if_neg hup]
    exact toNat_assemble hf s (Nat.zero_le _) 0 (Nat.two_pow_pos _)

theorem count_of_nothing (hf : f.Sound) (h : v.mantissa ≠ 0) (mode : Rounding)
    (hlow : (f.fractionBits : ℤ) + f.rebiased v < 1) :
    f.count v.sign (decompose v).1 (f.rebiased v) mode =
      if mode.direction v.sign = .up ∨ f.HalfSmallest v mode then 1 else 0 := by
  have hle := hf.fraction_le
  have hset := (value_eq_decompose h).2
  have hplaces : f.places (f.rebiased v) = 64 ↔ f.rebiased v = -f.fractionBits := by
    unfold places
    omega
  have hfar : 64 ≤ f.places (f.rebiased v) := by
    unfold places
    omega
  have hnearest : mode.direction v.sign = .nearest ↔ mode = .nearest := by
    cases mode <;> cases v.sign <;> decide
  have hmore : 2 ^ 63 < (decompose v).1.toNat ↔ (decompose v).1 ≠ integerBit := by
    have hbit : integerBit.toNat = 2 ^ 63 := by decide
    rw [Ne, ← BitVec.toNat_inj, hbit]
    omega
  unfold count HalfSmallest
  rw [quotient_below_one _ (decompose v).1.isLt (by omega) hfar]
  refine if_congr (or_congr_right ?_) rfl rfl
  rw [hnearest, hplaces, hmore]

theorem storesRounded_nothing (hf : f.Sound) (h : v.mantissa ≠ 0)
    (hlow : (f.fractionBits : ℤ) + f.rebiased v < 1) :
    f.StoresRounded v mode (f.decode (f.storeNothing v.sign mode).1) (f.storeNothing v.sign mode).2 ↔
      ¬ f.HalfSmallest v mode := by
  have hle := hf.fraction_le
  have hpos := hf.fraction_pos
  have hmax := hf.maxField_eq
  have hbias := hf.bias_pos
  have hp := Nat.two_pow_pos f.fractionBits
  have hset := (value_eq_decompose h).2
  have hrow : row (f.rebiased v) = 1 := by
    unfold row
    omega
  have hcount := count_of_nothing hf h mode hlow
  have hbits := storeNothing_eq hf v.sign mode
  have hinexact : ¬ 2 ^ f.places (f.rebiased v) ∣ (decompose v).1.toNat := by
    intro hdvd
    have hleast := Nat.le_of_dvd (by omega) hdvd
    have hbig : 2 ^ 64 ≤ 2 ^ f.places (f.rebiased v) := by
      refine Nat.pow_le_pow_right (by decide) ?_
      unfold places
      omega
    exact absurd (hbig.trans hleast) (decompose v).1.isLt.not_ge
  have hfew : ∀ n, n ≤ 1 → n < f.maxField * 2 ^ f.fractionBits := by
    intro n hn
    have hmul : 2 * 2 ^ f.fractionBits ≤ f.maxField * 2 ^ f.fractionBits :=
      Nat.mul_le_mul_right _ (by omega)
    omega
  constructor
  · intro hright hhalf
    have hnotUp : ¬ mode.direction v.sign = .up := by
      rw [hhalf.1]
      exact nofun
    rw [if_pos (.inr hhalf)] at hcount
    rw [if_neg hnotUp] at hbits
    obtain ⟨-, -, hvalue⟩ := value_decode hf 1 0 hbits le_rfl (Nat.zero_le _)
      (fun hne => absurd rfl hne) (by rw [Nat.add_zero, Nat.sub_self, zero_mul]; exact hfew 0 (by omega))
    have hnearby := nearby_eq hf h mode
    rw [hcount, hrow] at hnearby
    have hlt : |f.nearby mode v.value| < 2 ^ (f.bias + 1) := by
      rw [hnearby, abs_signed, abs_of_nonneg (by positivity)]
      exact units_lt hf (le_refl 1) Nat.one_le_two_pow (by omega)
        (by rw [Nat.sub_self, zero_mul, zero_add]; exact hfew 1 le_rfl)
    have hsame := (hright.inRange hlt).2.2
    rw [hvalue, hnearby, signed_inj, Nat.cast_zero, zero_mul, Nat.cast_one, one_mul] at hsame
    exact absurd hsame.symm (zpow_pos (two_pos (α := ℚ)) _).ne'
  · intro hhalf
    have hsame : (if mode.direction v.sign = .up then 1 else 0) =
        f.count v.sign (decompose v).1 (f.rebiased v) mode := by
      rw [hcount]
      exact if_congr (or_iff_left hhalf).symm rfl rfl
    have hsmall : f.count v.sign (decompose v).1 (f.rebiased v) mode ≤ 1 := by
      rw [← hsame]
      split_ifs <;> omega
    have hexceptions : (f.storeNothing v.sign mode).2 = excUnfl ||| excInex2 := rfl
    rw [hexceptions]
    refine storesRounded_of_count hf h (by omega) ?_ (iff_of_true (by decide) hinexact)
      (iff_of_true (by decide) (by omega)) (iff_of_false (by decide) ?_)
    · rw [hbits, hsame, hrow]
    · rw [hrow, Nat.sub_self, zero_mul, zero_add]
      exact not_le.mpr (hfew _ hsmall)

/-! ## Every number -/

/-- A FINITE NUMBER IS STORED RIGHT exactly when it is not above half of the smallest subnormal and below
all of it, with the mode to the nearest. -/
theorem encodeFinite_iff (hf : f.Sound) (h : v.mantissa ≠ 0) :
    f.StoresRounded v mode (f.decode (f.encodeFinite v mode).1) (f.encodeFinite v mode).2 ↔
      ¬ f.HalfSmallest v mode := by
  have hle := hf.fraction_le
  have hpos := hf.fraction_pos
  have hmax := hf.maxField_eq
  have hbias := hf.bias_pos
  have hencode : f.encodeFinite v mode =
      f.storeNormalized v.sign (decompose v).1 (f.rebiased v) mode := rfl
  have hset := (value_eq_decompose h).2
  have hnever : -(f.fractionBits : ℤ) < f.rebiased v → ¬ f.HalfSmallest v mode := by
    rintro hlt ⟨-, hsame, -⟩
    omega
  rw [hencode]
  unfold storeNormalized
  by_cases hhigh : f.maxField ≤ f.rebiased v
  · rw [if_pos hhigh]
    exact iff_of_true (storesRounded_overflow hf h hhigh) (hnever (by omega))
  · rw [if_neg hhigh]
    by_cases hfirst : f.rebiased v ≤ 0
    · rw [if_pos hfirst]
      by_cases hnone : (f.fractionBits : ℤ) + f.rebiased v < 1
      · rw [if_pos hnone]
        exact storesRounded_nothing hf h hnone
      · obtain ⟨hbits, hexceptions⟩ :=
          storeRounded_first hf v.sign (decompose v).1 (not_lt.mp hnone) hfirst mode
        rw [if_neg hnone]
        refine iff_of_true (storesRounded_of_count hf h (not_le.mp hhigh) hbits ?_ ?_ ?_)
          (hnever (by omega))
        · rw [hexceptions, raised_inex2]
        · rw [hexceptions, raised_unfl]
        · rw [hexceptions, raised_ovfl]
    · obtain ⟨hbits, hexceptions⟩ :=
        storeRounded_normal hf v.sign hset (by omega) (not_le.mp hhigh) mode
      rw [if_neg hfirst]
      refine iff_of_true (storesRounded_of_count hf h (not_le.mp hhigh) hbits ?_ ?_ ?_)
        (hnever (by omega))
      · rw [hexceptions, raised_inex2]
      · rw [hexceptions, raised_unfl]
      · rw [hexceptions, raised_ovfl]

end RealFormat

end Apollo.M68882
