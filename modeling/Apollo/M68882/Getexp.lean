import Mathlib
import Apollo.M68882.Scale

/-!
# FGETEXP and FGETMAN

From `src/core/cpu/m68882/ap_m68882_arith.c`: the exponent of a value as a value, and its mantissa with
the exponent of one. Together they are the value, and FSCALE puts them back, wherever the exponent field
is not zero: a denormal's mantissa has no integer bit, and FSCALE does not reach that field.
-/

namespace Apollo.M68882

open Apollo.Lib

/-- How far down the highest bit of a magnitude of 32 bits is one. -/
def highestShift (magnitude shift : Nat) : Nat → Nat
  | 0 => shift
  | places + 1 =>
    if 1 < magnitude >>> shift then highestShift magnitude (shift + 1) places else shift

/-- `ap_m68882_getexp`. -/
def getexp (a : Extended) : Op :=
  match propagateNan a a with
  | some op => op
  | none =>
    if classify a = .zero then { value := a }
    else if classify a = .infinity then operandError
    else
      let unbiased := (a.exponent.toNat : Int) - biasExtended
      if unbiased = 0 then { value := makeZero false }
      else
        let shift := highestShift unbiased.natAbs 0 32
        { value :=
            { sign := decide (unbiased < 0)
              exponent := BitVec.ofInt 16 (biasExtended + shift)
              mantissa := BitVec.ofNat 64 unbiased.natAbs <<< (63 - shift) } }

/-- `ap_m68882_getman`. -/
def getman (a : Extended) : Op :=
  match propagateNan a a with
  | some op => op
  | none =>
    if classify a = .zero then { value := a }
    else if classify a = .infinity then operandError
    else { value := { sign := a.sign, exponent := BitVec.ofInt 16 biasExtended, mantissa := a.mantissa } }

/-- The mantissa is in [1, 2) with the sign of the operand, the exponent is an integer, they make the
operand, and FSCALE returns it from them if it is normalised. -/
structure TakenApart (x : Extended) : Prop where
  finite : (getman x).value.Finite ∧ (getexp x).value.Finite
  range : 1 ≤ |(getman x).value.value| ∧ |(getman x).value.value| < 2
  sign : (getman x).value.sign = x.sign
  product : ∃ k : ℤ, (getexp x).value.value = k ∧ x.value = (getman x).value.value * 2 ^ k
  returned : x.mantissa &&& integerBit ≠ 0 →
    ∃ op, scale (getman x).value (getexp x).value = some op ∧ op.value = x

variable {x : Extended}

/-! ## The exponent -/

theorem highestShift_spec (magnitude shift places : Nat) (hlow : 2 ^ shift ≤ magnitude)
    (hhigh : magnitude < 2 ^ (shift + places)) :
    2 ^ highestShift magnitude shift places ≤ magnitude ∧
      magnitude < 2 ^ (highestShift magnitude shift places + 1) := by
  induction places generalizing shift with
  | zero => exact absurd hlow hhigh.not_ge
  | succ places ih =>
    have hpos := Nat.two_pow_pos shift
    have hmore : 1 < magnitude >>> shift ↔ 2 ^ (shift + 1) ≤ magnitude := by
      rw [Nat.shiftRight_eq_div_pow, pow_succ, mul_comm, ← Nat.le_div_iff_mul_le hpos]
      exact Iff.rfl
    unfold highestShift
    split_ifs with h
    · exact ih _ (hmore.mp h) (by rw [Nat.add_right_comm]; exact hhigh)
    · exact ⟨hlow, not_le.mp fun hle => h (hmore.mpr hle)⟩

theorem getexp_spec (hfinite : x.Finite) (hne : x.mantissa ≠ 0) :
    (getexp x).value.value = ((x.exponent.toNat : ℤ) - biasExtended : ℤ) ∧
      (getexp x).value.InputForm ∧ (getexp x).value.Finite := by
  obtain ⟨hnan, hinf⟩ := classify_finite_ne hfinite
  have hbias : biasExtended = 16383 := rfl
  have hlt : x.exponent.toNat < 0x7FFF := hfinite
  unfold getexp
  rw [propagateNan_eq_none hnan hnan]
  dsimp only
  rw [if_neg fun h => hne ((classify_zero_iff hfinite).mp h), if_neg hinf]
  generalize hu : (x.exponent.toNat : Int) - biasExtended = u
  split_ifs with hzero
  · rw [hzero]
    exact ⟨value_of_mantissa_zero rfl, by decide, by decide⟩
  · have hsmall : u.natAbs < 2 ^ 14 := by omega
    obtain ⟨hlow, hhigh⟩ := highestShift_spec u.natAbs 0 32 (by omega) (by omega)
    generalize highestShift u.natAbs 0 32 = shift at *
    have hshift : shift < 14 :=
      (Nat.pow_lt_pow_iff_right (by decide)).mp (hlow.trans_lt hsmall)
    have hexponent : (BitVec.ofInt 16 (biasExtended + shift)).toNat = 0x3FFF + shift := by
      have hnat : biasExtended + (shift : Int) = ((0x3FFF + shift : ℕ) : Int) := by omega
      rw [hnat, BitVec.ofInt_natCast, BitVec.toNat_ofNat, Nat.mod_eq_of_lt (by omega)]
    have hplaces : 63 = shift + (63 - shift) := by omega
    have hmantissa : (BitVec.ofNat 64 u.natAbs <<< (63 - shift)).toNat =
        u.natAbs * 2 ^ (63 - shift) := by
      have hfits : u.natAbs * 2 ^ (63 - shift) < 2 ^ 64 := by
        calc u.natAbs * 2 ^ (63 - shift) < 2 ^ (shift + 1) * 2 ^ (63 - shift) :=
              Nat.mul_lt_mul_of_pos_right hhigh (Nat.two_pow_pos _)
          _ = 2 ^ 64 := by rw [← pow_add]; congr 1; omega
      rw [BitVec.toNat_shiftLeft, BitVec.toNat_ofNat, Nat.shiftLeft_eq,
        Nat.mod_eq_of_lt (hsmall.trans (by decide)), Nat.mod_eq_of_lt hfits]
    have hset : 2 ^ 63 ≤ u.natAbs * 2 ^ (63 - shift) := by
      have hpow : (2 : ℕ) ^ 63 = 2 ^ shift * 2 ^ (63 - shift) := by rw [← pow_add, ← hplaces]
      rw [hpow]
      exact Nat.mul_le_mul_right _ hlow
    refine ⟨?_, (inputForm_iff _).mpr ⟨?_, .inr (.inl ?_)⟩, ?_⟩
    · rw [value_eq]
      dsimp only
      have hcancel : ((0x3FFF + shift : ℕ) : ℤ) - unitPlace = -((63 - shift : ℕ) : ℤ) := by
        rw [← unitPlace_eq]
        clear hmantissa
        omega
      rw [hexponent, hmantissa, hcancel, Nat.cast_mul, Nat.cast_pow, Nat.cast_ofNat, mul_assoc,
        zpow_neg, zpow_natCast, mul_inv_cancel₀ (pow_ne_zero _ two_ne_zero), mul_one]
      rcases le_or_gt 0 u with hpos | hneg
      · rw [decide_eq_false hpos.not_gt]
        have habs : ((u.natAbs : ℕ) : ℤ) = u := Int.natAbs_of_nonneg hpos
        exact (Int.cast_natCast _).symm.trans (congrArg (Int.cast : ℤ → ℚ) habs)
      · rw [decide_eq_true hneg]
        have habs : -((u.natAbs : ℕ) : ℤ) = u := by omega
        have hcast : ((-((u.natAbs : ℕ) : ℤ) : ℤ) : ℚ) = -(u.natAbs : ℚ) := by
          rw [Int.cast_neg, Int.cast_natCast]
        exact hcast.symm.trans (congrArg (Int.cast : ℤ → ℚ) habs)
    · dsimp only
      rw [hexponent]
      omega
    · dsimp only
      rw [integerBit_ne_zero_iff, hmantissa]
      exact hset
    · unfold Extended.Finite
      dsimp only
      rw [hexponent]
      omega

/-! ## The mantissa -/

theorem getman_eq (hfinite : x.Finite) (hne : x.mantissa ≠ 0) :
    getman x =
      { value := { sign := x.sign, exponent := 0x3FFF, mantissa := x.mantissa } } := by
  obtain ⟨hnan, hinf⟩ := classify_finite_ne hfinite
  unfold getman
  rw [propagateNan_eq_none hnan hnan]
  dsimp only
  rw [if_neg fun h => hne ((classify_zero_iff hfinite).mp h), if_neg hinf]
  rfl

theorem value_eq_getman (hfinite : x.Finite) (hne : x.mantissa ≠ 0) :
    x.value = (getman x).value.value * 2 ^ ((x.exponent.toNat : ℤ) - biasExtended) := by
  rw [getman_eq hfinite hne, scaled_eq, value_eq]
  congr 3
  exact (congrArg (· - (unitPlace : ℤ)) (add_sub_cancel biasExtended (x.exponent.toNat : ℤ))).symm

theorem getman_range_iff (hfinite : x.Finite) (hne : x.mantissa ≠ 0) :
    1 ≤ |(getman x).value.value| ∧ |(getman x).value.value| < 2 ↔ 2 ^ 63 ≤ x.mantissa.toNat := by
  have hm := x.mantissa.isLt
  have hplaces : ((0x3FFF : BitVec 16).toNat : ℤ) - unitPlace = -(63 : ℕ) := by
    rw [← unitPlace_eq]
    rfl
  have habs : |(getman x).value.value| = (x.mantissa.toNat : ℚ) / (2 ^ 63 : ℕ) := by
    rw [getman_eq hfinite hne, value_eq, abs_signed]
    dsimp only
    rw [hplaces, zpow_neg, zpow_natCast, ← div_eq_mul_inv, abs_of_nonneg (by positivity), Nat.cast_pow]
    rfl
  have hpos : (0 : ℚ) < (2 ^ 63 : ℕ) := by norm_num
  rw [habs, le_div_iff₀ hpos, div_lt_iff₀ hpos, one_mul, Nat.cast_le]
  refine and_iff_left ?_
  have hlt : (x.mantissa.toNat : ℚ) < (2 ^ 64 : ℕ) := Nat.cast_lt.mpr hm
  refine hlt.trans_eq ?_
  norm_num

/-! ## Together -/

theorem scale_getman_getexp (hfinite : x.Finite) (hne : x.mantissa ≠ 0) :
    (∃ op, scale (getman x).value (getexp x).value = some op ∧ op.value = x) ↔ x.exponent ≠ 0 := by
  obtain ⟨hvalue, hform, hfin⟩ := getexp_spec hfinite hne
  have hlt : x.exponent.toNat < 0x7FFF := hfinite
  have hbias : biasExtended = 16383 := rfl
  have hamount := scaleAmount_eq hform hfin
  rw [hvalue, Rounding.toInt_intCast, if_pos (abs_lt.mpr (by omega))] at hamount
  have hsum : ((0x3FFF : BitVec 16).toNat : Int) + ((x.exponent.toNat : Int) - biasExtended) =
      x.exponent.toNat := add_sub_cancel biasExtended _
  have hman : ({ sign := x.sign, exponent := 0x3FFF, mantissa := x.mantissa } : Extended).Finite :=
    show 0x3FFF < 0x7FFF by decide
  rw [getman_eq hfinite hne, scale_eq hman hne hfin, hamount]
  dsimp only
  rw [hsum, if_neg (by omega), if_neg (by omega), BitVec.ofInt_natCast, BitVec.ofNat_toNat,
    BitVec.setWidth_eq]
  by_cases hzero : x.exponent = 0
  · have hnone : x.exponent.toNat = 0 := by rw [hzero]; rfl
    rw [if_pos (by omega)]
    refine iff_of_false ?_ (not_not.mpr hzero)
    rintro ⟨op, hop, hsame⟩
    cases hop
    exact hne (congrArg Extended.mantissa hsame).symm
  · have hsome : 0 < x.exponent.toNat := Nat.pos_of_ne_zero fun h => hzero ((toNat_eq_zero_iff _).mpr h)
    rw [if_neg (by omega)]
    exact iff_of_true ⟨_, rfl, rfl⟩ hzero

/-- FGETMAN AND FGETEXP TAKE A NUMBER APART exactly when its exponent field is not zero. -/
theorem takenApart_iff (hform : x.InputForm) (hfinite : x.Finite) (hne : x.mantissa ≠ 0) :
    TakenApart x ↔ x.exponent ≠ 0 := by
  constructor
  · intro h hzero
    have hset := (getman_range_iff hfinite hne).mp h.range
    exact (scale_getman_getexp hfinite hne).mp (h.returned ((integerBit_ne_zero_iff _).mpr hset)) hzero
  · intro hsome
    have hset := le_mantissa_of_exponent hform hfinite fun h => hsome ((toNat_eq_zero_iff _).mpr h)
    obtain ⟨hvalue, -, hfin⟩ := getexp_spec hfinite hne
    refine ⟨⟨?_, hfin⟩, (getman_range_iff hfinite hne).mpr hset, ?_, ⟨_, hvalue, ?_⟩,
      fun _ => (scale_getman_getexp hfinite hne).mpr hsome⟩
    · rw [getman_eq hfinite hne]
      exact show 0x3FFF < 0x7FFF by decide
    · rw [getman_eq hfinite hne]
    · exact value_eq_getman hfinite hne

/-- 3 is 1.5 by `2 ^ 1`. -/
theorem takenApart_iff_three : TakenApart ⟨false, 0x4000, 0xC000000000000000⟩ :=
  (takenApart_iff (by decide) (by decide) (by decide)).mpr (by decide)

/-- The mantissa of the smallest denormal is below one. -/
theorem not_takenApart :
    ¬ ∀ x : Extended, x.InputForm → x.Finite → x.mantissa ≠ 0 → TakenApart x := by
  intro h
  have hrange := (h ⟨false, 0, 1⟩ (by decide) (by decide) (by decide)).range
  exact absurd ((getman_range_iff (by decide) (by decide)).mp hrange) (by decide)

end Apollo.M68882
