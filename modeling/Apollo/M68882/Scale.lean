import Mathlib
import Apollo.M68882.Integer
import Apollo.M68882.Operation

/-!
# FSCALE

From `src/core/cpu/m68882/ap_m68882_arith.c`: the integer part of the source is added to the exponent of
the destination. The sum alone decides what becomes of it, so a number is lost that the format holds
with another exponent, and an integer from `2 ^ 31` on counts as none. `ScaleSlips` is where.
-/

namespace Apollo.M68882

open Apollo.Lib

/-- What is added to the exponent. -/
def scaleAmount (b : Extended) : Int :=
  let truncated := (intrz b).value
  let exponent := (truncated.exponent.toNat : Int) - biasExtended
  if classify truncated ≠ .zero ∧ 0 ≤ exponent ∧ exponent < 31 then
    let amount := ((truncated.mantissa >>> (63 - exponent).toNat).toNat : Int)
    if truncated.sign then -amount else amount
  else 0

/-- `ap_m68882_scale`; nothing where the sum does not fit an `int`. -/
def scale (a b : Extended) : Option Op :=
  match propagateNan a b with
  | some op => some op
  | none =>
    if classify b = .infinity then some operandError
    else if classify a = .zero ∨ classify a = .infinity then some { value := a }
    else
      let scaled := (a.exponent.toNat : Int) + scaleAmount b
      if 2 ^ 31 ≤ scaled then none
      else if 0x7FFF ≤ scaled then some { value := makeInfinity a.sign, exceptions := excOvfl }
      else if scaled ≤ 0 then some { value := makeZero a.sign, exceptions := excUnfl }
      else some { value := { a with exponent := BitVec.ofInt 16 scaled } }

/-- What FSCALE gives: the number with the power of two if the format holds it, an infinity from the
format's limit on, and else a zero or a denormal; and the number unchanged only for no power at all. -/
structure ScalesTo (a : Extended) (n : ℤ) (op : Op) : Prop where
  exact : Representable (a.value * 2 ^ n) → op.value.Finite ∧ op.value.value = a.value * 2 ^ n
  overflow : 2 ^ (biasExtended + 1) ≤ |a.value * 2 ^ n| →
    op.value = makeInfinity a.sign ∧ op.exceptions = excOvfl
  underflow : ¬ Representable (a.value * 2 ^ n) → |a.value * 2 ^ n| < 2 ^ (biasExtended + 1) →
    op.value.sign = a.sign ∧ (classify op.value = .zero ∨ classify op.value = .denormalized) ∧
      op.exceptions = excUnfl
  unchanged : op.value = a → n = 0

/-- Where it does not: the sum is beyond an `int`; or an integer down to `-2 ^ 31` is taken for none; or
the sum is an exponent that the format lacks, and the number has another that it has. -/
def ScaleSlips (a : Extended) (n : ℤ) : Prop :=
  2 ^ 31 ≤ (a.exponent.toNat : ℤ) + n ∨
    n ≤ -2 ^ 31 ∧ a.exponent ≠ 0 ∨
    (a.exponent.toNat : ℤ) + n ≤ 0 ∧ 2 ^ (-((a.exponent.toNat : ℤ) + n)).toNat ∣ a.mantissa.toNat ∨
    0x7FFF ≤ (a.exponent.toNat : ℤ) + n ∧ (decompose a).2 + n < biasExtended + 1

instance (a : Extended) (n : ℤ) : Decidable (ScaleSlips a n) := inferInstanceAs (Decidable (_ ∨ _))

variable {a b : Extended} {n : ℤ}

/-! ## The amount -/

theorem scaleAmount_eq (hform : b.InputForm) (hfinite : b.Finite) :
    scaleAmount b =
      if |Rounding.zero.toInt b.value| < 2 ^ 31 then Rounding.zero.toInt b.value else 0 := by
  have hright := intrz_right hform hfinite
  have hmagnitude := hright.magnitude
  have habs : |Rounding.zero.toInt b.value| = (b.integer .zero : ℕ) := by
    rw [toInt_value]
    cases b.sign
    · exact Nat.abs_cast _
    · exact (abs_neg _).trans (Nat.abs_cast _)
  rw [habs, toInt_value]
  unfold scaleAmount
  dsimp only
  rw [hright.sign]
  have hnormal := hright.normal
  have hfin := hright.finite
  clear hright habs
  generalize (intrz b).value = x at *
  generalize b.integer .zero = k at *
  by_cases hk : k = 0
  · have hzero : x.mantissa = 0 := by
      rw [hk, zero_mul] at hmagnitude
      exact (magnitude_eq_zero_iff x).mp hmagnitude
    have hnone : signed b.sign ((k : ℕ) : ℤ) = 0 := by
      rw [hk]
      cases b.sign <;> rfl
    rw [if_neg fun h => h.1 ((classify_zero_iff hfin).mpr hzero), hnone, ite_self]
  · have hne : x.mantissa ≠ 0 := by
      intro hzero
      have hnone := (magnitude_eq_zero_iff x).mpr hzero
      rw [hmagnitude] at hnone
      exact hk ((Nat.mul_eq_zero.mp hnone).resolve_right (Nat.two_pow_pos _).ne')
    have hset := (integerBit_ne_zero_iff _).mp (hnormal.resolve_left hne)
    obtain ⟨hone, hlow, hbits⟩ := integer_bits hmagnitude hk hset
    have hclass : classify x ≠ .zero := fun h => hne ((classify_zero_iff hfin).mp h)
    have hm := x.mantissa.isLt
    clear hmagnitude
    have hexponent : (x.exponent.toNat : Int) - biasExtended = ((x.exponent.toNat - 0x3FFF : ℕ) : Int) := by
      unfold biasExtended
      omega
    rw [hexponent]
    by_cases hfew : x.exponent.toNat - 0x3FFF < 31
    · have hplaces : (63 - ((x.exponent.toNat - 0x3FFF : ℕ) : Int)).toNat =
          0x3FFF + 63 - x.exponent.toNat := by omega
      have hmantissa := hbits (by omega)
      have hpow := Nat.two_pow_pos (0x3FFF + 63 - x.exponent.toNat)
      have hlarge : 2 ^ 33 ≤ 2 ^ (0x3FFF + 63 - x.exponent.toNat) :=
        Nat.pow_le_pow_right (by decide) (by omega)
      have hsmall : k < 2 ^ 31 := by
        have hmul := Nat.mul_le_mul_left k hlarge
        omega
      have hamount : (x.mantissa >>> (0x3FFF + 63 - x.exponent.toNat)).toNat = k := by
        rw [BitVec.toNat_ushiftRight, Nat.shiftRight_eq_div_pow, hmantissa, Nat.mul_div_cancel _ hpow]
      have hfits : ((k : ℕ) : ℤ) < 2 ^ 31 := by exact_mod_cast hsmall
      rw [if_pos ⟨hclass, by omega, by omega⟩, hplaces, hamount, if_pos hfits]
      rfl
    · have hlarge : 2 ^ 31 ≤ k := (Nat.pow_le_pow_right (by decide) (by omega)).trans hlow
      have hout : ¬ ((k : ℕ) : ℤ) < 2 ^ 31 := by exact_mod_cast hlarge.not_gt
      rw [if_neg (fun h => absurd h.2.2 (by omega)), if_neg hout]

theorem toInt_zero_of_fraction {k : ℕ} (hlt : b.exponent.toNat < 0x3FFF + 63)
    (hk : b.mantissa.toNat / 2 ^ (0x3FFF + 63 - b.exponent.toNat) = k) :
    Rounding.zero.toInt b.value = signed b.sign (k : ℤ) := by
  rw [toInt_value, integer_of_fraction hlt, ← hk]
  rfl

/-! ## The number -/

theorem abs_scaled_bounds (h : a.mantissa ≠ 0) (n : ℤ) :
    2 ^ ((decompose a).2 + n) ≤ |a.value * 2 ^ n| ∧ |a.value * 2 ^ n| < 2 ^ ((decompose a).2 + n + 1) := by
  obtain ⟨hlow, hhigh⟩ := abs_value_bounds h
  have hpos : (0 : ℚ) < 2 ^ n := zpow_pos two_pos n
  have hnext : (decompose a).2 + n + 1 = (decompose a).2 + 1 + n := by ring
  rw [abs_mul, abs_of_pos hpos, zpow_add₀ two_ne_zero, hnext, zpow_add₀ two_ne_zero _ n]
  exact ⟨mul_le_mul_of_nonneg_right hlow hpos.le, mul_lt_mul_of_pos_right hhigh hpos⟩

theorem scaled_eq (a : Extended) (n : ℤ) :
    a.value * 2 ^ n =
      signed a.sign ((a.mantissa.toNat : ℚ) * 2 ^ ((a.exponent.toNat : ℤ) + n - unitPlace)) := by
  rw [value_eq, signed_mul, mul_assoc, ← zpow_add₀ two_ne_zero]
  congr 3
  ring

theorem representable_iff_dvd (hlow : (a.exponent.toNat : ℤ) + n ≤ 0) :
    Representable (a.value * 2 ^ n) ↔
      2 ^ (-((a.exponent.toNat : ℤ) + n)).toNat ∣ a.mantissa.toNat := by
  obtain ⟨k, hk⟩ : ∃ k : ℕ, (a.exponent.toNat : ℤ) + n = -k :=
    ⟨(-((a.exponent.toNat : ℤ) + n)).toNat, by omega⟩
  have hunit : (0 : ℚ) < 2 ^ (-(unitPlace : ℤ)) := zpow_pos two_pos _
  have hscaled : a.value * 2 ^ n =
      signed a.sign ((a.mantissa.toNat : ℚ) / 2 ^ k * 2 ^ (-(unitPlace : ℤ))) := by
    rw [scaled_eq, hk, sub_eq_add_neg, zpow_add₀ two_ne_zero, zpow_neg, zpow_natCast, ← mul_assoc]
    rfl
  have hpow : ((2 ^ k : ℕ) : ℚ) ≠ 0 := by exact_mod_cast (Nat.two_pow_pos k).ne'
  rw [hscaled, hk, neg_neg, Int.toNat_natCast]
  constructor
  · rintro ⟨y, -, hy⟩
    have habs := congrArg abs hy
    rw [value_eq, abs_signed, abs_signed, abs_of_nonneg (by positivity), abs_of_nonneg (by positivity),
      sub_eq_add_neg, zpow_add₀ two_ne_zero, ← mul_assoc, zpow_natCast] at habs
    have hunits := mul_right_cancel₀ hunit.ne' habs
    rw [eq_div_iff (by positivity)] at hunits
    exact ⟨y.mantissa.toNat * 2 ^ y.exponent.toNat, by rw [mul_comm]; exact_mod_cast hunits.symm⟩
  · rintro ⟨c, hc⟩
    have hlt : c < 2 ^ 64 := by
      refine (Nat.le_mul_of_pos_left c (Nat.two_pow_pos k)).trans_lt ?_
      rw [← hc]
      exact a.mantissa.isLt
    refine ⟨{ sign := a.sign, exponent := 0, mantissa := BitVec.ofNat 64 c },
      show 0 < 0x7FFF by decide, ?_⟩
    rw [value_eq]
    dsimp only
    rw [BitVec.toNat_ofNat, Nat.mod_eq_of_lt hlt, hc, Nat.cast_mul, Nat.cast_pow, Nat.cast_ofNat,
      mul_div_cancel_left₀ _ (pow_ne_zero k two_ne_zero)]
    congr 3
    exact zero_sub _

theorem representable_of_lt (h : a.mantissa ≠ 0) (hhigh : 0x7FFF ≤ (a.exponent.toNat : ℤ) + n)
    (hlt : (decompose a).2 + n < biasExtended + 1) : Representable (a.value * 2 ^ n) := by
  obtain ⟨p, hplace, -, -, -⟩ := decompose_spec h
  obtain ⟨k, hk, -, hexponent, -⟩ :=
    normalizeSignificand_spec (a.exponent.toNat - biasExtended) h
  have hsame : (decompose a).2 = (a.exponent.toNat : ℤ) - biasExtended - k := hexponent
  have hbias : biasExtended = 16383 := rfl
  obtain ⟨e, he⟩ : ∃ e : ℕ, (decompose a).2 + biasExtended + n = e :=
    ⟨((decompose a).2 + biasExtended + n).toNat, by omega⟩
  have hfield : (BitVec.ofNat 16 e).toNat = e := by
    rw [BitVec.toNat_ofNat, Nat.mod_eq_of_lt (by omega)]
  refine ⟨{ sign := a.sign, exponent := BitVec.ofNat 16 e, mantissa := (decompose a).1 }, ?_, ?_⟩
  · unfold Extended.Finite
    dsimp only
    rw [hfield]
    omega
  · rw [value_eq, (value_eq_decompose h).1, signed_mul, mul_assoc, ← zpow_add₀ two_ne_zero]
    dsimp only
    rw [hfield, ← he, ← unitPlace_eq]
    congr 3
    push_cast
    rw [hbias]
    ring

/-! ## Each outcome -/

theorem not_representable_of_large {x : ℚ} (h : 2 ^ (biasExtended + 1) ≤ |x|) : ¬ Representable x := by
  rintro ⟨y, hfinite, rfl⟩
  exact absurd (abs_value_lt_of_finite hfinite) h.not_gt

theorem large_of_le (h : a.mantissa ≠ 0) (hle : biasExtended + 1 ≤ (decompose a).2 + n) :
    2 ^ (biasExtended + 1) ≤ |a.value * 2 ^ n| :=
  (zpow_le_zpow_right₀ one_le_two hle).trans (abs_scaled_bounds h n).1

theorem small_of_lt (h : a.mantissa ≠ 0) (hlt : (decompose a).2 + n < biasExtended + 1) :
    |a.value * 2 ^ n| < 2 ^ (biasExtended + 1) :=
  (abs_scaled_bounds h n).2.trans_le (zpow_le_zpow_right₀ one_le_two hlt)

theorem decompose_le (h : a.mantissa ≠ 0) :
    (decompose a).2 ≤ (a.exponent.toNat : ℤ) - biasExtended ∧
      (a.exponent.toNat : ℤ) - biasExtended - 63 ≤ (decompose a).2 := by
  obtain ⟨k, hk, -, hexponent, -⟩ := normalizeSignificand_spec (a.exponent.toNat - biasExtended) h
  have hsame : (decompose a).2 = (a.exponent.toNat : ℤ) - biasExtended - k := hexponent
  constructor <;> omega

theorem makeInfinity_not_finite (s : Bool) : ¬ (makeInfinity s).Finite :=
  fun h => absurd h (show ¬ 0x7FFF < 0x7FFF by decide)

theorem scalesTo_infinity (ha : a.Finite) (hne : a.mantissa ≠ 0)
    (hhigh : 0x7FFF ≤ (a.exponent.toNat : ℤ) + n) :
    ScalesTo a n { value := makeInfinity a.sign, exceptions := excOvfl } ↔
      biasExtended + 1 ≤ (decompose a).2 + n := by
  constructor
  · intro h
    by_contra hlt
    have hexact := h.exact (representable_of_lt hne hhigh (not_le.mp hlt))
    exact makeInfinity_not_finite a.sign hexact.1
  · intro hle
    have hlarge := large_of_le hne hle
    refine ⟨fun h => absurd h (not_representable_of_large hlarge), fun _ => ⟨rfl, rfl⟩,
      fun _ hsmall => absurd hlarge hsmall.not_ge, fun h => ?_⟩
    exact absurd (h ▸ ha) (makeInfinity_not_finite a.sign)

theorem scalesTo_zero (hne : a.mantissa ≠ 0) (hlow : (a.exponent.toNat : ℤ) + n ≤ 0) :
    ScalesTo a n { value := makeZero a.sign, exceptions := excUnfl } ↔
      ¬ 2 ^ (-((a.exponent.toNat : ℤ) + n)).toNat ∣ a.mantissa.toNat := by
  rw [← representable_iff_dvd hlow]
  have hbias : biasExtended = 16383 := rfl
  have hsmall : |a.value * 2 ^ n| < 2 ^ (biasExtended + 1) := by
    have hle := (decompose_le hne).1
    exact small_of_lt hne (by omega)
  constructor
  · intro h hrepresentable
    have hzero := (h.exact hrepresentable).2
    dsimp only at hzero
    rw [value_of_mantissa_zero rfl] at hzero
    have hpos := (abs_scaled_bounds hne n).1
    rw [← hzero, abs_zero] at hpos
    exact absurd (zpow_pos two_pos _) hpos.not_gt
  · intro h
    refine ⟨fun hrepresentable => absurd hrepresentable h, fun hlarge => absurd hsmall hlarge.not_gt,
      fun _ _ => ⟨rfl, .inl (by cases a.sign <;> decide), rfl⟩, fun hsame => ?_⟩
    exact absurd (congrArg Extended.mantissa hsame).symm hne

theorem scalesTo_sum (hlow : 0 < (a.exponent.toNat : ℤ) + n)
    (hhigh : (a.exponent.toNat : ℤ) + n < 0x7FFF) :
    ScalesTo a n
      { value := { a with exponent := BitVec.ofInt 16 ((a.exponent.toNat : ℤ) + n) } } := by
  obtain ⟨e, he⟩ : ∃ e : ℕ, (a.exponent.toNat : ℤ) + n = e :=
    ⟨((a.exponent.toNat : ℤ) + n).toNat, by omega⟩
  have hfield : (BitVec.ofInt 16 ((a.exponent.toNat : ℤ) + n)).toNat = e := by
    rw [he, BitVec.ofInt_natCast, BitVec.toNat_ofNat, Nat.mod_eq_of_lt (by omega)]
  have hvalue : ({ a with exponent := BitVec.ofInt 16 ((a.exponent.toNat : ℤ) + n) } : Extended).value =
      a.value * 2 ^ n := by
    rw [scaled_eq, value_eq]
    dsimp only
    rw [hfield, ← he]
  have hfinite : ({ a with exponent := BitVec.ofInt 16 ((a.exponent.toNat : ℤ) + n) } : Extended).Finite := by
    unfold Extended.Finite
    dsimp only
    rw [hfield]
    omega
  have hrepresentable : Representable (a.value * 2 ^ n) := ⟨_, hfinite, hvalue⟩
  refine ⟨fun _ => ⟨hfinite, hvalue⟩,
    fun hlarge => absurd hrepresentable (not_representable_of_large hlarge),
    fun h => absurd hrepresentable h, fun hsame => ?_⟩
  have hexponent := congrArg (fun x => x.exponent.toNat) hsame
  dsimp only at hexponent
  rw [hfield] at hexponent
  omega

/-! ## The instruction -/

theorem scale_eq (ha : a.Finite) (hne : a.mantissa ≠ 0) (hb : b.Finite) :
    scale a b =
      if 2 ^ 31 ≤ (a.exponent.toNat : Int) + scaleAmount b then none
      else if 0x7FFF ≤ (a.exponent.toNat : Int) + scaleAmount b then
        some { value := makeInfinity a.sign, exceptions := excOvfl }
      else if (a.exponent.toNat : Int) + scaleAmount b ≤ 0 then
        some { value := makeZero a.sign, exceptions := excUnfl }
      else
        some { value := { a with
          exponent := BitVec.ofInt 16 ((a.exponent.toNat : Int) + scaleAmount b) } } := by
  obtain ⟨hnana, hinfa⟩ := classify_finite_ne ha
  obtain ⟨hnanb, hinfb⟩ := classify_finite_ne hb
  have hzero : classify a ≠ .zero := fun h => hne ((classify_zero_iff ha).mp h)
  unfold scale
  rw [propagateNan_eq_none hnana hnanb]
  dsimp only
  rw [if_neg hinfb, if_neg (not_or.mpr ⟨hzero, hinfa⟩)]

theorem scale_within (ha : a.Finite) (hne : a.mantissa ≠ 0) (hb : b.Finite)
    (hamount : scaleAmount b = n) (hn : -2 ^ 31 < n) :
    (∃ op, scale a b = some op ∧ ScalesTo a n op) ↔ ¬ ScaleSlips a n := by
  have hfar : ¬ (n ≤ -2 ^ 31 ∧ a.exponent ≠ 0) := fun h => absurd h.1 hn.not_ge
  have hbias : biasExtended = 16383 := rfl
  have hle := (decompose_le hne).1
  unfold ScaleSlips
  rw [scale_eq ha hne hb, hamount]
  by_cases hout : 2 ^ 31 ≤ (a.exponent.toNat : ℤ) + n
  · rw [if_pos hout]
    refine iff_of_false ?_ (not_not.mpr (.inl hout))
    rintro ⟨op, hop, -⟩
    cases hop
  · rw [if_neg hout]
    by_cases hhigh : 0x7FFF ≤ (a.exponent.toNat : ℤ) + n
    · have hlow : ¬ (a.exponent.toNat : ℤ) + n ≤ 0 := by omega
      rw [if_pos hhigh]
      simp only [hout, hfar, hlow, hhigh, false_and, true_and, false_or, not_lt, Option.some.injEq,
        exists_eq_left']
      exact scalesTo_infinity ha hne hhigh
    · rw [if_neg hhigh]
      by_cases hlow : (a.exponent.toNat : ℤ) + n ≤ 0
      · rw [if_pos hlow]
        simp only [hout, hfar, hlow, hhigh, false_and, true_and, false_or, or_false,
          Option.some.injEq, exists_eq_left']
        exact scalesTo_zero hne hlow
      · rw [if_neg hlow]
        refine iff_of_true ⟨_, rfl, scalesTo_sum (not_le.mp hlow) (not_le.mp hhigh)⟩ ?_
        rintro (h | h | h | h)
        · exact hout h
        · exact hfar h
        · exact hlow h.1
        · exact hhigh h.1

theorem scale_beyond (ha : a.Finite) (hne : a.mantissa ≠ 0) (hb : b.Finite)
    (hamount : scaleAmount b = 0) (hn : 2 ^ 31 ≤ |n|) :
    (∃ op, scale a b = some op ∧ ScalesTo a n op) ↔ ¬ ScaleSlips a n := by
  have hbias : biasExtended = 16383 := rfl
  have hle := (decompose_le hne).2
  have hfinite := ha
  unfold Extended.Finite at hfinite
  have hchanged : n ≠ 0 := by
    rintro rfl
    exact absurd hn (by decide)
  rw [scale_eq ha hne hb, hamount, add_zero, if_neg (by omega), if_neg (by omega)]
  by_cases hzero : a.exponent = 0
  · have hnone : a.exponent.toNat = 0 := by rw [hzero]; rfl
    rw [if_pos (by omega)]
    simp only [Option.some.injEq, exists_eq_left']
    rcases le_abs.mp hn with hup | hdown
    · refine iff_of_false (fun h => ?_) (not_not.mpr (.inl (by omega)))
      have hinfinity := (h.overflow (large_of_le hne (by omega))).1
      exact absurd (congrArg Extended.exponent hinfinity) (show ¬ (0 : BitVec 16) = 0x7FFF by decide)
    · rw [scalesTo_zero hne (by omega)]
      unfold ScaleSlips
      have hfar : ¬ (n ≤ -2 ^ 31 ∧ a.exponent ≠ 0) := fun h => h.2 hzero
      have hout : ¬ 2 ^ 31 ≤ (a.exponent.toNat : ℤ) + n := by omega
      have hhigh : ¬ 0x7FFF ≤ (a.exponent.toNat : ℤ) + n := by omega
      have hlow : (a.exponent.toNat : ℤ) + n ≤ 0 := by omega
      simp only [hout, hfar, hlow, hhigh, false_and, true_and, false_or, or_false]
  · have hsome : 0 < a.exponent.toNat := Nat.pos_of_ne_zero fun h => hzero ((toNat_eq_zero_iff _).mpr h)
    rw [if_neg (by omega), BitVec.ofInt_natCast, BitVec.ofNat_toNat, BitVec.setWidth_eq]
    refine iff_of_false ?_ (not_not.mpr ?_)
    · rintro ⟨op, hop, hright⟩
      cases hop
      exact hchanged (hright.unchanged rfl)
    · rcases le_abs.mp hn with hup | hdown
      · exact .inl (by omega)
      · exact .inr (.inl ⟨by omega, hzero⟩)

/-- FSCALE IS RIGHT exactly where it does not slip. -/
theorem scale_iff (ha : a.Finite) (hne : a.mantissa ≠ 0) (hform : b.InputForm) (hb : b.Finite) :
    (∃ op, scale a b = some op ∧ ScalesTo a (Rounding.zero.toInt b.value) op) ↔
      ¬ ScaleSlips a (Rounding.zero.toInt b.value) := by
  have hamount := scaleAmount_eq hform hb
  by_cases hfew : |Rounding.zero.toInt b.value| < 2 ^ 31
  · rw [if_pos hfew] at hamount
    exact scale_within ha hne hb hamount (abs_lt.mp hfew).1
  · rw [if_neg hfew] at hamount
    exact scale_beyond ha hne hb hamount (not_lt.mp hfew)

/-- 1 by three halves of a power is 2. -/
theorem scale_iff_three_halves :
    ∃ op, scale ⟨false, 0x3FFF, integerBit⟩ ⟨false, 0x3FFF, 0xC000000000000000⟩ = some op ∧
      ScalesTo ⟨false, 0x3FFF, integerBit⟩
        (Rounding.zero.toInt (⟨false, 0x3FFF, 0xC000000000000000⟩ : Extended).value) op :=
  (scale_iff (by decide) (by decide) (by decide) (by decide)).mpr (by
    rw [toInt_zero_of_fraction (k := 1) (by decide) (by decide)]
    decide)

/-- 1 by `2 ^ 31` is left at 1. -/
theorem not_scale_right :
    ¬ ∀ a b : Extended, a.InputForm → b.InputForm → a.Finite → b.Finite → a.mantissa ≠ 0 →
      ∃ op, scale a b = some op ∧ ScalesTo a (Rounding.zero.toInt b.value) op := by
  intro h
  have hright := h ⟨false, 0x3FFF, integerBit⟩ ⟨false, 0x3FFF + 31, integerBit⟩ (by decide) (by decide)
    (by decide) (by decide) (by decide)
  rw [toInt_zero_of_fraction (k := 2 ^ 31) (by decide) (by decide)] at hright
  exact (scale_beyond (by decide) (by decide) (by decide) (by decide) (by decide)).mp hright (by decide)

end Apollo.M68882
