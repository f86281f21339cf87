import Mathlib
import Apollo.M68882.PackedConvert
import Apollo.M68882.PackedString

/-!
# Packed decimal goes out rounded once

`ap_m68882_packed_encode`. A k-factor from 1 on is a count of significant digits; one from 0 down is a
count of places behind the decimal point, as far as seventeen digits go and not past the first digit
(`packedUnit`). The value is rounded once to that place, and the string is the rounded value, with as
many digits as the k-factor gives it at its own exponent (`packedEncode_rounded`). That is not always
the number of significant digits it was rounded to: 9.5 with nothing behind the point comes out as the
two digits of 10 (`not_packedEncode_significant`).

Left out are the numbers just below `10 ^ 4004` with the binary exponent 13301, where the estimate of the
decimal exponent starts one too high, if the answer there is as wide as it should be (`EstimatedHigh`).
-/

namespace Apollo.M68882

open Apollo.Lib

variable {v : Extended} {k : ℤ} {mode : Rounding}

/-- The place that a k-factor has a value rounded to. -/
def packedUnit (k : ℤ) (x : ℚ) : ℚ :=
  let t := Int.log 10 |x|
  10 ^ (if 1 ≤ k then t + 1 - min k 17 else max (t - 16) (min k t))

/-- The decimal exponent of the value is estimated one too high, and the answer there is taken: rounded
to the place of the last digit there, the value is nothing or the power of ten above it. -/
def EstimatedHigh (v : Extended) (k : ℤ) (mode : Rounding) : Prop :=
  ((decompose v).2 = 13301 ∧ |v.value| < 10 ^ 4004) ∧
    (let there := mode.toGrid (10 ^ (4005 - (wantedDigits (min k 17) 4004 : ℤ))) v.value
     there = 0 ∨ |there| = 10 ^ 4004)

/-- What the conversion carries out. -/
def packedConversionCalls (value : Extended) (kFactor : Int) (mode : Rounding) : List Bignum.Call :=
  let source := packedSource value kFactor
  source.convertCalls mode 4
    { decimalExponent := estimatedExponent (source.scale + 63)
      digitsValue := 0
      digits := 1
      inexact := false }

/-- A conversion of a value is right: how many digits there are and that they are no more and no fewer,
the value rounded once, the string, the exception, and no limb lost on the way. -/
structure PackedRounded (v : Extended) (k : ℤ) (mode : Rounding) (c : Conversion) : Prop where
  digits : (c.digits : ℤ) = if 1 ≤ k then min k 17 else max 1 (min 17 (c.decimalExponent + 1 - k))
  low : 10 ^ (c.digits - 1) ≤ c.digitsValue.toNat
  high : c.digitsValue.toNat < 10 ^ c.digits
  rounded : signed v.sign c.written = mode.toGrid (packedUnit k v.value) v.value
  string : PackedString (packedEncode v k mode).1 v.sign c
  inexact : (packedEncode v k mode).2 &&& excInex2 ≠ 0 ↔ signed v.sign c.written ≠ v.value
  exact : ∀ call ∈ packedConversionCalls v k mode, call.Exact

/-- A conversion is the value rounded to as many significant digits as it has. -/
def Conversion.Significant (c : Conversion) (v : Extended) (mode : Rounding) : Prop :=
  signed v.sign c.written = mode.toGrid (10 ^ (Int.log 10 |v.value| + 1 - c.digits)) v.value

/-! ## The value as the conversion takes it -/

theorem magnitude_packedSource (h : v.mantissa ≠ 0) (k : ℤ) :
    (packedSource v k).magnitude = |v.value| := by
  have hpos : (0 : ℚ) ≤ ((decompose v).1.toNat : ℚ) * 2 ^ ((decompose v).2 - 63) :=
    mul_nonneg (Nat.cast_nonneg _) (zpow_pos two_pos _).le
  rw [(value_eq_decompose h).1, abs_signed, abs_of_nonneg hpos]
  rfl

theorem value_eq_signed (v : Extended) : v.value = signed v.sign |v.value| := by
  unfold Extended.value
  rw [abs_signed, abs_of_nonneg (div_nonneg (Nat.cast_nonneg _) (Nat.cast_nonneg _))]

theorem log_bounds (hfinite : v.Finite) (h : v.mantissa ≠ 0) :
    (10 : ℚ) ^ Int.log 10 |v.value| ≤ |v.value| ∧ |v.value| < 10 ^ (Int.log 10 |v.value| + 1) ∧
      |(Int.log 10 |v.value|)| ≤ 4960 := by
  obtain ⟨hlow, hhigh⟩ := decompose_bounds hfinite h
  obtain ⟨hbelow, habove⟩ := abs_value_bounds h
  have hpos : 0 < |v.value| := (zpow_pos two_pos _).trans_le hbelow
  have hleast := Int.zpow_log_le_self (b := 10) (by decide) hpos
  have hmost := Int.lt_zpow_succ_log_self (b := 10) (by decide) |v.value|
  push_cast at hleast hmost
  refine ⟨hleast, hmost, ?_⟩
  have hten : (1 : ℚ) < 10 := by norm_num
  have hup : (10 : ℚ) ^ Int.log 10 |v.value| < 10 ^ (4960 : ℕ) :=
    calc (10 : ℚ) ^ Int.log 10 |v.value| ≤ |v.value| := hleast
      _ < 2 ^ ((decompose v).2 + 1) := habove
      _ ≤ 2 ^ ((16384 : ℕ) : ℤ) := zpow_le_zpow_right₀ one_le_two (by push_cast; omega)
      _ ≤ 10 ^ (4960 : ℕ) := by
        rw [zpow_natCast]
        exact_mod_cast two_pow_le (m := 4960) (n := 16384) (by decide)
  have hdown : (10 : ℚ) ^ (-((4960 : ℕ) : ℤ)) < 10 ^ (Int.log 10 |v.value| + 1) :=
    calc (10 : ℚ) ^ (-((4960 : ℕ) : ℤ)) ≤ 2 ^ (-((16447 : ℕ) : ℤ)) := by
          rw [zpow_neg, zpow_neg, zpow_natCast, zpow_natCast]
          exact inv_anti₀ (pow_pos two_pos _)
            (by exact_mod_cast two_pow_le (m := 4960) (n := 16447) (by decide))
      _ ≤ 2 ^ (decompose v).2 := zpow_le_zpow_right₀ one_le_two (by push_cast; omega)
      _ ≤ |v.value| := hbelow
      _ < _ := hmost
  rw [← zpow_natCast, zpow_lt_zpow_iff_right₀ hten] at hup
  rw [zpow_lt_zpow_iff_right₀ hten] at hdown
  push_cast at hup hdown
  rw [abs_le]
  constructor <;> omega

/-- THE CONVERSION SETTLES through the `break`, and is right. -/
theorem packedConversion_settled (hfinite : v.Finite) (h : v.mantissa ≠ 0)
    (hslip : ¬ EstimatedHigh v k mode) :
    ∃ c, packedConversion v k mode = (c, true) ∧
      (packedSource v k).Settled mode (Int.log 10 |v.value|) c ∧
      ∀ call ∈ packedConversionCalls v k mode, call.Exact := by
  obtain ⟨hleast, hmost, hrange⟩ := log_bounds hfinite h
  generalize Int.log 10 |v.value| = t at hleast hmost hrange ⊢
  have hten : (1 : ℚ) < 10 := by norm_num
  have hscale : (packedSource v k).scale + 63 = (decompose v).2 := sub_add_cancel _ _
  have hleast' := hleast
  have hmost' := hmost
  rw [← magnitude_packedSource h k] at hleast' hmost'
  unfold packedConversion packedConversionCalls
  by_cases hover : (decompose v).2 = 13301 ∧ |v.value| < 10 ^ 4004
  · -- the estimate is 4004, and the value below it
    obtain ⟨hlow, -⟩ := abs_value_bounds h
    have hbelow : (10 : ℚ) ^ ((4003 : ℕ) : ℤ) ≤ |v.value| := by
      refine le_trans ?_ hlow
      rw [hover.1, zpow_natCast]
      exact_mod_cast ten_pow_le (m := 4003) (n := 13301) (by decide)
    have habove : |v.value| < (10 : ℚ) ^ ((4004 : ℕ) : ℤ) := by
      rw [zpow_natCast]
      exact hover.2
    have hlower := (zpow_lt_zpow_iff_right₀ hten).mp (hbelow.trans_lt hmost)
    have hupper := (zpow_lt_zpow_iff_right₀ hten).mp (hleast.trans_lt habove)
    have hlog : t = 4003 := by
      push_cast at hlower hupper
      omega
    have hestimate : estimatedExponent ((packedSource v k).scale + 63) = 4004 := by
      rw [hscale, hover.1, estimatedExponent_eq]
      rfl
    have hk : (packedSource v k).k = min k 17 := by
      rw [min_comm, min_def]
      change (if 17 < k then 17 else k) = _
      split_ifs <;> omega
    have hsigned : signed (packedSource v k).sign (packedSource v k).magnitude = v.value := by
      rw [magnitude_packedSource h]
      exact (value_eq_signed v).symm
    have hplace : t + 2 = 4005 := by rw [hlog]; rfl
    have hnext : t + 1 = 4004 := by rw [hlog]; rfl
    refine Source.settles_above hleast' hmost' hrange 1 (hestimate.trans hnext.symm) ?_ ?_
    · rw [hsigned, hplace, hnext, hk]
      exact fun hzero => hslip ⟨hover, .inl hzero⟩
    · rw [hsigned, hplace, hnext, hk]
      exact fun hpower => hslip ⟨hover, .inr hpower⟩
  · obtain ⟨hlow, hhigh⟩ := estimate_bounds hfinite h hover
    have hupper := (zpow_lt_zpow_iff_right₀ hten).mp (hlow.trans_lt hmost)
    have hlower := (zpow_lt_zpow_iff_right₀ hten).mp (hleast.trans_lt hhigh)
    refine Source.settles hleast' hmost' hrange 1 ?_
    dsimp only
    rw [hscale]
    omega

theorem packedEncode_finite (hfinite : v.Finite) (h : v.mantissa ≠ 0) (k : ℤ) (mode : Rounding) :
    packedEncode v k mode = putConversion (blankString v.sign) k (packedConversion v k mode).1 := by
  unfold packedEncode
  rcases classify_nonzero hfinite h with hclass | hclass
  · rw [hclass]
    rfl
  · rw [hclass]
    rfl

/-- PACKED DECIMAL GOES OUT ROUNDED ONCE, from the smallest denormal to the largest number and for every
k-factor: the loop is left through its `break`, and the string is the value rounded to the place that the
k-factor names. -/
theorem packedEncode_rounded (hfinite : v.Finite) (h : v.mantissa ≠ 0) (hslip : ¬ EstimatedHigh v k mode) :
    ∃ c, packedConversion v k mode = (c, true) ∧ PackedRounded v k mode c := by
  obtain ⟨c, hc, hsettled, hcalls⟩ := packedConversion_settled hfinite h hslip
  obtain ⟨-, -, hrange⟩ := log_bounds hfinite h
  have hk : (packedSource v k).k = if 17 < k then 17 else k := rfl
  have hmagnitude := magnitude_packedSource h k
  have hencode := packedEncode_finite hfinite h k mode
  rw [hc] at hencode
  have hvalue := value_eq_signed v
  refine ⟨c, hc, ?_, hsettled.low, hsettled.high, ?_, ?_, ?_, hcalls⟩
  · rw [hsettled.digits, hk]
    unfold wantedDigits
    dsimp only
    split_ifs <;> omega
  · have hunit : packedUnit k v.value =
        10 ^ (Int.log 10 |v.value| + 1 - wantedDigits (packedSource v k).k (Int.log 10 |v.value|)) := by
      rw [hk]
      unfold packedUnit wantedDigits
      dsimp only
      refine congrArg (fun place : ℤ => (10 : ℚ) ^ place) ?_
      split_ifs <;> omega
    have hrounded := hsettled.rounded
    have hsign : (packedSource v k).sign = v.sign := rfl
    rw [hmagnitude, ← hunit, hsign, ← hvalue] at hrounded
    exact hrounded
  · rw [hencode]
    refine packedString_putConversion v.sign k ?_ hsettled.high ?_
    · rw [hsettled.digits]
      exact (wantedDigits_bounds _ _).2
    · obtain ⟨hlow, hhigh⟩ := abs_le.mp hrange
      rcases hsettled.near with hnear | hnear <;> rw [hnear] <;> omega
  · have hraised : (packedEncode v k mode).2 &&& excInex2 ≠ 0 ↔ c.inexact = true := by
      rw [hencode]
      unfold putConversion putExponent
      dsimp only
      by_cases hin : c.inexact = true
      · rw [if_pos hin]
        refine iff_of_true ?_ hin
        split_ifs <;> decide
      · rw [if_neg hin]
        refine iff_of_false (not_not_intro ?_) hin
        split_ifs <;> decide
    rw [hraised, hsettled.inexact, hmagnitude, Ne, Ne]
    conv_rhs => rw [hvalue]
    rw [signed_inj]

/-- A value of which the unit is the place 60. -/
theorem value_units (mantissa : BitVec 64) :
    (⟨false, 0x4002, mantissa⟩ : Extended).value = (mantissa.toNat : ℚ) * 2 ^ (-60 : ℤ) := by
  have hplaces : ∀ v : Extended, v.exponent = 0x4002 →
      ((v.exponent.toNat : ℤ) - unitPlace : ℤ) = -60 := by
    intro v hexponent
    rw [hexponent, ← unitPlace_eq]
    rfl
  rw [Apollo.M68882.value_eq, hplaces _ rfl]
  rfl

/-- A value less than a thousandth below ten: in three digits it is rounded to ten, and goes out so. -/
theorem packedEncode_rounded_nines :
    let v : Extended := ⟨false, 0x4002, 0x9FFC000000000000⟩
    ∃ c, packedConversion v 3 .nearest = (c, true) ∧ PackedRounded v 3 .nearest c ∧
      c.written = 10 ∧ (packedEncode v 3 .nearest).2 &&& excInex2 ≠ 0 := by
  intro v
  obtain ⟨c, hc, hrounded⟩ := @packedEncode_rounded v 3 .nearest (by decide) (by decide)
    fun h => absurd h.1.1 (by decide)
  have hvalue : v.value = 10239 / 1024 := by
    rw [value_units]
    change ((0x9FFC000000000000 : ℕ) : ℚ) * 2 ^ (-60 : ℤ) = 10239 / 1024
    norm_num
  have hlog : Int.log 10 |v.value| = 0 := by
    rw [hvalue, abs_of_pos (by norm_num)]
    exact (Int.log_of_one_le_right 10 (by norm_num)).trans (by norm_num)
  have hunit : packedUnit 3 v.value = 1 / 100 := by
    unfold packedUnit
    rw [hlog]
    norm_num
  have hgrid : Rounding.nearest.toGrid (1 / 100) (signed false (10239 / 1024 : ℚ)) =
      signed false ((1 / 100 : ℚ) * ((Rounding.nearest.direction false).quotient 1023900 1024 : ℕ)) :=
    Rounding.nearest.toGrid_signed false (by decide) (by norm_num)
  have hten : c.written = 10 := by
    have hwritten := hrounded.rounded
    rw [hunit, hvalue] at hwritten
    refine (hwritten.trans hgrid).trans ?_
    rw [show (Rounding.nearest.direction false).quotient 1023900 1024 = 1000 by decide]
    norm_num [signed]
  refine ⟨c, hc, hrounded, hten, hrounded.inexact.mpr ?_⟩
  rw [hvalue, hten]
  norm_num [signed, v]

/-- Nine and a half: with nothing behind the point it is ten, which has two digits. -/
theorem not_packedEncode_significant :
    ¬ ∀ (v : Extended) (k : ℤ) (mode : Rounding), v.Finite → v.mantissa ≠ 0 → -64 ≤ k → k ≤ 63 →
      ∃ c, packedConversion v k mode = (c, true) ∧ c.Significant v mode := by
  intro hclaim
  let v : Extended := ⟨false, 0x4002, 0x9800000000000000⟩
  have hfinite : v.Finite := by decide
  have hne : v.mantissa ≠ 0 := by decide
  have hvalue : v.value = 19 / 2 := by
    rw [value_units]
    change ((0x9800000000000000 : ℕ) : ℚ) * 2 ^ (-60 : ℤ) = 19 / 2
    norm_num
  have hlog : Int.log 10 |v.value| = 0 := by
    rw [hvalue, abs_of_pos (by norm_num)]
    exact (Int.log_of_one_le_right 10 (by norm_num)).trans (by norm_num)
  have hslip : ¬ EstimatedHigh v 0 .nearest := fun h => absurd h.1.1 (by decide)
  obtain ⟨c, hc, hsettled, -⟩ := packedConversion_settled hfinite hne hslip
  obtain ⟨c', hc', hsignificant⟩ := hclaim v 0 .nearest hfinite hne (by decide) (by decide)
  obtain rfl : c = c' := congrArg Prod.fst (hc.symm.trans hc')
  have hmagnitude := magnitude_packedSource hne 0
  have hk : (packedSource v 0).k = 0 := rfl
  have hsign : (packedSource v 0).sign = false := rfl
  -- ten is what is written
  have hten : c.written = 10 := by
    have hrounded := hsettled.rounded
    rw [hmagnitude, hsign, hk, hlog, hvalue, abs_of_pos (by norm_num)] at hrounded
    have hquotient : Rounding.nearest.toGrid 1 (signed false (19 / 2 : ℚ)) =
        signed false ((1 : ℚ) * ((Rounding.nearest.direction false).quotient 19 2 : ℕ)) :=
      Rounding.nearest.toGrid_signed false (by decide) (by norm_num)
    have hunit : (10 : ℚ) ^ ((0 : ℤ) + 1 - (wantedDigits 0 0 : ℤ)) = 1 := by
      rw [show wantedDigits 0 0 = 1 by decide]
      norm_num
    rw [hunit, hquotient, show (Rounding.nearest.direction false).quotient 19 2 = 10 by decide] at hrounded
    exact hrounded.trans (by norm_num [signed])
  have hhigh := hsettled.high
  rcases hsettled.near with hnear | hnear
  · -- not in one digit
    have hdigits := hsettled.digits
    rw [hnear, hlog, hk, show wantedDigits 0 0 = 1 by decide] at hdigits
    unfold Conversion.written at hten
    rw [hnear, hlog, hdigits] at hten
    rw [hdigits] at hhigh
    norm_num at hten
    have hd : c.digitsValue.toNat = 10 := by exact_mod_cast hten
    omega
  · -- and two digits are enough for the value
    have hdigits := hsettled.digits
    rw [hnear, hlog, hk, show wantedDigits 0 (0 + 1) = 2 by decide] at hdigits
    unfold Conversion.Significant at hsignificant
    have hunit : (10 : ℚ) ^ ((0 : ℤ) + 1 - (2 : ℕ)) = 1 / 10 := by norm_num
    have hexact : (19 / 2 : ℚ) / (1 / 10) = ((95 : ℤ) : ℚ) := by norm_num
    rw [hten, hlog, hdigits, hunit, hvalue, Rounding.toGrid, hexact, Rounding.toInt_intCast] at hsignificant
    norm_num [signed, v] at hsignificant

end Apollo.M68882
