import Mathlib
import Apollo.M68882.Packed
import Apollo.M68882.Operation
import Apollo.M68882.PackedQuotient

/-!
# The estimate of the decimal exponent

`ap_m68882_packed_encode` starts at a decimal exponent that it has from the binary one, with a `log10 2`
of 30103 in 100000. That is a little too large, so the estimate could be one too high just above a
fraction that is nearer to `log10 2` than 30103 in 100000 is: 4004 in 13301 is the only one in the range
of the format (`ten_pow_le_of_estimate`). Everywhere else the estimate is the decimal exponent or one
less (`estimate_bounds`).
-/

namespace Apollo.M68882

open Apollo.Lib

theorem pow_le_pow_of_ratio {a b m n p q : ℕ} (ha : 0 < a) (hq : q ≠ 0) (h : a ^ p ≤ b ^ q)
    (hplaces : q * m ≤ p * n) : a ^ m ≤ b ^ n := by
  refine (Nat.pow_le_pow_iff_left hq).mp ?_
  calc (a ^ m) ^ q = a ^ (q * m) := by rw [← pow_mul, mul_comm]
    _ ≤ a ^ (p * n) := Nat.pow_le_pow_right ha hplaces
    _ = (a ^ p) ^ n := pow_mul a p n
    _ ≤ (b ^ q) ^ n := Nat.pow_le_pow_left h n
    _ = (b ^ n) ^ q := by rw [← pow_mul, ← pow_mul, mul_comm]

theorem ten_pow_le {m n : ℕ} (h : 2136 * m ≤ 643 * n) : 10 ^ m ≤ 2 ^ n :=
  pow_le_pow_of_ratio (p := 643) (q := 2136) (by decide) (by decide) (by decide +kernel) h

theorem two_pow_le {m n : ℕ} (h : 4004 * n ≤ 13301 * m) : 2 ^ n ≤ 10 ^ m :=
  pow_le_pow_of_ratio (p := 13301) (q := 4004) (by decide) (by decide) (by decide +kernel) h

/-- THE ESTIMATE IS NOT TOO HIGH for a power of two but the 13301st. -/
theorem ten_pow_le_of_estimate {b m : ℕ} (hb : b ≤ 16383) (hne : b ≠ 13301)
    (h : 100000 * m ≤ 30103 * b) : 10 ^ m ≤ 2 ^ b := by
  by_cases hbelow : 2136 * m ≤ 643 * b
  · exact ten_pow_le hbelow
  -- between 643 in 2136 and 30103 in 100000: counted in the two neighbours 4004 in 13301 and 643 in 2136
  obtain ⟨u, hu⟩ : ∃ u : ℤ, u = 2136 * m - 643 * b := ⟨_, rfl⟩
  obtain ⟨w, hw⟩ : ∃ w : ℤ, w = 4004 * b - 13301 * m := ⟨_, rfl⟩
  have hm' : (m : ℤ) = 4004 * u + 643 * w := by omega
  have hb' : (b : ℤ) = 13301 * u + 2136 * w := by omega
  have hu1 : u = 1 := by omega
  have hw1 : w = 0 ∨ w = 1 := by omega
  rcases hw1 with hw0 | hw1
  · omega
  · obtain rfl : m = 4647 := by omega
    obtain rfl : b = 15437 := by omega
    decide +kernel

theorem estimatedExponent_eq (b : ℤ) : estimatedExponent b = b * 30103 / 100000 := by
  have hsign : Int.sign 100000 = 1 := rfl
  unfold estimatedExponent
  dsimp only
  rw [Int.tdiv_eq_ediv, hsign]
  by_cases hdvd : (100000 : ℤ) ∣ b * 30103
  · have heven : 0 ≤ b * 30103 ∨ (100000 : ℤ) ∣ b * 30103 := .inr hdvd
    have hfloor : ¬ (b < 0 ∧ (b * 30103).tmod 100000 ≠ 0) := fun h => h.2 (Int.tmod_eq_zero_of_dvd hdvd)
    rw [if_pos heven, if_neg hfloor, add_zero]
  · have hrest : (b * 30103).tmod 100000 ≠ 0 := fun h => hdvd (Int.dvd_of_tmod_eq_zero h)
    rcases le_or_gt 0 b with hb | hb
    · have hup : 0 ≤ b * 30103 ∨ (100000 : ℤ) ∣ b * 30103 := .inl (by omega)
      have hfloor : ¬ (b < 0 ∧ (b * 30103).tmod 100000 ≠ 0) := fun h => h.1.not_ge hb
      rw [if_pos hup, if_neg hfloor, add_zero]
    · have hdown : ¬ (0 ≤ b * 30103 ∨ (100000 : ℤ) ∣ b * 30103) := not_or.mpr ⟨by omega, hdvd⟩
      have htruncated : b < 0 ∧ (b * 30103).tmod 100000 ≠ 0 := ⟨hb, hrest⟩
      rw [if_neg hdown, if_pos htruncated, add_sub_cancel_right]

theorem decompose_bounds {v : Extended} (hfinite : v.Finite) (hne : v.mantissa ≠ 0) :
    -16447 ≤ (decompose v).2 ∧ (decompose v).2 ≤ 16383 := by
  obtain ⟨p, hp, hle, -⟩ := decompose_spec hne
  have hbias : biasExtended = 16383 := rfl
  unfold Extended.Finite at hfinite
  rw [hp, hbias]
  constructor <;> omega

theorem ten_zpow_le {b : ℤ} (hlow : -16447 ≤ b) (hhigh : b ≤ 16383) (hne : b ≠ 13301) :
    (10 : ℚ) ^ estimatedExponent b ≤ 2 ^ b := by
  rw [estimatedExponent_eq]
  rcases le_or_gt 0 b with hb | hb
  · obtain ⟨n, rfl⟩ := Int.eq_ofNat_of_zero_le hb
    obtain ⟨m, hm⟩ := Int.eq_ofNat_of_zero_le (show 0 ≤ (n : ℤ) * 30103 / 100000 by omega)
    rw [hm, zpow_natCast, zpow_natCast]
    have hpow := ten_pow_le_of_estimate (b := n) (m := m) (by omega) (by omega) (by omega)
    exact_mod_cast hpow
  · obtain ⟨n, hn⟩ := Int.eq_ofNat_of_zero_le (show 0 ≤ -b by omega)
    obtain ⟨m, hm⟩ := Int.eq_ofNat_of_zero_le (show 0 ≤ -(b * 30103 / 100000) by omega)
    rw [show b * 30103 / 100000 = -(m : ℤ) by omega, show b = -(n : ℤ) by omega, zpow_neg, zpow_neg,
      zpow_natCast, zpow_natCast]
    have hpow := two_pow_le (n := n) (m := m) (by omega)
    exact inv_anti₀ (pow_pos two_pos _) (by exact_mod_cast hpow)

theorem two_zpow_le {b : ℤ} (hlow : -16447 ≤ b) (hhigh : b ≤ 16383) :
    (2 : ℚ) ^ (b + 1) ≤ 10 ^ (estimatedExponent b + 2) := by
  rw [estimatedExponent_eq]
  rcases le_or_gt 0 (b + 1) with hb | hb
  · obtain ⟨n, hn⟩ := Int.eq_ofNat_of_zero_le hb
    obtain ⟨m, hm⟩ := Int.eq_ofNat_of_zero_le (show 0 ≤ b * 30103 / 100000 + 2 by omega)
    rw [hn, hm, zpow_natCast, zpow_natCast]
    have hpow := two_pow_le (n := n) (m := m) (by omega)
    exact_mod_cast hpow
  · rcases le_or_gt 0 (b * 30103 / 100000 + 2) with hm | hm
    · exact (zpow_le_one_of_nonpos₀ one_le_two hb.le).trans (one_le_zpow₀ (by norm_num) hm)
    · obtain ⟨n, hn⟩ := Int.eq_ofNat_of_zero_le (show 0 ≤ -(b + 1) by omega)
      obtain ⟨m, hm⟩ := Int.eq_ofNat_of_zero_le (show 0 ≤ -(b * 30103 / 100000 + 2) by omega)
      rw [show b * 30103 / 100000 + 2 = -(m : ℤ) by omega, show b + 1 = -(n : ℤ) by omega, zpow_neg,
        zpow_neg, zpow_natCast, zpow_natCast]
      have hpow := ten_pow_le (n := n) (m := m) (by omega)
      exact inv_anti₀ (pow_pos (by norm_num) _) (by exact_mod_cast hpow)

/-- THE ESTIMATE IS THE DECIMAL EXPONENT OR ONE LESS, but for the numbers just below `10 ^ 4004`. -/
theorem estimate_bounds {v : Extended} (hfinite : v.Finite) (hne : v.mantissa ≠ 0)
    (hslip : ¬ ((decompose v).2 = 13301 ∧ |v.value| < 10 ^ 4004)) :
    (10 : ℚ) ^ estimatedExponent (decompose v).2 ≤ |v.value| ∧
      |v.value| < 10 ^ (estimatedExponent (decompose v).2 + 2) := by
  obtain ⟨hlow, hhigh⟩ := decompose_bounds hfinite hne
  obtain ⟨hbelow, habove⟩ := abs_value_bounds hne
  refine ⟨?_, habove.trans_le (two_zpow_le hlow hhigh)⟩
  by_cases hb : (decompose v).2 = 13301
  · have hestimate : estimatedExponent 13301 = (4004 : ℕ) := by
      rw [estimatedExponent_eq]
      rfl
    rw [hb, hestimate, zpow_natCast]
    exact not_lt.mp fun h => hslip ⟨hb, h⟩
  · exact (ten_zpow_le hlow hhigh hb).trans hbelow

/-!
## The correction loop of packed decimal output

The loop of `ap_m68882_packed_encode` tries a decimal exponent, and moves it by one when the answer is
too wide or too narrow for its digits. From the value's own decimal exponent or one below it the loop
settles in three attempts (`Source.settles`): at most one to come up to the exponent, one there, and one
more if the rounding carries into a new digit. A carried answer is a power of ten, and comes out the
same whether it is then given one more digit or not.
-/

/-! ## How many digits -/

theorem wantedDigits_bounds (k e : ℤ) : 1 ≤ wantedDigits k e ∧ wantedDigits k e ≤ 17 := by
  unfold wantedDigits
  dsimp only
  split_ifs <;> omega

theorem wantedDigits_succ (k e : ℤ) :
    wantedDigits k (e + 1) = wantedDigits k e ∨ wantedDigits k (e + 1) = wantedDigits k e + 1 := by
  unfold wantedDigits
  dsimp only
  split_ifs <;> omega

/-- The number that the digits and the exponent of a conversion are. -/
def Conversion.written (c : Conversion) : ℚ :=
  (c.digitsValue.toNat : ℚ) * 10 ^ (c.decimalExponent + 1 - c.digits)

namespace Source

variable {source : Source} {mode : Rounding} {t e : ℤ}

/-- What the loop carries out. -/
def convertCalls (source : Source) (mode : Rounding) : (attempts : Nat) → Conversion → List Bignum.Call
  | 0, _ => []
  | attempts + 1, state =>
    let next := source.attempt mode state.decimalExponent
    source.attemptCalls mode state.decimalExponent ++
      if 10 ^ next.digits ≤ next.digitsValue.toNat then
        source.convertCalls mode attempts { next with decimalExponent := next.decimalExponent + 1 }
      else if next.digitsValue.toNat < 10 ^ next.digits / 10 ∧ next.digitsValue ≠ 0 then
        source.convertCalls mode attempts { next with decimalExponent := next.decimalExponent - 1 }
      else []

/-- A conversion is what it should be for a value of decimal exponent `t`: as many digits as its
exponent asks for, none of them to spare, and the value rounded once in the place where the digits of
`t` end. -/
structure Settled (source : Source) (mode : Rounding) (t : ℤ) (c : Conversion) : Prop where
  near : c.decimalExponent = t ∨ c.decimalExponent = t + 1
  digits : c.digits = wantedDigits source.k c.decimalExponent
  low : 10 ^ (c.digits - 1) ≤ c.digitsValue.toNat
  high : c.digitsValue.toNat < 10 ^ c.digits
  rounded : signed source.sign c.written =
    mode.toGrid (10 ^ (t + 1 - wantedDigits source.k t)) (signed source.sign source.magnitude)
  inexact : c.inexact = true ↔ c.written ≠ source.magnitude

/-! ## One attempt near the exponent -/

theorem scaled_bounds (hlow : (10 : ℚ) ^ t ≤ source.magnitude) (hhigh : source.magnitude < 10 ^ (t + 1))
    (e : ℤ) :
    (10 : ℚ) ^ ((wantedDigits source.k e : ℤ) - 1 - (e - t)) ≤
        source.magnitude * 10 ^ source.places e ∧
      source.magnitude * 10 ^ source.places e < 10 ^ ((wantedDigits source.k e : ℤ) - (e - t)) := by
  have hten : (10 : ℚ) ≠ 0 := by norm_num
  have hpos : (0 : ℚ) < 10 ^ source.places e := zpow_pos (by norm_num) _
  have hfirst : (wantedDigits source.k e : ℤ) - 1 - (e - t) = t + source.places e := by
    unfold places
    ring
  have hlast : (wantedDigits source.k e : ℤ) - (e - t) = t + 1 + source.places e := by
    unfold places
    ring
  rw [hfirst, hlast, zpow_add₀ hten, zpow_add₀ hten]
  exact ⟨mul_le_mul_of_nonneg_right hlow hpos.le, mul_lt_mul_of_pos_right hhigh hpos⟩

theorem attempt_near (mode : Rounding) (hlow : (10 : ℚ) ^ t ≤ source.magnitude)
    (hhigh : source.magnitude < 10 ^ (t + 1)) (ht : |t| ≤ 4960) (hbelow : t - 1 ≤ e) (habove : e ≤ t + 1) :
    ∃ n d : ℕ, 0 < d ∧ (n : ℚ) / d = source.magnitude * 10 ^ source.places e ∧
      (source.attempt mode e).decimalExponent = e ∧
      (source.attempt mode e).digits = wantedDigits source.k e ∧
      (source.attempt mode e).digitsValue.toNat = (mode.direction source.sign).quotient n d ∧
      (source.attempt mode e).inexact = decide (¬ d ∣ n) ∧
      ∀ call ∈ source.attemptCalls mode e, call.Exact := by
  obtain ⟨hone, hmany⟩ := wantedDigits_bounds source.k e
  obtain ⟨hleast, hmost⟩ := scaled_bounds hlow hhigh e
  obtain ⟨ht₁, ht₂⟩ := abs_le.mp ht
  refine source.attempt_spec mode e ?_ ?_ ?_
  · rw [abs_le]
    unfold places
    constructor <;> omega
  · calc (1 / 16 : ℚ) ≤ 10 ^ (-1 : ℤ) := by norm_num
      _ ≤ 10 ^ ((wantedDigits source.k e : ℤ) - 1 - (e - t)) :=
        zpow_le_zpow_right₀ (by norm_num) (by omega)
      _ ≤ _ := hleast
  · calc source.magnitude * 10 ^ source.places e
        < 10 ^ ((wantedDigits source.k e : ℤ) - (e - t)) := hmost
      _ ≤ 10 ^ (18 : ℤ) := zpow_le_zpow_right₀ (by norm_num) (by omega)
      _ < 2 ^ 60 := by norm_num

/-! ## The three ways on -/

theorem convert_of_wide {state : Conversion} (attempts : ℕ)
    (h : 10 ^ (source.attempt mode state.decimalExponent).digits ≤
      (source.attempt mode state.decimalExponent).digitsValue.toNat)
    (he : (source.attempt mode state.decimalExponent).decimalExponent = e) :
    ∃ state' : Conversion, state'.decimalExponent = e + 1 ∧
      source.convert mode (attempts + 1) state = source.convert mode attempts state' ∧
      source.convertCalls mode (attempts + 1) state =
        source.attemptCalls mode state.decimalExponent ++ source.convertCalls mode attempts state' := by
  refine ⟨{ source.attempt mode state.decimalExponent with
    decimalExponent := (source.attempt mode state.decimalExponent).decimalExponent + 1 }, ?_, ?_, ?_⟩
  · dsimp only
    rw [he]
  · rw [convert]
    dsimp only
    rw [if_pos h]
  · rw [convertCalls]
    dsimp only
    rw [if_pos h]

theorem convert_of_narrow {state : Conversion} (attempts : ℕ)
    (h : (source.attempt mode state.decimalExponent).digitsValue.toNat <
      10 ^ (source.attempt mode state.decimalExponent).digits / 10)
    (hne : (source.attempt mode state.decimalExponent).digitsValue ≠ 0)
    (he : (source.attempt mode state.decimalExponent).decimalExponent = e) :
    ∃ state' : Conversion, state'.decimalExponent = e - 1 ∧
      source.convert mode (attempts + 1) state = source.convert mode attempts state' ∧
      source.convertCalls mode (attempts + 1) state =
        source.attemptCalls mode state.decimalExponent ++ source.convertCalls mode attempts state' := by
  have hfits := (h.trans_le (Nat.div_le_self _ 10)).not_ge
  refine ⟨{ source.attempt mode state.decimalExponent with
    decimalExponent := (source.attempt mode state.decimalExponent).decimalExponent - 1 }, ?_, ?_, ?_⟩
  · dsimp only
    rw [he]
  · rw [convert]
    dsimp only
    rw [if_neg hfits, if_pos (And.intro h hne)]
  · rw [convertCalls]
    dsimp only
    rw [if_neg hfits, if_pos (And.intro h hne)]

theorem convert_of_fits {state : Conversion} (attempts : ℕ)
    (hlow : 10 ^ ((source.attempt mode state.decimalExponent).digits - 1) ≤
      (source.attempt mode state.decimalExponent).digitsValue.toNat)
    (hhigh : (source.attempt mode state.decimalExponent).digitsValue.toNat <
      10 ^ (source.attempt mode state.decimalExponent).digits)
    (hone : 1 ≤ (source.attempt mode state.decimalExponent).digits) :
    source.convert mode (attempts + 1) state = (source.attempt mode state.decimalExponent, true) ∧
      source.convertCalls mode (attempts + 1) state =
        source.attemptCalls mode state.decimalExponent := by
  have htenth : 10 ^ (source.attempt mode state.decimalExponent).digits / 10 =
      10 ^ ((source.attempt mode state.decimalExponent).digits - 1) := by
    obtain ⟨n, hn⟩ := Nat.exists_eq_add_of_le' hone
    rw [hn, Nat.add_sub_cancel, pow_succ, Nat.mul_div_cancel _ (by decide)]
  have hnarrow : ¬ ((source.attempt mode state.decimalExponent).digitsValue.toNat <
      10 ^ (source.attempt mode state.decimalExponent).digits / 10 ∧
        (source.attempt mode state.decimalExponent).digitsValue ≠ 0) := by
    rw [htenth]
    exact fun h => h.1.not_ge hlow
  constructor
  · rw [convert, if_neg hhigh.not_ge, if_neg hnarrow]
  · rw [convertCalls, if_neg hhigh.not_ge, if_neg hnarrow, List.append_nil]

theorem written_eq_iff {n d : ℕ} (hd : 0 < d)
    (hfraction : (n : ℚ) / d = source.magnitude * 10 ^ source.places e)
    (hexponent : (source.attempt mode e).decimalExponent = e)
    (hdigits : (source.attempt mode e).digits = wantedDigits source.k e)
    (hvalue : (source.attempt mode e).digitsValue.toNat = (mode.direction source.sign).quotient n d) :
    (source.attempt mode e).written = source.magnitude ↔ d ∣ n := by
  have hpos : (0 : ℚ) < 10 ^ source.places e := zpow_pos (by norm_num) _
  have hplace : (source.attempt mode e).decimalExponent + 1 - (source.attempt mode e).digits =
      -source.places e := by
    rw [hexponent, hdigits]
    unfold places
    ring
  rw [← Direction.quotient_eq_iff (mode.direction source.sign) hd, ← hvalue, hfraction]
  unfold Conversion.written
  rw [hplace, zpow_neg, ← div_eq_mul_inv, div_eq_iff hpos.ne']

/-! ## The loop -/

theorem settled_of_fits {n d : ℕ} (hnear : e = t ∨ e = t + 1) (hd : 0 < d)
    (hfraction : (n : ℚ) / d = source.magnitude * 10 ^ source.places e)
    (hexponent : (source.attempt mode e).decimalExponent = e)
    (hdigits : (source.attempt mode e).digits = wantedDigits source.k e)
    (hvalue : (source.attempt mode e).digitsValue.toNat = (mode.direction source.sign).quotient n d)
    (hinexact : (source.attempt mode e).inexact = decide (¬ d ∣ n))
    (hlow : 10 ^ (wantedDigits source.k e - 1) ≤ (source.attempt mode e).digitsValue.toNat)
    (hhigh : (source.attempt mode e).digitsValue.toNat < 10 ^ wantedDigits source.k e)
    (hrounded : signed source.sign (source.attempt mode e).written =
      mode.toGrid (10 ^ (t + 1 - wantedDigits source.k t)) (signed source.sign source.magnitude)) :
    source.Settled mode t (source.attempt mode e) where
  near := by rw [hexponent]; exact hnear
  digits := by rw [hdigits, hexponent]
  low := by rw [hdigits]; exact hlow
  high := by rw [hdigits]; exact hhigh
  rounded := hrounded
  inexact := by
    rw [hinexact, decide_eq_true_iff, Ne, written_eq_iff hd hfraction hexponent hdigits hvalue]

/-- FROM THE VALUE'S OWN EXPONENT the loop settles in two attempts. -/
theorem settles_at (mode : Rounding) (hlow : (10 : ℚ) ^ t ≤ source.magnitude) (hhigh : source.magnitude < 10 ^ (t + 1))
    (ht : |t| ≤ 4960) (attempts : ℕ) {state : Conversion} (hstate : state.decimalExponent = t) :
    ∃ c, source.convert mode (attempts + 2) state = (c, true) ∧ source.Settled mode t c ∧
      ∀ call ∈ source.convertCalls mode (attempts + 2) state, call.Exact := by
  obtain ⟨n, d, hd, hfraction, hexponent, hdigits, hvalue, hinexact, hcalls⟩ :=
    attempt_near mode hlow hhigh ht (show t - 1 ≤ t by omega) (show t ≤ t + 1 by omega)
  obtain ⟨hone, -⟩ := wantedDigits_bounds source.k t
  obtain ⟨hleast, hmost⟩ := scaled_bounds hlow hhigh t
  have hdq : (0 : ℚ) < d := by exact_mod_cast hd
  obtain ⟨m, hm⟩ := Nat.exists_eq_add_of_le' hone
  rw [sub_self, sub_zero, hm] at hleast hmost
  rw [← hfraction] at hleast hmost
  have hleastNat : 10 ^ m * d ≤ n := by
    rw [Nat.cast_add, Nat.cast_one, add_sub_cancel_right, zpow_natCast, le_div_iff₀ hdq] at hleast
    exact_mod_cast hleast
  have hmostNat : n < 10 ^ (m + 1) * d := by
    rw [zpow_natCast, div_lt_iff₀ hdq] at hmost
    exact_mod_cast hmost
  have hqLow := (mode.direction source.sign).le_quotient hd hleastNat
  have hqHigh := (mode.direction source.sign).quotient_le hd hmostNat.le
  -- the value rounded in its own places
  have hunit : (0 : ℚ) < 10 ^ (t + 1 - (wantedDigits source.k t : ℤ)) := zpow_pos (by norm_num) _
  have hplaces : (10 : ℚ) ^ source.places t = ((10 : ℚ) ^ (t + 1 - (wantedDigits source.k t : ℤ)))⁻¹ := by
    rw [← zpow_neg]
    unfold places
    refine congrArg (fun place : ℤ => (10 : ℚ) ^ place) ?_
    ring
  have hgrid : mode.toGrid (10 ^ (t + 1 - (wantedDigits source.k t : ℤ)))
      (signed source.sign source.magnitude) =
      signed source.sign ((10 : ℚ) ^ (t + 1 - (wantedDigits source.k t : ℤ)) *
        ((mode.direction source.sign).quotient n d : ℕ)) :=
    mode.toGrid_signed source.sign hd (by rw [hfraction, hplaces, div_eq_mul_inv])
  rcases hqHigh.lt_or_eq with hfits | hcarry
  · -- it fits
    have hwritten : signed source.sign (source.attempt mode t).written =
        mode.toGrid (10 ^ (t + 1 - wantedDigits source.k t)) (signed source.sign source.magnitude) := by
      rw [hgrid]
      unfold Conversion.written
      rw [hexponent, hdigits, hvalue, mul_comm]
    have hsettled := settled_of_fits (.inl rfl) hd hfraction hexponent hdigits hvalue hinexact
      (by rw [hm, Nat.add_sub_cancel, hvalue]; exact hqLow) (by rw [hm, hvalue]; exact hfits) hwritten
    rw [← hstate] at hsettled hdigits hcalls ⊢
    obtain ⟨hconvert, hlist⟩ := convert_of_fits (attempts + 1) hsettled.low hsettled.high
      (by rw [hdigits, hstate]; exact hone)
    rw [hconvert, hlist]
    exact ⟨_, rfl, hsettled, hcalls⟩
  · -- the rounding carries: one exponent further on the answer is a power of ten again
    obtain ⟨n', d', hd', hfraction', hexponent', hdigits', hvalue', hinexact', hcalls'⟩ :=
      attempt_near mode hlow hhigh ht (show t - 1 ≤ t + 1 by omega) le_rfl
    have hd'q : (0 : ℚ) < d' := by exact_mod_cast hd'
    have hpower : (source.attempt mode (t + 1)).digitsValue.toNat =
        10 ^ (wantedDigits source.k (t + 1) - 1) := by
      rw [hvalue']
      rcases wantedDigits_succ source.k t with hsame | hmore
      · have hplace : source.places (t + 1) = source.places t - 1 := by
          unfold places
          rw [hsame]
          ring
        rw [hplace, zpow_sub_one₀ (by norm_num), ← mul_assoc, ← hfraction] at hfraction'
        have hcross : n' * (10 * d) = n * d' := by
          have hcast : (n' : ℚ) * (10 * d) = n * d' := by
            field_simp at hfraction'
            linarith
          exact_mod_cast hcast
        rw [hsame, hm, Nat.add_sub_cancel,
          Direction.quotient_congr _ hd' (Nat.mul_pos (by decide) hd) hcross]
        refine Direction.quotient_carry _ hd ?_ ?_
        · rwa [← pow_succ']
        · rwa [← pow_succ']
      · have hplace : source.places (t + 1) = source.places t := by
          unfold places
          rw [hmore]
          push_cast
          ring
        rw [hplace, ← hfraction, div_eq_div_iff hd'q.ne' hdq.ne'] at hfraction'
        have hcross : n' * d = n * d' := by exact_mod_cast hfraction'
        rw [hmore, hm, Nat.add_sub_cancel, Direction.quotient_congr _ hd' hd hcross]
        exact hcarry
    obtain ⟨hone', -⟩ := wantedDigits_bounds source.k (t + 1)
    have hten : (10 : ℚ) ≠ 0 := by norm_num
    have hwritten : signed source.sign (source.attempt mode (t + 1)).written =
        mode.toGrid (10 ^ (t + 1 - wantedDigits source.k t)) (signed source.sign source.magnitude) := by
      rw [hgrid, hcarry]
      unfold Conversion.written
      rw [hexponent', hdigits', hpower]
      push_cast
      rw [← zpow_natCast, ← zpow_natCast, ← zpow_add₀ hten, ← zpow_add₀ hten, hm, Nat.cast_sub hone']
      refine congrArg (fun place : ℤ => signed source.sign ((10 : ℚ) ^ place)) ?_
      push_cast
      ring
    have hsettled := settled_of_fits (.inr rfl) hd' hfraction' hexponent' hdigits' hvalue' hinexact'
      (by rw [hpower])
      (by
        rw [hpower]
        exact Nat.pow_lt_pow_right (by decide) (by omega)) hwritten
    have hwide : 10 ^ (source.attempt mode state.decimalExponent).digits ≤
        (source.attempt mode state.decimalExponent).digitsValue.toNat := by
      rw [hstate, hdigits, hvalue, hcarry, hm]
    rw [← hstate] at hexponent
    obtain ⟨state', hstate', hconvert, hlist⟩ := convert_of_wide (attempts + 1) hwide hexponent
    rw [hstate] at hstate'
    rw [← hstate'] at hsettled hdigits' hcalls'
    obtain ⟨hconvert', hlist'⟩ := convert_of_fits attempts hsettled.low hsettled.high
      (by rw [hdigits', hstate']; exact hone')
    rw [hconvert, hconvert', hlist, hlist']
    refine ⟨_, rfl, hsettled, fun call hcall => ?_⟩
    rcases List.mem_append.mp hcall with hcall | hcall
    · rw [hstate] at hcall
      exact hcalls call hcall
    · exact hcalls' call hcall

/-- THE LOOP SETTLES in three attempts from the exponent or one below. -/
theorem settles (hlow : (10 : ℚ) ^ t ≤ source.magnitude) (hhigh : source.magnitude < 10 ^ (t + 1))
    (ht : |t| ≤ 4960) (attempts : ℕ) {state : Conversion}
    (hstate : state.decimalExponent = t ∨ state.decimalExponent = t - 1) :
    ∃ c, source.convert mode (attempts + 3) state = (c, true) ∧ source.Settled mode t c ∧
      ∀ call ∈ source.convertCalls mode (attempts + 3) state, call.Exact := by
  rcases hstate with hstate | hstate
  · exact settles_at mode hlow hhigh ht (attempts + 1) hstate
  · obtain ⟨n, d, hd, hfraction, hexponent, hdigits, hvalue, -, hcalls⟩ :=
      attempt_near mode hlow hhigh ht (le_refl (t - 1)) (by omega)
    obtain ⟨hleast, -⟩ := scaled_bounds hlow hhigh (t - 1)
    have hdq : (0 : ℚ) < d := by exact_mod_cast hd
    have hplace : (wantedDigits source.k (t - 1) : ℤ) - 1 - (t - 1 - t) =
        (wantedDigits source.k (t - 1) : ℕ) := by ring
    rw [hplace, zpow_natCast, ← hfraction, le_div_iff₀ hdq] at hleast
    have hwide : 10 ^ (source.attempt mode state.decimalExponent).digits ≤
        (source.attempt mode state.decimalExponent).digitsValue.toNat := by
      rw [hstate, hdigits, hvalue]
      exact Direction.le_quotient _ hd (by exact_mod_cast hleast)
    rw [← hstate] at hexponent
    obtain ⟨state', hstate', hconvert, hlist⟩ := convert_of_wide (attempts + 2) hwide hexponent
    rw [hstate] at hstate'
    obtain ⟨c, hc, hsettled, hrest⟩ := settles_at mode hlow hhigh ht attempts
      (hstate'.trans (sub_add_cancel t 1))
    rw [hconvert, hlist]
    refine ⟨c, hc, hsettled, fun call hcall => ?_⟩
    rcases List.mem_append.mp hcall with hcall | hcall
    · rw [hstate] at hcall
      exact hcalls call hcall
    · exact hrest call hcall

/-- THE LOOP SETTLES from one exponent too high as well, unless the value rounds there to nothing or to the
power of ten above it. -/
theorem settles_above (hlow : (10 : ℚ) ^ t ≤ source.magnitude) (hhigh : source.magnitude < 10 ^ (t + 1))
    (ht : |t| ≤ 4960) (attempts : ℕ) {state : Conversion} (hstate : state.decimalExponent = t + 1)
    (hzero : mode.toGrid (10 ^ (t + 2 - (wantedDigits source.k (t + 1) : ℤ)))
      (signed source.sign source.magnitude) ≠ 0)
    (hpower : |mode.toGrid (10 ^ (t + 2 - (wantedDigits source.k (t + 1) : ℤ)))
      (signed source.sign source.magnitude)| ≠ 10 ^ (t + 1)) :
    ∃ c, source.convert mode (attempts + 3) state = (c, true) ∧ source.Settled mode t c ∧
      ∀ call ∈ source.convertCalls mode (attempts + 3) state, call.Exact := by
  obtain ⟨n, d, hd, hfraction, hexponent, hdigits, hvalue, -, hcalls⟩ :=
    attempt_near mode hlow hhigh ht (show t - 1 ≤ t + 1 by omega) (le_refl (t + 1))
  obtain ⟨hone, -⟩ := wantedDigits_bounds source.k (t + 1)
  obtain ⟨-, hmost⟩ := scaled_bounds hlow hhigh (t + 1)
  have hten : (10 : ℚ) ≠ 0 := by norm_num
  have hdq : (0 : ℚ) < d := by exact_mod_cast hd
  obtain ⟨m, hm⟩ := Nat.exists_eq_add_of_le' hone
  have hplaces : (10 : ℚ) ^ source.places (t + 1) =
      ((10 : ℚ) ^ (t + 2 - (wantedDigits source.k (t + 1) : ℤ)))⁻¹ := by
    rw [← zpow_neg]
    unfold places
    refine congrArg (fun place : ℤ => (10 : ℚ) ^ place) ?_
    ring
  have hgrid : mode.toGrid (10 ^ (t + 2 - (wantedDigits source.k (t + 1) : ℤ)))
      (signed source.sign source.magnitude) =
      signed source.sign ((10 : ℚ) ^ (t + 2 - (wantedDigits source.k (t + 1) : ℤ)) *
        ((mode.direction source.sign).quotient n d : ℕ)) :=
    mode.toGrid_signed source.sign hd (by rw [hfraction, hplaces, div_eq_mul_inv])
  rw [hgrid, ← hvalue] at hzero hpower
  have hplace : ((m + 1 : ℕ) : ℤ) - (t + 1 - t) = (m : ℕ) := by
    push_cast
    ring
  rw [hm, hplace, zpow_natCast, ← hfraction, div_lt_iff₀ hdq] at hmost
  have hmostNat : n < 10 ^ m * d := by exact_mod_cast hmost
  have hle := (mode.direction source.sign).quotient_le hd hmostNat.le
  rw [← hvalue] at hle
  have hnotPower : (source.attempt mode (t + 1)).digitsValue.toNat ≠ 10 ^ m := by
    intro h
    refine hpower ?_
    have hsum : t + 2 - ((m + 1 : ℕ) : ℤ) + (m : ℕ) = t + 1 := by
      push_cast
      ring
    have hproduct : (10 : ℚ) ^ (t + 2 - (wantedDigits source.k (t + 1) : ℤ)) *
        ((10 ^ m : ℕ) : ℚ) = 10 ^ (t + 1) := by
      rw [Nat.cast_pow, Nat.cast_ofNat, ← zpow_natCast, ← zpow_add₀ hten, hm, hsum]
    rw [h, hproduct, abs_signed]
    exact abs_of_pos (zpow_pos (by norm_num) _)
  have hnarrow : (source.attempt mode state.decimalExponent).digitsValue.toNat <
      10 ^ (source.attempt mode state.decimalExponent).digits / 10 := by
    rw [hstate, hdigits, hm, pow_succ, Nat.mul_div_cancel _ (by decide)]
    exact hle.lt_of_ne hnotPower
  have hne : (source.attempt mode state.decimalExponent).digitsValue ≠ 0 := by
    intro h
    rw [hstate] at h
    refine hzero ?_
    rw [h]
    cases source.sign <;> simp [signed]
  rw [← hstate] at hexponent
  obtain ⟨state', hstate', hconvert, hlist⟩ := convert_of_narrow (attempts + 2) hnarrow hne hexponent
  obtain ⟨c, hc, hsettled, hrest⟩ := settles_at mode hlow hhigh ht attempts
    (hstate'.trans (by rw [hstate]; ring))
  rw [hconvert, hlist]
  refine ⟨c, hc, hsettled, fun call hcall => ?_⟩
  rcases List.mem_append.mp hcall with hcall | hcall
  · rw [hstate] at hcall
    exact hcalls call hcall
  · exact hrest call hcall

end Source

end Apollo.M68882
