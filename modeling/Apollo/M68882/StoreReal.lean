import Mathlib
import Apollo.M68882.Operation
import Apollo.M68882.Store

/-!
# Storing a single or a double

The bits of the two formats, without the sign, are one number that runs through the subnormals, the
normal numbers and the infinity without a gap: so many units of a place, `count`, in the row of an
exponent. A rounding that carries only makes that number one larger, and the stores are right wherever
they round at all. The one place where they do not is half of the smallest subnormal.
-/

namespace Apollo.M68882

open Apollo.Lib

namespace RealFormat

/-- What the shapes of both formats keep. -/
structure Sound (f : RealFormat) : Prop where
  fraction_pos : 1 ≤ f.fractionBits
  fraction_le : f.fractionBits ≤ 52
  width : f.exponentBits + f.fractionBits + 1 = 8 * f.size
  size_le : f.size ≤ 8
  maxField_eq : (f.maxField : ℤ) = 2 * f.bias + 1
  bias_pos : 1 ≤ f.bias
  bias_le : f.bias ≤ 1023
  precision_bits : f.precision.bits = f.fractionBits + 1

theorem sound_single : singleFormat.Sound := by
  refine ⟨?_, ?_, ?_, ?_, ?_, ?_, ?_, ?_⟩ <;> decide

theorem sound_double : doubleFormat.Sound := by
  refine ⟨?_, ?_, ?_, ?_, ?_, ?_, ?_, ?_⟩ <;> decide

/-- A pattern of the format as a value, by its three fields. -/
def decode (f : RealFormat) (bits : BitVec 64) : Extended :=
  fromIeee (bits.toNat / 2 ^ (f.exponentBits + f.fractionBits) % 2 == 1)
    (bits.toNat / 2 ^ f.fractionBits % 2 ^ f.exponentBits)
    (BitVec.ofNat 64 (bits.toNat % 2 ^ f.fractionBits)) f.exponentBits f.fractionBits f.bias

/-- A pattern as a number: the sign, the exponent field and the fraction. -/
def pattern (f : RealFormat) (sign : Bool) (exponent fraction : ℕ) : ℕ :=
  (if sign then 2 ^ (f.exponentBits + f.fractionBits) else 0) +
    (exponent * 2 ^ f.fractionBits + fraction)

variable {f : RealFormat} {s : Bool} {e fr : ℕ}

theorem maxField_lt (f : RealFormat) : f.maxField < 2 ^ f.exponentBits :=
  Nat.sub_lt (Nat.two_pow_pos _) Nat.one_pos

theorem fields_lt (he : e ≤ f.maxField) (hfr : fr < 2 ^ f.fractionBits) :
    e * 2 ^ f.fractionBits + fr < 2 ^ (f.exponentBits + f.fractionBits) := by
  have hmax := f.maxField_lt
  calc e * 2 ^ f.fractionBits + fr < (e + 1) * 2 ^ f.fractionBits := by rw [add_mul, one_mul]; omega
    _ ≤ 2 ^ f.exponentBits * 2 ^ f.fractionBits := Nat.mul_le_mul_right _ (by omega)
    _ = 2 ^ (f.exponentBits + f.fractionBits) := (pow_add 2 _ _).symm

theorem places_lt (hf : f.Sound) : f.exponentBits + f.fractionBits < 64 := by
  have hwidth := hf.width
  have hsize := hf.size_le
  omega

theorem pattern_lt (hf : f.Sound) (s : Bool) (he : e ≤ f.maxField) (hfr : fr < 2 ^ f.fractionBits) :
    f.pattern s e fr < 2 ^ (8 * f.size) := by
  have hlt := fields_lt he hfr
  rw [← hf.width, pow_succ]
  unfold pattern
  split_ifs <;> omega

theorem toNat_assemble (hf : f.Sound) (s : Bool) (he : e ≤ f.maxField) (fraction : BitVec 64)
    (hfr : fraction.toNat < 2 ^ f.fractionBits) :
    (f.assemble s e fraction).toNat = f.pattern s e fraction.toNat := by
  have hplaces := places_lt hf
  have hlt := fields_lt he hfr
  have hword : 2 ^ (f.exponentBits + f.fractionBits) < 2 ^ 64 :=
    Nat.pow_lt_pow_right (by decide) hplaces
  have hsmall : e < 2 ^ 64 := by
    have hmul := Nat.le_mul_of_pos_right e (Nat.two_pow_pos f.fractionBits)
    omega
  have hmask := toNat_and_lowMask fraction (show f.fractionBits < 64 by omega)
  rw [Nat.mod_eq_of_lt hfr] at hmask
  have hexponent : (BitVec.ofNat 64 e <<< f.fractionBits).toNat = 2 ^ f.fractionBits * e := by
    rw [BitVec.toNat_shiftLeft, BitVec.toNat_ofNat, Nat.mod_eq_of_lt hsmall, Nat.shiftLeft_eq,
      Nat.mod_eq_of_lt (by omega), mul_comm]
  have hsign : (if s then (1 : BitVec 64) <<< (f.exponentBits + f.fractionBits) else 0).toNat =
      2 ^ (f.exponentBits + f.fractionBits) * s.toNat := by
    cases s
    · rfl
    · exact (toNat_one_shiftLeft hplaces).trans (Nat.mul_one _).symm
  unfold assemble pattern
  rw [BitVec.toNat_or, BitVec.toNat_or, hsign, hexponent, hmask, Nat.or_assoc,
    ← Nat.two_pow_add_eq_or_of_lt hfr, mul_comm (2 ^ f.fractionBits) e,
    ← Nat.two_pow_add_eq_or_of_lt hlt]
  cases s <;> simp

theorem decode_eq {bits : BitVec 64} (h : bits.toNat = f.pattern s e fr) (he : e ≤ f.maxField)
    (hfr : fr < 2 ^ f.fractionBits) :
    f.decode bits =
      fromIeee s e (BitVec.ofNat 64 fr) f.exponentBits f.fractionBits f.bias := by
  have hlt := fields_lt he hfr
  have hp := Nat.two_pow_pos f.fractionBits
  have hmax := f.maxField_lt
  have hnumber : bits.toNat = 2 ^ (f.exponentBits + f.fractionBits) * s.toNat +
      (2 ^ f.fractionBits * e + fr) := by
    rw [h]
    unfold pattern
    cases s <;> simp [mul_comm]
  rw [mul_comm e] at hlt
  have hsign : bits.toNat / 2 ^ (f.exponentBits + f.fractionBits) % 2 = s.toNat := by
    rw [hnumber, Nat.mul_add_div (Nat.two_pow_pos _), Nat.div_eq_of_lt hlt, add_zero]
    cases s <;> rfl
  have hexponent : bits.toNat / 2 ^ f.fractionBits % 2 ^ f.exponentBits = e := by
    rw [hnumber, add_comm f.exponentBits, pow_add, mul_assoc, ← Nat.add_assoc, ← mul_add,
      Nat.mul_add_div hp, Nat.div_eq_of_lt hfr, add_zero, Nat.mul_add_mod, Nat.mod_eq_of_lt (by omega)]
  have hfraction : bits.toNat % 2 ^ f.fractionBits = fr := by
    rw [hnumber, add_comm f.exponentBits, pow_add, mul_assoc, ← Nat.add_assoc, ← mul_add,
      Nat.mul_add_mod, Nat.mod_eq_of_lt hfr]
  unfold decode
  rw [hsign, hexponent, hfraction]
  cases s <;> rfl

/-! ## The row and the count -/

/-- The fields of so many units in the row of an exponent, from the smallest one: a count of a whole row
or two carries into the exponent. -/
theorem row_fields {row count : ℕ} (hrow : 1 ≤ row) (hcount : count ≤ 2 ^ (f.fractionBits + 1))
    (hnormal : row ≠ 1 → 2 ^ f.fractionBits ≤ count) :
    ∃ e fr, fr < 2 ^ f.fractionBits ∧
      (row - 1) * 2 ^ f.fractionBits + count = e * 2 ^ f.fractionBits + fr ∧
      (e = 0 ∧ row = 1 ∧ fr = count ∨ e = row ∧ count = 2 ^ f.fractionBits + fr ∨
        e = row + 1 ∧ fr = 0 ∧ count = 2 ^ (f.fractionBits + 1)) := by
  obtain ⟨r, rfl⟩ : ∃ r, row = r + 1 := ⟨row - 1, by omega⟩
  have hp := Nat.two_pow_pos f.fractionBits
  rw [pow_succ] at hcount ⊢
  rw [Nat.add_sub_cancel]
  rcases Nat.lt_or_ge count (2 ^ f.fractionBits) with hlow | hhigh
  · have hfirst : r = 0 := by
      by_contra hr
      exact absurd (hnormal (by omega)) hlow.not_ge
    exact ⟨0, count, hlow, by rw [hfirst], .inl ⟨rfl, by omega, rfl⟩⟩
  · rcases hcount.lt_or_eq with hlt | rfl
    · refine ⟨r + 1, count - 2 ^ f.fractionBits, by omega, ?_, .inr (.inl ⟨rfl, by omega⟩)⟩
      rw [add_mul, one_mul]
      omega
    · refine ⟨r + 2, 0, hp, ?_, .inr (.inr ⟨rfl, rfl, rfl⟩)⟩
      ring

theorem value_of_fields (hf : f.Sound) {x : Extended} {n : ℕ} {unbiased : ℤ}
    (hlow : -1022 ≤ unbiased) (hhigh : unbiased ≤ 1023)
    (hexponent : x.exponent = BitVec.ofInt 16 (unbiased + biasExtended))
    (hmantissa : x.mantissa.toNat = n * 2 ^ (63 - f.fractionBits)) :
    x.Finite ∧ x.value = signed x.sign ((n : ℚ) * 2 ^ (unbiased - f.fractionBits)) := by
  have hle := hf.fraction_le
  have hext : biasExtended = 16383 := rfl
  have hfield : (x.exponent.toNat : ℤ) = unbiased + biasExtended := by
    obtain ⟨k, hk⟩ : ∃ k : ℕ, unbiased + biasExtended = k := ⟨(unbiased + biasExtended).toNat, by omega⟩
    rw [hexponent, hk, BitVec.ofInt_natCast, BitVec.toNat_ofNat, Nat.mod_eq_of_lt (by omega)]
  refine ⟨?_, ?_⟩
  · unfold Extended.Finite
    omega
  · have hunit : (x.exponent.toNat : ℤ) - unitPlace =
        unbiased - f.fractionBits - (63 - f.fractionBits : ℕ) := by
      rw [hfield, ← unitPlace_eq]
      clear hmantissa
      omega
    rw [value_eq, hunit, hmantissa, zpow_sub₀ two_ne_zero _ ((63 - f.fractionBits : ℕ) : ℤ),
      zpow_natCast, Nat.cast_mul, Nat.cast_pow, Nat.cast_ofNat, mul_assoc,
      mul_div_cancel₀ _ (pow_ne_zero _ two_ne_zero)]

theorem value_fromIeee (hf : f.Sound) (s : Bool) (he : e < f.maxField)
    (hfr : fr < 2 ^ f.fractionBits) :
    (fromIeee s e (BitVec.ofNat 64 fr) f.exponentBits f.fractionBits f.bias).Finite ∧
      (fromIeee s e (BitVec.ofNat 64 fr) f.exponentBits f.fractionBits f.bias).sign = s ∧
      (fromIeee s e (BitVec.ofNat 64 fr) f.exponentBits f.fractionBits f.bias).value =
        signed s (((if e = 0 then fr else 2 ^ f.fractionBits + fr : ℕ) : ℚ) *
          2 ^ ((if e = 0 then 1 else (e : ℤ)) - f.bias - f.fractionBits)) := by
  have hbias := hf.bias_le
  have hpos := hf.bias_pos
  have hle := hf.fraction_le
  have hmax := hf.maxField_eq
  have hword : fr < 2 ^ 64 := hfr.trans_le (Nat.pow_le_pow_right (by decide) (by omega))
  have hup : 2 ^ f.fractionBits * 2 ^ (63 - f.fractionBits) = 2 ^ 63 := by
    rw [← pow_add]
    congr 1
    omega
  have hmul := Nat.mul_lt_mul_of_pos_right hfr (Nat.two_pow_pos (63 - f.fractionBits))
  have hshift : (BitVec.ofNat 64 fr <<< (63 - f.fractionBits)).toNat =
      fr * 2 ^ (63 - f.fractionBits) := by
    rw [BitVec.toNat_shiftLeft, BitVec.toNat_ofNat, Nat.mod_eq_of_lt hword, Nat.shiftLeft_eq,
      Nat.mod_eq_of_lt (by omega)]
  have hnotMax : ¬ e = 2 ^ f.exponentBits - 1 := he.ne
  unfold fromIeee
  rw [if_neg hnotMax]
  by_cases hzero : e = 0
  · rw [if_pos hzero, if_pos hzero, if_pos hzero]
    by_cases hnone : fr = 0
    · subst hnone
      have hnone : BitVec.ofNat 64 0 = 0 := rfl
      have hempty : signed s (0 : ℚ) = 0 := by
        cases s
        · rfl
        · exact neg_zero
      rw [if_pos hnone, Nat.cast_zero, zero_mul, hempty]
      exact ⟨show 0 < 0x7FFF by decide, rfl, value_of_mantissa_zero rfl⟩
    · have hsome : ¬ BitVec.ofNat 64 fr = 0 := by
        rw [toNat_eq_zero_iff, BitVec.toNat_ofNat, Nat.mod_eq_of_lt hword]
        exact hnone
      rw [if_neg hsome]
      obtain ⟨hfinite, hvalue⟩ := value_of_fields hf
        (x := ⟨s, BitVec.ofInt 16 (1 - f.bias + biasExtended),
          BitVec.ofNat 64 fr <<< (63 - f.fractionBits)⟩) (n := fr)
        (by omega) (by omega) rfl hshift
      exact ⟨hfinite, rfl, hvalue⟩
  · rw [if_neg hzero, if_neg hzero, if_neg hzero]
    have hmantissa : (integerBit ||| BitVec.ofNat 64 fr <<< (63 - f.fractionBits)).toNat =
        (2 ^ f.fractionBits + fr) * 2 ^ (63 - f.fractionBits) := by
      have hbit : integerBit.toNat = 2 ^ 63 * 1 := by decide
      rw [BitVec.toNat_or, hshift, hbit, ← Nat.two_pow_add_eq_or_of_lt (by omega), add_mul, hup, mul_one]
    obtain ⟨hfinite, hvalue⟩ := value_of_fields hf
      (x := ⟨s, BitVec.ofInt 16 ((e : ℤ) - f.bias + biasExtended),
        integerBit ||| BitVec.ofNat 64 fr <<< (63 - f.fractionBits)⟩)
      (n := 2 ^ f.fractionBits + fr) (by omega) (by omega) rfl hmantissa
    exact ⟨hfinite, rfl, hvalue⟩

theorem value_decode (hf : f.Sound) {bits : BitVec 64} (row count : ℕ)
    (hbits : bits.toNat = f.pattern s (row - 1) count) (hrow : 1 ≤ row)
    (hcount : count ≤ 2 ^ (f.fractionBits + 1)) (hnormal : row ≠ 1 → 2 ^ f.fractionBits ≤ count)
    (hfinite : (row - 1) * 2 ^ f.fractionBits + count < f.maxField * 2 ^ f.fractionBits) :
    (f.decode bits).Finite ∧ (f.decode bits).sign = s ∧
      (f.decode bits).value = signed s ((count : ℚ) * 2 ^ ((row : ℤ) - f.bias - f.fractionBits)) := by
  obtain ⟨e, fr, hfr, hfields, hcases⟩ := row_fields hrow hcount hnormal
  have he : e < f.maxField := by
    rw [hfields] at hfinite
    exact Nat.lt_of_mul_lt_mul_right ((Nat.le_add_right _ _).trans_lt hfinite)
  have hsame : bits.toNat = f.pattern s e fr := by
    rw [hbits]
    unfold pattern
    rw [hfields]
  rw [decode_eq hsame he.le hfr]
  obtain ⟨hfin, hsign, hvalue⟩ := value_fromIeee hf s he hfr
  refine ⟨hfin, hsign, hvalue.trans (congrArg (signed s) ?_)⟩
  rcases hcases with ⟨rfl, rfl, rfl⟩ | ⟨rfl, rfl⟩ | ⟨rfl, rfl, rfl⟩
  · rfl
  · rw [if_neg (by omega), if_neg (by omega)]
  · have hplace : ((row + 1 : ℕ) : ℤ) - f.bias - f.fractionBits =
        1 + ((row : ℤ) - f.bias - f.fractionBits) := by
      push_cast
      ring
    rw [if_neg (by omega), if_neg (by omega), hplace, zpow_add₀ two_ne_zero, zpow_one, add_zero,
      pow_succ, Nat.cast_mul, ← mul_assoc, Nat.cast_ofNat]

theorem decode_infinity {bits : BitVec 64} (hbits : bits.toNat = f.pattern s f.maxField 0) :
    f.decode bits = makeInfinity s := by
  rw [decode_eq hbits le_rfl (Nat.two_pow_pos _)]
  have hmax : f.maxField = 2 ^ f.exponentBits - 1 := rfl
  have hnone : BitVec.ofNat 64 0 = 0 := rfl
  unfold fromIeee
  rw [if_pos hmax, if_pos hnone]
  rfl

/-! ## Rounding into the format -/

/-- The row of a number whose exponent, in the format, would be `rebiased`: gradual underflow keeps the
first. -/
def row (rebiased : ℤ) : ℕ := (max rebiased 1).toNat

/-- How many places of the significand are below the unit of its row. -/
def places (f : RealFormat) (rebiased : ℤ) : ℕ := 63 - f.fractionBits + (1 - rebiased).toNat

/-- The units of its row that a significand is rounded to. -/
def count (f : RealFormat) (sign : Bool) (mantissa : BitVec 64) (rebiased : ℤ) (mode : Rounding) : ℕ :=
  (mode.direction sign).quotient mantissa.toNat (2 ^ f.places rebiased)

/-- The exceptions of a rounding: inexact, a number below the smallest normal one, a result beyond the
range. -/
def raised (f : RealFormat) (sign : Bool) (mantissa : BitVec 64) (rebiased : ℤ) (mode : Rounding) :
    BitVec 32 :=
  (if 2 ^ f.places rebiased ∣ mantissa.toNat then 0 else excInex2) |||
    (if rebiased ≤ 0 then excUnfl else 0) |||
    (if f.maxField * 2 ^ f.fractionBits ≤
        (row rebiased - 1) * 2 ^ f.fractionBits + f.count sign mantissa rebiased mode then excOvfl
      else 0)

variable {mantissa : BitVec 64} {rebiased : ℤ} {mode : Rounding}

theorem rounded_spec (keep : ℕ) (hone : 1 ≤ keep) (hall : keep ≤ 64) (s : Bool) (mantissa : BitVec 64)
    (mode : Rounding) :
    (roundToBits ⟨s, 0x3FFF, mantissa⟩ false false false mode keep).inexact =
        decide (¬ 2 ^ (64 - keep) ∣ mantissa.toNat) ∧
      (mode.direction s).quotient mantissa.toNat (2 ^ (64 - keep)) ≤ 2 ^ keep ∧
      (roundToBits ⟨s, 0x3FFF, mantissa⟩ false false false mode keep).value =
        if (mode.direction s).quotient mantissa.toNat (2 ^ (64 - keep)) = 2 ^ keep then
          ⟨s, 0x3FFF + 1, integerBit⟩
        else
          ⟨s, 0x3FFF, BitVec.ofNat 64
            ((mode.direction s).quotient mantissa.toNat (2 ^ (64 - keep)) * 2 ^ (64 - keep))⟩ := by
  have hnothing : Direction.Encodes false (false || false) 0 1 := ⟨by decide, by decide⟩
  obtain ⟨hinexact, hle, hvalue⟩ := roundToBits_spec ⟨s, 0x3FFF, mantissa⟩ mode hone hall
    Nat.one_pos hnothing rfl
  have hpow : 2 ^ 64 = 2 ^ keep * 2 ^ (64 - keep) := by
    rw [← pow_add]
    congr 1
    omega
  have hpos := Nat.two_pow_pos (64 - keep)
  simp only [mul_one, add_zero] at hinexact hle hvalue
  rw [hpow] at hle hvalue
  rw [hvalue]
  refine ⟨hinexact, Nat.le_of_mul_le_mul_right hle hpos, if_congr ?_ rfl rfl⟩
  exact Nat.mul_left_inj hpos.ne'

theorem pattern_congr {e' fr' : ℕ} (s : Bool)
    (h : e * 2 ^ f.fractionBits + fr = e' * 2 ^ f.fractionBits + fr') :
    f.pattern s e fr = f.pattern s e' fr' :=
  congrArg (_ + ·) h

theorem toNat_assemble_first (hf : f.Sound) {n k : ℕ}
    (hmantissa : mantissa.toNat = n * 2 ^ (63 - f.fractionBits + k)) (hn : n < 2 ^ f.fractionBits) :
    (f.assemble s 0 (mantissa >>> (63 - f.fractionBits) >>> k)).toNat = f.pattern s 0 n := by
  have hdown : (mantissa >>> (63 - f.fractionBits) >>> k).toNat = n := by
    rw [BitVec.toNat_ushiftRight, BitVec.toNat_ushiftRight, ← Nat.shiftRight_add,
      Nat.shiftRight_eq_div_pow, hmantissa, Nat.mul_div_cancel _ (Nat.two_pow_pos _)]
  rw [toNat_assemble hf s (Nat.zero_le _) _ (by rw [hdown]; exact hn), hdown]

theorem toNat_assemble_full (hf : f.Sound) {e : ℕ} (he : e + 1 ≤ f.maxField)
    (hmantissa : mantissa.toNat = (2 ^ f.fractionBits + fr) * 2 ^ (63 - f.fractionBits))
    (hfr : fr < 2 ^ f.fractionBits) :
    (f.assemble s (e + 1) ((mantissa &&& ~~~integerBit) >>> (63 - f.fractionBits))).toNat =
      f.pattern s e (2 ^ f.fractionBits + fr) := by
  have hle := hf.fraction_le
  have hpos := Nat.two_pow_pos (63 - f.fractionBits)
  have hup : 2 ^ f.fractionBits * 2 ^ (63 - f.fractionBits) = 2 ^ 63 := by
    rw [← pow_add]
    congr 1
    omega
  have hdown : ((mantissa &&& ~~~integerBit) >>> (63 - f.fractionBits)).toNat = fr := by
    have hless : fr * 2 ^ (63 - f.fractionBits) < 2 ^ 63 := by
      rw [← hup]
      exact Nat.mul_lt_mul_of_pos_right hfr hpos
    rw [BitVec.toNat_ushiftRight, toNat_not_integerBit, Nat.shiftRight_eq_div_pow, hmantissa, add_mul,
      hup, Nat.add_mod_left, Nat.mod_eq_of_lt hless, Nat.mul_div_cancel _ hpos]
  rw [toNat_assemble hf s he _ (by rw [hdown]; exact hfr), hdown]
  refine pattern_congr s ?_
  ring

theorem or_none (exceptions : BitVec 32) : exceptions ||| 0 = exceptions := BitVec.or_zero

theorem exceptions_eq (d m : ℕ) :
    (if decide (¬ d ∣ m) = true then excInex2 else 0) = if d ∣ m then 0 else excInex2 := by
  by_cases h : d ∣ m <;> simp only [h, not_true, not_false_iff, decide_true, decide_false, if_true,
    if_false, Bool.false_eq_true]

theorem storeRounded_normal (hf : f.Sound) (s : Bool) (hset : 2 ^ 63 ≤ mantissa.toNat)
    (hlow : 1 ≤ rebiased) (hhigh : rebiased < f.maxField) (mode : Rounding) :
    (f.storeRounded s mantissa rebiased (f.fractionBits + 1) mode).1.toNat =
        f.pattern s (row rebiased - 1) (f.count s mantissa rebiased mode) ∧
      (f.storeRounded s mantissa rebiased (f.fractionBits + 1) mode).2 =
        f.raised s mantissa rebiased mode := by
  obtain ⟨r, rfl⟩ : ∃ r : ℕ, rebiased = r + 1 := ⟨(rebiased - 1).toNat, by omega⟩
  have hle := hf.fraction_le
  have hrow : row ((r : ℤ) + 1) = r + 1 := by
    unfold row
    omega
  have hplaces : f.places ((r : ℤ) + 1) = 64 - (f.fractionBits + 1) := by
    unfold places
    omega
  have hnotSub : ¬ ((r : ℤ) + 1 ≤ 0) := by omega
  have hr : r + 1 < f.maxField := by omega
  have hp := Nat.two_pow_pos f.fractionBits
  have hdrop : 64 - (f.fractionBits + 1) = 63 - f.fractionBits := by omega
  have hup : 2 ^ f.fractionBits * 2 ^ (63 - f.fractionBits) = 2 ^ 63 := by
    rw [← pow_add]
    congr 1
    omega
  obtain ⟨hinexact, hcount, hvalue⟩ :=
    rounded_spec (f.fractionBits + 1) (by omega) (by omega) s mantissa mode
  have hleast : 2 ^ f.fractionBits ≤
      (mode.direction s).quotient mantissa.toNat (2 ^ (64 - (f.fractionBits + 1))) := by
    refine Direction.le_quotient _ (Nat.two_pow_pos _) ?_
    rw [hdrop, hup]
    exact hset
  unfold raised count
  rw [hrow, hplaces, Nat.add_sub_cancel, if_neg hnotSub]
  unfold storeRounded
  dsimp only
  rw [if_neg hnotSub, hinexact, exceptions_eq]
  generalize (mode.direction s).quotient mantissa.toNat (2 ^ (64 - (f.fractionBits + 1))) = q at *
  rw [hvalue]
  by_cases hcarry : q = 2 ^ (f.fractionBits + 1)
  · have hexp : (0x3FFF : BitVec 16) + 1 ≠ 0x3FFF := by decide
    have hlast : (r + 2) * 2 ^ f.fractionBits + 0 = r * 2 ^ f.fractionBits + q := by
      rw [hcarry, pow_succ]
      ring
    rw [if_pos hcarry]
    dsimp only
    rw [if_pos hexp]
    by_cases hout : f.maxField = r + 2
    · rw [if_pos (by omega), hout, ← hlast, if_pos (Nat.add_zero _).ge]
      exact ⟨(toNat_assemble hf s hout.ge 0 hp).trans (pattern_congr s hlast), rfl⟩
    · have hmore : ¬ f.maxField * 2 ^ f.fractionBits ≤ r * 2 ^ f.fractionBits + q := by
        rw [← hlast, Nat.add_zero, Nat.mul_le_mul_right_iff hp]
        omega
      have hafter : ((r : ℤ) + 1 + 1).toNat = r + 1 + 1 := by omega
      have hbit : integerBit.toNat = (2 ^ f.fractionBits + 0) * 2 ^ (63 - f.fractionBits) := by
        rw [add_zero, hup]
        decide
      rw [if_neg (by omega), if_neg (by omega), if_neg hmore, hafter]
      refine ⟨(toNat_assemble_full hf (by omega) hbit hp).trans (pattern_congr s ?_),
        (or_none _).symm⟩
      rw [← hlast]
      ring
  · have hless : q < 2 ^ (f.fractionBits + 1) := lt_of_le_of_ne hcount hcarry
    have hmore : ¬ f.maxField * 2 ^ f.fractionBits ≤ r * 2 ^ f.fractionBits + q := by
      have hmul : (r + 2) * 2 ^ f.fractionBits ≤ f.maxField * 2 ^ f.fractionBits :=
        Nat.mul_le_mul_right _ hr
      rw [pow_succ] at hless
      rw [add_mul] at hmul
      omega
    have hafter : ((r : ℤ) + 1 + 0).toNat = r + 1 := by omega
    have hbits : (BitVec.ofNat 64 (q * 2 ^ (64 - (f.fractionBits + 1)))).toNat =
        (2 ^ f.fractionBits + (q - 2 ^ f.fractionBits)) * 2 ^ (63 - f.fractionBits) := by
      have hfits : q * 2 ^ (63 - f.fractionBits) < 2 ^ 64 := by
        have hmul := Nat.mul_lt_mul_of_pos_right hless (Nat.two_pow_pos (63 - f.fractionBits))
        rw [pow_succ, mul_right_comm, hup] at hmul
        exact hmul
      rw [Nat.add_sub_cancel' hleast, hdrop, BitVec.toNat_ofNat, Nat.mod_eq_of_lt hfits]
    rw [if_neg hcarry]
    dsimp only
    rw [if_neg (not_not.mpr rfl), if_neg (by omega), if_neg (by omega), if_neg hmore, hafter]
    have hfull := toNat_assemble_full (s := s) (e := r) hf (by omega) hbits (by rw [pow_succ] at hless; omega)
    rw [Nat.add_sub_cancel' hleast] at hfull
    exact ⟨hfull, (or_none _).symm⟩

theorem storeRounded_first (hf : f.Sound) (s : Bool) (mantissa : BitVec 64)
    (hlow : 1 ≤ (f.fractionBits : ℤ) + rebiased) (hhigh : rebiased ≤ 0) (mode : Rounding) :
    (f.storeRounded s mantissa rebiased ((f.fractionBits : ℤ) + rebiased).toNat mode).1.toNat =
        f.pattern s (row rebiased - 1) (f.count s mantissa rebiased mode) ∧
      (f.storeRounded s mantissa rebiased ((f.fractionBits : ℤ) + rebiased).toNat mode).2 =
        f.raised s mantissa rebiased mode := by
  obtain ⟨k, rfl⟩ : ∃ k : ℕ, rebiased = -k := ⟨(-rebiased).toNat, by omega⟩
  have hle := hf.fraction_le
  have hmax := hf.maxField_eq
  have hbias := hf.bias_pos
  have hrow : row (-(k : ℤ)) = 1 := by
    unfold row
    omega
  obtain ⟨keep, hkeep⟩ : ∃ keep, f.fractionBits = k + keep := ⟨f.fractionBits - k, by omega⟩
  have hkept : ((f.fractionBits : ℤ) + -(k : ℤ)).toNat = keep := by omega
  have hplaces : f.places (-(k : ℤ)) = 64 - keep := by
    unfold places
    omega
  have hdown : 64 - keep = 63 - f.fractionBits + (k + 1) := by omega
  have hsub : (-(k : ℤ)) ≤ 0 := by omega
  obtain ⟨hinexact, hcount, hvalue⟩ :=
    rounded_spec keep (by omega) (by omega) s mantissa mode
  have hrowFull : 2 ^ keep ≤ 2 ^ f.fractionBits := Nat.pow_le_pow_right (by decide) (by omega)
  have hmore : ¬ f.maxField * 2 ^ f.fractionBits ≤
      0 * 2 ^ f.fractionBits + (mode.direction s).quotient mantissa.toNat (2 ^ (64 - keep)) := by
    have htwo : 2 * 2 ^ f.fractionBits ≤ f.maxField * 2 ^ f.fractionBits :=
      Nat.mul_le_mul_right _ (by omega)
    have hpos := Nat.two_pow_pos f.fractionBits
    omega
  unfold raised count
  rw [hrow, hplaces, Nat.sub_self, if_pos hsub, hkept, if_neg hmore, or_none]
  unfold storeRounded
  dsimp only
  rw [if_pos hsub, hinexact, exceptions_eq]
  generalize (mode.direction s).quotient mantissa.toNat (2 ^ (64 - keep)) = q at *
  rw [hvalue]
  by_cases hcarry : q = 2 ^ keep
  · have hexp : (0x3FFF : BitVec 16) + 1 ≠ 0x3FFF := by decide
    rw [if_pos hcarry]
    dsimp only
    rw [if_pos hexp, if_neg (by omega)]
    by_cases hlast : k = 0
    · have hafter : (-(k : ℤ) + 1).toNat = 0 + 1 := by omega
      have hbit : integerBit.toNat = (2 ^ f.fractionBits + 0) * 2 ^ (63 - f.fractionBits) := by
        rw [add_zero, ← pow_add, show f.fractionBits + (63 - f.fractionBits) = 63 by omega]
        decide
      rw [if_neg (by omega), hafter]
      refine ⟨(toNat_assemble_full hf (by omega) hbit (Nat.two_pow_pos _)).trans ?_, rfl⟩
      rw [add_zero, hcarry, hkeep, hlast, Nat.zero_add]
    · have hafter : (1 - (-(k : ℤ) + 1)).toNat = k := by omega
      have hbit : integerBit.toNat = 2 ^ keep * 2 ^ (63 - f.fractionBits + k) := by
        rw [← pow_add, show keep + (63 - f.fractionBits + k) = 63 by omega]
        decide
      rw [if_pos (by omega), hafter, hcarry]
      exact ⟨toNat_assemble_first hf hbit (Nat.pow_lt_pow_right (by decide) (by omega)), rfl⟩
  · have hless : q < 2 ^ keep := lt_of_le_of_ne hcount hcarry
    have hafter : (1 - (-(k : ℤ) + 0)).toNat = k + 1 := by omega
    have hbits : (BitVec.ofNat 64 (q * 2 ^ (64 - keep))).toNat =
        q * 2 ^ (63 - f.fractionBits + (k + 1)) := by
      have hfits : q * 2 ^ (64 - keep) < 2 ^ 64 := by
        calc q * 2 ^ (64 - keep) < 2 ^ keep * 2 ^ (64 - keep) :=
              Nat.mul_lt_mul_of_pos_right hless (Nat.two_pow_pos _)
          _ = 2 ^ 64 := by rw [← pow_add]; congr 1; omega
      rw [BitVec.toNat_ofNat, Nat.mod_eq_of_lt hfits, hdown]
    rw [if_neg hcarry]
    dsimp only
    rw [if_neg (not_not.mpr rfl), if_neg (by omega), if_pos (by omega), hafter]
    exact ⟨toNat_assemble_first hf hbits (hless.trans_le hrowFull), rfl⟩

end RealFormat

end Apollo.M68882
