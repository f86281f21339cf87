import Mathlib
import Apollo.Lib.LowBits
import Apollo.Lib.Rounding

/-!
# The formats of the MC68882

`src/core/cpu/m68882/ap_m68882_format.c`: the extended format with its explicit integer bit, what the
single and double formats become in it, and the integers. `Extended.magnitude` is the number that a
value holds, counted in the smallest one, so that the arithmetic of the part is arithmetic of natural
numbers.
-/

namespace Apollo.M68882

open Apollo.Lib

/-- `ap_m68882_extended_t`. -/
structure Extended where
  sign : Bool
  exponent : BitVec 16
  mantissa : BitVec 64
deriving DecidableEq

/-- `AP_M68882_BIAS_EXTENDED`, `_SINGLE` and `_DOUBLE`. -/
def biasExtended : Int := 16383
def biasSingle : Int := 127
def biasDouble : Int := 1023

/-- `EXTENDED_MAX_EXPONENT`. -/
def maxExponent : BitVec 16 := 0x7FFF

/-- `INTEGER_BIT` and `QUIET_BIT`. -/
def integerBit : BitVec 64 := (1 : BitVec 64) <<< 63
def quietBit : BitVec 64 := (1 : BitVec 64) <<< 62

/-- The bits of the status byte, `AP_M68882_EXC_*`. -/
def excSnan : BitVec 32 := (1 : BitVec 32) <<< 14
def excOperr : BitVec 32 := (1 : BitVec 32) <<< 13
def excOvfl : BitVec 32 := (1 : BitVec 32) <<< 12
def excUnfl : BitVec 32 := (1 : BitVec 32) <<< 11
def excInex2 : BitVec 32 := (1 : BitVec 32) <<< 9
def excInex1 : BitVec 32 := (1 : BitVec 32) <<< 8

/-- `ap_m68882_type_t`. -/
inductive DataType
  | normalized
  | denormalized
  | zero
  | infinity
  | nan
deriving DecidableEq

/-- `ap_m68882_classify`: the integer bit decides, not the exponent, and no infinity is asked for it. -/
def classify (value : Extended) : DataType :=
  if value.exponent = maxExponent then
    if value.mantissa &&& ~~~integerBit = 0 then .infinity else .nan
  else if value.mantissa = 0 then .zero
  else if value.mantissa &&& integerBit ≠ 0 then .normalized
  else .denormalized

/-- One place of mantissa for one of exponent, until the integer bit is set or the exponent is spent. -/
def shiftUp (mantissa : BitVec 64) : Nat → BitVec 64 × Nat
  | 0 => (mantissa, 0)
  | exponent + 1 =>
    if mantissa &&& integerBit = 0 then shiftUp (mantissa <<< 1) exponent
    else (mantissa, exponent + 1)

/-- `ap_m68882_normalize_input`. -/
def normalizeInput (value : Extended) : Extended :=
  if value.exponent = maxExponent ∨ value.mantissa &&& integerBit ≠ 0 then value
  else if value.mantissa = 0 then { value with exponent := 0 }
  else
    let shifted := shiftUp value.mantissa value.exponent.toNat
    { value with mantissa := shifted.1, exponent := BitVec.ofNat 16 shifted.2 }

/-- The loop that normalises a significand and lets the exponent go where it must: a denormal's stored
exponent understates it. -/
def normalizeSignificand (mantissa : BitVec 64) (exponent : Int) : Nat → BitVec 64 × Int
  | 0 => (mantissa, exponent)
  | places + 1 =>
    if mantissa &&& integerBit = 0 then normalizeSignificand (mantissa <<< 1) (exponent - 1) places
    else (mantissa, exponent)

/-- `ap_m68882_is_signalling_nan`. -/
def isSignallingNan (value : Extended) : Bool :=
  classify value == .nan && value.mantissa &&& quietBit == 0

/-! ## What a value is -/

/-- The number in a value, without its sign, counted in the smallest number of the format: the one
formula of both its rows is `mantissa × 2 ^ (exponent - 16383 - 63)`. -/
def Extended.magnitude (a : Extended) : ℕ := a.mantissa.toNat * 2 ^ a.exponent.toNat

/-- How many of the smallest number there are in one, `2 ^ (16383 + 63)`. -/
@[irreducible] def unitPlace : ℕ := 16446

theorem unitPlace_eq : 0x3FFF + 63 = unitPlace := by
  unfold unitPlace
  rfl

/-- The number that a finite value is. -/
def Extended.value (a : Extended) : ℚ := signed a.sign ((a.magnitude : ℚ) / (2 ^ unitPlace : ℕ))

/-- Neither an infinity nor a NAN. -/
def Extended.Finite (a : Extended) : Prop := a.exponent.toNat < 0x7FFF

/-- A value as the operations take it: `ap_m68882_normalize_input` leaves it alone. -/
def Extended.InputForm (a : Extended) : Prop := a.exponent.toNat ≤ 0x7FFF ∧ normalizeInput a = a

instance (a : Extended) : Decidable a.Finite := inferInstanceAs (Decidable (_ < _))

instance (a : Extended) : Decidable a.InputForm := inferInstanceAs (Decidable (_ ∧ _))

/-! ## The bits of a mantissa -/

theorem integerBit_ne_zero_iff (mantissa : BitVec 64) :
    mantissa &&& integerBit ≠ 0 ↔ 2 ^ 63 ≤ mantissa.toNat :=
  msb_iff_le mantissa

theorem integerBit_eq_zero_iff (mantissa : BitVec 64) :
    mantissa &&& integerBit = 0 ↔ mantissa.toNat < 2 ^ 63 := by
  rw [← not_le, ← integerBit_ne_zero_iff, not_not]

theorem toNat_not_integerBit (mantissa : BitVec 64) :
    (mantissa &&& ~~~integerBit).toNat = mantissa.toNat % 2 ^ 63 := by
  have hmask : ~~~integerBit = (1 : BitVec 64) <<< 63 - 1 := by decide
  rw [hmask, toNat_and_lowMask mantissa (by decide)]

theorem toNat_shiftLeft_one {mantissa : BitVec 64} (h : mantissa.toNat < 2 ^ 63) :
    (mantissa <<< 1).toNat = 2 * mantissa.toNat := by
  rw [BitVec.toNat_shiftLeft, Nat.shiftLeft_eq, pow_one, Nat.mod_eq_of_lt (by omega), mul_comm]

theorem toNat_eq_zero_iff {w : Nat} (x : BitVec w) : x = 0 ↔ x.toNat = 0 := by
  rw [← BitVec.toNat_inj]
  exact Iff.of_eq (congrArg (x.toNat = ·) (Nat.zero_mod _))

/-! ## Classes -/

variable {a : Extended}

theorem exponent_ne_max (h : a.Finite) : a.exponent ≠ maxExponent := by
  intro hmax
  unfold Extended.Finite at h
  rw [hmax] at h
  exact absurd h (by decide)

theorem classify_finite (h : a.Finite) :
    classify a =
      if a.mantissa = 0 then .zero
      else if a.mantissa &&& integerBit ≠ 0 then .normalized else .denormalized :=
  if_neg (exponent_ne_max h)

theorem classify_zero_iff (h : a.Finite) : classify a = .zero ↔ a.mantissa = 0 := by
  rw [classify_finite h]
  split_ifs <;> simp_all

theorem classify_nonzero (h : a.Finite) (hne : a.mantissa ≠ 0) :
    classify a = .normalized ∨ classify a = .denormalized := by
  rw [classify_finite h, if_neg hne]
  split_ifs
  · exact .inl rfl
  · exact .inr rfl

theorem classify_finite_ne (h : a.Finite) : classify a ≠ .nan ∧ classify a ≠ .infinity := by
  rw [classify_finite h]
  split_ifs <;> exact ⟨nofun, nofun⟩

theorem magnitude_eq_zero_iff (a : Extended) : a.magnitude = 0 ↔ a.mantissa = 0 := by
  unfold Extended.magnitude
  rw [Nat.mul_eq_zero, toNat_eq_zero_iff]
  exact or_iff_left (Nat.two_pow_pos _).ne'

/-! ## The form of an operand -/

theorem shiftUp_spec (mantissa : BitVec 64) (exponent : Nat) :
    (shiftUp mantissa exponent).1.toNat * 2 ^ (shiftUp mantissa exponent).2 =
        mantissa.toNat * 2 ^ exponent ∧
      (shiftUp mantissa exponent).2 ≤ exponent ∧
      ((shiftUp mantissa exponent).2 = 0 ∨ (shiftUp mantissa exponent).1 &&& integerBit ≠ 0) := by
  induction exponent generalizing mantissa with
  | zero => exact ⟨rfl, le_rfl, .inl rfl⟩
  | succ exponent ih =>
    unfold shiftUp
    split_ifs with hclear
    · obtain ⟨hnumber, hle, hstop⟩ := ih (mantissa <<< 1)
      refine ⟨?_, hle.trans (Nat.le_succ _), hstop⟩
      rw [hnumber, toNat_shiftLeft_one ((integerBit_eq_zero_iff mantissa).mp hclear), pow_succ]
      ring
    · exact ⟨rfl, le_rfl, .inr hclear⟩

theorem normalizeSignificand_of_le (mantissa : BitVec 64) (exponent : Int) (places : Nat)
    (h : 2 ^ 63 ≤ mantissa.toNat * 2 ^ places) :
    ∃ k : ℕ, k ≤ places ∧
      (normalizeSignificand mantissa exponent places).1.toNat = mantissa.toNat * 2 ^ k ∧
      (normalizeSignificand mantissa exponent places).2 = exponent - k ∧
      2 ^ 63 ≤ mantissa.toNat * 2 ^ k := by
  induction places generalizing mantissa exponent with
  | zero => exact ⟨0, le_rfl, (Nat.mul_one _).symm, (sub_zero _).symm, h⟩
  | succ places ih =>
    unfold normalizeSignificand
    split_ifs with hclear
    · have hdouble := toNat_shiftLeft_one ((integerBit_eq_zero_iff mantissa).mp hclear)
      have hmove : ∀ k, (mantissa <<< 1).toNat * 2 ^ k = mantissa.toNat * 2 ^ (k + 1) := by
        intro k
        rw [hdouble, pow_succ]
        ring
      obtain ⟨k, hle, hmantissa, hexponent, hset⟩ := ih _ (exponent - 1) ((hmove places).symm ▸ h)
      rw [hmove] at hmantissa hset
      refine ⟨k + 1, Nat.succ_le_succ hle, hmantissa, ?_, hset⟩
      rw [hexponent]
      push_cast
      ring
    · refine ⟨0, Nat.zero_le _, (Nat.mul_one _).symm, (sub_zero _).symm, ?_⟩
      rw [pow_zero, mul_one]
      exact (integerBit_ne_zero_iff mantissa).mp hclear

theorem normalizeSignificand_spec {mantissa : BitVec 64} (exponent : Int) (h : mantissa ≠ 0) :
    ∃ k : ℕ, k ≤ 63 ∧
      (normalizeSignificand mantissa exponent 64).1.toNat = mantissa.toNat * 2 ^ k ∧
      (normalizeSignificand mantissa exponent 64).2 = exponent - k ∧
      2 ^ 63 ≤ mantissa.toNat * 2 ^ k := by
  have hpos : 0 < mantissa.toNat := Nat.pos_of_ne_zero fun hzero => h ((toNat_eq_zero_iff _).mpr hzero)
  obtain ⟨k, -, hmantissa, hexponent, hset⟩ := normalizeSignificand_of_le mantissa
    exponent 64 (by omega)
  refine ⟨k, ?_, hmantissa, hexponent, hset⟩
  -- the last place is never taken: one bit moved up by 64 is out of the word
  by_contra hlarge
  have hlt := (normalizeSignificand mantissa exponent 64).1.isLt
  rw [hmantissa] at hlt
  have hpow : 2 ^ 64 ≤ 2 ^ k := Nat.pow_le_pow_right (by decide) (by omega)
  exact absurd (hpow.trans (Nat.le_mul_of_pos_left _ hpos)) hlt.not_ge

/-- An operand has its integer bit, or the exponent of the format's minimum, or the one beyond all
numbers. -/
theorem inputForm_iff (a : Extended) :
    a.InputForm ↔ a.exponent.toNat ≤ 0x7FFF ∧
      (a.exponent = maxExponent ∨ a.mantissa &&& integerBit ≠ 0 ∨ a.exponent = 0) := by
  refine and_congr_right fun hle => ?_
  by_cases hout : a.exponent = maxExponent ∨ a.mantissa &&& integerBit ≠ 0
  · have hsame : normalizeInput a = a := if_pos hout
    rw [← or_assoc]
    exact ⟨fun _ => .inl hout, fun _ => hsame⟩
  · obtain ⟨hmax, hclear⟩ := not_or.mp hout
    rw [not_not] at hclear
    have hform : (a.exponent = maxExponent ∨ a.mantissa &&& integerBit ≠ 0 ∨ a.exponent = 0) ↔
        a.exponent = 0 := by
      rw [or_iff_right hmax, or_iff_right (not_not.mpr hclear)]
    rw [hform]
    constructor
    · intro hsame
      unfold normalizeInput at hsame
      rw [if_neg hout] at hsame
      split_ifs at hsame with hzero
      · rw [← hsame]
      · have hexponent := congrArg Extended.exponent hsame
        have hmantissa := congrArg Extended.mantissa hsame
        dsimp only at hexponent hmantissa
        rcases (shiftUp_spec a.mantissa a.exponent.toNat).2.2 with hnone | hset
        · rw [← hexponent, hnone]
          rfl
        · rw [hmantissa] at hset
          exact absurd hclear hset
    · intro hnone
      unfold normalizeInput
      rw [if_neg hout]
      have hshift : shiftUp a.mantissa a.exponent.toNat = (a.mantissa, 0) := by
        rw [hnone]
        rfl
      rw [hshift, ← hnone]
      split_ifs
      · rfl
      · exact congrArg (fun e => { a with exponent := e }) hnone.symm

theorem exponent_eq_zero_of_clear (hform : a.InputForm) (hfinite : a.Finite)
    (hclear : a.mantissa.toNat < 2 ^ 63) : a.exponent.toNat = 0 := by
  rcases ((inputForm_iff a).mp hform).2 with hmax | hset | hzero
  · exact absurd hmax (exponent_ne_max hfinite)
  · exact absurd hclear (not_lt.mpr ((integerBit_ne_zero_iff _).mp hset))
  · rw [hzero]
    rfl

theorem le_mantissa_of_exponent (hform : a.InputForm) (hfinite : a.Finite)
    (hexponent : a.exponent.toNat ≠ 0) : 2 ^ 63 ≤ a.mantissa.toNat := by
  by_contra hclear
  exact hexponent (exponent_eq_zero_of_clear hform hfinite (not_le.mp hclear))

end Apollo.M68882
