import Mathlib
import Apollo.M68882.Operation

/-!
# FINT and FINTRZ

From `src/core/cpu/m68882/ap_m68882_arith.c`: the integer part of a value, rounded in the current mode
or cut off. The rounding is done on the mantissa shifted down to its integer bits, and shifting the
answer back up loses a carry out of them: 1.5 becomes 0. `Extended.CarriesOut` is when.
-/

namespace Apollo.M68882

open Apollo.Lib

/-- The integer part of a value below one: zero, or one if the mode lifts it. -/
def belowOne (a : Extended) (mode : Rounding) (truncate : Bool) (exponent : Int) : Op :=
  if truncate ∨ a.mantissa = 0 then { value := makeZero a.sign, exceptions := excInex2 }
  else
    let up := (mode == .plusInfinity && !a.sign) || (mode == .minusInfinity && a.sign) ||
      (mode == .nearest && exponent == -1 && a.mantissa &&& ~~~integerBit != 0)
    { value :=
        if up then { sign := a.sign, exponent := 0x3FFF, mantissa := integerBit } else makeZero a.sign
      exceptions := excInex2 }

/-- The integer part of a value with some fraction bits. -/
def withFraction (a : Extended) (mode : Rounding) (truncate : Bool) (fractionBits : Nat) : Op :=
  let mask := (1 : BitVec 64) <<< fractionBits - 1
  let fraction := a.mantissa &&& mask
  if fraction = 0 then { value := a }
  else
    let result : Extended := { a with mantissa := a.mantissa &&& ~~~mask }
    if truncate then { value := result, exceptions := excInex2 }
    else
      let guard := fraction &&& (1 : BitVec 64) <<< (fractionBits - 1) != 0
      let sticky := fraction &&& ((1 : BitVec 64) <<< (fractionBits - 1) - 1) != 0
      let shifted : Extended := { result with mantissa := result.mantissa >>> fractionBits }
      let rounded := round shifted guard false sticky mode .extended
      { value :=
          if rounded.value.exponent ≠ shifted.exponent then
            { result with mantissa := integerBit, exponent := result.exponent + 1 }
          else { result with mantissa := rounded.value.mantissa <<< fractionBits }
        exceptions := excInex2 }

/-- `integer_part`. -/
def integerPart (a : Extended) (mode : Rounding) (truncate : Bool) : Op :=
  match propagateNan a a with
  | some op => op
  | none =>
    if classify a = .zero ∨ classify a = .infinity then { value := a }
    else
      let exponent := (a.exponent.toNat : Int) - biasExtended
      if 63 ≤ exponent then { value := a }
      else if exponent < 0 then belowOne a mode truncate exponent
      else withFraction a mode truncate (63 - exponent).toNat

/-- `ap_m68882_int`. -/
def int (a : Extended) (mode : Rounding) : Op := integerPart a mode false

/-- `ap_m68882_intrz`. -/
def intrz (a : Extended) : Op := integerPart a .zero true

/-! ## What the integer is -/

/-- The operation gives the integer that the mode rounds the operand to: with its sign, normalised
unless it is zero, and reported as inexact if the operand is no integer. -/
structure IntegerOf (a : Extended) (mode : Rounding) (op : Op) : Prop where
  value : op.value.value = mode.toInt a.value
  sign : op.value.sign = a.sign
  normal : op.value.mantissa = 0 ∨ op.value.mantissa &&& integerBit ≠ 0
  finite : op.value.Finite
  exceptions : (∃ k : ℤ, a.value = k) ∧ op.exceptions = 0 ∨
    (¬ ∃ k : ℤ, a.value = k) ∧ op.exceptions = excInex2

/-- The bits of the integer part are all ones, and the mode takes the fraction up to the next. -/
def Extended.CarriesOut (a : Extended) (mode : Rounding) : Prop :=
  0x3FFF ≤ a.exponent.toNat ∧ a.exponent.toNat < 0x3FFF + 63 ∧
    a.mantissa.toNat / 2 ^ (0x3FFF + 63 - a.exponent.toNat) + 1 =
      2 ^ (64 - (0x3FFF + 63 - a.exponent.toNat)) ∧
    (mode.direction a.sign).raises (a.mantissa.toNat / 2 ^ (0x3FFF + 63 - a.exponent.toNat))
      (a.mantissa.toNat % 2 ^ (0x3FFF + 63 - a.exponent.toNat))
      (2 ^ (0x3FFF + 63 - a.exponent.toNat)) = true

instance (a : Extended) (mode : Rounding) : Decidable (a.CarriesOut mode) :=
  inferInstanceAs (Decidable (_ ∧ _))

/-- The magnitude of the integer that the mode rounds to. -/
def Extended.integer (a : Extended) (mode : Rounding) : ℕ :=
  (mode.direction a.sign).quotient a.magnitude (2 ^ unitPlace)

variable {a : Extended}

theorem toInt_value (a : Extended) (mode : Rounding) :
    mode.toInt a.value = signed a.sign ((a.integer mode : ℕ) : ℤ) :=
  mode.toInt_div a.sign a.magnitude (Nat.two_pow_pos unitPlace)

theorem toInt_value_cast (a : Extended) (mode : Rounding) :
    ((mode.toInt a.value : ℤ) : ℚ) = signed a.sign ((a.integer mode : ℕ) : ℚ) := by
  rw [toInt_value]
  cases a.sign
  · exact Int.cast_natCast _
  · exact (Int.cast_neg _).trans (congrArg Neg.neg (Int.cast_natCast _))

theorem isInteger_iff (a : Extended) : (∃ k : ℤ, a.value = k) ↔ 2 ^ unitPlace ∣ a.magnitude := by
  have hpos := Nat.two_pow_pos unitPlace
  constructor
  · rintro ⟨k, hk⟩
    have hround := toInt_value_cast a .zero
    rw [hk, Rounding.toInt_intCast, ← hk] at hround
    exact (Direction.quotient_eq_iff _ hpos).mp (signed_inj.mp hround).symm
  · intro hdvd
    refine ⟨Rounding.zero.toInt a.value, ?_⟩
    rw [toInt_value_cast]
    exact congrArg (signed a.sign) ((Direction.quotient_eq_iff _ hpos).mpr hdvd).symm

theorem IntegerOf.of_magnitude {mode : Rounding} {op : Op}
    (hmagnitude : op.value.magnitude = a.integer mode * 2 ^ unitPlace) (hsign : op.value.sign = a.sign)
    (hnormal : op.value.mantissa = 0 ∨ op.value.mantissa &&& integerBit ≠ 0)
    (hfinite : op.value.Finite)
    (hexceptions : op.exceptions = if 2 ^ unitPlace ∣ a.magnitude then 0 else excInex2) :
    IntegerOf a mode op where
  value := by rw [value_of_magnitude hmagnitude, hsign, toInt_value_cast]
  sign := hsign
  normal := hnormal
  finite := hfinite
  exceptions := by
    rw [isInteger_iff, hexceptions]
    by_cases hdvd : 2 ^ unitPlace ∣ a.magnitude
    · exact .inl ⟨hdvd, if_pos hdvd⟩
    · exact .inr ⟨hdvd, if_neg hdvd⟩

theorem IntegerOf.same {mode : Rounding} (hfinite : a.Finite)
    (hnormal : a.mantissa = 0 ∨ a.mantissa &&& integerBit ≠ 0)
    (hdvd : 2 ^ unitPlace ∣ a.magnitude) : IntegerOf a mode { value := a } := by
  refine .of_magnitude ?_ rfl hnormal hfinite (if_pos hdvd).symm
  unfold Extended.integer
  rw [Direction.quotient_of_dvd _ (Nat.two_pow_pos unitPlace) hdvd, Nat.div_mul_cancel hdvd]

theorem dvd_magnitude_of_large (h : 0x3FFF + 63 ≤ a.exponent.toNat) : 2 ^ unitPlace ∣ a.magnitude := by
  refine Dvd.dvd.mul_left (pow_dvd_pow 2 ?_) _
  unfold unitPlace
  exact h

theorem integer_of_fraction {mode : Rounding} (hlt : a.exponent.toNat < 0x3FFF + 63) :
    a.integer mode = (mode.direction a.sign).quotient a.mantissa.toNat
      (2 ^ (0x3FFF + 63 - a.exponent.toNat)) := by
  have hunit : 2 ^ unitPlace = 2 ^ a.exponent.toNat * 2 ^ (0x3FFF + 63 - a.exponent.toNat) := by
    rw [← pow_add]
    congr 1
    unfold unitPlace
    omega
  unfold Extended.integer Extended.magnitude
  rw [hunit, mul_comm a.mantissa.toNat, Direction.quotient_mul_mul _ (Nat.two_pow_pos _)]

theorem dvd_magnitude_iff (hlt : a.exponent.toNat < 0x3FFF + 63) :
    2 ^ unitPlace ∣ a.magnitude ↔ 2 ^ (0x3FFF + 63 - a.exponent.toNat) ∣ a.mantissa.toNat := by
  have hunit : 2 ^ unitPlace = 2 ^ a.exponent.toNat * 2 ^ (0x3FFF + 63 - a.exponent.toNat) := by
    rw [← pow_add]
    congr 1
    unfold unitPlace
    omega
  unfold Extended.magnitude
  rw [hunit, mul_comm a.mantissa.toNat]
  exact Nat.mul_dvd_mul_iff_left (Nat.two_pow_pos _)

/-! ## Below one -/

theorem quotient_below_one (direction : Direction) {m e : ℕ} (hm : m < 2 ^ 64) (hpos : 0 < m)
    (he : 64 ≤ e) :
    direction.quotient m (2 ^ e) =
      if direction = .up ∨ direction = .nearest ∧ e = 64 ∧ 2 ^ 63 < m then 1 else 0 := by
  have hlt : m < 2 ^ e := hm.trans_le (Nat.pow_le_pow_right (by decide) he)
  unfold Direction.quotient
  rw [Nat.div_eq_of_lt hlt, Nat.mod_eq_of_lt hlt, zero_add]
  refine if_congr ?_ rfl rfl
  cases direction with
  | nearest =>
    have hhalf : 2 ^ e < 2 * m ↔ e = 64 ∧ 2 ^ 63 < m := by
      rcases he.eq_or_lt with rfl | hgt
      · omega
      · have hbig : 2 ^ 65 ≤ 2 ^ e := Nat.pow_le_pow_right (by decide) hgt
        constructor
        · intro h
          omega
        · rintro ⟨rfl, -⟩
          omega
    simp [Direction.raises, hhalf]
  | down => simp [Direction.raises]
  | up => simp [Direction.raises, hpos.ne']

theorem toNat_exponent_one : (0x3FFF : BitVec 16).toNat = 0x3FFF := rfl

theorem integerPart_below_one {mode : Rounding} (truncate : Bool)
    (htruncate : truncate = true → mode = .zero) (hform : a.InputForm) (hfinite : a.Finite)
    (hne : a.mantissa ≠ 0) (hlt : a.exponent.toNat < 0x3FFF) :
    IntegerOf a mode
      (belowOne a mode truncate ((a.exponent.toNat : Int) - biasExtended)) := by
  have hpos : 0 < a.mantissa.toNat := Nat.pos_of_ne_zero fun h => hne ((toNat_eq_zero_iff _).mpr h)
  have hm := a.mantissa.isLt
  have hinteger : a.integer mode =
      if mode.direction a.sign = .up ∨
        mode.direction a.sign = .nearest ∧ a.exponent.toNat = 0x3FFE ∧ 2 ^ 63 < a.mantissa.toNat
      then 1 else 0 := by
    rw [integer_of_fraction (by omega), quotient_below_one _ hm hpos (by omega)]
    exact if_congr (or_congr_right (and_congr_right fun _ => and_congr_left fun _ => by omega)) rfl rfl
  have hinexact : ¬ 2 ^ unitPlace ∣ a.magnitude := by
    rw [dvd_magnitude_iff (by omega)]
    intro hdvd
    have hle := Nat.le_of_dvd hpos hdvd
    have hbig : 2 ^ 64 ≤ 2 ^ (0x3FFF + 63 - a.exponent.toNat) :=
      Nat.pow_le_pow_right (by decide) (by omega)
    omega
  have hzero : a.integer mode = 0 → IntegerOf a mode { value := makeZero a.sign, exceptions := excInex2 } := by
    intro hnone
    refine .of_magnitude ?_ rfl (.inl rfl) (show 0 < 0x7FFF by decide) (if_neg hinexact).symm
    rw [hnone, zero_mul]
    exact (magnitude_eq_zero_iff _).mpr rfl
  have hone : a.integer mode = 1 → IntegerOf a mode
      { value := { sign := a.sign, exponent := 0x3FFF, mantissa := integerBit },
        exceptions := excInex2 } := by
    intro hsome
    refine .of_magnitude ?_ rfl (.inr (by decide : integerBit &&& integerBit ≠ 0)) ?_ (if_neg hinexact).symm
    · rw [hsome, one_mul]
      have hbit : integerBit.toNat = 2 ^ 63 := by decide
      unfold Extended.magnitude
      rw [hbit, toNat_exponent_one, ← pow_add]
      congr 1
      unfold unitPlace
      rfl
    · change (0x3FFF : BitVec 16).toNat < 0x7FFF
      decide
  unfold belowOne
  by_cases htrunc : truncate = true
  · rw [if_pos (.inl htrunc)]
    refine hzero ?_
    rw [hinteger, htruncate htrunc]
    rfl
  · rw [if_neg (not_or.mpr ⟨htrunc, hne⟩)]
    have hup : ((mode == .plusInfinity && !a.sign) || (mode == .minusInfinity && a.sign) ||
        (mode == .nearest && (a.exponent.toNat : Int) - biasExtended == -1 &&
          a.mantissa &&& ~~~integerBit != 0)) = true ↔
        mode.direction a.sign = .up ∨
          mode.direction a.sign = .nearest ∧ a.exponent.toNat = 0x3FFE ∧ 2 ^ 63 < a.mantissa.toNat := by
      have hexponent : ((a.exponent.toNat : Int) - biasExtended == -1) = true ↔
          a.exponent.toNat = 0x3FFE := by
        rw [beq_iff_eq]
        unfold biasExtended
        omega
      have hbits : (a.mantissa &&& ~~~integerBit != 0) = true ↔ a.mantissa.toNat % 2 ^ 63 ≠ 0 := by
        rw [bne_iff_ne, Ne, toNat_eq_zero_iff, toNat_not_integerBit]
      have hmore : a.exponent.toNat = 0x3FFE → (a.mantissa.toNat % 2 ^ 63 ≠ 0 ↔ 2 ^ 63 < a.mantissa.toNat) := by
        intro he
        have hset := le_mantissa_of_exponent hform hfinite (by omega)
        omega
      cases mode with
      | nearest =>
        simp only [beq_self_eq_true, Bool.true_and, Bool.or_eq_true, Bool.and_eq_true, hexponent, hbits,
          Rounding.direction, true_and, reduceCtorEq, false_or]
        rw [show (Rounding.nearest == .plusInfinity) = false from rfl,
          show (Rounding.nearest == .minusInfinity) = false from rfl]
        simp only [Bool.false_eq_true, false_and, or_self, false_or]
        exact and_congr_right hmore
      | zero => cases a.sign <;> simp [Rounding.direction]
      | minusInfinity => cases a.sign <;> simp [Rounding.direction]
      | plusInfinity => cases a.sign <;> simp [Rounding.direction]
    dsimp only
    by_cases hlift : ((mode == .plusInfinity && !a.sign) || (mode == .minusInfinity && a.sign) ||
        (mode == .nearest && (a.exponent.toNat : Int) - biasExtended == -1 &&
          a.mantissa &&& ~~~integerBit != 0)) = true
    · rw [if_pos hlift]
      exact hone (by rw [hinteger, if_pos (hup.mp hlift)])
    · rw [if_neg hlift]
      exact hzero (by rw [hinteger, if_neg fun h => hlift (hup.mpr h)])

/-! ## Above one -/

theorem fraction_encodes (mantissa : BitVec 64) {bits : Nat} (hpos : 0 < bits) (hbits : bits < 64) :
    Direction.Encodes
      (mantissa &&& ((1 : BitVec 64) <<< bits - 1) &&& (1 : BitVec 64) <<< (bits - 1) != 0)
      (false || mantissa &&& ((1 : BitVec 64) <<< bits - 1) &&&
        ((1 : BitVec 64) <<< (bits - 1) - 1) != 0)
      (mantissa.toNat % 2 ^ bits) (2 ^ bits) := by
  obtain ⟨k, rfl⟩ : ∃ k, bits = k + 1 := ⟨bits - 1, by omega⟩
  have hfraction := toNat_and_lowMask mantissa hbits
  have hlt : mantissa.toNat % 2 ^ (k + 1) < 2 * 2 ^ k := by
    rw [← pow_succ']
    exact Nat.mod_lt _ (Nat.two_pow_pos _)
  have henc := encodes_fold (r := 0) (d := 1) (by decide) hlt rfl rfl
  rw [add_zero, mul_one, mul_one, ← pow_succ'] at henc
  rw [Nat.add_sub_cancel, Bool.false_or]
  refine ⟨?_, ?_⟩
  · rw [← henc.guard, Bool.eq_iff_iff, bne_iff_ne, and_bit_ne_zero_iff _ (by omega), hfraction,
      testBit_iff_le_mod, Nat.mod_mod, decide_eq_true_iff]
  · rw [← henc.sticky, Bool.eq_iff_iff, bne_iff_ne, Ne, toNat_eq_zero_iff,
      toNat_and_lowMask _ (by omega), hfraction, decide_eq_true_iff]
    exact (or_iff_left (not_not.mpr rfl)).symm

theorem ofNat_shiftLeft (q : ℕ) {bits : Nat} :
    BitVec.ofNat 64 q <<< bits = BitVec.ofNat 64 (q * 2 ^ bits) := by
  refine BitVec.eq_of_toNat_eq ?_
  rw [BitVec.toNat_shiftLeft, BitVec.toNat_ofNat, BitVec.toNat_ofNat, Nat.shiftLeft_eq,
    Nat.mod_mul_mod]

section WithFraction

variable {mode : Rounding} {bits : Nat}

theorem round_shifted (hpos : 0 < bits) (hbits : bits < 64) {q : ℕ}
    (hq : q = (mode.direction a.sign).quotient a.mantissa.toNat (2 ^ bits)) :
    (round { a with mantissa := (a.mantissa &&& ~~~((1 : BitVec 64) <<< bits - 1)) >>> bits }
        (a.mantissa &&& ((1 : BitVec 64) <<< bits - 1) &&& (1 : BitVec 64) <<< (bits - 1) != 0) false
        (a.mantissa &&& ((1 : BitVec 64) <<< bits - 1) &&& ((1 : BitVec 64) <<< (bits - 1) - 1) != 0)
        mode .extended).value = { a with mantissa := BitVec.ofNat 64 q } := by
  have hp := Nat.two_pow_pos bits
  have hshift : ((a.mantissa &&& ~~~((1 : BitVec 64) <<< bits - 1)) >>> bits).toNat =
      a.mantissa.toNat / 2 ^ bits := by
    rw [BitVec.toNat_ushiftRight, toNat_and_not_lowMask _ hbits, Nat.shiftRight_eq_div_pow,
      Nat.mul_div_cancel _ hp]
  have hwhole : a.mantissa.toNat / 2 ^ bits * 2 ^ bits + a.mantissa.toNat % 2 ^ bits =
      a.mantissa.toNat := Nat.div_add_mod' _ _
  have hquotient : q = (mode.direction a.sign).quotient
      (((a.mantissa &&& ~~~((1 : BitVec 64) <<< bits - 1)) >>> bits).toNat * 2 ^ bits +
        a.mantissa.toNat % 2 ^ bits) (2 ^ (64 - 64) * 2 ^ bits) := by
    rw [hshift, hwhole, Nat.sub_self, pow_zero, one_mul]
    exact hq
  obtain ⟨-, -, hvalue⟩ := roundToBits_spec
    { a with mantissa := (a.mantissa &&& ~~~((1 : BitVec 64) <<< bits - 1)) >>> bits } mode
    (show 1 ≤ 64 by decide) le_rfl (Nat.mod_lt _ hp) (fraction_encodes a.mantissa hpos hbits) hquotient
  have hsmall : q * 2 ^ (64 - 64) ≠ 2 ^ 64 := by
    have hle : q ≤ a.mantissa.toNat / 2 ^ bits + 1 := by
      rw [hq]
      unfold Direction.quotient
      split_ifs <;> omega
    have hdiv : a.mantissa.toNat / 2 ^ bits ≤ a.mantissa.toNat / 2 :=
      Nat.div_le_div_left (Nat.le_self_pow hpos.ne' 2) (by decide)
    have hm := a.mantissa.isLt
    rw [Nat.sub_self, pow_zero, mul_one]
    omega
  unfold round
  refine hvalue.trans ?_
  rw [if_neg hsmall, Nat.sub_self, pow_zero, mul_one]

theorem withFraction_eq (truncate : Bool) (hpos : 0 < bits) (hbits : bits < 64)
    (htruncate : truncate = true → mode = .zero) :
    withFraction a mode truncate bits =
      if 2 ^ bits ∣ a.mantissa.toNat then { value := a }
      else
        { value :=
            { a with
              mantissa := BitVec.ofNat 64
                ((mode.direction a.sign).quotient a.mantissa.toNat (2 ^ bits) * 2 ^ bits) }
          exceptions := excInex2 } := by
  have hfraction : a.mantissa &&& ((1 : BitVec 64) <<< bits - 1) = 0 ↔ 2 ^ bits ∣ a.mantissa.toNat := by
    rw [toNat_eq_zero_iff, toNat_and_lowMask _ hbits, Nat.dvd_iff_mod_eq_zero]
  unfold withFraction
  dsimp only
  refine if_congr hfraction rfl ?_
  by_cases htrunc : truncate = true
  · rw [if_pos htrunc]
    have hquotient : (mode.direction a.sign).quotient a.mantissa.toNat (2 ^ bits) =
        a.mantissa.toNat / 2 ^ bits := by
      rw [htruncate htrunc]
      rfl
    have hmantissa : a.mantissa &&& ~~~((1 : BitVec 64) <<< bits - 1) =
        BitVec.ofNat 64 (a.mantissa.toNat / 2 ^ bits * 2 ^ bits) := by
      refine BitVec.eq_of_toNat_eq ?_
      rw [toNat_and_not_lowMask _ hbits, BitVec.toNat_ofNat, Nat.mod_eq_of_lt]
      exact (Nat.div_mul_le_self _ _).trans_lt a.mantissa.isLt
    rw [hmantissa, hquotient]
  · rw [if_neg htrunc, round_shifted hpos hbits rfl, ofNat_shiftLeft]
    rw [if_neg (not_not.mpr rfl)]

end WithFraction

theorem quotient_mul_le (direction : Direction) {m bits : ℕ} (hm : m < 2 ^ 64) (hbits : bits ≤ 64) :
    direction.quotient m (2 ^ bits) * 2 ^ bits ≤ 2 ^ 64 := by
  have hpow : 2 ^ 64 = 2 ^ (64 - bits) * 2 ^ bits := by
    rw [← pow_add]
    congr 1
    omega
  rw [hpow] at hm ⊢
  exact Nat.mul_le_mul_right _ (direction.quotient_le (Nat.two_pow_pos bits) hm.le)

theorem le_quotient_mul (direction : Direction) {m bits : ℕ} (hm : 2 ^ 63 ≤ m) (hbits : bits ≤ 63) :
    2 ^ 63 ≤ direction.quotient m (2 ^ bits) * 2 ^ bits := by
  have hpow : 2 ^ 63 = 2 ^ (63 - bits) * 2 ^ bits := by
    rw [← pow_add]
    congr 1
    omega
  rw [hpow] at hm ⊢
  exact Nat.mul_le_mul_right _ (direction.le_quotient (Nat.two_pow_pos bits) hm)

theorem carriesOut_iff (mode : Rounding) (hlow : 0x3FFF ≤ a.exponent.toNat)
    (hhigh : a.exponent.toNat < 0x3FFF + 63) :
    a.CarriesOut mode ↔
      ¬ 2 ^ (0x3FFF + 63 - a.exponent.toNat) ∣ a.mantissa.toNat ∧
        (mode.direction a.sign).quotient a.mantissa.toNat (2 ^ (0x3FFF + 63 - a.exponent.toNat)) *
          2 ^ (0x3FFF + 63 - a.exponent.toNat) = 2 ^ 64 := by
  unfold Extended.CarriesOut
  rw [and_iff_right hlow, and_iff_right hhigh]
  set bits := 0x3FFF + 63 - a.exponent.toNat with hbits
  have hp := Nat.two_pow_pos bits
  have hpow : 2 ^ 64 = 2 ^ (64 - bits) * 2 ^ bits := by
    rw [← pow_add]
    congr 1
    omega
  have hdivlt : a.mantissa.toNat / 2 ^ bits < 2 ^ (64 - bits) := by
    rw [Nat.div_lt_iff_lt_mul hp, ← hpow]
    exact a.mantissa.isLt
  rw [hpow, Nat.mul_left_inj hp.ne']
  unfold Direction.quotient
  constructor
  · rintro ⟨hones, hraises⟩
    refine ⟨?_, ?_⟩
    · intro hdvd
      rw [Nat.mod_eq_zero_of_dvd hdvd, Direction.raises_zero _ _ hp] at hraises
      exact Bool.false_ne_true hraises
    · rw [if_pos hraises]
      exact hones
  · rintro ⟨-, hsum⟩
    split_ifs at hsum with hraises
    · exact ⟨hsum, hraises⟩
    · omega

/-- FINT AND FINTRZ, unless the integer bits carry out. -/
theorem integerPart_right {mode : Rounding} (truncate : Bool)
    (htruncate : truncate = true → mode = .zero) (hform : a.InputForm) (hfinite : a.Finite)
    (hcarry : ¬ a.CarriesOut mode) : IntegerOf a mode (integerPart a mode truncate) := by
  obtain ⟨hnan, hinf⟩ := classify_finite_ne hfinite
  unfold integerPart
  rw [propagateNan_eq_none hnan hnan]
  dsimp only
  by_cases hzero : a.mantissa = 0
  · rw [if_pos (.inl ((classify_zero_iff hfinite).mpr hzero))]
    refine .same hfinite (.inl hzero) ?_
    rw [(magnitude_eq_zero_iff a).mpr hzero]
    exact dvd_zero _
  · rw [if_neg (not_or.mpr ⟨fun h => hzero ((classify_zero_iff hfinite).mp h), hinf⟩)]
    have hlarge : 63 ≤ (a.exponent.toNat : Int) - biasExtended ↔ 0x3FFF + 63 ≤ a.exponent.toNat := by
      unfold biasExtended
      omega
    have hsmall : (a.exponent.toNat : Int) - biasExtended < 0 ↔ a.exponent.toNat < 0x3FFF := by
      unfold biasExtended
      omega
    have hset : a.exponent.toNat ≠ 0 → a.mantissa &&& integerBit ≠ 0 := fun he =>
      (integerBit_ne_zero_iff _).mpr (le_mantissa_of_exponent hform hfinite he)
    by_cases hexact : 63 ≤ (a.exponent.toNat : Int) - biasExtended
    · rw [if_pos hexact]
      rw [hlarge] at hexact
      exact .same hfinite (.inr (hset (by omega))) (dvd_magnitude_of_large hexact)
    · rw [if_neg hexact]
      rw [hlarge, not_le] at hexact
      by_cases hbelow : (a.exponent.toNat : Int) - biasExtended < 0
      · rw [if_pos hbelow]
        rw [hsmall] at hbelow
        exact integerPart_below_one truncate htruncate hform hfinite hzero hbelow
      · rw [if_neg hbelow]
        rw [hsmall, not_lt] at hbelow
        have hbits : (63 - ((a.exponent.toNat : Int) - biasExtended)).toNat =
            0x3FFF + 63 - a.exponent.toNat := by
          unfold biasExtended
          omega
        rw [hbits, withFraction_eq truncate (by omega) (by omega) htruncate]
        by_cases hdvd : 2 ^ (0x3FFF + 63 - a.exponent.toNat) ∣ a.mantissa.toNat
        · rw [if_pos hdvd]
          exact .same hfinite (.inr (hset (by omega))) ((dvd_magnitude_iff hexact).mpr hdvd)
        · rw [if_neg hdvd]
          have hle := quotient_mul_le (mode.direction a.sign) a.mantissa.isLt
            (show 0x3FFF + 63 - a.exponent.toNat ≤ 64 by omega)
          have hlt := lt_of_le_of_ne hle fun heq =>
            hcarry ((carriesOut_iff mode hbelow hexact).mpr ⟨hdvd, heq⟩)
          have htoNat := Nat.mod_eq_of_lt hlt
          rw [← BitVec.toNat_ofNat] at htoNat
          refine .of_magnitude ?_ rfl (.inr ?_) hfinite ?_
          · rw [integer_of_fraction hexact]
            unfold Extended.magnitude
            dsimp only
            rw [htoNat, mul_assoc, ← pow_add]
            congr 2
            unfold unitPlace
            omega
          · rw [integerBit_ne_zero_iff, htoNat]
            exact le_quotient_mul _ (le_mantissa_of_exponent hform hfinite (by omega)) (by omega)
          · exact (if_neg fun h => hdvd ((dvd_magnitude_iff hexact).mp h)).symm

/-- A CARRY IS LOST: the integer bits are shifted back up without it, and what is left is zero. -/
theorem int_carries {mode : Rounding} (hform : a.InputForm) (hfinite : a.Finite)
    (hcarry : a.CarriesOut mode) : ¬ IntegerOf a mode (int a mode) := by
  obtain ⟨hnan, hinf⟩ := classify_finite_ne hfinite
  have hlow := hcarry.1
  have hhigh := hcarry.2.1
  obtain ⟨hdvd, hfull⟩ := (carriesOut_iff mode hlow hhigh).mp hcarry
  have hset := le_mantissa_of_exponent hform hfinite (by omega)
  have hne : a.mantissa ≠ 0 := by
    intro hzero
    rw [toNat_eq_zero_iff] at hzero
    omega
  have hvalue : (int a mode).value.value = 0 := by
    unfold int integerPart
    rw [propagateNan_eq_none hnan hnan]
    dsimp only
    have hbits : (63 - ((a.exponent.toNat : Int) - biasExtended)).toNat =
        0x3FFF + 63 - a.exponent.toNat := by
      unfold biasExtended
      omega
    rw [if_neg (not_or.mpr ⟨fun h => hne ((classify_zero_iff hfinite).mp h), hinf⟩),
      if_neg (by unfold biasExtended; omega), if_neg (by unfold biasExtended; omega), hbits,
      withFraction_eq false (by omega) (by omega) nofun, if_neg hdvd, hfull]
    have hempty : BitVec.ofNat 64 (2 ^ 64) = 0 := by decide
    rw [hempty]
    exact value_of_mantissa_zero rfl
  intro hright
  have hinteger : a.integer mode ≠ 0 := by
    rw [integer_of_fraction hhigh]
    intro hzero
    rw [hzero, zero_mul] at hfull
    exact absurd hfull (by decide)
  have hround := hright.value
  rw [hvalue, toInt_value_cast] at hround
  refine hinteger ?_
  cases hs : a.sign
  · rw [hs] at hround
    exact Nat.cast_eq_zero.mp hround.symm
  · rw [hs] at hround
    exact Nat.cast_eq_zero.mp (neg_eq_zero.mp hround.symm)

theorem intrz_right (hform : a.InputForm) (hfinite : a.Finite) : IntegerOf a .zero (intrz a) := by
  refine integerPart_right true (fun _ => rfl) hform hfinite fun hcarry => ?_
  exact Bool.false_ne_true hcarry.2.2.2

/-! ## An integer in its bits -/

theorem IntegerOf.magnitude {op : Op} (h : IntegerOf a mode op) :
    op.value.magnitude = a.integer mode * 2 ^ unitPlace := by
  have hpos : ((2 ^ unitPlace : ℕ) : ℚ) ≠ 0 := by exact_mod_cast (Nat.two_pow_pos unitPlace).ne'
  have hvalue := h.value
  rw [toInt_value_cast, ← h.sign] at hvalue
  have hdiv := signed_inj.mp hvalue
  rw [div_eq_iff hpos] at hdiv
  exact_mod_cast hdiv

theorem le_exponent_of_magnitude {x : Extended} {k : ℕ} (h : x.magnitude = k * 2 ^ unitPlace)
    (hk : k ≠ 0) : 0x3FFF ≤ x.exponent.toNat := by
  by_contra hlow
  have hplaces : 64 + x.exponent.toNat ≤ unitPlace := by
    rw [← unitPlace_eq]
    clear h
    omega
  have hlt : x.magnitude < 2 ^ unitPlace := by
    calc x.magnitude < 2 ^ 64 * 2 ^ x.exponent.toNat :=
          Nat.mul_lt_mul_of_pos_right x.mantissa.isLt (Nat.two_pow_pos _)
      _ = 2 ^ (64 + x.exponent.toNat) := (pow_add 2 _ _).symm
      _ ≤ 2 ^ unitPlace := Nat.pow_le_pow_right (by decide) hplaces
  have hle : 2 ^ unitPlace ≤ k * 2 ^ unitPlace := Nat.le_mul_of_pos_left _ (Nat.pos_of_ne_zero hk)
  rw [← h] at hle
  exact hle.not_gt hlt

/-- The bits of a normalised integer: its exponent is at least that of one, and the integer at least
the power of two above it; and while the exponent leaves it in the word, it is the bits above the
binary point. -/
theorem integer_bits {x : Extended} {k : ℕ} (h : x.magnitude = k * 2 ^ unitPlace) (hk : k ≠ 0)
    (hset : 2 ^ 63 ≤ x.mantissa.toNat) :
    0x3FFF ≤ x.exponent.toNat ∧ 2 ^ (x.exponent.toNat - 0x3FFF) ≤ k ∧
      (x.exponent.toNat ≤ 0x3FFF + 63 →
        x.mantissa.toNat = k * 2 ^ (0x3FFF + 63 - x.exponent.toNat)) := by
  have hone := le_exponent_of_magnitude h hk
  refine ⟨hone, ?_, fun hle => ?_⟩
  · refine Nat.le_of_mul_le_mul_right ?_ (Nat.two_pow_pos unitPlace)
    have hplaces : x.exponent.toNat - 0x3FFF + unitPlace = 63 + x.exponent.toNat := by
      rw [← unitPlace_eq]
      clear h
      omega
    rw [← h, ← pow_add, hplaces, pow_add]
    exact Nat.mul_le_mul_right _ hset
  · have hplaces : unitPlace = x.exponent.toNat + (0x3FFF + 63 - x.exponent.toNat) := by
      rw [← unitPlace_eq]
      clear h
      omega
    unfold Extended.magnitude at h
    rw [hplaces, pow_add, ← mul_assoc, mul_right_comm] at h
    exact Nat.eq_of_mul_eq_mul_right (Nat.two_pow_pos _) h

end Apollo.M68882
