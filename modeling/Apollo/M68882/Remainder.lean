import Mathlib
import Apollo.M68882.Operation

/-!
# FREM and FMOD

From `src/core/cpu/m68882/ap_m68882_arith.c`: what is left of a dividend when so many divisors are taken
away, found by restoring long division on the significands. Nothing of it is rounded. A dividend that
is the smaller operand and more than half of the divisor is moved down one place before it is taken
from the divisor, and that place is lost: `LosesPlace` is when there was something in it.
-/

namespace Apollo.M68882

open Apollo.Lib

/-- `compose`. -/
def compose (sign : Bool) (mantissa : BitVec 64) (exponent : Int) : Extended :=
  if mantissa = 0 then makeZero sign
  else
    let moved := normalizeSignificand mantissa exponent 64
    let biased := moved.2 + biasExtended
    if biased < 0 then
      { sign := sign
        exponent := 0
        mantissa := if 64 ≤ (-biased).toNat then 0 else moved.1 >>> (-biased).toNat }
    else { sign := sign, exponent := BitVec.ofInt 16 biased, mantissa := moved.1 }

/-- A quotient as far as it has been found, and what is left at `exponent`. -/
structure Divided where
  remainder : BitVec 64
  exponent : Int
  quotient : BitVec 64

/-- One turn of the division: the carry is the 65th bit of the remainder. -/
def Divided.turn (d : Divided) (carry : Bool) (divisor : BitVec 64) : Divided :=
  if carry ∨ divisor ≤ d.remainder then
    { d with remainder := d.remainder - divisor, quotient := d.quotient <<< 1 ||| 1 }
  else { d with quotient := d.quotient <<< 1 }

/-- The division loop, which shifts the remainder from its second turn on. -/
def longDivision (dividend divisor : BitVec 64) (exponent : Int) : Nat → Divided
  | 0 => Divided.turn { remainder := dividend, exponent := exponent, quotient := 0 } false divisor
  | turns + 1 =>
    let d := longDivision dividend divisor exponent turns
    { d with remainder := d.remainder <<< 1 }.turn (d.remainder &&& integerBit != 0) divisor

/-- Whether the nearest quotient is the next one up. -/
def takesOneMore (ma mb : BitVec 64) (ea eb : Int) (d : Divided) : Bool :=
  if ea - eb < 0 then
    let doubled := ea + 1
    decide (eb < doubled) || (doubled == eb && decide (mb < ma)) ||
      (doubled == eb && ma == mb && d.quotient &&& 1 != 0)
  else
    let twice := d.remainder <<< 1
    d.remainder &&& integerBit != 0 || decide (mb < twice) || (twice == mb && d.quotient &&& 1 != 0)

/-- The divisor less what is left. -/
def oneMore (ma mb : BitVec 64) (ea eb : Int) (d : Divided) : Divided :=
  if ea - eb < 0 then
    let shift := (eb - ea).toNat
    let aligned := if 64 ≤ shift then 0 else ma >>> shift
    { remainder := mb - aligned, exponent := eb, quotient := d.quotient + 1 }
  else { d with remainder := mb - d.remainder, quotient := d.quotient + 1 }

/-- `ap_m68882_remainder_t`. -/
structure Remainder where
  value : Extended
  quotient : Nat
  quotientSign : Bool
  exceptions : BitVec 32

/-- What is left of a finite number other than zero by another. -/
def remainderFinite (destination source : Extended) (roundToNearest : Bool) : Extended × Nat :=
  let (ma, ea) := decompose destination
  let (mb, eb) := decompose source
  let divided :=
    if ea - eb < 0 then { remainder := ma, exponent := ea, quotient := 0 }
    else longDivision ma mb eb (ea - eb).toNat
  let more := roundToNearest && takesOneMore ma mb ea eb divided
  let divided := if more then oneMore ma mb ea eb divided else divided
  let value :=
    compose (if more then !destination.sign else destination.sign) divided.remainder divided.exponent
  (if value.mantissa = 0 then makeZero destination.sign else value, (divided.quotient &&& 0x7F).toNat)

/-- `ap_m68882_remainder`. -/
def remainder (destination source : Extended) (roundToNearest : Bool) : Remainder :=
  let quotientSign := destination.sign != source.sign
  match propagateNan destination source with
  | some op =>
    { value := op.value, quotient := 0, quotientSign := quotientSign, exceptions := op.exceptions }
  | none =>
    if classify source = .zero ∨ classify destination = .infinity then
      { value := makeNan, quotient := 0, quotientSign := quotientSign, exceptions := excOperr }
    else if classify destination = .zero then
      { value := makeZero destination.sign
        quotient := 0
        quotientSign := quotientSign
        exceptions := 0 }
    else if classify source = .infinity then
      { value := destination, quotient := 0, quotientSign := quotientSign, exceptions := 0 }
    else
      let found := remainderFinite destination source roundToNearest
      { value := found.1, quotient := found.2, quotientSign := quotientSign, exceptions := 0 }

/-! ## What a remainder is -/

/-- How the implied quotient is rounded: by FREM to the nearest, by FMOD toward zero. -/
def quotientMode (roundToNearest : Bool) : Rounding := if roundToNearest then .nearest else .zero

/-- The implied quotient. -/
def impliedQuotient (a b : Extended) (roundToNearest : Bool) : ℤ :=
  (quotientMode roundToNearest).toInt (a.value / b.value)

/-- The remainder is exact, the quotient is the implied one's last seven bits with its own sign, and a
remainder of zero has the sign of the dividend. -/
structure RemainderOf (a b : Extended) (roundToNearest : Bool) (out : Remainder) : Prop where
  value : out.value.value = a.value - impliedQuotient a b roundToNearest * b.value
  finite : out.value.Finite
  zero : out.value.value = 0 → out.value = makeZero a.sign
  quotient : out.quotient = (impliedQuotient a b roundToNearest).natAbs % 128
  quotientSign : out.quotientSign = (a.sign != b.sign)

/-- The dividend is moved down a place that holds a bit: it is the smaller, it is more than half of the
divisor, so that FREM takes it away from the divisor, and its significand is odd. -/
def LosesPlace (a b : Extended) (roundToNearest : Bool) : Prop :=
  roundToNearest = true ∧ (decompose a).2 + 1 = (decompose b).2 ∧ (decompose b).1 < (decompose a).1 ∧
    (decompose a).1.toNat % 2 = 1

instance (a b : Extended) (roundToNearest : Bool) : Decidable (LosesPlace a b roundToNearest) :=
  inferInstanceAs (Decidable (_ ∧ _))

/-! ## Significands -/

theorem compose_spec (sign : Bool) {mantissa : BitVec 64} {p c : ℕ}
    (hc : mantissa.toNat * 2 ^ p = c * 2 ^ 64) (hp : p < 0x7FFF + 64) :
    (compose sign mantissa (p - (biasExtended + 64))).magnitude = c ∧
      (compose sign mantissa (p - (biasExtended + 64))).sign = sign ∧
      (compose sign mantissa (p - (biasExtended + 64))).Finite := by
  have hpos := Nat.two_pow_pos 64
  by_cases hzero : mantissa = 0
  · have hnone : c = 0 := by
      rw [(toNat_eq_zero_iff _).mp hzero, zero_mul] at hc
      exact (Nat.mul_eq_zero.mp hc.symm).resolve_right hpos.ne'
    unfold compose
    rw [if_pos hzero, hnone]
    exact ⟨(magnitude_eq_zero_iff _).mpr rfl, rfl, show 0 < 0x7FFF by decide⟩
  · obtain ⟨k, hle, hmantissa, hexponent, hset⟩ :=
      normalizeSignificand_spec ((p : Int) - (biasExtended + 64)) hzero
    have hbiased : (normalizeSignificand mantissa (p - (biasExtended + 64)) 64).2 + biasExtended =
        (p : Int) - (64 + k : ℕ) := by
      rw [hexponent]
      push_cast
      ring
    unfold compose
    rw [if_neg hzero]
    dsimp only
    rw [hbiased]
    by_cases hlow : p < 64 + k
    · obtain ⟨shift, hshift⟩ : ∃ shift, 64 + k = p + shift := ⟨64 + k - p, by omega⟩
      have hdown : (if 64 ≤ (-((p : Int) - (64 + k : ℕ))).toNat then (0 : BitVec 64)
          else (normalizeSignificand mantissa (p - (biasExtended + 64)) 64).1 >>>
            (-((p : Int) - (64 + k : ℕ))).toNat).toNat = c := by
        have hplaces : (-((p : Int) - (64 + k : ℕ))).toNat = shift := by
          clear hc hset hmantissa
          omega
        have hwhole : mantissa.toNat * 2 ^ k = c * 2 ^ shift := by
          refine Nat.eq_of_mul_eq_mul_right (Nat.two_pow_pos p) ?_
          rw [mul_right_comm, hc, mul_assoc, mul_assoc, ← pow_add, ← pow_add, hshift, add_comm p]
        rw [hplaces]
        split_ifs with hfar
        · have hlt := (normalizeSignificand mantissa (p - (biasExtended + 64)) 64).1.isLt
          rw [hmantissa, hwhole] at hlt
          have hpow : 2 ^ 64 ≤ 2 ^ shift := Nat.pow_le_pow_right (by decide) hfar
          by_contra hne
          exact absurd (hpow.trans (Nat.le_mul_of_pos_left _ (Nat.pos_of_ne_zero (Ne.symm hne))))
            hlt.not_ge
        · rw [BitVec.toNat_ushiftRight, Nat.shiftRight_eq_div_pow, hmantissa, hwhole,
            Nat.mul_div_cancel _ (Nat.two_pow_pos shift)]
      rw [if_pos (by omega)]
      refine ⟨?_, rfl, show 0 < 0x7FFF by decide⟩
      unfold Extended.magnitude
      dsimp only
      rw [hdown]
      exact Nat.mul_one c
    · have hfield : ((p : Int) - (64 + k : ℕ)) = ((p - (64 + k) : ℕ) : Int) := by omega
      have hexp : (BitVec.ofInt 16 ((p : Int) - (64 + k : ℕ))).toNat = p - (64 + k) := by
        rw [hfield, BitVec.ofInt_natCast, BitVec.toNat_ofNat, Nat.mod_eq_of_lt (by omega)]
      rw [if_neg (by omega)]
      refine ⟨?_, rfl, ?_⟩
      · unfold Extended.magnitude
        dsimp only
        rw [hexp, hmantissa]
        refine Nat.eq_of_mul_eq_mul_right hpos ?_
        rw [← hc, mul_assoc, mul_assoc, ← pow_add, ← pow_add]
        congr 2
        omega
      · unfold Extended.Finite
        dsimp only
        rw [hexp]
        omega

/-! ## The division -/

theorem turn_spec (d : Divided) (carry : Bool) (divisor : BitVec 64) {n q : ℕ}
    (hn : d.remainder.toNat + (if carry then 2 ^ 64 else 0) = n) (hlt : n < 2 * divisor.toNat)
    (hq : d.quotient.toNat = q % 2 ^ 64) :
    (d.turn carry divisor).remainder.toNat = n % divisor.toNat ∧
      (d.turn carry divisor).quotient.toNat = (2 * q + n / divisor.toNat) % 2 ^ 64 ∧
      (d.turn carry divisor).exponent = d.exponent := by
  have hr := d.remainder.isLt
  have hd := divisor.isLt
  have hdouble : (d.quotient <<< 1).toNat = 2 * q % 2 ^ 64 := by
    rw [BitVec.toNat_shiftLeft, Nat.shiftLeft_eq, hq]
    omega
  have htaken : carry = true ∨ divisor ≤ d.remainder ↔ divisor.toNat ≤ n := by
    rw [BitVec.le_def]
    cases carry
    · simp at hn ⊢
      omega
    · simp at hn ⊢
      omega
  unfold Divided.turn
  by_cases hle : divisor.toNat ≤ n
  · have hone : n / divisor.toNat = 1 := Nat.div_eq_of_lt_le (by omega) (by omega)
    have hmod : n % divisor.toNat = n - divisor.toNat := by
      rw [Nat.mod_eq_sub_mod hle, Nat.mod_eq_of_lt (by omega)]
    rw [if_pos (htaken.mpr hle), hone, hmod]
    refine ⟨?_, ?_, rfl⟩
    · rw [BitVec.toNat_sub]
      cases carry
      · simp at hn
        omega
      · simp at hn
        omega
    · have hor : d.quotient <<< 1 ||| (1 : BitVec 64) = d.quotient <<< 1 + 1 := by
        refine (BitVec.add_eq_or_of_and_eq_zero _ _ ?_).symm
        ext i hi
        simp
        omega
      dsimp only
      rw [hor, BitVec.toNat_add, hdouble]
      exact Nat.mod_add_mod _ _ _
  · rw [if_neg (fun h => hle (htaken.mp h)), Nat.div_eq_of_lt (not_le.mp hle),
      Nat.mod_eq_of_lt (not_le.mp hle)]
    refine ⟨?_, hdouble, rfl⟩
    cases carry
    · simpa using hn
    · simp at hn
      omega

/-- THE DIVISION is exact, but for the bits of the quotient that have left the word. -/
theorem longDivision_spec (dividend divisor : BitVec 64) (exponent : Int)
    (hdivisor : 2 ^ 63 ≤ divisor.toNat) (turns : Nat) :
    (longDivision dividend divisor exponent turns).remainder.toNat =
        dividend.toNat * 2 ^ turns % divisor.toNat ∧
      (longDivision dividend divisor exponent turns).quotient.toNat =
        dividend.toNat * 2 ^ turns / divisor.toNat % 2 ^ 64 ∧
      (longDivision dividend divisor exponent turns).exponent = exponent := by
  induction turns with
  | zero =>
    have hlt := dividend.isLt
    obtain ⟨hremainder, hquotient, hexponent⟩ := turn_spec
      ⟨dividend, exponent, 0⟩ false divisor (q := 0) (Nat.add_zero _) (by dsimp only; omega) rfl
    rw [pow_zero, mul_one]
    refine ⟨hremainder, ?_, hexponent⟩
    rw [mul_zero, zero_add] at hquotient
    exact hquotient
  | succ turns ih =>
    obtain ⟨ihremainder, ihquotient, ihexponent⟩ := ih
    have hpos : 0 < divisor.toNat := by omega
    have hsmall := Nat.mod_lt (dividend.toNat * 2 ^ turns) hpos
    rw [← ihremainder] at hsmall
    have hcarry : ((longDivision dividend divisor exponent turns).remainder <<< 1).toNat +
        (if ((longDivision dividend divisor exponent turns).remainder &&& integerBit != 0) then 2 ^ 64
          else 0) = 2 * (longDivision dividend divisor exponent turns).remainder.toNat := by
      have hr := (longDivision dividend divisor exponent turns).remainder.isLt
      rw [BitVec.toNat_shiftLeft, Nat.shiftLeft_eq, pow_one]
      by_cases htop : 2 ^ 63 ≤ (longDivision dividend divisor exponent turns).remainder.toNat
      · rw [if_pos (bne_iff_ne.mpr ((integerBit_ne_zero_iff _).mpr htop))]
        omega
      · rw [if_neg (fun h => htop ((integerBit_ne_zero_iff _).mp (bne_iff_ne.mp h)))]
        omega
    obtain ⟨hremainder, hquotient, hexponent⟩ := turn_spec
      { longDivision dividend divisor exponent turns with
        remainder := (longDivision dividend divisor exponent turns).remainder <<< 1 } _ divisor hcarry
      (by omega) ihquotient
    have hstep : dividend.toNat * 2 ^ (turns + 1) =
        2 * (longDivision dividend divisor exponent turns).remainder.toNat +
          divisor.toNat * (2 * (dividend.toNat * 2 ^ turns / divisor.toNat)) := by
      have hsplit := Nat.mod_add_div (dividend.toNat * 2 ^ turns) divisor.toNat
      rw [ihremainder, pow_succ, ← mul_assoc, mul_left_comm divisor.toNat, ← mul_add, hsplit,
        mul_comm]
    unfold longDivision
    rw [hstep, Nat.add_mul_mod_self_left, Nat.add_mul_div_left _ _ hpos, add_comm (_ / _)]
    exact ⟨hremainder, hquotient, hexponent.trans ihexponent⟩

/-! ## The remainder in numbers -/

/-- Where the mode of the instruction sends the magnitude of the quotient. -/
def quotientDirection (roundToNearest : Bool) : Direction := if roundToNearest then .nearest else .down

/-- Whether the quotient of the magnitudes goes up. -/
def quotientRaises (a b : Extended) (roundToNearest : Bool) : Bool :=
  (quotientDirection roundToNearest).raises (a.magnitude / b.magnitude) (a.magnitude % b.magnitude)
    b.magnitude

/-- The magnitude of the remainder. -/
def remainderMagnitude (a b : Extended) (roundToNearest : Bool) : ℕ :=
  if quotientRaises a b roundToNearest then b.magnitude - a.magnitude % b.magnitude
  else a.magnitude % b.magnitude

/-- Its sign, unless it is zero. -/
def remainderSign (a b : Extended) (roundToNearest : Bool) : Bool :=
  if quotientRaises a b roundToNearest then !a.sign else a.sign

variable {a b : Extended} {roundToNearest : Bool}

theorem impliedQuotient_eq (hpos : 0 < b.magnitude) :
    impliedQuotient a b roundToNearest =
      signed (a.sign != b.sign)
        (((quotientDirection roundToNearest).quotient a.magnitude b.magnitude : ℕ) : ℤ) := by
  have hunit : ((2 ^ unitPlace : ℕ) : ℚ) ≠ 0 := by exact_mod_cast (Nat.two_pow_pos unitPlace).ne'
  have hdiv : a.value / b.value =
      signed (a.sign != b.sign) ((a.magnitude : ℚ) / b.magnitude) := by
    have hcancel := div_div_div_cancel_right₀ hunit (a.magnitude : ℚ) b.magnitude
    unfold Extended.value
    cases a.sign <;> cases b.sign <;> simp only [signed, bne_self_eq_false, Bool.false_eq_true,
      if_false, if_true, Bool.false_bne, Bool.true_bne, Bool.not_false, neg_div, div_neg, neg_neg,
      hcancel]
  have hdirection : (quotientMode roundToNearest).direction (a.sign != b.sign) =
      quotientDirection roundToNearest := by
    cases roundToNearest <;> rfl
  unfold impliedQuotient
  rw [hdiv, Rounding.toInt_div _ _ _ hpos, hdirection]

theorem value_sub_eq (hpos : 0 < b.magnitude) :
    a.value - impliedQuotient a b roundToNearest * b.value =
      signed (remainderSign a b roundToNearest)
        ((remainderMagnitude a b roundToNearest : ℚ) / (2 ^ unitPlace : ℕ)) := by
  have hsplit : (a.magnitude : ℚ) =
      (a.magnitude / b.magnitude : ℕ) * b.magnitude + (a.magnitude % b.magnitude : ℕ) := by
    exact_mod_cast (Nat.div_add_mod' a.magnitude b.magnitude).symm
  have hle : a.magnitude % b.magnitude ≤ b.magnitude := (Nat.mod_lt _ hpos).le
  have hquotient : (((quotientDirection roundToNearest).quotient a.magnitude b.magnitude : ℕ) : ℚ) =
      (a.magnitude / b.magnitude : ℕ) + if quotientRaises a b roundToNearest then 1 else 0 := by
    unfold Direction.quotient quotientRaises
    split_ifs
    · exact Nat.cast_succ _
    · exact (Nat.cast_add _ _).trans (congrArg _ Nat.cast_zero)
  have hsigned : ((impliedQuotient a b roundToNearest : ℤ) : ℚ) =
      signed (a.sign != b.sign)
        (((quotientDirection roundToNearest).quotient a.magnitude b.magnitude : ℕ) : ℚ) := by
    rw [impliedQuotient_eq hpos]
    cases a.sign != b.sign
    · exact Int.cast_natCast _
    · exact (Int.cast_neg _).trans (congrArg Neg.neg (Int.cast_natCast _))
  have hproduct : a.value - impliedQuotient a b roundToNearest * b.value =
      signed a.sign (((a.magnitude : ℚ) -
        ((quotientDirection roundToNearest).quotient a.magnitude b.magnitude : ℕ) * b.magnitude) /
          (2 ^ unitPlace : ℕ)) := by
    rw [hsigned]
    unfold Extended.value
    cases a.sign <;> cases b.sign <;> simp only [signed, bne_self_eq_false, Bool.false_eq_true,
      if_false, if_true, Bool.false_bne, Bool.true_bne, Bool.not_false] <;> ring
  rw [hproduct, hquotient]
  unfold remainderSign remainderMagnitude
  cases quotientRaises a b roundToNearest
  · simp only [Bool.false_eq_true, if_false, add_zero]
    rw [hsplit, add_sub_cancel_left]
  · simp only [if_true]
    rw [Nat.cast_sub hle, hsplit]
    cases a.sign
    · simp only [signed, Bool.not_false, if_true, Bool.false_eq_true, if_false]
      ring
    · simp only [signed, Bool.not_true, if_true, Bool.false_eq_true, if_false]
      ring

/-- The instruction is right about the sign and the quotient, and so right if it is right about the
magnitude. -/
theorem remainderOf_iff (hpos : 0 < b.magnitude) (value : Extended) (exceptions : BitVec 32)
    (hsign : value.sign = remainderSign a b roundToNearest) (hfinite : value.Finite) :
    RemainderOf a b roundToNearest
        { value := if value.mantissa = 0 then makeZero a.sign else value
          quotient := (quotientDirection roundToNearest).quotient a.magnitude b.magnitude % 128
          quotientSign := a.sign != b.sign
          exceptions := exceptions } ↔
      value.magnitude = remainderMagnitude a b roundToNearest := by
  have hunit : ((2 ^ unitPlace : ℕ) : ℚ) ≠ 0 := by exact_mod_cast (Nat.two_pow_pos unitPlace).ne'
  have hvalue : (if value.mantissa = 0 then makeZero a.sign else value).value = value.value := by
    split_ifs with hzero
    · rw [value_of_mantissa_zero hzero, value_of_mantissa_zero rfl]
    · rfl
  have hiff : value.value = a.value - impliedQuotient a b roundToNearest * b.value ↔
      value.magnitude = remainderMagnitude a b roundToNearest := by
    rw [value_sub_eq hpos]
    unfold Extended.value
    rw [hsign, signed_inj, div_left_inj' hunit, Nat.cast_inj]
  constructor
  · intro h
    have hout := h.value
    dsimp only at hout
    rw [hvalue] at hout
    exact hiff.mp hout
  · intro h
    refine ⟨?_, ?_, fun hzero => ?_, ?_, rfl⟩
    · dsimp only
      rw [hvalue]
      exact hiff.mpr h
    · dsimp only
      split_ifs
      · exact show 0 < 0x7FFF by decide
      · exact hfinite
    · dsimp only at hzero ⊢
      rw [hvalue] at hzero
      refine if_pos ((magnitude_eq_zero_iff value).mp ?_)
      have hnone : signed value.sign ((value.magnitude : ℚ) / (2 ^ unitPlace : ℕ)) =
          signed value.sign 0 := by
        refine Eq.trans hzero ?_
        cases value.sign
        · rfl
        · exact neg_zero.symm
      have hdiv := (div_eq_zero_iff.mp (signed_inj.mp hnone)).resolve_right hunit
      exact_mod_cast hdiv
    · dsimp only
      rw [impliedQuotient_eq hpos]
      cases a.sign != b.sign
      · exact congrArg (· % 128) (Int.natAbs_natCast _).symm
      · exact congrArg (· % 128) ((Int.natAbs_neg _).trans (Int.natAbs_natCast _)).symm

/-! ## The dividend is not the smaller -/

theorem and_one_ne_zero_iff (x : BitVec 64) : (x &&& 1 != 0) = decide (x.toNat % 2 = 1) := by
  have hbit : (x &&& 1).toNat = x.toNat % 2 := by
    rw [BitVec.toNat_and]
    exact Nat.and_one_is_mod _
  rw [Bool.eq_iff_iff, bne_iff_ne, Ne, toNat_eq_zero_iff, hbit, decide_eq_true_iff]
  omega

theorem takesOneMore_of_le {ma mb : BitVec 64} {ea eb : Int} {d : Divided} {q : ℕ} (hle : eb ≤ ea)
    (hmb : 2 ^ 63 ≤ mb.toNat) (hq : d.quotient.toNat = q % 2 ^ 64) :
    takesOneMore ma mb ea eb d = Direction.nearest.raises q d.remainder.toNat mb.toNat := by
  have hodd : (d.quotient &&& 1 != 0) = decide (q % 2 = 1) := by
    rw [and_one_ne_zero_iff, hq, Nat.mod_mod_of_dvd _ (by norm_num)]
  have hr := d.remainder.isLt
  have hm := mb.isLt
  unfold takesOneMore Direction.raises
  rw [if_neg (by omega), hodd]
  dsimp only
  by_cases htop : 2 ^ 63 ≤ d.remainder.toNat
  · have hmore : decide (mb.toNat < 2 * d.remainder.toNat) = true := decide_eq_true (by omega)
    rw [bne_iff_ne.mpr ((integerBit_ne_zero_iff _).mpr htop), hmore]
    rfl
  · have htwice := toNat_shiftLeft_one (not_le.mp htop)
    have hclear : (d.remainder &&& integerBit != 0) = false :=
      bne_eq_false_iff_eq.mpr ((integerBit_eq_zero_iff _).mpr (not_le.mp htop))
    have heq : (d.remainder <<< 1 == mb) = decide (2 * d.remainder.toNat = mb.toNat) := by
      rw [← htwice, Bool.eq_iff_iff, beq_iff_eq, decide_eq_true_iff, BitVec.toNat_inj]
    have hlt : decide (mb < d.remainder <<< 1) = decide (mb.toNat < 2 * d.remainder.toNat) :=
      decide_eq_decide.mpr (by rw [BitVec.lt_def, htwice])
    rw [hclear, heq, hlt, Bool.false_or]

/-- The result of the instruction, when the value composed has the right sign and magnitude. -/
def RightlyComposed (a b : Extended) (roundToNearest : Bool) (value : Extended) : Prop :=
  value.sign = remainderSign a b roundToNearest ∧ value.Finite ∧
    remainderFinite a b roundToNearest =
      (if value.mantissa = 0 then makeZero a.sign else value,
        (quotientDirection roundToNearest).quotient a.magnitude b.magnitude % 128)

theorem toNat_and_seven (x : BitVec 64) : (x &&& 0x7F).toNat = x.toNat % 128 := by
  have hmask : (0x7F : BitVec 64) = (1 : BitVec 64) <<< 7 - 1 := by decide
  exact hmask ▸ toNat_and_lowMask x (by decide)

theorem remainderFinite_of_le (roundToNearest : Bool) (ha : a.mantissa ≠ 0) (hb : b.mantissa ≠ 0) (hfinite : b.Finite)
    (hle : (decompose b).2 ≤ (decompose a).2) :
    ∃ value, RightlyComposed a b roundToNearest value ∧
      value.magnitude = remainderMagnitude a b roundToNearest := by
  obtain ⟨p, hea, -, hnumber, -⟩ := decompose_spec ha
  obtain ⟨s, heb, hs, hdivisor, hset⟩ := decompose_spec hb
  have hturns : p = s + (p - s) := by omega
  have hdifference : ((decompose a).2 - (decompose b).2).toNat = p - s := by omega
  have hpos : 0 < (decompose b).1.toNat := by omega
  have hscale := Nat.two_pow_pos 64
  have hscale' := Nat.two_pow_pos s
  obtain ⟨hremainder, hquotient, hexponent⟩ :=
    longDivision_spec (decompose a).1 (decompose b).1 (decompose b).2 hset (p - s)
  -- the quotient and what is left of it are those of the magnitudes
  have hscaled : a.magnitude * 2 ^ 64 = (decompose a).1.toNat * 2 ^ (p - s) * 2 ^ s := by
    rw [hnumber, mul_assoc, ← pow_add, add_comm, ← hturns]
  have hdiv : (decompose a).1.toNat * 2 ^ (p - s) / (decompose b).1.toNat =
      a.magnitude / b.magnitude := by
    rw [← Nat.mul_div_mul_right _ _ hscale', ← hscaled, ← hdivisor, Nat.mul_div_mul_right _ _ hscale]
  have hmod : (decompose a).1.toNat * 2 ^ (p - s) % (decompose b).1.toNat * 2 ^ s =
      a.magnitude % b.magnitude * 2 ^ 64 := by
    rw [← Nat.mul_mod_mul_right, ← hscaled, ← hdivisor, Nat.mul_mod_mul_right]
  generalize hd : longDivision (decompose a).1 (decompose b).1 (decompose b).2 (p - s) = d at *
  rw [hdiv] at hquotient
  rw [← hremainder] at hmod
  have hsmall : d.remainder.toNat < (decompose b).1.toNat := hremainder ▸ Nat.mod_lt _ hpos
  have hmore : (roundToNearest && takesOneMore (decompose a).1 (decompose b).1 (decompose a).2
      (decompose b).2 d) = quotientRaises a b roundToNearest := by
    unfold quotientRaises quotientDirection
    rw [← Direction.raises_mul_mul _ hscale, mul_comm, ← hmod, mul_comm (2 ^ 64), hdivisor,
      mul_comm _ (2 ^ s), mul_comm _ (2 ^ s), Direction.raises_mul_mul _ hscale']
    cases roundToNearest
    · rfl
    · exact takesOneMore_of_le hle hset hquotient
  have hplaces : s < 0x7FFF + 64 := hs.trans_lt (Nat.add_lt_add_right hfinite 64)
  have hnotLess : ¬ (decompose a).2 - (decompose b).2 < 0 := by omega
  unfold RightlyComposed remainderFinite
  dsimp only
  rw [if_neg hnotLess, hdifference, hd, hmore]
  unfold Direction.quotient remainderSign remainderMagnitude
  change ∃ value, (_ ∧ _ ∧ _ = (_, (a.magnitude / b.magnitude +
    if quotientRaises a b roundToNearest then 1 else 0) % 128)) ∧ _
  cases quotientRaises a b roundToNearest
  · obtain ⟨hmagnitude, hsign, hfin⟩ := compose_spec a.sign hmod hplaces
    refine ⟨_, ⟨hsign, hfin, ?_⟩, hmagnitude⟩
    simp only [Bool.false_eq_true, if_false, hexponent, heb, toNat_and_seven, hquotient, add_zero]
    rw [Nat.mod_mod_of_dvd _ (by norm_num)]
  · have hless : ((decompose b).1 - d.remainder).toNat * 2 ^ s =
        (b.magnitude - a.magnitude % b.magnitude) * 2 ^ 64 := by
      rw [BitVec.toNat_sub_of_le (BitVec.le_def.mpr hsmall.le), Nat.sub_mul, Nat.sub_mul, hmod,
        hdivisor]
    obtain ⟨hmagnitude, hsign, hfin⟩ := compose_spec (!a.sign) hless hplaces
    refine ⟨_, ⟨hsign, hfin, ?_⟩, hmagnitude⟩
    unfold oneMore
    rw [if_neg hnotLess]
    simp only [if_true, hexponent, heb, toNat_and_seven, BitVec.toNat_add, hquotient]
    congr 1
    change (a.magnitude / b.magnitude % 2 ^ 64 + 1) % 2 ^ 64 % 128 = _
    omega

/-! ## The dividend is the smaller -/

theorem lt_twice_iff {ma mb p s : ℕ} (hma : ma < 2 ^ 64) (hmb : 2 ^ 63 ≤ mb) (hlt : p < s) :
    mb * 2 ^ s < 2 * (ma * 2 ^ p) ↔ p + 1 = s ∧ mb < ma := by
  obtain ⟨k, rfl⟩ : ∃ k, s = p + 1 + k := ⟨s - (p + 1), by omega⟩
  have hpow : mb * 2 ^ (p + 1 + k) = mb * 2 ^ k * (2 * 2 ^ p) := by
    rw [pow_add, pow_succ]
    ring
  rw [hpow, mul_left_comm 2 ma, Nat.mul_lt_mul_right (by positivity)]
  rcases k.eq_zero_or_pos with rfl | hk
  · rw [pow_zero, mul_one]
    exact ⟨fun h => ⟨rfl, h⟩, fun h => h.2⟩
  · have htwo : 2 ^ 1 ≤ 2 ^ k := Nat.pow_le_pow_right (by decide) hk
    constructor
    · intro h
      have hmul : mb * 2 ^ 1 ≤ mb * 2 ^ k := Nat.mul_le_mul_left _ htwo
      omega
    · rintro ⟨h, -⟩
      omega

theorem half_taken {ma mb c p : ℕ} (hle : ma ≤ 2 * mb)
    (hc : (mb - ma / 2) * 2 ^ (p + 1) = c * 2 ^ 64) (target : ℕ)
    (htarget : target * 2 ^ 64 = mb * 2 ^ (p + 1) - ma * 2 ^ p) :
    c = target ↔ ma % 2 ≠ 1 := by
  have hpow := Nat.two_pow_pos p
  have hcode : (mb - ma / 2) * 2 ^ (p + 1) = (2 * mb - ma + ma % 2) * 2 ^ p := by
    rw [pow_succ, mul_comm (2 ^ p), ← mul_assoc]
    congr 1
    omega
  have hexact : mb * 2 ^ (p + 1) - ma * 2 ^ p = (2 * mb - ma) * 2 ^ p := by
    rw [Nat.sub_mul, pow_succ]
    congr 1
    ring
  rw [hcode] at hc
  rw [hexact] at htarget
  rw [← Nat.mul_left_inj (Nat.two_pow_pos 64).ne', ← hc, htarget, Nat.mul_left_inj hpow.ne']
  omega

theorem odd_place {x m p : ℕ} (h : x * 2 ^ 64 = m * 2 ^ p) (hodd : m % 2 = 1) : 64 ≤ p := by
  by_contra hlt
  obtain ⟨k, hk⟩ : ∃ k, 64 = p + (k + 1) := ⟨64 - p - 1, by omega⟩
  rw [hk, pow_add, mul_comm (2 ^ p), ← mul_assoc] at h
  have heven := Nat.eq_of_mul_eq_mul_right (Nat.two_pow_pos p) h
  rw [pow_succ, ← mul_assoc] at heven
  omega

theorem remainderFinite_of_lt (roundToNearest : Bool) (ha : a.mantissa ≠ 0) (hb : b.mantissa ≠ 0) (hfina : a.Finite)
    (hfinb : b.Finite) (hless : (decompose a).2 < (decompose b).2) :
    ∃ value, RightlyComposed a b roundToNearest value ∧
      (value.magnitude = remainderMagnitude a b roundToNearest ↔ ¬ LosesPlace a b roundToNearest) := by
  obtain ⟨p, hea, hp, hnumber, -⟩ := decompose_spec ha
  obtain ⟨s, heb, hs, hdivisor, hset⟩ := decompose_spec hb
  have hlt : p < s := by omega
  have hma := (decompose a).1.isLt
  have hmb := (decompose b).1.isLt
  have hscale := Nat.two_pow_pos 64
  have hp' : p < 0x7FFF + 64 := hp.trans_lt (Nat.add_lt_add_right hfina 64)
  have hs' : s < 0x7FFF + 64 := hs.trans_lt (Nat.add_lt_add_right hfinb 64)
  have hbelow : a.magnitude < b.magnitude := by
    refine Nat.lt_of_mul_lt_mul_right (a := 2 ^ 64) ?_
    rw [hnumber, hdivisor]
    have hpow : 2 ^ (p + 1) ≤ 2 ^ s := Nat.pow_le_pow_right (by decide) hlt
    calc (decompose a).1.toNat * 2 ^ p < 2 ^ 64 * 2 ^ p :=
          Nat.mul_lt_mul_of_pos_right hma (Nat.two_pow_pos p)
      _ = 2 ^ 63 * 2 ^ (p + 1) := by rw [pow_succ]; ring
      _ ≤ (decompose b).1.toNat * 2 ^ s := Nat.mul_le_mul hset hpow
  have hdiv : a.magnitude / b.magnitude = 0 := Nat.div_eq_of_lt hbelow
  have hmod : a.magnitude % b.magnitude = a.magnitude := Nat.mod_eq_of_lt hbelow
  have hhalf : b.magnitude < 2 * a.magnitude ↔
      p + 1 = s ∧ (decompose b).1.toNat < (decompose a).1.toNat := by
    rw [← lt_twice_iff hma hset hlt, ← hnumber, ← hdivisor, ← mul_assoc, Nat.mul_lt_mul_right hscale]
  have hraises : quotientRaises a b roundToNearest = true ↔
      roundToNearest = true ∧ p + 1 = s ∧ (decompose b).1.toNat < (decompose a).1.toNat := by
    unfold quotientRaises
    rw [hdiv, hmod, ← hhalf]
    cases roundToNearest
    · exact ⟨nofun, fun h => absurd h.1 nofun⟩
    · simp [quotientDirection, Direction.raises]
  have hmore : (roundToNearest && takesOneMore (decompose a).1 (decompose b).1 (decompose a).2
      (decompose b).2 { remainder := (decompose a).1, exponent := (decompose a).2, quotient := 0 }) =
        quotientRaises a b roundToNearest := by
    have hfar : ¬ (decompose b).2 < (decompose a).2 + 1 := by omega
    have hnext : (decompose a).2 + 1 = (decompose b).2 ↔ p + 1 = s := by omega
    rw [Bool.eq_iff_iff, hraises]
    unfold takesOneMore
    rw [if_pos (by omega)]
    simp [hfar, hnext, BitVec.lt_def]
  have hlast : LosesPlace a b roundToNearest ↔
      quotientRaises a b roundToNearest = true ∧ (decompose a).1.toNat % 2 = 1 := by
    have hnext : (decompose a).2 + 1 = (decompose b).2 ↔ p + 1 = s := by omega
    unfold LosesPlace
    rw [hraises, hnext, BitVec.lt_def]
    tauto
  have hneg : (decompose a).2 - (decompose b).2 < 0 := by omega
  unfold RightlyComposed remainderFinite
  dsimp only
  rw [if_pos hneg, hmore, hlast]
  unfold Direction.quotient remainderSign remainderMagnitude
  change ∃ value, (_ ∧ _ ∧ _ = (_, (a.magnitude / b.magnitude +
    if quotientRaises a b roundToNearest then 1 else 0) % 128)) ∧ _
  rw [hdiv, hmod]
  by_cases hup : quotientRaises a b roundToNearest = true
  · obtain ⟨-, hnext, hgreater⟩ := hraises.mp hup
    have hshift : ((decompose b).2 - (decompose a).2).toNat = 1 := by omega
    have haligned : ((decompose a).1 >>> 1).toNat = (decompose a).1.toNat / 2 := by
      rw [BitVec.toNat_ushiftRight, Nat.shiftRight_eq_div_pow]
    have htaken : ((decompose b).1 - (decompose a).1 >>> 1).toNat =
        (decompose b).1.toNat - (decompose a).1.toNat / 2 := by
      rw [BitVec.toNat_sub_of_le (BitVec.le_def.mpr (by rw [haligned]; omega)), haligned]
    -- whatever is composed is a whole number of the smallest, because the dividend is
    obtain ⟨c, hc⟩ : ∃ c, ((decompose b).1 - (decompose a).1 >>> 1).toNat * 2 ^ s = c * 2 ^ 64 := by
      rw [htaken, ← hnext]
      by_cases hodd : (decompose a).1.toNat % 2 = 1
      · obtain ⟨k, hk⟩ : ∃ k, p + 1 = k + 64 := ⟨p + 1 - 64, by have := odd_place hnumber hodd; omega⟩
        rw [hk, pow_add, ← mul_assoc]
        exact ⟨_, rfl⟩
      · have heven : (decompose a).1.toNat / 2 * 2 ^ (p + 1) = a.magnitude * 2 ^ 64 := by
          have hdvd : 2 ∣ (decompose a).1.toNat := by omega
          rw [hnumber, pow_succ, mul_comm (2 ^ p), ← mul_assoc, Nat.div_mul_cancel hdvd]
        rw [Nat.sub_mul, heven, hnext, ← hdivisor, ← Nat.sub_mul]
        exact ⟨_, rfl⟩
    obtain ⟨hmagnitude, hsign, hfin⟩ := compose_spec (!a.sign) hc hs'
    rw [hup]
    refine ⟨_, ⟨hsign, hfin, ?_⟩, ?_⟩
    · unfold oneMore
      rw [if_pos hneg, hshift]
      simp only [if_true, heb]
      rfl
    · rw [hmagnitude]
      simp only [if_true, true_and]
      have hle : (decompose a).1.toNat ≤ 2 * (decompose b).1.toNat := by omega
      refine half_taken (p := p) hle ?_ _ ?_
      · rw [← htaken, hnext, hc]
      · rw [Nat.sub_mul, hnumber, hdivisor, hnext]
  · obtain ⟨hmagnitude, hsign, hfin⟩ := compose_spec a.sign hnumber.symm hp'
    rw [Bool.not_eq_true] at hup
    rw [hup]
    refine ⟨_, ⟨hsign, hfin, ?_⟩, ?_⟩
    · simp only [Bool.false_eq_true, if_false, hea]
      rfl
    · rw [hmagnitude]
      simp

/-! ## The instructions -/

theorem remainder_eq (ha : a.Finite) (hb : b.Finite) (hnea : a.mantissa ≠ 0) (hneb : b.mantissa ≠ 0) :
    remainder a b roundToNearest =
      { value := (remainderFinite a b roundToNearest).1
        quotient := (remainderFinite a b roundToNearest).2
        quotientSign := a.sign != b.sign
        exceptions := 0 } := by
  obtain ⟨hnana, hinfa⟩ := classify_finite_ne ha
  obtain ⟨hnanb, hinfb⟩ := classify_finite_ne hb
  have hnotError : ¬ (classify b = .zero ∨ classify a = .infinity) :=
    not_or.mpr ⟨fun h => hneb ((classify_zero_iff hb).mp h), hinfa⟩
  unfold remainder
  rw [propagateNan_eq_none hnana hnanb]
  dsimp only
  rw [if_neg hnotError, if_neg fun h => hnea ((classify_zero_iff ha).mp h), if_neg hinfb]

theorem magnitude_pos (h : b.mantissa ≠ 0) : 0 < b.magnitude :=
  Nat.pos_of_ne_zero fun hzero => h ((magnitude_eq_zero_iff b).mp hzero)

theorem remainder_of_lt (ha : a.Finite) (hb : b.Finite) (hnea : a.mantissa ≠ 0) (hneb : b.mantissa ≠ 0)
    (hlt : (decompose a).2 < (decompose b).2) :
    RemainderOf a b roundToNearest (remainder a b roundToNearest) ↔
      ¬ LosesPlace a b roundToNearest := by
  obtain ⟨value, ⟨hsign, hfinite, hfound⟩, hmagnitude⟩ :=
    remainderFinite_of_lt roundToNearest hnea hneb ha hb hlt
  rw [remainder_eq ha hb hnea hneb, hfound, ← hmagnitude]
  exact remainderOf_iff (magnitude_pos hneb) _ _ hsign hfinite

theorem remainder_of_le (ha : a.Finite) (hb : b.Finite) (hnea : a.mantissa ≠ 0) (hneb : b.mantissa ≠ 0)
    (hle : (decompose b).2 ≤ (decompose a).2) :
    RemainderOf a b roundToNearest (remainder a b roundToNearest) := by
  obtain ⟨value, ⟨hsign, hfinite, hfound⟩, hmagnitude⟩ :=
    remainderFinite_of_le roundToNearest hnea hneb hb hle
  rw [remainder_eq ha hb hnea hneb, hfound]
  exact (remainderOf_iff (magnitude_pos hneb) _ _ hsign hfinite).mpr hmagnitude

theorem remainder_of_zero (ha : a.Finite) (hb : b.Finite) (hzero : a.mantissa = 0)
    (hneb : b.mantissa ≠ 0) : RemainderOf a b roundToNearest (remainder a b roundToNearest) := by
  obtain ⟨hnana, hinfa⟩ := classify_finite_ne ha
  have hnanb := (classify_finite_ne hb).1
  have hnotError : ¬ (classify b = .zero ∨ classify a = .infinity) :=
    not_or.mpr ⟨fun h => hneb ((classify_zero_iff hb).mp h), hinfa⟩
  have hpos := magnitude_pos hneb
  have hmagnitude := (magnitude_eq_zero_iff a).mpr hzero
  have hnone : quotientRaises a b roundToNearest = false := by
    unfold quotientRaises
    rw [hmagnitude, Nat.zero_mod]
    exact Direction.raises_zero _ _ hpos
  have hquotient : (quotientDirection roundToNearest).quotient a.magnitude b.magnitude = 0 := by
    rw [hmagnitude, Direction.quotient_of_dvd _ hpos (dvd_zero _), Nat.zero_div]
  have hsign : (makeZero a.sign).sign = remainderSign a b roundToNearest := by
    unfold remainderSign
    rw [hnone]
    rfl
  have hright := remainderOf_iff hpos (makeZero a.sign) 0 hsign (show 0 < 0x7FFF by decide)
  rw [ite_self, hquotient] at hright
  unfold remainder
  rw [propagateNan_eq_none hnana hnanb]
  dsimp only
  rw [if_neg hnotError, if_pos ((classify_zero_iff ha).mpr hzero)]
  refine hright.mpr ?_
  unfold remainderMagnitude
  rw [hnone, hmagnitude]
  exact (magnitude_eq_zero_iff _).mpr rfl

theorem not_losesPlace_zero (hzero : a.mantissa = 0) : ¬ LosesPlace a b roundToNearest := by
  have hstill : ∀ places e, (normalizeSignificand 0 e places).1 = 0 := by
    intro places
    induction places with
    | zero => exact fun e => rfl
    | succ places ih => exact fun e => ih (e - 1)
  rintro ⟨-, -, -, hodd⟩
  unfold decompose at hodd
  rw [hzero, hstill] at hodd
  exact absurd hodd (by decide)

/-- FREM AND FMOD ARE EXACT wherever no place of the dividend is lost. -/
theorem remainder_iff (ha : a.Finite) (hb : b.Finite) (hne : b.mantissa ≠ 0) :
    RemainderOf a b roundToNearest (remainder a b roundToNearest) ↔
      ¬ LosesPlace a b roundToNearest := by
  by_cases hzero : a.mantissa = 0
  · exact iff_of_true (remainder_of_zero ha hb hzero hne) (not_losesPlace_zero hzero)
  · rcases le_or_gt (decompose b).2 (decompose a).2 with hle | hlt
    · refine iff_of_true (remainder_of_le ha hb hzero hne hle) ?_
      rintro ⟨-, hnext, -⟩
      omega
    · exact remainder_of_lt ha hb hzero hne hlt

/-- 5 by 3 in FREM: the quotient goes up to 2, and -1 is left. -/
theorem remainder_iff_five_three :
    RemainderOf ⟨false, 0x4001, 0xA000000000000000⟩ ⟨false, 0x4000, 0xC000000000000000⟩ true
      (remainder ⟨false, 0x4001, 0xA000000000000000⟩ ⟨false, 0x4000, 0xC000000000000000⟩ true) :=
  (remainder_iff (by decide) (by decide) (by decide)).mpr (by decide)

/-- The number next to 2, taken from 2, has a last place that is lost. -/
theorem not_remainder_exact :
    ¬ ∀ (a b : Extended) (roundToNearest : Bool), a.InputForm → b.InputForm → a.Finite → b.Finite →
      b.mantissa ≠ 0 → RemainderOf a b roundToNearest (remainder a b roundToNearest) := by
  intro h
  have hright := h ⟨false, 0x3FFF, 0xFFFFFFFFFFFFFFFF⟩ ⟨false, 0x4000, integerBit⟩ true (by decide)
    (by decide) (by decide) (by decide) (by decide)
  exact (remainder_of_lt (by decide) (by decide) (by decide) (by decide) (by decide)).mp hright
    (by decide)

end Apollo.M68882
