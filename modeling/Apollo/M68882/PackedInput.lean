import Mathlib
import Apollo.M68882.BignumDivide
import Apollo.M68882.Packed
import Apollo.M68882.Operation

/-!
# Packed decimal comes in rounded once

`ap_m68882_packed_decode`. A string is seventeen digits and a power of ten (`packedValue`), and neither
way of taking it, the product with a power of five or the quotient by one, loses anything: both leave a
mantissa with two bits that stand for the number exactly (`Unrounded.Stands`), and the part's own
rounding does the rest. No limb is lost on the way, for any digits that the twelve bytes can hold
(`packedDecode_rounded`).
-/

namespace Apollo.M68882

open Apollo.Lib

/-- What a string stands for. -/
def packedValue (bytes : List (BitVec 8)) : ℚ :=
  signed (bytes.getD 0 0 &&& 0x80 != 0) ((digitsFrom bytes 7 17 : ℚ) * 10 ^ packedExponent bytes)

/-! ## What the conversion carries out -/

/-- What `unroundedQuotient` carries out. -/
def quotientCalls (digits : BitVec 64) (places : Nat) : List Bignum.Call :=
  let value := Bignum.ofWord digits
  let denominator := (Bignum.ofWord 1).mulPow5 places
  let shift := ((65 : Int) + denominator.bitLength - value.bitLength).toNat
  (Bignum.ofWord 1).mulPow5Calls places ++
    .shiftLeft value shift :: (value.shiftLeft shift).divideCalls denominator

/-- What `packedDecode` carries out for a string of digits. -/
def packedDecodeCalls (bytes : List (BitVec 8)) : List Bignum.Call :=
  let digits := BitVec.ofNat 64 (digitsFrom bytes 7 17)
  if 0 ≤ packedExponent bytes then
    (Bignum.ofWord digits).mulPow5Calls (packedExponent bytes).toNat
  else quotientCalls digits (-packedExponent bytes).toNat

/-! ## A mantissa with two bits below -/

/-- The mantissa and the two bits stand for a number. -/
structure Unrounded.Stands (x : Unrounded) (y : ℚ) : Prop where
  set : 2 ^ 63 ≤ x.mantissa.toNat
  rest : ∃ r d : ℕ, r < d ∧ Direction.Encodes x.guard x.sticky r d ∧
    y = ((x.mantissa.toNat * d + r : ℕ) : ℚ) / d * 2 ^ (x.binaryExponent - 63)

namespace Unrounded.Stands

variable {x : Unrounded} {y : ℚ}

theorem bounds (h : x.Stands y) : 2 ^ x.binaryExponent ≤ y ∧ y < 2 ^ (x.binaryExponent + 1) := by
  obtain ⟨r, d, hr, -, hy⟩ := h.rest
  have hd : (0 : ℚ) < d := by exact_mod_cast Nat.zero_lt_of_lt hr
  have hpos : (0 : ℚ) < 2 ^ (x.binaryExponent - 63) := zpow_pos two_pos _
  have hlow : (2 : ℚ) ^ x.binaryExponent = ((2 ^ 63 : ℕ) : ℚ) * 2 ^ (x.binaryExponent - 63) := by
    rw [Nat.cast_pow, ← zpow_natCast, Nat.cast_ofNat, ← zpow_add₀ two_ne_zero]
    congr 1
    ring
  have hhigh : (2 : ℚ) ^ (x.binaryExponent + 1) =
      ((2 ^ 64 : ℕ) : ℚ) * 2 ^ (x.binaryExponent - 63) := by
    rw [Nat.cast_pow, ← zpow_natCast, Nat.cast_ofNat, ← zpow_add₀ two_ne_zero]
    congr 1
    ring
  rw [hy, hlow, hhigh]
  refine ⟨mul_le_mul_of_nonneg_right ?_ hpos.le, mul_lt_mul_of_pos_right ?_ hpos⟩
  · rw [le_div_iff₀ hd]
    have hle : 2 ^ 63 * d ≤ x.mantissa.toNat * d + r :=
      (Nat.mul_le_mul_right d h.set).trans (Nat.le_add_right _ _)
    exact_mod_cast hle
  · rw [div_lt_iff₀ hd]
    have hlt : x.mantissa.toNat * d + r < 2 ^ 64 * d :=
      calc x.mantissa.toNat * d + r < (x.mantissa.toNat + 1) * d := by
            rw [add_mul, one_mul]
            omega
        _ ≤ 2 ^ 64 * d := Nat.mul_le_mul_right d x.mantissa.isLt
    exact_mod_cast hlt

theorem pos (h : x.Stands y) : 0 < y := (zpow_pos two_pos _).trans_le h.bounds.1

theorem log_eq (h : x.Stands y) : Int.log 2 y = x.binaryExponent := by
  obtain ⟨hlow, hhigh⟩ := h.bounds
  refine le_antisymm (Int.lt_add_one_iff.mp ?_) ?_
  · exact (Int.lt_zpow_iff_log_lt (by decide) h.pos).mp (by exact_mod_cast hhigh)
  · exact (Int.zpow_le_iff_le_log (by decide) h.pos).mp (by exact_mod_cast hlow)

/-- ROUNDED ONCE, to 64 bits: the result is normalised, it is the number rounded to a unit of its last
place, and it is called inexact when it is not the number. -/
theorem rounded (h : x.Stands y) (sign : Bool) (mode : Rounding)
    (hlow : -biasExtended < x.binaryExponent) (hhigh : x.binaryExponent < biasExtended) {out : RoundResult}
    (hout : out = roundToBits ⟨sign, BitVec.ofInt 16 (biasExtended + x.binaryExponent), x.mantissa⟩
      x.guard false x.sticky mode 64) :
    out.value.value = mode.toGrid (2 ^ (Int.log 2 y - 63)) (signed sign y) ∧
      (out.inexact = true ↔ out.value.value ≠ signed sign y) ∧
      out.value.sign = sign ∧ out.value.Finite ∧ 2 ^ 63 ≤ out.value.mantissa.toNat := by
  obtain ⟨r, d, hr, hencodes, hy⟩ := h.rest
  have hset := h.set
  have hd : 0 < d := Nat.zero_lt_of_lt hr
  have hunit : (0 : ℚ) < 2 ^ (x.binaryExponent - 63) := zpow_pos two_pos _
  obtain ⟨e, he⟩ : ∃ e : ℕ, biasExtended + x.binaryExponent = e :=
    ⟨(biasExtended + x.binaryExponent).toNat, by omega⟩
  have hbias : biasExtended = 16383 := rfl
  have hfield : (BitVec.ofInt 16 (biasExtended + x.binaryExponent)).toNat = e := by
    rw [he, BitVec.ofInt_natCast, BitVec.toNat_ofNat, Nat.mod_eq_of_lt (by omega)]
  generalize BitVec.ofInt 16 (biasExtended + x.binaryExponent) = field at hfield hout
  generalize hq : (mode.direction sign).quotient (x.mantissa.toNat * d + r) d = q
  have hqlow : 2 ^ 63 ≤ q := by
    rw [← hq]
    exact Direction.le_quotient _ hd
      ((Nat.mul_le_mul_right d hset).trans (Nat.le_add_right _ _))
  have hencoded : Direction.Encodes x.guard (false || x.sticky) r d := hencodes
  have hspec := roundToBits_spec ⟨sign, field, x.mantissa⟩ mode (by decide) le_rfl hr
    hencoded (q := q) (by rw [← hq, Nat.sub_self, pow_zero, one_mul])
  rw [Nat.sub_self, pow_zero, one_mul, mul_one, ← hout] at hspec
  obtain ⟨hinexact, hqhigh, hvalue⟩ := hspec
  -- the value is the count of units, whichever of the two forms it takes
  have hresult : out.value.value = signed sign (2 ^ (x.binaryExponent - 63) * (q : ℚ)) ∧
      out.value.sign = sign ∧ out.value.Finite ∧ 2 ^ 63 ≤ out.value.mantissa.toNat := by
    have hplace : (e : ℤ) - unitPlace = x.binaryExponent - 63 := by
      rw [← unitPlace_eq]
      push_cast
      omega
    rw [hvalue, value_eq]
    unfold Extended.Finite
    split_ifs with hcarry
    · have hone : (field + 1).toNat = e + 1 := by
        rw [BitVec.toNat_add, hfield]
        exact Nat.mod_eq_of_lt (by omega : e + 1 < 2 ^ 16)
      have htop : (integerBit.toNat : ℚ) = 2 ^ 63 := by
        rw [show integerBit.toNat = 2 ^ 63 by decide]
        norm_num
      refine ⟨?_, rfl, ?_, ?_⟩
      · dsimp only
        rw [hone, hcarry, htop, ← hplace, Nat.cast_add, Nat.cast_one,
          show (e : ℤ) + 1 - unitPlace = e - unitPlace + 1 by ring, zpow_add_one₀ two_ne_zero]
        congr 1
        push_cast
        ring
      · dsimp only
        omega
      · show 2 ^ 63 ≤ integerBit.toNat
        decide
    · have hlt : q < 2 ^ 64 := lt_of_le_of_ne hqhigh hcarry
      have hmantissa : (BitVec.ofNat 64 q).toNat = q := by
        rw [BitVec.toNat_ofNat, Nat.mod_eq_of_lt hlt]
      refine ⟨?_, rfl, ?_, ?_⟩
      · dsimp only
        rw [hmantissa, hfield, hplace, mul_comm]
      · dsimp only
        omega
      · dsimp only
        rw [hmantissa]
        exact hqlow
  have hgrid : mode.toGrid (2 ^ (Int.log 2 y - 63)) (signed sign y) =
      signed sign (2 ^ (x.binaryExponent - 63) * (q : ℚ)) := by
    rw [h.log_eq, ← hq]
    refine mode.toGrid_signed sign hd ?_
    rw [hy, mul_div_cancel_right₀ _ hunit.ne']
  refine ⟨hresult.1.trans hgrid.symm, ?_, hresult.2⟩
  have hquotient := Direction.quotient_eq_iff (mode.direction sign) (n := x.mantissa.toNat * d + r) hd
  rw [hq] at hquotient
  rw [hinexact, decide_eq_true_iff, hresult.1, Ne, signed_inj, hy,
    mul_comm ((2 : ℚ) ^ (x.binaryExponent - 63)), mul_left_inj' hunit.ne', hquotient]

end Unrounded.Stands

/-! ## The two ways -/

theorem top_eq_quotient {m r d n c bits : ℕ} (hd : 0 < d) (hc : 0 < c) (p : ℤ)
    (h : (m * d + r) * c * 2 ^ bits = n * d * 2 ^ 64) :
    ((m * d + r : ℕ) : ℚ) / d * 2 ^ ((bits : ℤ) - 64 + p) = (n : ℚ) / c * 2 ^ p := by
  have hdq : (d : ℚ) ≠ 0 := by exact_mod_cast hd.ne'
  have hcq : (c : ℚ) ≠ 0 := by exact_mod_cast hc.ne'
  have hcast : ((m * d + r : ℕ) : ℚ) * c * 2 ^ bits = n * d * 2 ^ 64 := by exact_mod_cast h
  have hplace : (2 : ℚ) ^ ((bits : ℤ) - 64 + p) = 2 ^ bits / 2 ^ 64 * 2 ^ p := by
    rw [zpow_add₀ two_ne_zero, zpow_sub₀ two_ne_zero]
    rfl
  rw [hplace]
  generalize ((m * d + r : ℕ) : ℚ) = t at hcast ⊢
  rw [← mul_assoc]
  congr 1
  field_simp
  linarith

theorem product_stands {digits : BitVec 64} (hne : digits ≠ 0) {exponent : ℕ}
    (hfits : digits.toNat * 5 ^ exponent < 2 ^ Bignum.capacity) :
    (unroundedProduct digits exponent).Stands ((digits.toNat : ℚ) * 10 ^ (exponent : ℤ)) ∧
      ∀ call ∈ (Bignum.ofWord digits).mulPow5Calls exponent, call.Exact := by
  have hdigits : digits.toNat ≠ 0 := fun h => hne ((toNat_eq_zero_iff digits).mpr h)
  have hword := Bignum.value_ofWord digits
  rw [← hword] at hfits
  obtain ⟨hvalue, hwf, hcalls⟩ := Bignum.mulPow5_spec (Bignum.wf_ofWord digits) hfits
  rw [hword] at hvalue
  have hpos : 0 < digits.toNat * 5 ^ exponent :=
    Nat.mul_pos (Nat.pos_of_ne_zero hdigits) (pow_pos (by decide) _)
  have hexact : false = decide ((0 : ℕ) ≠ 0) := rfl
  obtain ⟨hbits, hset, r, d, hr, hencodes, hcross⟩ := Bignum.top_spec hwf
    (by rw [hvalue]; exact hpos.ne') one_pos hexact (.inr rfl)
  refine ⟨⟨hset, r, d, hr, hencodes, ?_⟩, hcalls⟩
  rw [add_zero, mul_one ((Bignum.ofWord digits).mulPow5 exponent).value] at hcross
  have hquotient := top_eq_quotient (Nat.zero_lt_of_lt hr) one_pos exponent hcross
  have hplace : (unroundedProduct digits exponent).binaryExponent - 63 =
      ((((Bignum.ofWord digits).mulPow5 exponent).value.size : ℕ) : ℤ) - 64 + exponent := by
    unfold unroundedProduct
    dsimp only
    rw [hbits]
    ring
  rw [hplace]
  refine Eq.trans ?_ hquotient.symm
  rw [hvalue, Nat.cast_one, div_one, zpow_natCast, zpow_natCast, Nat.cast_mul, Nat.cast_pow, mul_assoc,
    Nat.cast_ofNat, ← mul_pow]
  norm_num

theorem quotient_stands {digits : BitVec 64} (hne : digits ≠ 0) {places : ℕ}
    (hfits : (5 ^ places).size + 65 ≤ Bignum.capacity) :
    (unroundedQuotient digits places).Stands ((digits.toNat : ℚ) * 10 ^ (-(places : ℤ))) ∧
      ∀ call ∈ quotientCalls digits places, call.Exact := by
  have hdigits : digits.toNat ≠ 0 := fun h => hne ((toNat_eq_zero_iff digits).mpr h)
  have hword := Bignum.value_ofWord digits
  have hwordWf := Bignum.wf_ofWord digits
  have hone : (Bignum.ofWord 1).value = 1 := Bignum.value_ofWord 1
  have hdlt : 5 ^ places < 2 ^ (5 ^ places).size := Nat.lt_size_self _
  -- the divisor
  obtain ⟨hd, hdWf, hdCalls⟩ := Bignum.mulPow5_spec (Bignum.wf_ofWord 1)
    (show (Bignum.ofWord 1).value * 5 ^ places < 2 ^ Bignum.capacity by
      rw [hone, one_mul]
      exact hdlt.trans_le (Nat.pow_le_pow_right (by decide) (by omega)))
  rw [hone, one_mul] at hd
  -- the numerator, shifted up
  have hdsize : ((Bignum.ofWord 1).mulPow5 places).bitLength = (5 ^ places).size := by
    rw [Bignum.bitLength_eq hdWf, hd]
  have hnsize : (Bignum.ofWord digits).bitLength = digits.toNat.size := by
    rw [Bignum.bitLength_eq hwordWf, hword]
  have hsmall : digits.toNat.size ≤ 64 := Nat.size_le.mpr digits.isLt
  obtain ⟨shift, hshift⟩ : ∃ shift : ℕ, shift + digits.toNat.size = 65 + (5 ^ places).size :=
    ⟨65 + (5 ^ places).size - digits.toNat.size, by omega⟩
  have hshiftInt : ((65 : Int) + ((Bignum.ofWord 1).mulPow5 places).bitLength -
      (Bignum.ofWord digits).bitLength).toNat = shift := by
    rw [hdsize, hnsize]
    omega
  have hnlt : digits.toNat * 2 ^ shift < 2 ^ (65 + (5 ^ places).size) :=
    calc digits.toNat * 2 ^ shift < 2 ^ digits.toNat.size * 2 ^ shift :=
          Nat.mul_lt_mul_of_pos_right (Nat.lt_size_self _) (Nat.two_pow_pos _)
      _ = 2 ^ (65 + (5 ^ places).size) := by rw [← pow_add, add_comm, hshift]
  obtain ⟨hn, hnWf⟩ := Bignum.shiftLeft_spec hwordWf
    (show (Bignum.ofWord digits).value * 2 ^ shift < 2 ^ Bignum.capacity by
      rw [hword]
      exact hnlt.trans_le (Nat.pow_le_pow_right (by decide) (by omega)))
  have hnExact : (Bignum.Call.shiftLeft (Bignum.ofWord digits) shift).Exact := hn
  rw [hword] at hn
  -- the division
  have hpos : 0 < 5 ^ places := pow_pos (by decide) _
  obtain ⟨hq, hqWf, hleft, hdivideCalls⟩ := Bignum.divide_spec hnWf hdWf (by rw [hd]; exact hpos)
    (by
      rw [hd]
      calc 5 ^ places * 2 ≤ 2 ^ (5 ^ places).size * 2 := Nat.mul_le_mul_right 2 hdlt.le
        _ = 2 ^ ((5 ^ places).size + 1) := (pow_succ 2 _).symm
        _ ≤ 2 ^ Bignum.capacity := Nat.pow_le_pow_right (by decide) (by omega))
  rw [hn, hd] at hq hleft
  have hwide : 2 ^ 64 ≤ digits.toNat * 2 ^ shift / 5 ^ places := by
    obtain ⟨s, hs⟩ := Nat.exists_eq_succ_of_ne_zero
      (Nat.size_pos.mpr (Nat.pos_of_ne_zero hdigits)).ne'
    have hlow : 2 ^ s ≤ digits.toNat := Nat.lt_size.mp (by omega)
    rw [Nat.le_div_iff_mul_le hpos]
    calc 2 ^ 64 * 5 ^ places ≤ 2 ^ 64 * 2 ^ (5 ^ places).size := Nat.mul_le_mul_left _ hdlt.le
      _ = 2 ^ s * 2 ^ shift := by
          rw [← pow_add, ← pow_add]
          congr 1
          omega
      _ ≤ digits.toNat * 2 ^ shift := Nat.mul_le_mul_right _ hlow
  rw [← hq] at hwide
  obtain ⟨hbits, hset, r, d, hr, hencodes, hcross⟩ := Bignum.top_spec hqWf
    (by omega) (Nat.mod_lt _ hpos) hleft (.inl (Nat.lt_size.mpr hwide))
  have hunrounded : unroundedQuotient digits places =
      { binaryExponent := ((((((Bignum.ofWord digits).shiftLeft shift).divide
          ((Bignum.ofWord 1).mulPow5 places)).1.value.size : ℕ) : Int) - 1 - shift + -(places : Int))
        mantissa := ((((Bignum.ofWord digits).shiftLeft shift).divide
          ((Bignum.ofWord 1).mulPow5 places)).1.top (((Bignum.ofWord digits).shiftLeft shift).divide
          ((Bignum.ofWord 1).mulPow5 places)).2).mantissa
        guard := ((((Bignum.ofWord digits).shiftLeft shift).divide
          ((Bignum.ofWord 1).mulPow5 places)).1.top (((Bignum.ofWord digits).shiftLeft shift).divide
          ((Bignum.ofWord 1).mulPow5 places)).2).guard
        sticky := ((((Bignum.ofWord digits).shiftLeft shift).divide
          ((Bignum.ofWord 1).mulPow5 places)).1.top (((Bignum.ofWord digits).shiftLeft shift).divide
          ((Bignum.ofWord 1).mulPow5 places)).2).sticky } := by
    unfold unroundedQuotient
    dsimp only
    rw [hshiftInt, ← hbits]
  have hcalls : quotientCalls digits places =
      (Bignum.ofWord 1).mulPow5Calls places ++ .shiftLeft (Bignum.ofWord digits) shift ::
        ((Bignum.ofWord digits).shiftLeft shift).divideCalls ((Bignum.ofWord 1).mulPow5 places) := by
    unfold quotientCalls
    dsimp only
    rw [hshiftInt]
  rw [hunrounded, hcalls]
  generalize ((Bignum.ofWord digits).shiftLeft shift).divide ((Bignum.ofWord 1).mulPow5 places) = out
    at hq hset hencodes hcross ⊢
  refine ⟨⟨hset, r, d, hr, hencodes, ?_⟩, fun call hcall => ?_⟩
  · rw [hq, mul_comm (_ / _), Nat.div_add_mod] at hcross
    have hquotient := top_eq_quotient (Nat.zero_lt_of_lt hr) hpos (-(shift : ℤ) - places) hcross
    dsimp only
    rw [hq, show ∀ z : ℤ, z - 1 - shift + -(places : ℤ) - 63 = z - 64 + (-(shift : ℤ) - places) by
      intro z; ring]
    refine Eq.trans ?_ hquotient.symm
    rw [zpow_sub₀ two_ne_zero, zpow_neg, zpow_neg, zpow_natCast, zpow_natCast, zpow_natCast,
      show (10 : ℚ) = 5 * 2 by norm_num, mul_pow]
    push_cast
    field_simp
  · rcases List.mem_append.mp hcall with hcall | hcall
    · exact hdCalls call hcall
    rcases List.mem_cons.mp hcall with rfl | hcall
    · exact hnExact
    · exact hdivideCalls call hcall

/-! ## A string -/

theorem digit_le (bytes : List (BitVec 8)) (nibble : ℕ) : digit bytes nibble ≤ 15 := by
  unfold digit
  dsimp only
  generalize bytes.getD (nibble / 2) 0 = byte
  have hlt := byte.isLt
  split_ifs
  · rw [BitVec.toNat_ushiftRight, Nat.shiftRight_eq_div_pow]
    omega
  · rw [BitVec.toNat_and]
    exact Nat.and_le_right

theorem digitsFrom_le (bytes : List (BitVec 8)) (nibble count : ℕ) :
    digitsFrom bytes nibble count * 9 ≤ 15 * (10 ^ count - 1) := by
  induction count with
  | zero => exact le_rfl
  | succ count ih =>
    have hdigit := digit_le bytes (nibble + count)
    have hpow := pow_pos (show 0 < 10 by decide) count
    unfold digitsFrom
    rw [pow_succ]
    omega

theorem packedExponent_bounds (bytes : List (BitVec 8)) : |packedExponent bytes| ≤ 1681 := by
  have hone := digit_le bytes 1
  have htwo := digit_le bytes 2
  have hthree := digit_le bytes 3
  rw [abs_le]
  unfold packedExponent
  dsimp only
  split_ifs <;> omega

theorem ten_zpow_bounds {e : ℤ} {m : ℕ} (h : |e| ≤ m) :
    (2 : ℚ) ^ (-(4 * m : ℤ)) ≤ 10 ^ e ∧ (10 : ℚ) ^ e ≤ 2 ^ (4 * m : ℤ) := by
  obtain ⟨hlow, hhigh⟩ := abs_le.mp h
  have hpow : (10 : ℚ) ^ (m : ℤ) ≤ 2 ^ (4 * m : ℤ) := by
    rw [zpow_mul, zpow_natCast, zpow_natCast]
    exact pow_le_pow_left₀ (by norm_num) (by norm_num) m
  constructor
  · calc (2 : ℚ) ^ (-(4 * m : ℤ)) ≤ 10 ^ (-(m : ℤ)) := by
          rw [zpow_neg, zpow_neg]
          exact inv_anti₀ (zpow_pos (by norm_num) _) hpow
      _ ≤ 10 ^ e := zpow_le_zpow_right₀ (by norm_num) hlow
  · exact (zpow_le_zpow_right₀ (by norm_num) hhigh).trans hpow

theorem Unrounded.Stands.exponent_bounds {x : Unrounded} {digits : ℕ} {e : ℤ}
    (h : x.Stands ((digits : ℚ) * 10 ^ e)) (hdigits : digits < 2 ^ 64) (he : |e| ≤ 1681) :
    -biasExtended < x.binaryExponent ∧ x.binaryExponent < biasExtended := by
  have hbias : biasExtended = 16383 := rfl
  obtain ⟨hlow, hhigh⟩ := h.bounds
  obtain ⟨hten, hten'⟩ := ten_zpow_bounds (m := 1681) (e := e) (by exact_mod_cast he)
  have hten0 : (0 : ℚ) < 10 ^ e := zpow_pos (by norm_num) _
  have hsome : 0 < digits := Nat.pos_of_ne_zero fun hzero => by
    have hy := h.pos
    rw [hzero, Nat.cast_zero, zero_mul] at hy
    exact lt_irrefl _ hy
  have hone : (1 : ℚ) ≤ digits := by exact_mod_cast hsome
  have hbelow : (2 : ℚ) ^ (-(4 * (1681 : ℕ) : ℤ)) < 2 ^ (x.binaryExponent + 1) :=
    calc (2 : ℚ) ^ (-(4 * (1681 : ℕ) : ℤ)) ≤ 10 ^ e := hten
      _ ≤ digits * 10 ^ e := le_mul_of_one_le_left hten0.le hone
      _ < _ := hhigh
  have habove : (2 : ℚ) ^ x.binaryExponent < 2 ^ (64 + 4 * (1681 : ℕ) : ℤ) :=
    calc (2 : ℚ) ^ x.binaryExponent ≤ digits * 10 ^ e := hlow
      _ < 2 ^ 64 * 10 ^ e := mul_lt_mul_of_pos_right (by exact_mod_cast hdigits) hten0
      _ ≤ 2 ^ 64 * 2 ^ (4 * (1681 : ℕ) : ℤ) := mul_le_mul_of_nonneg_left hten' (by norm_num)
      _ = _ := by
        rw [zpow_add₀ two_ne_zero]
        rfl
  rw [zpow_lt_zpow_iff_right₀ one_lt_two] at hbelow habove
  push_cast at hbelow habove
  constructor <;> omega

theorem five_pow_lt (k : ℕ) : 5 ^ k < 2 ^ (3 * k + 1) := by
  have hpow : 5 ^ k ≤ 2 ^ (3 * k) := by
    rw [pow_mul]
    exact Nat.pow_le_pow_left (by decide) k
  rw [pow_succ]
  have hpos := Nat.two_pow_pos (3 * k)
  omega

theorem unrounded_stands (bytes : List (BitVec 8)) (hne : digitsFrom bytes 7 17 ≠ 0) :
    (if 0 ≤ packedExponent bytes then
        unroundedProduct (BitVec.ofNat 64 (digitsFrom bytes 7 17)) (packedExponent bytes).toNat
      else unroundedQuotient (BitVec.ofNat 64 (digitsFrom bytes 7 17)) (-packedExponent bytes).toNat).Stands
        ((digitsFrom bytes 7 17 : ℚ) * 10 ^ packedExponent bytes) ∧
      ∀ call ∈ packedDecodeCalls bytes, call.Exact := by
  have hdigits := digitsFrom_le bytes 7 17
  have hlt : digitsFrom bytes 7 17 < 2 ^ 64 := by omega
  have hword : (BitVec.ofNat 64 (digitsFrom bytes 7 17)).toNat = digitsFrom bytes 7 17 := by
    rw [BitVec.toNat_ofNat, Nat.mod_eq_of_lt hlt]
  have hwordNe : BitVec.ofNat 64 (digitsFrom bytes 7 17) ≠ 0 := fun h =>
    hne (hword.symm.trans ((toNat_eq_zero_iff _).mp h))
  obtain ⟨hlow, hhigh⟩ := abs_le.mp (packedExponent_bounds bytes)
  have hcap : Bignum.capacity = 16384 := Bignum.capacity_eq
  unfold packedDecodeCalls
  dsimp only
  split_ifs with hsign
  · obtain ⟨n, hn⟩ := Int.eq_ofNat_of_zero_le hsign
    have hfits : digitsFrom bytes 7 17 * 5 ^ n < 2 ^ Bignum.capacity :=
      calc digitsFrom bytes 7 17 * 5 ^ n < 2 ^ 64 * 2 ^ (3 * n + 1) :=
            Nat.mul_lt_mul'' hlt (five_pow_lt n)
        _ = 2 ^ (64 + (3 * n + 1)) := (pow_add 2 _ _).symm
        _ ≤ 2 ^ Bignum.capacity := Nat.pow_le_pow_right (by decide) (by omega)
    rw [← hword] at hfits
    obtain ⟨hstands, hcalls⟩ := product_stands hwordNe hfits
    rw [hword] at hstands
    rw [hn, Int.toNat_natCast]
    exact ⟨hstands, hcalls⟩
  · obtain ⟨n, hn⟩ := Int.eq_ofNat_of_zero_le (by omega : 0 ≤ -packedExponent bytes)
    have hfits : (5 ^ n).size + 65 ≤ Bignum.capacity := by
      have hsize : (5 ^ n).size ≤ 3 * n + 1 := Nat.size_le.mpr (five_pow_lt n)
      omega
    obtain ⟨hstands, hcalls⟩ := quotient_stands hwordNe hfits
    rw [hword] at hstands
    rw [hn, Int.toNat_natCast, show packedExponent bytes = -(n : ℤ) by omega]
    exact ⟨hstands, hcalls⟩

/-- PACKED DECIMAL COMES IN ROUNDED ONCE: the number of the string, to 64 bits in the mode, normalised,
with INEX1 for a number that the format does not hold; and no operation of the bignum loses a limb. -/
theorem packedDecode_rounded (bytes : List (BitVec 8)) (mode : Rounding)
    (hspecial : packedSpecial bytes = false) (hne : digitsFrom bytes 7 17 ≠ 0) :
    (packedDecode bytes mode).value.value =
        mode.toGrid (2 ^ (Int.log 2 |packedValue bytes| - 63)) (packedValue bytes) ∧
      ((packedDecode bytes mode).value.Finite ∧
        2 ^ 63 ≤ (packedDecode bytes mode).value.mantissa.toNat) ∧
      (packedDecode bytes mode).exceptions =
        (if (packedDecode bytes mode).value.value = packedValue bytes then 0 else excInex1) ∧
      ∀ call ∈ packedDecodeCalls bytes, call.Exact := by
  obtain ⟨hstands, hcalls⟩ := unrounded_stands bytes hne
  have hdigits := digitsFrom_le bytes 7 17
  obtain ⟨hlow, hhigh⟩ := hstands.exponent_bounds (by omega) (packedExponent_bounds bytes)
  have hpos := hstands.pos
  unfold packedDecode packedValue
  rw [hspecial]
  dsimp only
  rw [if_neg Bool.false_ne_true, if_neg hne, abs_signed, abs_of_pos hpos]
  generalize (if 0 ≤ packedExponent bytes then
      unroundedProduct (BitVec.ofNat 64 (digitsFrom bytes 7 17)) (packedExponent bytes).toNat
    else unroundedQuotient (BitVec.ofNat 64 (digitsFrom bytes 7 17)) (-packedExponent bytes).toNat) = x
    at hstands hlow hhigh ⊢
  obtain ⟨hvalue, hinexact, -, hfinite, hset⟩ :=
    hstands.rounded (bytes.getD 0 0 &&& 0x80 != 0) mode hlow hhigh rfl
  refine ⟨hvalue, ⟨hfinite, hset⟩, ?_, hcalls⟩
  split_ifs with hflag hsame hsame
  · exact absurd hsame (hinexact.mp hflag)
  · rfl
  · rfl
  · exact absurd (hinexact.mpr hsame) hflag

/-- `+3.3333333333333333E-01`, to the nearest. -/
theorem packedDecode_rounded_third :
    (packedDecode [0x40, 0x01, 0, 0x03, 0x33, 0x33, 0x33, 0x33, 0x33, 0x33, 0x33, 0x33]
        .nearest).value.Finite ∧
      2 ^ 63 ≤ (packedDecode [0x40, 0x01, 0, 0x03, 0x33, 0x33, 0x33, 0x33, 0x33, 0x33, 0x33, 0x33]
        .nearest).value.mantissa.toNat :=
  (packedDecode_rounded [0x40, 0x01, 0, 0x03, 0x33, 0x33, 0x33, 0x33, 0x33, 0x33, 0x33, 0x33] .nearest
    (by decide) (by decide)).2.1

end Apollo.M68882
