import Mathlib
import Apollo.M68882.StoredReal

/-!
# Singles and doubles in memory

The loads and the stores by way of their bytes. What is stored is what the pattern decodes to; and a
pattern that was loaded is stored as it was, in every mode.
-/

namespace Apollo.M68882

open Apollo.Lib

/-- The formats that are single and double, with their shapes. -/
inductive Format.Real : Format → RealFormat → Prop
  | single : Format.Real .single singleFormat
  | double : Format.Real .double doubleFormat

variable {format : Format} {f : RealFormat}

theorem Format.Real.sound (h : format.Real f) : f.Sound := by
  cases h
  · exact RealFormat.sound_single
  · exact RealFormat.sound_double

theorem Format.Real.size (h : format.Real f) : format.size = f.size := by
  cases h <;> rfl

/-! ## Loading -/

theorem bne_zero_iff {w : Nat} (x : BitVec w) : (x != 0) = (x.toNat != 0) := by
  rw [Bool.eq_iff_iff, bne_iff_ne, bne_iff_ne, Ne, toNat_eq_zero_iff]

theorem operandDecode_real (h : format.Real f) (bytes : List (BitVec 8)) (mode : Rounding) :
    (operandDecode format bytes mode).value = f.decode (bigEndian bytes f.size) := by
  cases h with
  | single =>
    have hlt := (toNat_bigEndian_succ bytes (show 4 < 8 by decide)).1
    have hword : ((bigEndian bytes 4).setWidth 32).toNat = (bigEndian bytes 4).toNat := by
      rw [BitVec.toNat_setWidth, Nat.mod_eq_of_lt hlt]
    have hmask8 : (0xFF : BitVec 32) = (1 : BitVec 32) <<< 8 - 1 := by decide
    have hmask23 : (0x7FFFFF : BitVec 32) = (1 : BitVec 32) <<< 23 - 1 := by decide
    have hsign : ((bigEndian bytes 4).setWidth 32 >>> 31 != (0 : BitVec 32)) =
        ((bigEndian bytes 4).toNat / 2 ^ 31 % 2 == 1) := by
      rw [bne_zero_iff, BitVec.toNat_ushiftRight, hword, Nat.shiftRight_eq_div_pow, Bool.eq_iff_iff,
        bne_iff_ne, beq_iff_eq]
      omega
    have hexponent : ((bigEndian bytes 4).setWidth 32 >>> 23 &&& 0xFF).toNat =
        (bigEndian bytes 4).toNat / 2 ^ 23 % 2 ^ 8 := by
      rw [hmask8, toNat_and_lowMask _ (by decide), BitVec.toNat_ushiftRight, hword,
        Nat.shiftRight_eq_div_pow]
    have hfraction : (((bigEndian bytes 4).setWidth 32 &&& 0x7FFFFF).setWidth 64 : BitVec 64) =
        BitVec.ofNat 64 ((bigEndian bytes 4).toNat % 2 ^ 23) := by
      refine BitVec.eq_of_toNat_eq ?_
      rw [BitVec.toNat_setWidth, hmask23, toNat_and_lowMask _ (by decide), hword, BitVec.toNat_ofNat]
    change fromSingle ((bigEndian bytes 4).setWidth 32) = _
    unfold fromSingle
    rw [hsign, hexponent, hfraction]
    rfl
  | double =>
    have hmask11 : (0x7FF : BitVec 64) = (1 : BitVec 64) <<< 11 - 1 := by decide
    have hmask52 : (0xFFFFFFFFFFFFF : BitVec 64) = (1 : BitVec 64) <<< 52 - 1 := by decide
    have hlt := (bigEndian bytes 8).isLt
    have hsign : (bigEndian bytes 8 >>> 63 != (0 : BitVec 64)) =
        ((bigEndian bytes 8).toNat / 2 ^ 63 % 2 == 1) := by
      rw [bne_zero_iff, BitVec.toNat_ushiftRight, Nat.shiftRight_eq_div_pow, Bool.eq_iff_iff,
        bne_iff_ne, beq_iff_eq]
      omega
    have hexponent : (bigEndian bytes 8 >>> 52 &&& 0x7FF).toNat =
        (bigEndian bytes 8).toNat / 2 ^ 52 % 2 ^ 11 := by
      rw [hmask11, toNat_and_lowMask _ (by decide), BitVec.toNat_ushiftRight,
        Nat.shiftRight_eq_div_pow]
    have hfraction : bigEndian bytes 8 &&& 0xFFFFFFFFFFFFF =
        BitVec.ofNat 64 ((bigEndian bytes 8).toNat % 2 ^ 52) := by
      refine BitVec.eq_of_toNat_eq ?_
      rw [hmask52, toNat_and_lowMask _ (by decide), BitVec.toNat_ofNat]
      omega
    change fromDouble (bigEndian bytes 8) = _
    unfold fromDouble
    rw [hsign, hexponent, hfraction]
    rfl

/-! ## Storing -/

theorem storeEncode_real (h : format.Real f) (v : Extended) (mode : Rounding) (kFactor : Int) :
    storeEncode format v mode kFactor =
      { bytes := putBigEndian f.size (f.encode v mode).1, exceptions := (f.encode v mode).2 } := by
  cases h <;> rfl

theorem encode_finite {v : Extended} (hfinite : v.Finite) (hne : v.mantissa ≠ 0) (mode : Rounding) :
    f.encode v mode = f.encodeFinite v mode := by
  unfold RealFormat.encode
  rcases classify_nonzero hfinite hne with h | h <;> rw [h]

theorem bigEndian_putBigEndian {bits : BitVec 64} (hf : f.Sound) (h : bits.toNat < 2 ^ (8 * f.size)) :
    bigEndian (putBigEndian f.size bits) f.size = bits := by
  refine BitVec.eq_of_toNat_eq ?_
  rw [toNat_bigEndian_putBigEndian bits hf.size_le, Nat.mod_eq_of_lt h]

namespace RealFormat

theorem assemble_lt (hf : f.Sound) (s : Bool) {e : ℕ} (he : e ≤ f.maxField) (fraction : BitVec 64) :
    (f.assemble s e fraction).toNat < 2 ^ (8 * f.size) := by
  have hplace : f.fractionBits < 64 := by
    have := hf.fraction_le
    omega
  have hmask : fraction &&& ((1 : BitVec 64) <<< f.fractionBits - 1) &&&
      ((1 : BitVec 64) <<< f.fractionBits - 1) = fraction &&& ((1 : BitVec 64) <<< f.fractionBits - 1) := by
    rw [BitVec.and_assoc, BitVec.and_self]
  have hsame : f.assemble s e fraction =
      f.assemble s e (fraction &&& ((1 : BitVec 64) <<< f.fractionBits - 1)) := by
    unfold assemble
    rw [hmask]
  have hlt : (fraction &&& ((1 : BitVec 64) <<< f.fractionBits - 1)).toNat < 2 ^ f.fractionBits := by
    rw [toNat_and_lowMask fraction hplace]
    exact Nat.mod_lt _ (Nat.two_pow_pos _)
  rw [hsame, toNat_assemble hf s he _ hlt]
  exact pattern_lt hf s he hlt

theorem encodeFinite_lt (hf : f.Sound) (v : Extended) (mode : Rounding) :
    (f.encodeFinite v mode).1.toNat < 2 ^ (8 * f.size) := by
  have hrounded : ∀ s m r keep, (f.storeRounded s m r keep mode).1.toNat < 2 ^ (8 * f.size) := by
    intro s m r keep
    unfold storeRounded
    dsimp only
    generalize r + (if (roundToBits ⟨s, 0x3FFF, m⟩ false false false mode keep).value.exponent ≠ 0x3FFF
      then 1 else 0) = after
    by_cases hhigh : (f.maxField : ℤ) ≤ after
    · rw [if_pos hhigh]
      exact assemble_lt hf s le_rfl _
    · rw [if_neg hhigh]
      by_cases hlow : after ≤ 0
      · rw [if_pos hlow]
        exact assemble_lt hf s (Nat.zero_le _) _
      · rw [if_neg hlow]
        exact assemble_lt hf s (by omega) _
  unfold encodeFinite storeNormalized storeOverflow storeNothing
  dsimp only
  split_ifs
  · exact assemble_lt hf _ le_rfl _
  · exact assemble_lt hf _ (Nat.sub_le _ _) _
  · exact assemble_lt hf _ (Nat.zero_le _) _
  · exact assemble_lt hf _ (Nat.zero_le _) _
  · exact hrounded _ _ _ _
  · exact hrounded _ _ _ _

end RealFormat

theorem operandDecode_storeEncode (h : format.Real f) {v : Extended} (hfinite : v.Finite)
    (hne : v.mantissa ≠ 0) (mode loadMode : Rounding) (kFactor : Int) :
    (operandDecode format (storeEncode format v mode kFactor).bytes loadMode).value =
        f.decode (f.encodeFinite v mode).1 ∧
      (storeEncode format v mode kFactor).exceptions = (f.encodeFinite v mode).2 := by
  rw [operandDecode_real h, storeEncode_real h, encode_finite hfinite hne]
  exact ⟨congrArg f.decode (bigEndian_putBigEndian h.sound (RealFormat.encodeFinite_lt h.sound v mode)), rfl⟩

/-- SINGLES AND DOUBLES ARE STORED RIGHT but for the numbers above half of the smallest subnormal and
below all of it, to the nearest. -/
theorem storeReal_iff (h : format.Real f) {v : Extended} (hfinite : v.Finite) (hne : v.mantissa ≠ 0)
    (mode loadMode : Rounding) (kFactor : Int) :
    f.StoresRounded v mode (operandDecode format (storeEncode format v mode kFactor).bytes loadMode).value
        (storeEncode format v mode kFactor).exceptions ↔
      ¬ f.HalfSmallest v mode := by
  obtain ⟨hvalue, hexceptions⟩ := operandDecode_storeEncode h hfinite hne mode loadMode kFactor
  rw [hvalue, hexceptions]
  exact RealFormat.encodeFinite_iff h.sound hne

/-- A third, as a single. -/
theorem storeReal_iff_third :
    singleFormat.StoresRounded ⟨false, 0x3FFD, 0xAAAAAAAAAAAAAAAB⟩ .nearest
      (operandDecode .single
        (storeEncode .single ⟨false, 0x3FFD, 0xAAAAAAAAAAAAAAAB⟩ .nearest 0).bytes .nearest).value
      (storeEncode .single ⟨false, 0x3FFD, 0xAAAAAAAAAAAAAAAB⟩ .nearest 0).exceptions :=
  (storeReal_iff .single (by decide) (by decide) .nearest .nearest 0).mpr (by decide)

/-- Three quarters of the smallest subnormal single, to the nearest, are stored as nothing. -/
theorem not_storeReal :
    ¬ ∀ (format : Format) (f : RealFormat) (v : Extended) (mode : Rounding), format.Real f → v.Finite →
      v.mantissa ≠ 0 →
        f.StoresRounded v mode
          (operandDecode format (storeEncode format v mode 0).bytes .nearest).value
          (storeEncode format v mode 0).exceptions := by
  intro h
  have hright := h .single singleFormat ⟨false, 0x3FFF - 150, 0xC000000000000000⟩ .nearest .single
    (by decide) (by decide)
  obtain ⟨hvalue, hexceptions⟩ := operandDecode_storeEncode (v := ⟨false, 0x3FFF - 150, 0xC000000000000000⟩)
    .single (by decide) (by decide) .nearest .nearest 0
  rw [hvalue, hexceptions] at hright
  exact (RealFormat.encodeFinite_iff RealFormat.sound_single (by decide)).mp hright (by decide)

/-! ## A pattern that was loaded -/

namespace RealFormat

/-- A signalling NAN: the exponent of the infinities, and a fraction without its top bit. -/
def Signalling (f : RealFormat) (bits : BitVec 64) : Prop :=
  bits.toNat / 2 ^ f.fractionBits % 2 ^ f.exponentBits = f.maxField ∧
    bits.toNat % 2 ^ f.fractionBits ≠ 0 ∧
      bits.toNat % 2 ^ f.fractionBits < 2 ^ (f.fractionBits - 1)

instance (f : RealFormat) (bits : BitVec 64) : Decidable (f.Signalling bits) :=
  inferInstanceAs (Decidable (_ ∧ _))

/-- What was loaded is stored: the pattern, and nothing inexact or beyond the range. -/
def Kept (f : RealFormat) (bits : BitVec 64) (mode : Rounding) : Prop :=
  (f.encode (f.decode bits) mode).1 = bits ∧
    (f.encode (f.decode bits) mode).2 &&& (excInex2 ||| excOvfl) = 0

variable {bits : BitVec 64} {s : Bool} {e fr : ℕ}

theorem exists_fields (hf : f.Sound) (h : bits.toNat < 2 ^ (8 * f.size)) :
    ∃ s e fr, bits.toNat = f.pattern s e fr ∧ e ≤ f.maxField ∧ fr < 2 ^ f.fractionBits ∧
      e = bits.toNat / 2 ^ f.fractionBits % 2 ^ f.exponentBits ∧
        fr = bits.toNat % 2 ^ f.fractionBits := by
  have hp := Nat.two_pow_pos f.fractionBits
  have he := Nat.two_pow_pos f.exponentBits
  have hlt := Nat.mod_lt (bits.toNat / 2 ^ f.fractionBits) he
  have hsign : bits.toNat / 2 ^ f.fractionBits / 2 ^ f.exponentBits < 2 := by
    rw [Nat.div_div_eq_div_mul, Nat.div_lt_iff_lt_mul (Nat.mul_pos hp he), ← pow_add, ← pow_succ']
    rw [← hf.width] at h
    rw [Nat.add_comm f.fractionBits]
    exact h
  have hsplit := Nat.div_add_mod bits.toNat (2 ^ f.fractionBits)
  have hsplit' := Nat.div_add_mod (bits.toNat / 2 ^ f.fractionBits) (2 ^ f.exponentBits)
  refine ⟨bits.toNat / 2 ^ f.fractionBits / 2 ^ f.exponentBits == 1, _, _, ?_, ?_,
    Nat.mod_lt _ hp, rfl, rfl⟩
  · unfold pattern
    generalize bits.toNat / 2 ^ f.fractionBits / 2 ^ f.exponentBits = top at *
    have hnumber : bits.toNat = 2 ^ (f.exponentBits + f.fractionBits) * top +
        (bits.toNat / 2 ^ f.fractionBits % 2 ^ f.exponentBits * 2 ^ f.fractionBits +
          bits.toNat % 2 ^ f.fractionBits) := by
      conv_lhs => rw [← hsplit, ← hsplit']
      rw [pow_add]
      ring
    conv_lhs => rw [hnumber]
    congr 1
    interval_cases top <;> simp
  · unfold maxField
    omega

theorem kept_of_fields {exceptions : BitVec 32} {stored : BitVec 64}
    (hbits : bits.toNat = f.pattern s e fr) (hstored : stored.toNat = f.pattern s e fr)
    (hencode : f.encode (f.decode bits) mode = (stored, exceptions))
    (hnone : exceptions &&& (excInex2 ||| excOvfl) = 0) : f.Kept bits mode := by
  unfold Kept
  rw [hencode]
  exact ⟨BitVec.eq_of_toNat_eq (hstored.trans hbits.symm), hnone⟩

theorem kept_infinity (hf : f.Sound) (hbits : bits.toNat = f.pattern s f.maxField 0) :
    f.Kept bits mode := by
  have hencode : f.encode (makeInfinity s) mode = (f.assemble s f.maxField 0, 0) := by
    unfold encode
    rw [classify_makeInfinity]
    rfl
  rw [← decode_infinity hbits] at hencode
  exact kept_of_fields hbits (toNat_assemble hf s le_rfl 0 (Nat.two_pow_pos _)) hencode rfl

theorem kept_nan (hf : f.Sound) (hbits : bits.toNat = f.pattern s f.maxField fr)
    (hfr : fr < 2 ^ f.fractionBits) (hquiet : 2 ^ (f.fractionBits - 1) ≤ fr) : f.Kept bits mode := by
  have hle := hf.fraction_le
  have hpos := hf.fraction_pos
  obtain ⟨n, hn⟩ : ∃ n, f.fractionBits = n + 1 := ⟨f.fractionBits - 1, by omega⟩
  have hup : 2 ^ f.fractionBits * 2 ^ (63 - f.fractionBits) = 2 ^ 63 := by
    rw [← pow_add]
    congr 1
    omega
  have hmul := Nat.mul_lt_mul_of_pos_right hfr (Nat.two_pow_pos (63 - f.fractionBits))
  have hword : fr < 2 ^ 64 := hfr.trans_le (Nat.pow_le_pow_right (by decide) (by omega))
  have hshift : (BitVec.ofNat 64 fr <<< (63 - f.fractionBits)).toNat =
      fr * 2 ^ (63 - f.fractionBits) := by
    rw [BitVec.toNat_shiftLeft, BitVec.toNat_ofNat, Nat.mod_eq_of_lt hword, Nat.shiftLeft_eq,
      Nat.mod_eq_of_lt (by omega)]
  have hsome : ¬ BitVec.ofNat 64 fr = 0 := by
    have hp := Nat.two_pow_pos (f.fractionBits - 1)
    rw [toNat_eq_zero_iff, BitVec.toNat_ofNat, Nat.mod_eq_of_lt hword]
    omega
  have hmantissa : (integerBit ||| BitVec.ofNat 64 fr <<< (63 - f.fractionBits)).toNat =
      2 ^ 63 + fr * 2 ^ (63 - f.fractionBits) := by
    have hbit : integerBit.toNat = 2 ^ 63 * 1 := by decide
    rw [BitVec.toNat_or, hshift, hbit, ← Nat.two_pow_add_eq_or_of_lt (by omega), mul_one]
  have hdecode : f.decode bits =
      ⟨s, maxExponent, integerBit ||| BitVec.ofNat 64 fr <<< (63 - f.fractionBits)⟩ := by
    have hmax : f.maxField = 2 ^ f.exponentBits - 1 := rfl
    rw [decode_eq hbits le_rfl hfr]
    unfold fromIeee
    rw [if_pos hmax, if_neg hsome]
  -- the top bit of the fraction is the quiet bit
  have htop : 2 ^ 62 ≤ fr * 2 ^ (63 - f.fractionBits) := by
    have hpow : (2 : ℕ) ^ 62 = 2 ^ (f.fractionBits - 1) * 2 ^ (63 - f.fractionBits) := by
      rw [← pow_add]
      congr 1
      omega
    rw [hpow]
    exact Nat.mul_le_mul_right _ hquiet
  have hfraction : ((integerBit ||| BitVec.ofNat 64 fr <<< (63 - f.fractionBits)) &&& ~~~integerBit).toNat =
      fr * 2 ^ (63 - f.fractionBits) := by
    rw [toNat_not_integerBit, hmantissa, Nat.add_mod_left, Nat.mod_eq_of_lt (by omega)]
  have hclass : classify ⟨s, maxExponent, integerBit ||| BitVec.ofNat 64 fr <<< (63 - f.fractionBits)⟩ =
      .nan := by
    unfold classify
    rw [if_pos rfl, if_neg]
    rw [toNat_eq_zero_iff, hfraction]
    omega
  have hquietBit : (integerBit ||| BitVec.ofNat 64 fr <<< (63 - f.fractionBits)) &&& quietBit ≠ 0 := by
    unfold quietBit
    rw [and_bit_ne_zero_iff _ (by decide), testBit_iff_le_mod, hmantissa, Nat.add_mod_left,
      Nat.mod_eq_of_lt (by omega)]
    exact htop
  have hsignalling : isSignallingNan
      ⟨s, maxExponent, integerBit ||| BitVec.ofNat 64 fr <<< (63 - f.fractionBits)⟩ = false := by
    unfold isSignallingNan
    rw [beq_eq_false_iff_ne.mpr hquietBit, Bool.and_false]
  have hstored : (((integerBit ||| BitVec.ofNat 64 fr <<< (63 - f.fractionBits)) &&& ~~~integerBit) >>>
      (63 - f.fractionBits) ||| (1 : BitVec 64) <<< (f.fractionBits - 1)).toNat = fr := by
    rw [BitVec.toNat_or, BitVec.toNat_ushiftRight, hfraction, Nat.shiftRight_eq_div_pow,
      Nat.mul_div_cancel _ (Nat.two_pow_pos _), toNat_one_shiftLeft (by omega)]
    have hbit : fr.testBit (f.fractionBits - 1) = true := by
      rw [testBit_iff_le_mod, Nat.sub_add_cancel hpos, Nat.mod_eq_of_lt hfr]
      exact hquiet
    refine Nat.eq_of_testBit_eq fun i => ?_
    rw [Nat.testBit_or, Nat.testBit_two_pow]
    by_cases hi : f.fractionBits - 1 = i
    · rw [← hi, hbit]
      rfl
    · rw [decide_eq_false hi, Bool.or_false]
  have hpattern := toNat_assemble hf s le_rfl _ (hstored.trans_lt hfr)
  rw [hstored] at hpattern
  refine kept_of_fields hbits hpattern ?_ (show (0 : BitVec 32) &&& _ = 0 by decide)
  rw [hdecode]
  unfold encode
  rw [hclass]
  dsimp only
  rw [hsignalling, if_neg Bool.false_ne_true, if_neg Bool.false_ne_true]

theorem kept_zero (hf : f.Sound) (hbits : bits.toNat = f.pattern s 0 0) : f.Kept bits mode := by
  have hnotMax : ¬ 0 = 2 ^ f.exponentBits - 1 := by
    have hmax := hf.maxField_eq
    have hbias := hf.bias_pos
    unfold maxField at hmax
    omega
  have hnone : BitVec.ofNat 64 0 = 0 := rfl
  have hdecode : f.decode bits = ⟨s, 0, 0⟩ := by
    rw [decode_eq hbits (Nat.zero_le _) (Nat.two_pow_pos _)]
    unfold fromIeee
    rw [if_neg hnotMax, if_pos rfl, if_pos hnone]
  have hclass : classify ⟨s, 0, 0⟩ = .zero := by cases s <;> decide
  have hencode : f.encode ⟨s, 0, 0⟩ mode = (f.assemble s 0 0, 0) := by
    unfold encode
    rw [hclass]
  rw [← hdecode] at hencode
  exact kept_of_fields hbits (toNat_assemble hf s (Nat.zero_le _) 0 (Nat.two_pow_pos _)) hencode rfl

theorem nearby_of_units {x : ℚ} {n : ℕ} (hunit : 0 < f.unit x) (hx : x = signed s (n * f.unit x)) :
    f.nearby mode x = x := by
  have hdiv : x / f.unit x = ((signed s (n : ℤ) : ℤ) : ℚ) := by
    rw [div_eq_iff hunit.ne']
    refine hx.trans ?_
    cases s
    · simp [signed]
    · simp [signed]
  unfold nearby Rounding.toGrid
  rw [hdiv, Rounding.toInt_intCast, ← hdiv, mul_div_cancel₀ _ hunit.ne']

theorem kept_number (hf : f.Sound) {r count : ℕ} (hbits : bits.toNat = f.pattern s (r - 1) count)
    (hr : 1 ≤ r) (hlt : r < f.maxField) (hpos : 0 < count) (hcount : count < 2 ^ (f.fractionBits + 1))
    (hnormal : r ≠ 1 → 2 ^ f.fractionBits ≤ count) : f.Kept bits mode := by
  have hmax := hf.maxField_eq
  have hfinite : (r - 1) * 2 ^ f.fractionBits + count < f.maxField * 2 ^ f.fractionBits := by
    have hmul : (r + 1) * 2 ^ f.fractionBits ≤ f.maxField * 2 ^ f.fractionBits :=
      Nat.mul_le_mul_right _ hlt
    have hsplit : (r + 1) * 2 ^ f.fractionBits =
        (r - 1) * 2 ^ f.fractionBits + 2 * 2 ^ f.fractionBits := by
      rw [← add_mul]
      congr 1
      omega
    rw [pow_succ] at hcount
    omega
  obtain ⟨hfin, hsign, hvalue⟩ := value_decode hf _ _ hbits hr hcount.le hnormal hfinite
  have hunit : (0 : ℚ) < 2 ^ ((r : ℤ) - f.bias - f.fractionBits) := zpow_pos two_pos _
  have habs : |(f.decode bits).value| = (count : ℚ) * 2 ^ ((r : ℤ) - f.bias - f.fractionBits) := by
    rw [hvalue, abs_signed]
    exact abs_of_nonneg (mul_nonneg (Nat.cast_nonneg _) hunit.le)
  have hne : (f.decode bits).mantissa ≠ 0 := by
    intro hzero
    rw [value_of_mantissa_zero hzero, abs_zero] at habs
    exact absurd habs.symm (mul_pos (Nat.cast_pos.mpr hpos) hunit).ne'
  obtain ⟨hlow, hhigh⟩ := abs_value_bounds hne
  rw [habs] at hlow hhigh
  -- the row of the value is that of the pattern, and it has a unit
  have hupper : f.rebiased (f.decode bits) ≤ r := by
    have hend : (count : ℚ) * 2 ^ ((r : ℤ) - f.bias - f.fractionBits) < 2 ^ ((r : ℤ) + 1 - f.bias) := by
      calc (count : ℚ) * 2 ^ ((r : ℤ) - f.bias - f.fractionBits)
          < ((2 ^ (f.fractionBits + 1) : ℕ) : ℚ) * 2 ^ ((r : ℤ) - f.bias - f.fractionBits) :=
            mul_lt_mul_of_pos_right (Nat.cast_lt.mpr hcount) hunit
        _ = 2 ^ ((r : ℤ) + 1 - f.bias) := by
            rw [Nat.cast_pow, Nat.cast_ofNat, ← zpow_natCast, ← zpow_add₀ two_ne_zero]
            congr 1
            push_cast
            ring
    have hexponents := (zpow_lt_zpow_iff_right₀ (one_lt_two (α := ℚ))).mp (hlow.trans_lt hend)
    unfold rebiased
    omega
  have hlower : r ≠ 1 → (r : ℤ) ≤ f.rebiased (f.decode bits) := by
    intro hrow
    have hstart : (2 : ℚ) ^ ((r : ℤ) - f.bias) ≤
        (count : ℚ) * 2 ^ ((r : ℤ) - f.bias - f.fractionBits) := by
      calc (2 : ℚ) ^ ((r : ℤ) - f.bias)
          = ((2 ^ f.fractionBits : ℕ) : ℚ) * 2 ^ ((r : ℤ) - f.bias - f.fractionBits) := by
            rw [Nat.cast_pow, Nat.cast_ofNat, ← zpow_natCast, ← zpow_add₀ two_ne_zero]
            congr 1
            ring
        _ ≤ (count : ℚ) * 2 ^ ((r : ℤ) - f.bias - f.fractionBits) :=
            mul_le_mul_of_nonneg_right (Nat.cast_le.mpr (hnormal hrow)) hunit.le
    have hexponents := (zpow_lt_zpow_iff_right₀ (one_lt_two (α := ℚ))).mp (hstart.trans_lt hhigh)
    unfold rebiased
    omega
  have hsome : 1 ≤ (f.fractionBits : ℤ) + f.rebiased (f.decode bits) := by
    have hstart : (2 : ℚ) ^ ((r : ℤ) - f.bias - f.fractionBits) ≤
        (count : ℚ) * 2 ^ ((r : ℤ) - f.bias - f.fractionBits) :=
      le_mul_of_one_le_left hunit.le (Nat.one_le_cast.mpr hpos)
    have hexponents := (zpow_lt_zpow_iff_right₀ (one_lt_two (α := ℚ))).mp (hstart.trans_lt hhigh)
    unfold rebiased
    omega
  have hrow : row (f.rebiased (f.decode bits)) = r := by
    unfold row
    by_cases hfirst : r = 1
    · omega
    · have hsame := hlower hfirst
      omega
  have hunits : f.unit (f.decode bits).value = 2 ^ ((r : ℤ) - f.bias - f.fractionBits) := by
    rw [unit_eq hne, hrow]
  have hnearby : f.nearby mode (f.decode bits).value = (f.decode bits).value := by
    refine nearby_of_units (s := s) (n := count) (hunits ▸ hunit) ?_
    rw [hunits]
    exact hvalue
  have hexact := (nearby_eq_iff hf hne mode).mp hnearby
  have hsame : f.count (f.decode bits).sign (decompose (f.decode bits)).1
      (f.rebiased (f.decode bits)) mode = count := by
    have hcounts := nearby_eq hf hne mode
    rw [hnearby, hrow, hsign] at hcounts
    rw [hsign]
    have hboth := signed_inj.mp (hcounts.symm.trans hvalue)
    exact_mod_cast mul_right_cancel₀ hunit.ne' hboth
  have hexceptions : f.raised (f.decode bits).sign (decompose (f.decode bits)).1
      (f.rebiased (f.decode bits)) mode &&& (excInex2 ||| excOvfl) = 0 := by
    have hmore : ¬ f.maxField * 2 ^ f.fractionBits ≤ (r - 1) * 2 ^ f.fractionBits + count :=
      not_le.mpr hfinite
    unfold raised
    rw [if_pos hexact, hrow, hsame, if_neg hmore]
    split_ifs <;> decide
  have hset := (value_eq_decompose hne).2
  have hencode : f.encode (f.decode bits) mode =
      f.storeNormalized (f.decode bits).sign (decompose (f.decode bits)).1
        (f.rebiased (f.decode bits)) mode := encode_finite hfin hne mode
  unfold storeNormalized at hencode
  have hhigh : ¬ (f.maxField : ℤ) ≤ f.rebiased (f.decode bits) := by omega
  rw [if_neg hhigh] at hencode
  by_cases hfirst : f.rebiased (f.decode bits) ≤ 0
  · obtain ⟨hpattern, hraised⟩ := storeRounded_first hf (f.decode bits).sign
      (decompose (f.decode bits)).1 hsome hfirst mode
    rw [if_pos hfirst, if_neg (by omega)] at hencode
    rw [hrow, hsame, hsign] at hpattern
    rw [hsign] at hencode hraised hexceptions
    exact kept_of_fields hbits hpattern hencode (hraised ▸ hexceptions)
  · obtain ⟨hpattern, hraised⟩ := storeRounded_normal hf (f.decode bits).sign hset
      (not_le.mp hfirst) (not_le.mp hhigh) mode
    rw [if_neg hfirst] at hencode
    rw [hrow, hsame, hsign] at hpattern
    rw [hsign] at hencode hraised hexceptions
    exact kept_of_fields hbits hpattern hencode (hraised ▸ hexceptions)

/-- EVERY PATTERN IS KEPT that is no signalling NAN. -/
theorem kept (hf : f.Sound) (hlt : bits.toNat < 2 ^ (8 * f.size)) (hquiet : ¬ f.Signalling bits) :
    f.Kept bits mode := by
  obtain ⟨s, e, fr, hbits, he, hfr, heq, hfreq⟩ := exists_fields hf hlt
  have hmax := hf.maxField_eq
  have hbias := hf.bias_pos
  by_cases hlast : e = f.maxField
  · rw [hlast] at hbits
    by_cases hnone : fr = 0
    · rw [hnone] at hbits
      exact kept_infinity hf hbits
    · refine kept_nan hf hbits hfr (not_lt.mp fun hclear => hquiet ⟨?_, ?_, ?_⟩)
      · rw [← heq, hlast]
      · rw [← hfreq]
        exact hnone
      · rw [← hfreq]
        exact hclear
  · by_cases hfirst : e = 0
    · rw [hfirst] at hbits
      by_cases hnone : fr = 0
      · rw [hnone] at hbits
        exact kept_zero hf hbits
      · exact kept_number (r := 1) hf hbits le_rfl (by omega) (Nat.pos_of_ne_zero hnone)
          (hfr.trans (Nat.pow_lt_pow_right (by decide) (Nat.lt_succ_self _))) fun h => absurd rfl h
    · have hrow : f.pattern s e fr = f.pattern s (e - 1) (2 ^ f.fractionBits + fr) := by
        refine pattern_congr s ?_
        obtain ⟨r, rfl⟩ : ∃ r, e = r + 1 := ⟨e - 1, by omega⟩
        rw [Nat.add_sub_cancel]
        ring
      have hp := Nat.two_pow_pos f.fractionBits
      refine kept_number (r := e) hf (hbits.trans hrow) (by omega) (by omega) (by omega) ?_
        fun _ => Nat.le_add_right _ _
      rw [pow_succ]
      omega

end RealFormat

end Apollo.M68882
