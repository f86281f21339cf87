import Mathlib
import Apollo.M68882.RealMemory
import Apollo.M68882.Store

/-!
# From memory and back

An integer that was loaded is stored as it was, in every mode, as is every single and every double that
is no signalling NAN: the registers hold more than memory does.
-/

namespace Apollo.M68882

open Apollo.Lib

/-- The formats of the integers. -/
def Format.IsInteger (format : Format) : Prop := format = .byte ∨ format = .word ∨ format = .long

instance (format : Format) : Decidable format.IsInteger := inferInstanceAs (Decidable (_ ∨ _))

variable {format : Format} {mode : Rounding}

theorem Format.IsInteger.size (h : format.IsInteger) :
    format.size = 1 ∨ format.size = 2 ∨ format.size = 4 := by
  rcases h with rfl | rfl | rfl
  · exact .inl rfl
  · exact .inr (.inl rfl)
  · exact .inr (.inr rfl)

/-! ## An integer as a value -/

theorem countShift_eq (magnitude : BitVec 64) (shift : Nat) (exponent : Int) (places : Nat) :
    (countShift magnitude shift places).1 = (normalizeSignificand magnitude exponent places).1 ∧
      ((countShift magnitude shift places).2 : Int) - shift =
        exponent - (normalizeSignificand magnitude exponent places).2 := by
  induction places generalizing magnitude shift exponent with
  | zero => exact ⟨rfl, (sub_self _).trans (sub_self _).symm⟩
  | succ places ih =>
    unfold countShift normalizeSignificand
    by_cases hclear : magnitude &&& integerBit = 0
    · rw [if_pos hclear, if_pos hclear]
      obtain ⟨hmagnitude, hshift⟩ := ih (magnitude <<< 1) (shift + 1) (exponent - 1)
      refine ⟨hmagnitude, ?_⟩
      push_cast at hshift
      omega
    · rw [if_neg hclear, if_neg hclear]
      exact ⟨rfl, (sub_self _).trans (sub_self _).symm⟩

theorem toNat_magnitude (value : BitVec 32) :
    (if value.msb then 0 - value.signExtend 64 else value.signExtend 64 : BitVec 64).toNat =
      value.toInt.natAbs := by
  have hlt := value.isLt
  have hint := BitVec.toInt_eq_msb_cond value
  by_cases hneg : value.msb = true
  · rw [if_pos hneg] at hint ⊢
    have hwide : (value.signExtend 64).toNat = value.toNat + (2 ^ 64 - 2 ^ 32) := by
      rw [BitVec.toNat_signExtend, hneg, BitVec.toNat_setWidth]
      simp only [if_true]
      omega
    rw [BitVec.toNat_sub, hwide]
    have hhigh := BitVec.msb_eq_true_iff_two_mul_ge.mp hneg
    change (2 ^ 64 - (value.toNat + (2 ^ 64 - 2 ^ 32)) + 0) % 2 ^ 64 = _
    omega
  · rw [if_neg hneg] at hint ⊢
    have hwide : (value.signExtend 64).toNat = value.toNat := by
      rw [BitVec.toNat_signExtend, Bool.eq_false_iff.mpr hneg, BitVec.toNat_setWidth]
      simp only [Bool.false_eq_true, if_false]
      omega
    rw [hwide]
    omega

/-- What an integer is loaded as. -/
structure Loaded (k : ℤ) (x : Extended) : Prop where
  sign : x.sign = decide (k < 0)
  magnitude : x.magnitude = k.natAbs * 2 ^ unitPlace
  finite : x.Finite
  inputForm : x.InputForm

theorem fromInteger_loaded (value : BitVec 32) : Loaded value.toInt (fromInteger value) := by
  by_cases hzero : value = 0
  · subst hzero
    have hload : fromInteger 0 = ⟨false, 0, 0⟩ := rfl
    rw [hload]
    refine ⟨rfl, ?_, by decide, by decide⟩
    have hnone : (0 : BitVec 32).toInt.natAbs = 0 := rfl
    rw [hnone, zero_mul]
    exact (magnitude_eq_zero_iff _).mpr rfl
  · have hnatAbs := toNat_magnitude value
    have hlt := value.toInt_lt
    have hle := value.le_toInt
    have hne : (if value.msb then 0 - value.signExtend 64 else value.signExtend 64 : BitVec 64) ≠ 0 := by
      rw [Ne, toNat_eq_zero_iff, hnatAbs, Int.natAbs_eq_zero]
      intro h
      exact hzero (BitVec.eq_of_toInt_eq (h.trans rfl))
    obtain ⟨k, hk, hmantissa, hexponent, hset⟩ := normalizeSignificand_spec 0 hne
    obtain ⟨hsame, hshift⟩ := countShift_eq
      (if value.msb then 0 - value.signExtend 64 else value.signExtend 64 : BitVec 64) 0 0 64
    have hsteps : (countShift (if value.msb then 0 - value.signExtend 64
        else value.signExtend 64 : BitVec 64) 0 64).2 = k := by omega
    have hload : fromInteger value =
        ⟨value.msb, BitVec.ofInt 16 (biasExtended + 63 - (k : ℤ)),
          (normalizeSignificand (if value.msb then 0 - value.signExtend 64
            else value.signExtend 64 : BitVec 64) 0 64).1⟩ := by
      unfold fromInteger
      rw [if_neg hzero]
      dsimp only
      rw [hsteps, hsame]
    have hfield : (BitVec.ofInt 16 (biasExtended + 63 - (k : ℤ))).toNat = 0x3FFF + 63 - k := by
      have hnat : biasExtended + 63 - (k : ℤ) = ((0x3FFF + 63 - k : ℕ) : ℤ) := by
        have hbias : biasExtended = 16383 := rfl
        omega
      rw [hnat, BitVec.ofInt_natCast, BitVec.toNat_ofNat, Nat.mod_eq_of_lt (by omega)]
    rw [hload]
    refine ⟨?_, ?_, ?_, (inputForm_iff _).mpr ⟨?_, .inr (.inl ?_)⟩⟩
    · change value.msb = decide (value.toInt < 0)
      exact BitVec.msb_eq_toInt
    · unfold Extended.magnitude
      dsimp only
      have hplaces : unitPlace = k + (0x3FFF + 63 - k) := by
        rw [← unitPlace_eq]
        omega
      rw [hfield, hmantissa, hnatAbs, hplaces, pow_add, mul_assoc]
    · unfold Extended.Finite
      dsimp only
      rw [hfield]
      omega
    · dsimp only
      rw [hfield]
      omega
    · dsimp only
      rw [integerBit_ne_zero_iff, hmantissa]
      exact hset

theorem Loaded.not_carriesOut {k : ℤ} {x : Extended} (h : Loaded k x) : ¬ x.CarriesOut mode := by
  rintro ⟨hlow, hhigh, -, hraises⟩
  have hset := le_mantissa_of_exponent h.inputForm h.finite (by omega)
  have hne : k.natAbs ≠ 0 := by
    intro hzero
    have hnone := h.magnitude
    rw [hzero, zero_mul, magnitude_eq_zero_iff, toNat_eq_zero_iff] at hnone
    omega
  obtain ⟨-, -, hbits⟩ := integer_bits h.magnitude hne hset
  rw [hbits hhigh.le, Nat.mul_mod_left, Direction.raises_zero _ _ (Nat.two_pow_pos _)] at hraises
  exact Bool.false_ne_true hraises

/-- AN INTEGER THAT FITS IS STORED as it was, without an exception. -/
theorem Loaded.stored {k : ℤ} {x : Extended} (h : Loaded k x) {size : Nat}
    (hsize : size = 1 ∨ size = 2 ∨ size = 4) (hlow : -2 ^ (8 * size - 1) ≤ k)
    (hhigh : k < 2 ^ (8 * size - 1)) (mode : Rounding) :
    bytesToInt (putBigEndian size (encodeInteger size x mode).1) size = k ∧
      (encodeInteger size x mode).2 = 0 := by
  have hpos := Nat.two_pow_pos unitPlace
  have hright := integerPart_right false nofun h.inputForm h.finite (show ¬ x.CarriesOut mode from h.not_carriesOut)
  have hinteger : x.integer mode = k.natAbs := by
    unfold Extended.integer
    rw [h.magnitude, Direction.quotient_mul _ _ hpos]
  have hsigned : signed x.sign ((k.natAbs : ℕ) : ℤ) = k := by
    rw [h.sign]
    by_cases hneg : k < 0
    · rw [decide_eq_true hneg]
      change -((k.natAbs : ℕ) : ℤ) = k
      omega
    · rw [decide_eq_false hneg]
      exact Int.natAbs_of_nonneg (not_lt.mp hneg)
  have hfits : k.natAbs ≤ integerLimit size x.sign := by
    have hlimit : ∀ s, ((integerLimit size s : ℕ) : ℤ) =
        if s then 2 ^ (8 * size - 1) else 2 ^ (8 * size - 1) - 1 := by
      intro s
      rcases hsize with rfl | rfl | rfl <;> cases s <;> rfl
    have hl := hlimit x.sign
    rw [h.sign] at hl ⊢
    by_cases hneg : k < 0
    · rw [decide_eq_true hneg] at hl ⊢
      simp only [if_true] at hl
      omega
    · rw [decide_eq_false hneg] at hl ⊢
      simp only [Bool.false_eq_true, if_false] at hl
      omega
  have hexact : (int x mode).exceptions = 0 := by
    rcases hright.exceptions with ⟨-, hnone⟩ | ⟨hnot, -⟩
    · exact hnone
    · have hcast : ((signed x.sign ((k.natAbs : ℕ) : ℤ) : ℤ) : ℚ) =
          signed x.sign ((k.natAbs : ℕ) : ℚ) := by
        cases x.sign
        · exact Int.cast_natCast _
        · exact (Int.cast_neg _).trans (congrArg Neg.neg (Int.cast_natCast _))
      rw [hsigned] at hcast
      exact absurd ⟨k, (value_of_magnitude h.magnitude).trans hcast.symm⟩ hnot
  rw [encodeInteger_eq hsize h.finite hright, hinteger, if_neg hfits.not_gt, hexact, ite_self]
  exact ⟨(bytesToInt_signedMagnitude hsize x.sign hfits).trans hsigned, rfl⟩

/-! ## The bytes of an integer -/

theorem bigEndian_lt (bytes : List (BitVec 8)) {count : Nat} (h : count < 8) :
    (bigEndian bytes count).toNat < 2 ^ (8 * count) := (toNat_bigEndian_succ bytes h).1

theorem bytes_eq_of_toInt {bytes stored : List (BitVec 8)} (hlt : stored.length < 8)
    (hlength : stored.length = bytes.length)
    (h : bytesToInt stored stored.length = bytesToInt bytes bytes.length) : stored = bytes := by
  rw [hlength] at h hlt
  unfold bytesToInt at h
  have hwords := congrArg BitVec.toNat (BitVec.eq_of_toInt_eq h)
  rw [BitVec.toNat_setWidth, BitVec.toNat_setWidth, Nat.mod_eq_of_lt (bigEndian_lt _ hlt),
    Nat.mod_eq_of_lt (bigEndian_lt _ hlt)] at hwords
  rw [← putBigEndian_bigEndian stored (by omega), ← putBigEndian_bigEndian bytes (by omega), hlength,
    BitVec.eq_of_toNat_eq hwords]

theorem operandDecode_integer (h : format.IsInteger) (bytes : List (BitVec 8)) (loadMode : Rounding) :
    Loaded (bytesToInt bytes format.size) (operandDecode format bytes loadMode).value := by
  rcases h with rfl | rfl | rfl
  · have hbyte : (bigEndian bytes 1).setWidth (8 * 1) = bytes.getD 0 0 := by
      obtain ⟨-, hsucc⟩ := toNat_bigEndian_succ bytes (show 0 < 8 by decide)
      have hnone : (bigEndian bytes 0).toNat = 0 := rfl
      have hlt := (bytes.getD 0 0).isLt
      refine BitVec.eq_of_toNat_eq ?_
      rw [BitVec.toNat_setWidth, hsucc, hnone, mul_zero, zero_add, Nat.mod_eq_of_lt hlt]
    have hload := fromInteger_loaded ((bytes.getD 0 0).signExtend 32)
    rw [BitVec.toInt_signExtend_of_le (by decide)] at hload
    unfold bytesToInt
    change Loaded ((bigEndian bytes 1).setWidth (8 * 1)).toInt _
    rw [hbyte]
    exact hload
  · have hload := fromInteger_loaded (((bigEndian bytes 2).setWidth 16).signExtend 32)
    rw [BitVec.toInt_signExtend_of_le (by decide)] at hload
    exact hload
  · exact fromInteger_loaded ((bigEndian bytes 4).setWidth 32)

theorem storeEncode_integer (h : format.IsInteger) (v : Extended) (mode : Rounding) (kFactor : Int) :
    storeEncode format v mode kFactor =
      { bytes := putBigEndian format.size (encodeInteger format.size v mode).1
        exceptions := (encodeInteger format.size v mode).2 } := by
  rcases h with rfl | rfl | rfl <;> rfl

theorem integer_kept (h : format.IsInteger) {bytes : List (BitVec 8)}
    (hlength : bytes.length = format.size) (loadMode mode : Rounding) (kFactor : Int) :
    (storeEncode format (operandDecode format bytes loadMode).value mode kFactor).bytes = bytes ∧
      (storeEncode format (operandDecode format bytes loadMode).value mode kFactor).exceptions = 0 := by
  have hsize := h.size
  have hload := operandDecode_integer h bytes loadMode
  have hrange : -2 ^ (8 * format.size - 1) ≤ bytesToInt bytes format.size ∧
      bytesToInt bytes format.size < 2 ^ (8 * format.size - 1) := by
    unfold bytesToInt
    exact ⟨BitVec.le_toInt _, BitVec.toInt_lt⟩
  obtain ⟨hstored, hnone⟩ := hload.stored hsize hrange.1 hrange.2 mode
  rw [storeEncode_integer h]
  refine ⟨bytes_eq_of_toInt ?_ ?_ ?_, hnone⟩
  · rw [length_putBigEndian]
    omega
  · rw [length_putBigEndian, hlength]
  · rw [length_putBigEndian, hlength]
    exact hstored

theorem real_kept {f : RealFormat} (h : format.Real f) {bytes : List (BitVec 8)}
    (hlength : bytes.length = format.size) (hquiet : ¬ f.Signalling (bigEndian bytes f.size))
    (loadMode mode : Rounding) (kFactor : Int) :
    (storeEncode format (operandDecode format bytes loadMode).value mode kFactor).bytes = bytes ∧
      (storeEncode format (operandDecode format bytes loadMode).value mode kFactor).exceptions &&&
        (excInex2 ||| excOvfl) = 0 := by
  have hsize := h.sound.size_le
  have hpattern : (bigEndian bytes f.size).toNat < 2 ^ (8 * f.size) := by
    have hpos : 0 < f.size := by
      have := h.sound.width
      omega
    obtain ⟨n, hn⟩ : ∃ n, f.size = n + 1 := ⟨f.size - 1, by omega⟩
    obtain ⟨hlt, hsucc⟩ := toNat_bigEndian_succ bytes (show n < 8 by omega)
    have hbyte := (bytes.getD n 0).isLt
    rw [hn, hsucc, show 8 * (n + 1) = 8 + 8 * n by ring, pow_add]
    omega
  obtain ⟨hbits, hnone⟩ : f.Kept _ mode := RealFormat.kept h.sound hpattern hquiet
  rw [operandDecode_real h, storeEncode_real h]
  dsimp only
  rw [hbits]
  refine ⟨?_, hnone⟩
  have hlength' : bytes.length = f.size := hlength.trans h.size
  rw [← hlength']
  exact putBigEndian_bigEndian bytes (by omega)

/-- WHAT WAS LOADED IS STORED: the same bytes in every mode, with nothing inexact and nothing beyond the
range, for the integers and for every single and double that is no signalling NAN. -/
theorem store_operandDecode {bytes : List (BitVec 8)} (hlength : bytes.length = format.size)
    (h : format.IsInteger ∨ ∃ f, format.Real f ∧ ¬ f.Signalling (bigEndian bytes f.size))
    (loadMode mode : Rounding) (kFactor : Int) :
    (storeEncode format (operandDecode format bytes loadMode).value mode kFactor).bytes = bytes ∧
      (storeEncode format (operandDecode format bytes loadMode).value mode kFactor).exceptions &&&
        (excInex2 ||| excOvfl) = 0 := by
  rcases h with hinteger | ⟨f, hreal, hquiet⟩
  · obtain ⟨hbytes, hnone⟩ := integer_kept hinteger hlength loadMode mode kFactor
    exact ⟨hbytes, by rw [hnone]; rfl⟩
  · exact real_kept hreal hlength hquiet loadMode mode kFactor

/-- The smallest subnormal single. -/
theorem store_operandDecode_smallest :
    (storeEncode .single (operandDecode .single [0, 0, 0, 1] .zero).value .nearest 0).bytes =
        [0, 0, 0, 1] ∧
      (storeEncode .single (operandDecode .single [0, 0, 0, 1] .zero).value .nearest 0).exceptions &&&
        (excInex2 ||| excOvfl) = 0 :=
  store_operandDecode rfl (.inr ⟨singleFormat, .single, by decide⟩) .zero .nearest 0

end Apollo.M68882
