import Mathlib
import Apollo.M68882.Integer
import Apollo.M68882.Packed

/-!
# Operands in memory

`src/core/cpu/m68882/ap_m68882_store.c`, and the loading half of `ap_m68882_format.c`: what the bytes
of each format are as a value, and what a value becomes in each format. Loading is exact but for
packed decimal; storing narrows.
-/

namespace Apollo.M68882

open Apollo.Lib

/-- `ap_m68882_format_t`. -/
inductive Format
  | long
  | single
  | extended
  | packed
  | word
  | double
  | byte
  | packedDynamic
deriving DecidableEq

/-- `ap_m68882_format_size`. -/
def Format.size : Format → Nat
  | byte => 1
  | word => 2
  | long => 4
  | single => 4
  | double => 8
  | extended => 12
  | packed => 12
  | packedDynamic => 12

/-! ## Bytes -/

/-- `big_endian`: `count` bytes, the most significant first. -/
def bigEndian (bytes : List (BitVec 8)) (count : Nat) : BitVec 64 :=
  (List.range count).foldl (fun value i => value <<< 8 ||| (bytes.getD i 0).setWidth 64) 0

/-- `put_big_endian`. -/
def putBigEndian (count : Nat) (value : BitVec 64) : List (BitVec 8) :=
  (List.range count).map fun i => (value >>> (8 * (count - 1 - i))).setWidth 8

/-! ## Loading -/

/-- `from_ieee`. -/
def fromIeee (sign : Bool) (biasedExponent : Nat) (fraction : BitVec 64)
    (exponentBits fractionBits : Nat) (bias : Int) : Extended :=
  if biasedExponent = 2 ^ exponentBits - 1 then
    { sign := sign
      exponent := maxExponent
      mantissa :=
        if fraction = 0 then integerBit else integerBit ||| fraction <<< (63 - fractionBits) }
  else if biasedExponent = 0 then
    if fraction = 0 then { sign := sign, exponent := 0, mantissa := 0 }
    else
      { sign := sign
        exponent := BitVec.ofInt 16 (1 - bias + biasExtended)
        mantissa := fraction <<< (63 - fractionBits) }
  else
    { sign := sign
      exponent := BitVec.ofInt 16 (biasedExponent - bias + biasExtended)
      mantissa := integerBit ||| fraction <<< (63 - fractionBits) }

/-- `ap_m68882_from_single`. -/
def fromSingle (bits : BitVec 32) : Extended :=
  fromIeee (bits >>> 31 != 0) (bits >>> 23 &&& 0xFF).toNat ((bits &&& 0x7FFFFF).setWidth 64) 8 23
    biasSingle

/-- `ap_m68882_from_double`. -/
def fromDouble (bits : BitVec 64) : Extended :=
  fromIeee (bits >>> 63 != 0) (bits >>> 52 &&& 0x7FF).toNat (bits &&& 0xFFFFFFFFFFFFF) 11 52 biasDouble

/-- `ap_m68882_from_extended`. -/
def fromExtended (high : BitVec 32) (mantissa : BitVec 64) : Extended where
  sign := high >>> 31 != 0
  exponent := (high >>> 16 &&& 0x7FFF).setWidth 16
  mantissa := mantissa

/-- The magnitude of an integer moved up to the integer bit, and by how much. -/
def countShift (magnitude : BitVec 64) (shift : Nat) : Nat → BitVec 64 × Nat
  | 0 => (magnitude, shift)
  | places + 1 =>
    if magnitude &&& integerBit = 0 then countShift (magnitude <<< 1) (shift + 1) places
    else (magnitude, shift)

/-- `ap_m68882_from_integer`. -/
def fromInteger (value : BitVec 32) : Extended :=
  if value = 0 then { sign := false, exponent := 0, mantissa := 0 }
  else
    let magnitude := if value.msb then 0 - value.signExtend 64 else value.signExtend 64
    let shifted := countShift magnitude 0 64
    { sign := value.msb
      exponent := BitVec.ofInt 16 (biasExtended + 63 - shifted.2)
      mantissa := shifted.1 }

/-- `ap_m68882_operand_decode`. -/
def operandDecode (format : Format) (bytes : List (BitVec 8)) (mode : Rounding) : Op :=
  match format with
  | .byte => { value := fromInteger ((bytes.getD 0 0).signExtend 32) }
  | .word => { value := fromInteger (((bigEndian bytes 2).setWidth 16).signExtend 32) }
  | .long => { value := fromInteger ((bigEndian bytes 4).setWidth 32) }
  | .single => { value := fromSingle ((bigEndian bytes 4).setWidth 32) }
  | .double => { value := fromDouble (bigEndian bytes 8) }
  | .extended =>
    { value := fromExtended ((bigEndian bytes 4).setWidth 32) (bigEndian (bytes.drop 4) 8) }
  | .packed | .packedDynamic => packedDecode bytes mode

/-! ## Storing -/

/-- `real_format_t`. -/
structure RealFormat where
  exponentBits : Nat
  fractionBits : Nat
  bias : Int
  size : Nat

/-- The shapes of single and double. -/
def singleFormat : RealFormat := ⟨8, 23, biasSingle, 4⟩
def doubleFormat : RealFormat := ⟨11, 52, biasDouble, 8⟩

namespace RealFormat

/-- The precision whose largest number an overflow may stop at. -/
def precision (f : RealFormat) : Precision := if f.fractionBits = 23 then .single else .double

/-- The exponent field of the infinities. -/
def maxField (f : RealFormat) : Nat := 2 ^ f.exponentBits - 1

/-- `assemble`. -/
def assemble (f : RealFormat) (sign : Bool) (exponent : Nat) (fraction : BitVec 64) : BitVec 64 :=
  (if sign then (1 : BitVec 64) <<< (f.exponentBits + f.fractionBits) else 0) |||
    BitVec.ofNat 64 exponent <<< f.fractionBits |||
    (fraction &&& ((1 : BitVec 64) <<< f.fractionBits - 1))

/-- A number above the range of the format. -/
def storeOverflow (f : RealFormat) (sign : Bool) (mode : Rounding) : BitVec 64 × BitVec 32 :=
  let pulled := overflowResult sign mode f.precision
  (if classify pulled = .infinity then f.assemble sign f.maxField 0
    else
      f.assemble sign (f.maxField - 1) ((pulled.mantissa &&& ~~~integerBit) >>> (63 - f.fractionBits)),
    excOvfl ||| excInex2)

/-- A number of which not one bit is left. -/
def storeNothing (f : RealFormat) (sign : Bool) (mode : Rounding) : BitVec 64 × BitVec 32 :=
  let away := (mode == .plusInfinity && !sign) || (mode == .minusInfinity && sign)
  (f.assemble sign 0 (if away then 1 else 0), excUnfl ||| excInex2)

/-- A number of which `keep` bits are left, with the exponent that it would have in the format. -/
def storeRounded (f : RealFormat) (sign : Bool) (mantissa : BitVec 64) (rebiased : Int) (keep : Nat)
    (mode : Rounding) : BitVec 64 × BitVec 32 :=
  let rounded := roundToBits { sign := sign, exponent := 0x3FFF, mantissa := mantissa } false false
    false mode keep
  let exceptions :=
    (if rounded.inexact then excInex2 else 0) ||| (if rebiased ≤ 0 then excUnfl else 0)
  let after := rebiased + if rounded.value.exponent ≠ 0x3FFF then 1 else 0
  if f.maxField ≤ after then (f.assemble sign f.maxField 0, exceptions ||| excOvfl)
  else if after ≤ 0 then
    (f.assemble sign 0 (rounded.value.mantissa >>> (63 - f.fractionBits) >>> (1 - after).toNat),
      exceptions)
  else
    (f.assemble sign after.toNat
        ((rounded.value.mantissa &&& ~~~integerBit) >>> (63 - f.fractionBits)),
      exceptions)

/-- A finite number other than zero, normalised. -/
def storeNormalized (f : RealFormat) (sign : Bool) (mantissa : BitVec 64) (rebiased : Int)
    (mode : Rounding) : BitVec 64 × BitVec 32 :=
  if f.maxField ≤ rebiased then f.storeOverflow sign mode
  else if rebiased ≤ 0 then
    if (f.fractionBits : Int) + rebiased < 1 then f.storeNothing sign mode
    else f.storeRounded sign mantissa rebiased ((f.fractionBits : Int) + rebiased).toNat mode
  else f.storeRounded sign mantissa rebiased (f.fractionBits + 1) mode

/-- A finite number other than zero, whose stored exponent may understate it. -/
def encodeFinite (f : RealFormat) (value : Extended) (mode : Rounding) : BitVec 64 × BitVec 32 :=
  let (mantissa, unbiased) :=
    normalizeSignificand value.mantissa (value.exponent.toNat - biasExtended) 64
  f.storeNormalized value.sign mantissa (unbiased + f.bias) mode

/-- `encode_real`, with the exceptions that it raises. -/
def encode (f : RealFormat) (value : Extended) (mode : Rounding) : BitVec 64 × BitVec 32 :=
  match classify value with
  | .zero => (f.assemble value.sign 0 0, 0)
  | .infinity => (f.assemble value.sign f.maxField 0, 0)
  | .nan =>
    let signalling := isSignallingNan value
    let mantissa := if signalling then value.mantissa ||| quietBit else value.mantissa
    let fraction := (mantissa &&& ~~~integerBit) >>> (63 - f.fractionBits)
    (f.assemble value.sign f.maxField (fraction ||| (1 : BitVec 64) <<< (f.fractionBits - 1)),
      if signalling then excSnan else 0)
  | .normalized => f.encodeFinite value mode
  | .denormalized => f.encodeFinite value mode

end RealFormat

/-- `integer_limit`. -/
def integerLimit (size : Nat) (negative : Bool) : Nat :=
  if negative then 2 ^ (size * 8 - 1) else 2 ^ (size * 8 - 1) - 1

/-- An integer in two's complement, in the lowest `size` bytes. -/
def signedMagnitude (size : Nat) (negative : Bool) (magnitude : BitVec 64) : BitVec 64 :=
  (if negative then 0 - magnitude else magnitude) &&& ((1 : BitVec 64) <<< (size * 8) - 1)

/-- The integer that FINT gave, or the limit. -/
def encodeIntegral (size : Nat) (integral : Op) : BitVec 64 × BitVec 32 :=
  let exponent := (integral.value.exponent.toNat : Int) - biasExtended
  if classify integral.value = .zero then (0, integral.exceptions)
  else if exponent < 0 then (0, integral.exceptions)
  else
    let magnitude := integral.value.mantissa >>> (63 - exponent).toNat
    let limit := integerLimit size integral.value.sign
    if 63 < exponent ∨ limit < magnitude.toNat then
      (signedMagnitude size integral.value.sign (BitVec.ofNat 64 limit),
        integral.exceptions ||| excOperr)
    else (signedMagnitude size integral.value.sign magnitude, integral.exceptions)

/-- `encode_integer`, with the exceptions that it raises. -/
def encodeInteger (size : Nat) (value : Extended) (mode : Rounding) : BitVec 64 × BitVec 32 :=
  match classify value with
  | .nan =>
    let mantissa := if isSignallingNan value then value.mantissa ||| quietBit else value.mantissa
    (mantissa >>> (64 - size * 8) &&& ((1 : BitVec 64) <<< (size * 8) - 1),
      if isSignallingNan value then excSnan else excOperr)
  | .infinity =>
    (signedMagnitude size value.sign (BitVec.ofNat 64 (integerLimit size value.sign)), excOperr)
  | .zero => (0, 0)
  | .normalized => encodeIntegral size (int value mode)
  | .denormalized => encodeIntegral size (int value mode)

/-- `ap_m68882_store_t`: the bytes in use, and the exceptions. -/
structure Store where
  bytes : List (BitVec 8)
  exceptions : BitVec 32

/-- The store of the format that is the internal one. -/
def storeExtended (value : Extended) : Store :=
  let stored := normalizeInput value
  let signalling := isSignallingNan stored
  let stored := if signalling then { stored with mantissa := stored.mantissa ||| quietBit } else stored
  let high : BitVec 64 :=
    (if stored.sign then (1 : BitVec 64) <<< 31 else 0) |||
      (stored.exponent &&& 0x7FFF).setWidth 64 <<< 16
  { bytes := putBigEndian 4 high ++ putBigEndian 8 stored.mantissa
    exceptions := if signalling then excSnan else 0 }

/-- `ap_m68882_store_encode`. -/
def storeEncode (format : Format) (value : Extended) (mode : Rounding) (kFactor : Int) : Store :=
  let integer (size : Nat) : Store :=
    let (bits, exceptions) := encodeInteger size value mode
    { bytes := putBigEndian size bits, exceptions := exceptions }
  let real (f : RealFormat) : Store :=
    let (bits, exceptions) := f.encode value mode
    { bytes := putBigEndian f.size bits, exceptions := exceptions }
  match format with
  | .byte | .word | .long => integer format.size
  | .single => real singleFormat
  | .double => real doubleFormat
  | .extended => storeExtended value
  | .packed | .packedDynamic =>
    let (bytes, exceptions) := packedEncode value kFactor mode
    { bytes := bytes, exceptions := exceptions }

/-! ## Bytes and numbers -/

theorem bigEndian_succ (bytes : List (BitVec 8)) (count : Nat) :
    bigEndian bytes (count + 1) =
      bigEndian bytes count <<< 8 ||| (bytes.getD count 0).setWidth 64 := by
  unfold bigEndian
  rw [List.range_succ, List.foldl_append]
  rfl

theorem toNat_bigEndian_succ (bytes : List (BitVec 8)) {count : Nat} (h : count < 8) :
    (bigEndian bytes count).toNat < 2 ^ (8 * count) ∧
      (bigEndian bytes (count + 1)).toNat =
        2 ^ 8 * (bigEndian bytes count).toNat + (bytes.getD count 0).toNat := by
  have hstep : ∀ n, n < 8 → (bigEndian bytes n).toNat < 2 ^ (8 * n) →
      (bigEndian bytes (n + 1)).toNat =
        2 ^ 8 * (bigEndian bytes n).toNat + (bytes.getD n 0).toNat := by
    intro n hn hlt
    have hbig : 2 ^ (8 * n) ≤ 2 ^ 56 := Nat.pow_le_pow_right (by decide) (by omega)
    have hbyte := (bytes.getD n 0).isLt
    have hshift : (bigEndian bytes n <<< 8).toNat = 2 ^ 8 * (bigEndian bytes n).toNat := by
      rw [BitVec.toNat_shiftLeft, Nat.shiftLeft_eq, Nat.mod_eq_of_lt (by omega), mul_comm]
    have hwide : ((bytes.getD n 0).setWidth 64).toNat = (bytes.getD n 0).toNat := by
      rw [BitVec.toNat_setWidth, Nat.mod_eq_of_lt (by omega)]
    rw [bigEndian_succ, BitVec.toNat_or, hshift, hwide, Nat.two_pow_add_eq_or_of_lt hbyte]
  have hbound : ∀ n, n < 8 → (bigEndian bytes n).toNat < 2 ^ (8 * n) := by
    intro n
    induction n with
    | zero => exact fun _ => Nat.one_pos
    | succ n ih =>
      intro hn
      have hlt := ih (by omega)
      have hbyte := (bytes.getD n 0).isLt
      rw [hstep n (by omega) hlt, show 8 * (n + 1) = 8 + 8 * n by ring, pow_add]
      omega
  exact ⟨hbound count h, hstep count h (hbound count h)⟩

theorem length_putBigEndian (count : Nat) (value : BitVec 64) :
    (putBigEndian count value).length = count := by
  unfold putBigEndian
  rw [List.length_map, List.length_range]

theorem getD_putBigEndian {count i : Nat} (value : BitVec 64) (h : i < count) :
    ((putBigEndian count value).getD i 0).toNat = value.toNat / 2 ^ (8 * (count - 1 - i)) % 2 ^ 8 := by
  have hget : (putBigEndian count value).getD i 0 =
      (value >>> (8 * (count - 1 - i))).setWidth 8 := by
    unfold putBigEndian
    rw [List.getD_eq_getElem?_getD, List.getElem?_map, List.getElem?_range h]
    rfl
  rw [hget, BitVec.toNat_setWidth, BitVec.toNat_ushiftRight, Nat.shiftRight_eq_div_pow]

theorem toNat_bigEndian_putBigEndian (value : BitVec 64) {count : Nat} (h : count ≤ 8) :
    (bigEndian (putBigEndian count value) count).toNat = value.toNat % 2 ^ (8 * count) := by
  have hread : ∀ n, n ≤ count → (bigEndian (putBigEndian count value) n).toNat =
      value.toNat / 2 ^ (8 * (count - n)) % 2 ^ (8 * n) := by
    intro n
    induction n with
    | zero =>
      intro _
      rw [mul_zero, pow_zero, Nat.mod_one]
      rfl
    | succ n ih =>
      intro hn
      obtain ⟨-, hsucc⟩ := toNat_bigEndian_succ (putBigEndian count value) (show n < 8 by omega)
      rw [hsucc, ih (by omega), getD_putBigEndian value (by omega)]
      have hplace : 8 * (count - n) = 8 * (count - (n + 1)) + 8 := by omega
      rw [hplace, pow_add, ← Nat.div_div_eq_div_mul, show count - 1 - n = count - (n + 1) by omega,
        show 8 * (n + 1) = 8 + 8 * n by ring, pow_add, Nat.mod_mul, add_comm]
  have hall := hread count le_rfl
  rw [Nat.sub_self, mul_zero, pow_zero, Nat.div_one] at hall
  exact hall

theorem putBigEndian_bigEndian (bytes : List (BitVec 8)) (h : bytes.length ≤ 8) :
    putBigEndian bytes.length (bigEndian bytes bytes.length) = bytes := by
  have hprefix : ∀ n j, n + j ≤ 8 →
      (bigEndian bytes (n + j)).toNat / 2 ^ (8 * j) = (bigEndian bytes n).toNat := by
    intro n j
    induction j with
    | zero =>
      intro _
      rw [mul_zero, pow_zero, Nat.div_one]
      rfl
    | succ j ih =>
      intro hj
      obtain ⟨-, hsucc⟩ := toNat_bigEndian_succ bytes (show n + j < 8 by omega)
      have hbyte := (bytes.getD (n + j) 0).isLt
      rw [← add_assoc, hsucc, show 8 * (j + 1) = 8 + 8 * j by ring, pow_add,
        ← Nat.div_div_eq_div_mul, Nat.mul_add_div (by decide), Nat.div_eq_of_lt hbyte, add_zero,
        ih (by omega)]
  refine List.ext_getElem (length_putBigEndian _ _) fun i hi hi' => BitVec.eq_of_toNat_eq ?_
  have hput := getD_putBigEndian (bigEndian bytes bytes.length) hi'
  rw [List.getD_eq_getElem _ _ hi] at hput
  have hback := hprefix (i + 1) (bytes.length - 1 - i) (by omega)
  rw [show i + 1 + (bytes.length - 1 - i) = bytes.length by omega] at hback
  obtain ⟨-, hsucc⟩ := toNat_bigEndian_succ bytes (show i < 8 by omega)
  rw [hput, hback, hsucc, Nat.mul_add_mod, Nat.mod_eq_of_lt (bytes.getD i 0).isLt,
    List.getD_eq_getElem _ _ hi']

/-!
## Storing an integer

A byte, a word or a long word takes what FINT makes of a value, and stops at its limits with an operand
error. Both are right unless the integer bits carry out.
-/

/-- Bytes as an integer in two's complement. -/
def bytesToInt (bytes : List (BitVec 8)) (size : Nat) : ℤ :=
  ((bigEndian bytes size).setWidth (8 * size)).toInt

/-- The store gives the integer that the mode rounds to if it fits the size, and else the limit on its
side, with an operand error. -/
structure StoresInteger (a : Extended) (mode : Rounding) (size : Nat) (out : Store) : Prop where
  length : out.bytes.length = size
  fits : -2 ^ (8 * size - 1) ≤ mode.toInt a.value → mode.toInt a.value < 2 ^ (8 * size - 1) →
    bytesToInt out.bytes size = mode.toInt a.value ∧ out.exceptions &&& excOperr = 0
  saturates : ¬ (-2 ^ (8 * size - 1) ≤ mode.toInt a.value ∧ mode.toInt a.value < 2 ^ (8 * size - 1)) →
    bytesToInt out.bytes size = (if a.sign then -2 ^ (8 * size - 1) else 2 ^ (8 * size - 1) - 1) ∧
      out.exceptions &&& excOperr ≠ 0

variable {a : Extended} {mode : Rounding}

theorem bytesToInt_signedMagnitude {size : Nat} (hsize : size = 1 ∨ size = 2 ∨ size = 4)
    (negative : Bool) {k : ℕ} (hk : k ≤ integerLimit size negative) :
    bytesToInt (putBigEndian size (signedMagnitude size negative (BitVec.ofNat 64 k))) size =
      signed negative (k : ℤ) := by
  have hread := toNat_bigEndian_putBigEndian
    (signedMagnitude size negative (BitVec.ofNat 64 k)) (show size ≤ 8 by omega)
  have hmask : (signedMagnitude size negative (BitVec.ofNat 64 k)).toNat =
      (if negative then 0 - BitVec.ofNat 64 k else BitVec.ofNat 64 k).toNat % 2 ^ (8 * size) := by
    unfold signedMagnitude
    rw [toNat_and_lowMask _ (by omega), mul_comm]
  rw [hmask, Nat.mod_mod] at hread
  have hnegative : (0 - BitVec.ofNat 64 k).toNat = (2 ^ 64 - k % 2 ^ 64) % 2 ^ 64 := by
    rw [BitVec.toNat_sub, BitVec.toNat_ofNat]
    exact congrArg (· % 2 ^ 64) (Nat.add_zero _)
  unfold bytesToInt
  rw [BitVec.toInt_eq_toNat_cond, BitVec.toNat_setWidth, hread, Nat.mod_mod]
  unfold integerLimit at hk
  cases negative with
  | false =>
    simp only [Bool.false_eq_true, if_false, BitVec.toNat_ofNat, signed] at hk ⊢
    rcases hsize with rfl | rfl | rfl
    · norm_num at hk ⊢
      split_ifs <;> omega
    · norm_num at hk ⊢
      split_ifs <;> omega
    · norm_num at hk ⊢
      split_ifs <;> omega
  | true =>
    simp only [if_true, hnegative, signed] at hk ⊢
    rcases hsize with rfl | rfl | rfl
    · norm_num at hk ⊢
      split_ifs <;> omega
    · norm_num at hk ⊢
      split_ifs <;> omega
    · norm_num at hk ⊢
      split_ifs <;> omega

theorem integerLimit_lt {size : Nat} (hsize : size = 1 ∨ size = 2 ∨ size = 4) (negative : Bool) :
    integerLimit size negative < 2 ^ 63 := by
  rcases hsize with rfl | rfl | rfl <;> cases negative <;> decide

/-- WHAT AN INTEGER STORE WRITES of a normalised integer: the integer, or the limit. -/
theorem encodeIntegral_eq {size : Nat} (hsize : size = 1 ∨ size = 2 ∨ size = 4) {op : Op} {k : ℕ}
    (hmagnitude : op.value.magnitude = k * 2 ^ unitPlace) (hfinite : op.value.Finite)
    (hnormal : op.value.mantissa = 0 ∨ op.value.mantissa &&& integerBit ≠ 0) :
    encodeIntegral size op =
      if integerLimit size op.value.sign < k then
        (signedMagnitude size op.value.sign (BitVec.ofNat 64 (integerLimit size op.value.sign)),
          op.exceptions ||| excOperr)
      else (signedMagnitude size op.value.sign (BitVec.ofNat 64 k), op.exceptions) := by
  have hlimit := integerLimit_lt hsize op.value.sign
  have hp := Nat.two_pow_pos unitPlace
  by_cases hzero : op.value.mantissa = 0
  · have hnone : k = 0 := by
      rw [(magnitude_eq_zero_iff _).mpr hzero] at hmagnitude
      exact (Nat.mul_eq_zero.mp hmagnitude.symm).resolve_right hp.ne'
    have hempty : signedMagnitude size op.value.sign (BitVec.ofNat 64 0) = 0 := by
      unfold signedMagnitude
      cases op.value.sign <;> simp
    unfold encodeIntegral
    rw [if_pos ((classify_zero_iff hfinite).mpr hzero), hnone, if_neg (Nat.not_lt_zero _), hempty]
  · have hset := (integerBit_ne_zero_iff _).mp (hnormal.resolve_left hzero)
    have hm := op.value.mantissa.isLt
    have hk : k ≠ 0 := by
      rintro rfl
      rw [zero_mul, magnitude_eq_zero_iff] at hmagnitude
      exact hzero hmagnitude
    obtain ⟨hone, hlow, hbits⟩ := integer_bits hmagnitude hk hset
    have hbias : (op.value.exponent.toNat : Int) - biasExtended =
        ((op.value.exponent.toNat - 0x3FFF : ℕ) : Int) := by
      unfold biasExtended
      omega
    unfold encodeIntegral
    rw [if_neg fun h => hzero ((classify_zero_iff hfinite).mp h), hbias]
    dsimp only
    rw [if_neg (by omega)]
    by_cases hlarge : 0x3FFF + 63 < op.value.exponent.toNat
    · have hhuge : 2 ^ 63 ≤ k := (Nat.pow_le_pow_right (by decide) (by omega)).trans hlow
      rw [if_pos (.inl (by omega)), if_pos (by omega)]
    · have hshift : op.value.mantissa >>> (63 - ((op.value.exponent.toNat - 0x3FFF : ℕ) : Int)).toNat =
          BitVec.ofNat 64 k ∧ k < 2 ^ 64 := by
        have hplaces : (63 - ((op.value.exponent.toNat - 0x3FFF : ℕ) : Int)).toNat =
            0x3FFF + 63 - op.value.exponent.toNat := by
          clear hmagnitude
          omega
        have hmantissa := hbits (not_lt.mp hlarge)
        have hpow := Nat.two_pow_pos (0x3FFF + 63 - op.value.exponent.toNat)
        have hlt : k < 2 ^ 64 := (Nat.le_mul_of_pos_right k hpow).trans_lt (hmantissa ▸ hm)
        refine ⟨BitVec.eq_of_toNat_eq ?_, hlt⟩
        rw [hplaces, BitVec.toNat_ushiftRight, Nat.shiftRight_eq_div_pow, hmantissa,
          Nat.mul_div_cancel _ hpow, BitVec.toNat_ofNat, Nat.mod_eq_of_lt hlt]
      rw [hshift.1, BitVec.toNat_ofNat, Nat.mod_eq_of_lt hshift.2]
      exact if_congr (or_iff_right (by omega)) rfl rfl

theorem encodeInteger_eq {size : Nat} (hsize : size = 1 ∨ size = 2 ∨ size = 4) (hfinite : a.Finite)
    (hright : IntegerOf a mode (int a mode)) :
    encodeInteger size a mode =
      if integerLimit size a.sign < a.integer mode then
        (signedMagnitude size a.sign (BitVec.ofNat 64 (integerLimit size a.sign)),
          (int a mode).exceptions ||| excOperr)
      else
        (signedMagnitude size a.sign (BitVec.ofNat 64 (a.integer mode)),
          if a.mantissa = 0 then 0 else (int a mode).exceptions) := by
  by_cases hzero : a.mantissa = 0
  · have hnone : a.integer mode = 0 := by
      unfold Extended.integer
      rw [(magnitude_eq_zero_iff a).mpr hzero]
      exact (Direction.quotient_of_dvd _ (Nat.two_pow_pos unitPlace) (dvd_zero _)).trans
        (Nat.zero_div _)
    have hempty : signedMagnitude size a.sign (BitVec.ofNat 64 0) = 0 := by
      unfold signedMagnitude
      cases a.sign <;> simp
    unfold encodeInteger
    rw [(classify_zero_iff hfinite).mpr hzero, hnone, if_neg (Nat.not_lt_zero _), hempty,
      if_pos hzero]
  · have hcase : encodeInteger size a mode = encodeIntegral size (int a mode) := by
      unfold encodeInteger
      rcases classify_nonzero hfinite hzero with h | h <;> rw [h]
    rw [hcase, encodeIntegral_eq hsize hright.magnitude hright.finite hright.normal, hright.sign,
      if_neg hzero]

theorem storesInteger {size : Nat} (hsize : size = 1 ∨ size = 2 ∨ size = 4) (hfinite : a.Finite)
    (hright : IntegerOf a mode (int a mode)) :
    StoresInteger a mode size
      { bytes := putBigEndian size (encodeInteger size a mode).1
        exceptions := (encodeInteger size a mode).2 } := by
  have hlimit : ∀ s, ((integerLimit size s : ℕ) : ℤ) =
      if s then 2 ^ (8 * size - 1) else 2 ^ (8 * size - 1) - 1 := by
    intro s
    rcases hsize with rfl | rfl | rfl <;> cases s <;> rfl
  have hfits : (-2 ^ (8 * size - 1) ≤ mode.toInt a.value ∧ mode.toInt a.value < 2 ^ (8 * size - 1)) ↔
      a.integer mode ≤ integerLimit size a.sign := by
    have hpos : (0 : ℤ) < 2 ^ (8 * size - 1) := by positivity
    have hl := hlimit a.sign
    rw [toInt_value]
    cases hs : a.sign
    · rw [hs] at hl
      simp only [Bool.false_eq_true, if_false, signed] at hl ⊢
      omega
    · rw [hs] at hl
      simp only [if_true, signed] at hl ⊢
      omega
  have hencode := encodeInteger_eq hsize hfinite hright
  have hquiet : (int a mode).exceptions &&& excOperr = 0 := by
    rcases hright.exceptions with ⟨-, h⟩ | ⟨-, h⟩ <;> rw [h] <;> decide
  refine ⟨length_putBigEndian _ _, fun hlow hhigh => ?_, fun hout => ?_⟩
  · have hle := hfits.mp ⟨hlow, hhigh⟩
    rw [hencode, if_neg hle.not_gt]
    refine ⟨?_, ?_⟩
    · dsimp only
      rw [bytesToInt_signedMagnitude hsize a.sign hle, toInt_value]
    · dsimp only
      split_ifs
      · rfl
      · exact hquiet
  · have hgt := not_le.mp fun hle => hout (hfits.mpr hle)
    rw [hencode, if_pos hgt]
    refine ⟨?_, ?_⟩
    · dsimp only
      rw [bytesToInt_signedMagnitude hsize a.sign le_rfl, hlimit]
      cases a.sign <;> rfl
    · dsimp only
      have hset : ∀ e : BitVec 32, (e ||| excOperr) &&& excOperr ≠ 0 := by
        intro e h
        have hbit := congrArg (fun x => x.getLsbD 13) h
        simp [excOperr] at hbit
      exact hset _

/-- FINT AND FINTRZ GIVE THE INTEGER, and the stores of the integer sizes with them, exactly where the
integer bits do not carry out. -/
theorem int_iff (hform : a.InputForm) (hfinite : a.Finite) :
    (IntegerOf a mode (int a mode) ∧ IntegerOf a .zero (intrz a) ∧
        ∀ format : Format, format = .byte ∨ format = .word ∨ format = .long → ∀ kFactor,
          StoresInteger a mode format.size (storeEncode format a mode kFactor)) ↔
      ¬ a.CarriesOut mode := by
  constructor
  · rintro ⟨hright, -, -⟩ hcarry
    exact int_carries hform hfinite hcarry hright
  · intro hcarry
    have hright := integerPart_right false nofun hform hfinite hcarry
    refine ⟨hright, intrz_right hform hfinite, ?_⟩
    rintro format (rfl | rfl | rfl) kFactor
    · exact storesInteger (.inl rfl) hfinite hright
    · exact storesInteger (.inr (.inl rfl)) hfinite hright
    · exact storesInteger (.inr (.inr rfl)) hfinite hright

/-- 2.5 to the nearest is 2. -/
theorem int_iff_two_and_a_half :
    IntegerOf ⟨false, 0x4000, 0xA000000000000000⟩ .nearest
      (int ⟨false, 0x4000, 0xA000000000000000⟩ .nearest) :=
  ((int_iff (by decide) (by decide)).mpr (by decide)).1

/-- 1.5 to the nearest comes out without its integer bit, as nothing. -/
theorem not_int_rounds :
    ¬ ∀ (a : Extended) (mode : Rounding), a.InputForm → a.Finite → IntegerOf a mode (int a mode) := by
  intro h
  exact int_carries (a := ⟨false, 0x3FFF, 0xC000000000000000⟩) (by decide) (by decide)
    (by decide) (h _ .nearest (by decide) (by decide))

end Apollo.M68882
