import Mathlib
import Apollo.M68882.Bignum

/-!
# Packed decimal

`src/core/cpu/m68882/ap_m68882_packed.c`: the conversion of a string of 24 digits into the extended
format and back. The input is one division; the output is a division for every guess at the decimal
exponent, which the answer's own width confirms or corrects.
-/

namespace Apollo.M68882

open Apollo.Lib

/-! ## Input -/

/-- `digit`: nibble 0 is the upper one of byte 0. -/
def digit (bytes : List (BitVec 8)) (nibble : Nat) : Nat :=
  let byte := bytes.getD (nibble / 2) 0
  if nibble % 2 = 0 then (byte >>> 4).toNat else (byte &&& 0x0F).toNat

/-- `count` digits from a nibble on, as one decimal number. -/
def digitsFrom (bytes : List (BitVec 8)) (nibble : Nat) : Nat → Nat
  | 0 => 0
  | count + 1 => digitsFrom bytes nibble count * 10 + digit bytes (nibble + count)

/-- The sixteen fraction digits as the bits they are. -/
def fractionBits (bytes : List (BitVec 8)) : BitVec 64 :=
  (List.range 8).foldl (fun fraction i => fraction <<< 8 ||| (bytes.getD (4 + i) 0).setWidth 64) 0

/-- The markers of an infinity and of a NAN: the sign of the exponent, both `y` bits and `$FFF`. -/
def packedSpecial (bytes : List (BitVec 8)) : Bool :=
  bytes.getD 0 0 &&& 0x40 != 0 && bytes.getD 0 0 &&& 0x30 == 0x30 &&
    digit bytes 1 == 0xF && digit bytes 2 == 0xF && digit bytes 3 == 0xF

/-- The decimal exponent of the string, with the sixteen places behind its implicit point. -/
def packedExponent (bytes : List (BitVec 8)) : Int :=
  let magnitude : Int := digit bytes 1 * 100 + digit bytes 2 * 10 + digit bytes 3
  (if bytes.getD 0 0 &&& 0x40 ≠ 0 then -magnitude else magnitude) - 16

/-- The mantissa of a number and what is below it, before the rounding. -/
structure Unrounded where
  binaryExponent : Int
  mantissa : BitVec 64
  guard : Bool
  sticky : Bool

/-- `M × 10 ^ E` is `M × 5 ^ E`, scaled by `2 ^ E`. -/
def unroundedProduct (digits : BitVec 64) (exponent : Nat) : Unrounded :=
  let top := ((Bignum.ofWord digits).mulPow5 exponent).top false
  { binaryExponent := (top.bits : Int) - 1 + exponent
    mantissa := top.mantissa
    guard := top.guard
    sticky := top.sticky }

/-- `M / 5 ^ k`, scaled by `2 ^ -k`, with the numerator shifted up so that the quotient has a bit more
than the mantissa keeps. -/
def unroundedQuotient (digits : BitVec 64) (places : Nat) : Unrounded :=
  let value := Bignum.ofWord digits
  let denominator := (Bignum.ofWord 1).mulPow5 places
  let shift := ((65 : Int) + denominator.bitLength - value.bitLength).toNat
  let (quotient, leftover) := (value.shiftLeft shift).divide denominator
  let top := quotient.top leftover
  { binaryExponent := (top.bits : Int) - 1 - shift + -(places : Int)
    mantissa := top.mantissa
    guard := top.guard
    sticky := top.sticky }

/-- `ap_m68882_packed_decode`, with the exceptions that it raises. -/
def packedDecode (bytes : List (BitVec 8)) (mode : Rounding) : Op :=
  let sign := bytes.getD 0 0 &&& 0x80 != 0
  if packedSpecial bytes then
    if fractionBits bytes = 0 then { value := ⟨sign, maxExponent, integerBit⟩ }
    else { value := ⟨sign, maxExponent, fractionBits bytes⟩ }
  else
    let digits := digitsFrom bytes 7 17
    if digits = 0 then { value := makeZero sign }
    else
      let exponent := packedExponent bytes
      let x :=
        if 0 ≤ exponent then unroundedProduct (BitVec.ofNat 64 digits) exponent.toNat
        else unroundedQuotient (BitVec.ofNat 64 digits) (-exponent).toNat
      let assembled : Extended :=
        { sign := sign
          exponent := BitVec.ofInt 16 (biasExtended + x.binaryExponent)
          mantissa := x.mantissa }
      let rounded := roundToBits assembled x.guard false x.sticky mode 64
      { value := rounded.value, exceptions := if rounded.inexact then excInex1 else 0 }

/-! ## Output -/

/-- `put_digit`. -/
def putDigit (bytes : List (BitVec 8)) (nibble : Nat) (value : Nat) : List (BitVec 8) :=
  let digit := BitVec.ofNat 8 value &&& 0x0F
  bytes.modify (nibble / 2) fun byte =>
    if nibble % 2 = 0 then byte &&& 0x0F ||| digit <<< 4 else byte &&& 0xF0 ||| digit

/-- The two lowest limbs of a bignum. -/
def lowWord (a : Bignum) : BitVec 64 :=
  (if 0 < a.used then (a.get 0).setWidth 64 else 0) |||
    (if 1 < a.used then (a.get 1).setWidth 64 <<< 32 else 0)

/-- `bn_rounded_quotient`: the quotient under the mode, and whether anything was discarded. Only the
nearest asks which fraction it was, and asks it of the doubled numerator. -/
def roundedQuotient (numerator denominator : Bignum) (sign : Bool) (mode : Rounding) :
    BitVec 64 × Bool :=
  let (quotient, leftover) := numerator.divide denominator
  let value := lowWord quotient
  if leftover then
    let roundUp :=
      match mode with
      | .zero => false
      | .plusInfinity => !sign
      | .minusInfinity => sign
      | .nearest =>
        let (doubledQuotient, doubledLeftover) := (numerator.shiftLeft 1).divide denominator
        let halfOrMore := lowWord doubledQuotient - 2 * value
        if halfOrMore ≠ 0 then doubledLeftover || value &&& 1 != 0 else false
    (if roundUp then value + 1 else value, true)
  else (value, false)

/-- The digits that are wanted: a count, or so many behind the decimal point. -/
def wantedDigits (k decimalExponent : Int) : Nat :=
  let wanted := if 1 ≤ k then k else decimalExponent + 1 - k
  (min (max wanted 1) 17).toNat

/-- The estimate of the decimal exponent, `floor (binaryExponent × log10 2)` for a `log10 2` of
30103 in 100000. -/
def estimatedExponent (binaryExponent : Int) : Int :=
  let estimate := (binaryExponent * 30103).tdiv 100000
  if binaryExponent < 0 ∧ (binaryExponent * 30103).tmod 100000 ≠ 0 then estimate - 1 else estimate

/-- The two sides of the fraction that is `value × 10 ^ p`. -/
def scaledFraction (significand : BitVec 64) (scale p : Int) : Bignum × Bignum :=
  let numerator := Bignum.ofWord significand
  let denominator := Bignum.ofWord 1
  let (numerator, denominator) :=
    if 0 ≤ p then (numerator.mulPow5 p.toNat, denominator)
    else (numerator, denominator.mulPow5 (-p).toNat)
  if 0 ≤ scale + p then (numerator.mulPow2 (scale + p).toNat, denominator)
  else (numerator, denominator.mulPow2 (-(scale + p)).toNat)

/-- A conversion in hand. -/
structure Conversion where
  decimalExponent : Int
  digitsValue : BitVec 64
  digits : Nat
  inexact : Bool

/-- What is converted: the significand and its scale, and the choice of digits. -/
structure Source where
  sign : Bool
  significand : BitVec 64
  scale : Int
  k : Int

/-- One attempt at a decimal exponent. -/
def Source.attempt (source : Source) (mode : Rounding) (decimalExponent : Int) : Conversion :=
  let digits := wantedDigits source.k decimalExponent
  let p := (digits : Int) - 1 - decimalExponent
  let (numerator, denominator) := scaledFraction source.significand source.scale p
  let (digitsValue, inexact) := roundedQuotient numerator denominator source.sign mode
  { decimalExponent := decimalExponent
    digitsValue := digitsValue
    digits := digits
    inexact := inexact }

/-- The loop of `ap_m68882_packed_encode`: an answer that is too wide or too narrow moves the exponent.
The second part says whether it is left through the `break`. -/
def Source.convert (source : Source) (mode : Rounding) :
    (attempts : Nat) → Conversion → Conversion × Bool
  | 0, state => (state, false)
  | attempts + 1, state =>
    let next := source.attempt mode state.decimalExponent
    if 10 ^ next.digits ≤ next.digitsValue.toNat then
      source.convert mode attempts { next with decimalExponent := next.decimalExponent + 1 }
    else if next.digitsValue.toNat < 10 ^ next.digits / 10 ∧ next.digitsValue ≠ 0 then
      source.convert mode attempts { next with decimalExponent := next.decimalExponent - 1 }
    else (next, true)

/-- The exponent of the string: three digits with a sign, and a fourth for a magnitude above 999. -/
def putExponent (bytes : List (BitVec 8)) (decimalExponent : Int) : List (BitVec 8) × BitVec 32 :=
  let magnitude := decimalExponent.natAbs
  let bytes := if decimalExponent < 0 then bytes.modify 0 (· ||| 0x40) else bytes
  let bytes := if 999 < magnitude then putDigit bytes 4 (magnitude / 1000 % 10) else bytes
  let rest := if 999 < magnitude then magnitude % 1000 else magnitude
  let bytes := bytes.modify 0 fun byte => byte &&& 0xF0 ||| BitVec.ofNat 8 (rest / 100 % 10)
  (putDigit (putDigit bytes 2 (rest / 10 % 10)) 3 (rest % 10), if 999 < magnitude then excOperr else 0)

/-- The digits of the mantissa, left-aligned. -/
def putDigits (bytes : List (BitVec 8)) (digitsValue digits : Nat) : List (BitVec 8) :=
  (List.range 17).foldl
    (fun bytes i =>
      putDigit bytes (7 + i) (if i < digits then digitsValue / 10 ^ (digits - 1 - i) % 10 else 0))
    bytes

/-- The value as the conversion takes it. -/
def packedSource (value : Extended) (kFactor : Int) : Source :=
  let (significand, binaryExponent) :=
    normalizeSignificand value.mantissa (value.exponent.toNat - biasExtended) 64
  { sign := value.sign
    significand := significand
    scale := binaryExponent - 63
    k := if 17 < kFactor then 17 else kFactor }

/-- The conversion with its four attempts. -/
def packedConversion (value : Extended) (kFactor : Int) (mode : Rounding) : Conversion × Bool :=
  let source := packedSource value kFactor
  source.convert mode 4
    { decimalExponent := estimatedExponent (source.scale + 63)
      digitsValue := 0
      digits := 1
      inexact := false }

/-- The string of a conversion, and the exceptions it raises. -/
def putConversion (bytes : List (BitVec 8)) (kFactor : Int) (result : Conversion) :
    List (BitVec 8) × BitVec 32 :=
  let (bytes, wide) :=
    putExponent (putDigits bytes result.digitsValue.toNat result.digits) result.decimalExponent
  (bytes, (if 17 < kFactor then excOperr else 0) ||| (if result.inexact then excInex2 else 0) ||| wide)

/-- `ap_m68882_packed_encode`: the twelve bytes and the exceptions that it raises. -/
def packedEncode (value : Extended) (kFactor : Int) (mode : Rounding) :
    List (BitVec 8) × BitVec 32 :=
  let bytes := (List.replicate 12 0).set 0 (if value.sign then 0x80 else 0)
  match classify value with
  | .infinity => ((bytes.modify 0 (· ||| 0x7F)).set 1 0xFF, 0)
  | .nan =>
    ((List.range 8).foldl
      (fun bytes i => bytes.set (4 + i) ((value.mantissa >>> (8 * (7 - i))).setWidth 8))
      ((bytes.modify 0 (· ||| 0x7F)).set 1 0xFF), 0)
  | .zero => (bytes, 0)
  | .normalized => putConversion bytes kFactor (packedConversion value kFactor mode).1
  | .denormalized => putConversion bytes kFactor (packedConversion value kFactor mode).1

end Apollo.M68882
