import Apollo.Lib.Sizes
import Mathlib
import Apollo.M68882.Operation

/-!
# The bignum of the packed conversions

From `src/core/cpu/m68882/ap_m68882_packed.c`: just enough big integer for the conversions between
decimal and binary, in 512 limbs of 32 bits. A loop that counts is a recursion on its count, and the
state of a loop is what the recursion returns.
-/

namespace Apollo.M68882

/-- `bignum_t`: the limbs, the least significant first, and how many are in use. -/
structure Bignum where
  limb : Vector (BitVec 32) 512
  used : Nat

namespace Bignum

/-- A limb of the array. -/
def get (a : Bignum) (i : Nat) : BitVec 32 := a.limb.toList.getD i 0

/-- `bn_set`. -/
def ofWord (value : BitVec 64) : Bignum where
  limb :=
    ((Vector.replicate 512 0).setIfInBounds 0 (value.setWidth 32)).setIfInBounds 1
      ((value >>> 32).setWidth 32)
  used := if value >>> 32 ≠ 0 then 2 else if value ≠ 0 then 1 else 0

/-- The limbs and the carry of `bn_mul_small` behind `count` limbs. -/
def mulSteps (a : Bignum) (multiplier : BitVec 32) : Nat → Vector (BitVec 32) 512 × BitVec 64
  | 0 => (a.limb, 0)
  | count + 1 =>
    let (limb, carry) := a.mulSteps multiplier count
    let product := (a.get count).setWidth 64 * multiplier.setWidth 64 + carry
    (limb.setIfInBounds count (product.setWidth 32), product >>> 32)

/-- What is carried out goes into the limbs above, as far as there is room. -/
def spill (a : Bignum) (carry : BitVec 64) : Nat → Bignum
  | 0 => a
  | room + 1 =>
    if carry = 0 then a
    else
      spill { limb := a.limb.setIfInBounds a.used (carry.setWidth 32), used := a.used + 1 }
        (carry >>> 32) room

/-- `bn_mul_small`. -/
def mulSmall (a : Bignum) (multiplier : BitVec 32) : Bignum :=
  let (limb, carry) := a.mulSteps multiplier a.used
  spill { a with limb := limb } carry (512 - a.used)

/-- The leading zeros of the top limb do not count. -/
def countDown (top : BitVec 32) : Nat → Nat
  | 0 => 0
  | bits + 1 => if top &&& 0x80000000 = 0 then countDown (top <<< 1) bits else bits + 1

/-- `bn_bitlength`. -/
def bitLength (a : Bignum) : Nat :=
  if a.used = 0 then 0 else countDown (a.get (a.used - 1)) (a.used * 32)

/-- The limbs in use, below `count`. -/
def trim (limb : Vector (BitVec 32) 512) : Nat → Nat
  | 0 => 0
  | count + 1 => if limb.toList.getD count 0 = 0 then trim limb count else count + 1

/-- `bn_shift_left`. It runs from the top down, so that every limb it reads is an old one. -/
def shiftLeft (a : Bignum) (bits : Nat) : Bignum :=
  if a.used = 0 ∨ bits = 0 then a
  else
    let words := bits / 32
    let rest := bits % 32
    let limb := Vector.ofFn fun i : Fin 512 =>
      if words ≤ i.val then
        if rest ≠ 0 then
          (a.get (i.val - words)) <<< rest |||
            (if words < i.val then a.get (i.val - words - 1) >>> (32 - rest) else 0)
        else a.get (i.val - words)
      else 0
    { limb := limb, used := trim limb 512 }

/-- The comparison of the limbs below `count`, from the top. -/
def atLeastBelow (a b : Bignum) : Nat → Bool
  | 0 => true
  | count + 1 =>
    if a.get count ≠ b.get count then decide (b.get count < a.get count) else a.atLeastBelow b count

/-- `bn_at_least`. -/
def atLeast (a b : Bignum) : Bool :=
  if a.used ≠ b.used then decide (b.used < a.used) else a.atLeastBelow b a.used

/-- The limbs and the borrow of `bn_subtract` behind `count` limbs. -/
def subtractSteps (a b : Bignum) : Nat → Vector (BitVec 32) 512 × BitVec 64
  | 0 => (a.limb, 0)
  | count + 1 =>
    let (limb, borrow) := a.subtractSteps b count
    let right := (if count < b.used then (b.get count).setWidth 64 else 0) + borrow
    let left := (a.get count).setWidth 64
    (limb.setIfInBounds count ((left - right).setWidth 32), if left < right then 1 else 0)

/-- `bn_subtract`. -/
def subtract (a b : Bignum) : Bignum :=
  let (limb, _) := a.subtractSteps b a.used
  { limb := limb, used := trim limb a.used }

/-- `bn_bit`. -/
def bit (a : Bignum) (bit : Nat) : Bool :=
  if 512 * 32 ≤ bit then false else a.get (bit / 32) &&& (1 : BitVec 32) <<< (bit % 32) != 0

/-- `bn_any_below`. -/
def anyBelow (a : Bignum) (bit : Nat) : Bool :=
  (List.range (min bit (512 * 32))).any fun i =>
    a.get (i / 32) &&& (1 : BitVec 32) <<< (i % 32) != 0

/-- The powers of five below the largest that a limb holds. -/
def small : List (BitVec 32) :=
  [1, 5, 25, 125, 625, 3125, 15625, 78125, 390625, 1953125, 9765625, 48828125, 244140625]

/-- The loop of `bn_mul_pow5`, by the `5 ^ 13` of 1220703125. -/
def mulChunks (a : Bignum) : Nat → Bignum
  | 0 => a
  | chunks + 1 => (a.mulSmall 1220703125).mulChunks chunks

/-- `bn_mul_pow5`. -/
def mulPow5 (a : Bignum) (power : Nat) : Bignum :=
  let a := a.mulChunks (power / 13)
  if power % 13 ≠ 0 then a.mulSmall (small.getD (power % 13) 0) else a

/-- `bn_mul_pow2`. -/
def mulPow2 (a : Bignum) (power : Nat) : Bignum := a.shiftLeft power

/-- A number shifted up by one, with a bit put below it. -/
def pushBit (a : Bignum) (bit : Bool) : Bignum :=
  let a := a.shiftLeft 1
  if bit then
    { limb := a.limb.setIfInBounds 0 (a.get 0 ||| 1), used := if a.used = 0 then 1 else a.used }
  else a

/-- The top bits of the numerator that only fill the remainder, `count` of them. -/
def seed (numerator : Bignum) (bits : Nat) : Nat → Bignum
  | 0 => ofWord 0
  | count + 1 => (numerator.seed bits count).pushBit (numerator.bit (bits - 1 - count))

/-- The rest of the division, a bit of the numerator at a time from bit `count - 1` down. -/
def divideSteps (numerator denominator : Bignum) : Nat → Bignum × Bignum → Bignum × Bignum
  | 0, state => state
  | count + 1, (remainder, quotient) =>
    let remainder := remainder.pushBit (numerator.bit count)
    if remainder.atLeast denominator && denominator.used != 0 then
      divideSteps numerator denominator count
        (remainder.subtract denominator, quotient.pushBit true)
    else divideSteps numerator denominator count (remainder, quotient.pushBit false)

/-- `bn_divide`: the quotient, and whether anything is left over. -/
def divide (numerator denominator : Bignum) : Bignum × Bool :=
  let bits := numerator.bitLength
  let denominatorBits := denominator.bitLength
  let seeded := if 1 < denominatorBits ∧ denominatorBits ≤ bits then denominatorBits - 1 else 0
  let (remainder, quotient) :=
    divideSteps numerator denominator (bits - seeded) (numerator.seed bits seeded, ofWord 0)
  (quotient, remainder.used != 0)

/-- The top bits of a number, the topmost in bit 63. -/
def topBits (a : Bignum) (bits : Nat) : Nat → BitVec 64
  | 0 => 0
  | count + 1 =>
    let mantissa := a.topBits bits count
    if count < bits ∧ a.bit (bits - 1 - count) then mantissa ||| (1 : BitVec 64) <<< (63 - count)
    else mantissa

/-- What `bn_top` gives: the length, the top 64 bits, the bit below and whether there is more. -/
structure Top where
  bits : Nat
  mantissa : BitVec 64
  guard : Bool
  sticky : Bool

/-- `bn_top`, with what the caller already had below. -/
def top (a : Bignum) (sticky : Bool) : Top :=
  let bits := a.bitLength
  if bits = 0 then { bits := 0, mantissa := 0, guard := false, sticky := sticky }
  else
    { bits := bits
      mantissa := a.topBits bits 64
      guard := decide (64 < bits) && a.bit (bits - 65)
      sticky := sticky || (decide (65 < bits) && a.anyBelow (bits - 65)) }

end Bignum

end Apollo.M68882
