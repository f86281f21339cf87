import Mathlib

/-!
# The low bits of a word

What the masks of a machine word are on the number it holds: the bits below a place are a remainder,
the bits from it on a quotient, and one bit is one digit.
-/

namespace Apollo.Lib

variable {w : Nat}

theorem toNat_one_shiftLeft {k : Nat} (hk : k < w) : ((1 : BitVec w) <<< k).toNat = 2 ^ k := by
  have hw : 1 < 2 ^ w := Nat.one_lt_two_pow (Nat.ne_of_gt (Nat.zero_lt_of_lt hk))
  rw [BitVec.toNat_shiftLeft, BitVec.ofNat_eq_ofNat, BitVec.toNat_ofNat, Nat.mod_eq_of_lt hw,
    Nat.shiftLeft_eq, one_mul, Nat.mod_eq_of_lt (Nat.pow_lt_pow_right (by decide) hk)]

theorem toNat_lowMask {k : Nat} (hk : k < w) : ((1 : BitVec w) <<< k - 1).toNat = 2 ^ k - 1 := by
  have hw : 1 < 2 ^ w := Nat.one_lt_two_pow (Nat.ne_of_gt (Nat.zero_lt_of_lt hk))
  have hone : (1 : BitVec w).toNat = 1 := Nat.mod_eq_of_lt hw
  have hle : 1 ≤ 2 ^ k := Nat.one_le_two_pow
  rw [BitVec.toNat_sub_of_le (by rw [BitVec.le_def, toNat_one_shiftLeft hk, hone]; exact hle),
    toNat_one_shiftLeft hk, hone]

theorem toNat_and_lowMask (x : BitVec w) {k : Nat} (hk : k < w) :
    (x &&& ((1 : BitVec w) <<< k - 1)).toNat = x.toNat % 2 ^ k := by
  rw [BitVec.toNat_and, toNat_lowMask hk, Nat.and_two_pow_sub_one_eq_mod]

theorem toNat_and_not_lowMask (x : BitVec w) {k : Nat} (hk : k < w) :
    (x &&& ~~~((1 : BitVec w) <<< k - 1)).toNat = x.toNat / 2 ^ k * 2 ^ k := by
  have hsplit : x &&& ~~~((1 : BitVec w) <<< k - 1) = x >>> k <<< k := by
    refine BitVec.eq_of_getLsbD_eq fun i hi => ?_
    have hmask : ((1 : BitVec w) <<< k - 1).getLsbD i = decide (i < k) := by
      rw [BitVec.getLsbD, toNat_lowMask hk, Nat.testBit_two_pow_sub_one]
    rw [BitVec.getLsbD_and, BitVec.getLsbD_not, hmask, BitVec.getLsbD_shiftLeft,
      BitVec.getLsbD_ushiftRight]
    by_cases hlow : i < k
    · simp [hlow]
    · have hback : k + (i - k) = i := by omega
      simp [hlow, hi, hback]
  rw [hsplit, BitVec.toNat_shiftLeft, BitVec.toNat_ushiftRight, Nat.shiftRight_eq_div_pow,
    Nat.shiftLeft_eq, Nat.mod_eq_of_lt]
  exact (Nat.div_mul_le_self _ _).trans_lt x.isLt

theorem and_bit_ne_zero_iff (x : BitVec w) {k : Nat} (hk : k < w) :
    x &&& (1 : BitVec w) <<< k ≠ 0 ↔ x.toNat.testBit k = true := by
  have hbit : ∀ i, ((1 : BitVec w) <<< k).getLsbD i = decide (k = i) := by
    intro i
    rw [BitVec.getLsbD, toNat_one_shiftLeft hk, Nat.testBit_two_pow]
  constructor
  · intro h
    by_contra hno
    refine h (BitVec.eq_of_getLsbD_eq fun i _ => ?_)
    rw [BitVec.getLsbD_and, hbit, BitVec.ofNat_eq_ofNat, BitVec.getLsbD_zero]
    by_cases hi : k = i
    · subst hi
      rw [BitVec.getLsbD, Bool.eq_false_iff.mpr hno]
      rfl
    · rw [decide_eq_false hi, Bool.and_false]
  · intro h hzero
    have hclear : (x &&& (1 : BitVec w) <<< k).getLsbD k = false := by
      rw [hzero]
      exact BitVec.getLsbD_zero
    rw [BitVec.getLsbD_and, hbit, decide_eq_true rfl, Bool.and_true] at hclear
    exact Bool.false_ne_true (hclear.symm.trans h)

theorem testBit_iff_le_mod (n k : Nat) : n.testBit k = true ↔ 2 ^ k ≤ n % 2 ^ (k + 1) := by
  rw [Nat.testBit_eq_decide_div_mod_eq, decide_eq_true_iff, Nat.mod_pow_succ]
  have hlow : n % 2 ^ k < 2 ^ k := Nat.mod_lt _ (Nat.two_pow_pos k)
  rcases Nat.mod_two_eq_zero_or_one (n / 2 ^ k) with h | h
  · rw [h, mul_zero, add_zero]
    omega
  · rw [h, mul_one]
    omega

theorem msb_iff_le {w : Nat} (x : BitVec (w + 1)) :
    x &&& (1 : BitVec (w + 1)) <<< w ≠ 0 ↔ 2 ^ w ≤ x.toNat := by
  rw [and_bit_ne_zero_iff x (Nat.lt_succ_self w), testBit_iff_le_mod, Nat.mod_eq_of_lt x.isLt]

end Apollo.Lib
