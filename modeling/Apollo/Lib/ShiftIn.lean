import Mathlib

/-!
# Shifting one bit at a time

A register of `w` bits that is shifted by one place, with a bit entering at the end that becomes free.
What enters tells the kinds of shift from each other: a zero, the sign, the bit that leaves, or the bit
that left before. Many single shifts are then one shift by their number, or one rotation; with the bit
that left before counted as a bit of its own, the last is a rotation of `w + 1` bits.
-/

namespace Apollo.Lib

variable {w : ℕ}

/-- One place to the left, with a bit entering below. -/
def shiftLeftIn (v : BitVec w) (b : Bool) : BitVec w := v <<< 1 ||| (BitVec.ofBool b).setWidth w

/-- One place to the right, with a bit entering above. -/
def shiftRightIn (v : BitVec w) (b : Bool) : BitVec w :=
  v >>> 1 ||| (BitVec.ofBool b).setWidth w <<< (w - 1)

theorem getLsbD_ofBool_setWidth (b : Bool) (i : ℕ) :
    ((BitVec.ofBool b).setWidth w).getLsbD i = (decide (i < w) && decide (i = 0) && b) := by
  rw [BitVec.getLsbD_setWidth, BitVec.getLsbD_ofBool, Bool.and_assoc]

theorem getLsbD_shiftLeftIn (v : BitVec w) (b : Bool) {i : ℕ} (hi : i < w) :
    (shiftLeftIn v b).getLsbD i = if i = 0 then b else v.getLsbD (i - 1) := by
  unfold shiftLeftIn
  rw [BitVec.getLsbD_or, BitVec.getLsbD_shiftLeft, getLsbD_ofBool_setWidth, decide_eq_true hi]
  by_cases hzero : i = 0
  · simp [hzero]
  · simp [hzero, show ¬ i < 1 by omega]

theorem getLsbD_shiftRightIn (v : BitVec w) (b : Bool) {i : ℕ} (hi : i < w) :
    (shiftRightIn v b).getLsbD i = if i + 1 = w then b else v.getLsbD (i + 1) := by
  unfold shiftRightIn
  rw [BitVec.getLsbD_or, BitVec.getLsbD_ushiftRight, BitVec.getLsbD_shiftLeft, getLsbD_ofBool_setWidth,
    decide_eq_true hi, Nat.add_comm 1 i]
  by_cases hlast : i + 1 = w
  · simp [show ¬ i < w - 1 by omega, show i - (w - 1) = 0 by omega, show 0 < w by omega, hlast]
  · simp [hlast, show i < w - 1 by omega]

/-! ## Many places -/

theorem shiftLeftIn_false (v : BitVec w) (k : ℕ) : shiftLeftIn (v <<< k) false = v <<< (k + 1) := by
  unfold shiftLeftIn
  rw [BitVec.shiftLeft_add]
  simp

theorem shiftRightIn_false (v : BitVec w) (k : ℕ) : shiftRightIn (v >>> k) false = v >>> (k + 1) := by
  unfold shiftRightIn
  rw [BitVec.shiftRight_add]
  simp

theorem shiftRightIn_msb (v : BitVec w) (k : ℕ) :
    shiftRightIn (v.sshiftRight k) (v.sshiftRight k).msb = v.sshiftRight (k + 1) := by
  refine BitVec.eq_of_getLsbD_eq fun i hi => ?_
  rw [getLsbD_shiftRightIn _ _ hi, BitVec.sshiftRight_add]
  generalize v.sshiftRight k = u
  rw [BitVec.getLsbD_sshiftRight, decide_eq_false (show ¬ w ≤ i by omega), Bool.not_false,
    Bool.true_and, Nat.add_comm 1 i]
  by_cases hlast : i + 1 = w
  · rw [if_pos hlast, if_neg (by omega)]
  · rw [if_neg hlast, if_pos (by omega)]

theorem getLsbD_rotateLeft_eq (v : BitVec w) (k : ℕ) {i : ℕ} (hi : i < w) :
    (v.rotateLeft k).getLsbD i = v.getLsbD (if i < k % w then w - k % w + i else i - k % w) := by
  rw [BitVec.getLsbD_rotateLeft]
  by_cases hwrap : i < k % w
  · rw [decide_eq_true hwrap, if_pos hwrap]
    rfl
  · rw [decide_eq_false hwrap, if_neg hwrap, decide_eq_true hi]
    rfl

theorem getLsbD_rotateRight_eq (v : BitVec w) (k : ℕ) {i : ℕ} (hi : i < w) :
    (v.rotateRight k).getLsbD i =
      v.getLsbD (if i < w - k % w then k % w + i else i - (w - k % w)) := by
  rw [BitVec.getLsbD_rotateRight]
  by_cases hwrap : i < w - k % w
  · rw [decide_eq_true hwrap, if_pos hwrap]
    rfl
  · rw [decide_eq_false hwrap, if_neg hwrap, decide_eq_true hi]
    rfl

theorem rotateLeft_none (v : BitVec w) : v.rotateLeft 0 = v := by
  refine BitVec.eq_of_getLsbD_eq fun i hi => ?_
  rw [getLsbD_rotateLeft_eq v 0 hi, Nat.zero_mod, if_neg (Nat.not_lt_zero i), Nat.sub_zero]

theorem rotateRight_none (v : BitVec w) : v.rotateRight 0 = v := by
  refine BitVec.eq_of_getLsbD_eq fun i hi => ?_
  rw [getLsbD_rotateRight_eq v 0 hi, Nat.zero_mod, Nat.sub_zero, if_pos hi, Nat.zero_add]

theorem succ_mod_eq (k : ℕ) (hw : 0 < w) : (k + 1) % w = if k % w + 1 = w then 0 else k % w + 1 := by
  have hr := Nat.mod_lt k hw
  rw [Nat.add_mod]
  split_ifs with hlast
  · by_cases hone : w = 1
    · rw [hone, Nat.mod_one]
    · rw [Nat.mod_eq_of_lt (show 1 < w by omega), hlast, Nat.mod_self]
  · rw [Nat.mod_eq_of_lt (show 1 < w by omega), Nat.mod_eq_of_lt (by omega)]

theorem shiftLeftIn_rotateLeft (v : BitVec w) (k : ℕ) :
    shiftLeftIn (v.rotateLeft k) (v.rotateLeft k).msb = v.rotateLeft (k + 1) := by
  refine BitVec.eq_of_getLsbD_eq fun i hi => ?_
  have hpos : 0 < w := by omega
  have hr := Nat.mod_lt k hpos
  rw [getLsbD_shiftLeftIn _ _ hi, BitVec.msb_eq_getLsbD_last, getLsbD_rotateLeft_eq _ _ hi,
    getLsbD_rotateLeft_eq _ _ (show w - 1 < w by omega), succ_mod_eq k hpos]
  by_cases hfirst : i = 0
  · rw [if_pos hfirst, if_neg (by omega), hfirst]
    by_cases hlast : k % w + 1 = w
    · rw [if_pos hlast, if_neg (Nat.lt_irrefl 0)]
      congr 1
      omega
    · rw [if_neg hlast, if_pos (Nat.succ_pos _)]
      congr 1
      omega
  · rw [if_neg hfirst, getLsbD_rotateLeft_eq _ _ (show i - 1 < w by omega)]
    congr 1
    split_ifs <;> omega

theorem shiftRightIn_rotateRight (v : BitVec w) (k : ℕ) :
    shiftRightIn (v.rotateRight k) ((v.rotateRight k).getLsbD 0) = v.rotateRight (k + 1) := by
  refine BitVec.eq_of_getLsbD_eq fun i hi => ?_
  have hpos : 0 < w := by omega
  have hr := Nat.mod_lt k hpos
  rw [getLsbD_shiftRightIn _ _ hi, getLsbD_rotateRight_eq _ _ hi, getLsbD_rotateRight_eq _ _ hpos,
    succ_mod_eq k hpos]
  by_cases hlast : i + 1 = w
  · rw [if_pos hlast, if_pos (by omega)]
    congr 1
    split_ifs <;> omega
  · rw [if_neg hlast, getLsbD_rotateRight_eq _ _ (show i + 1 < w by omega)]
    congr 1
    split_ifs <;> omega

/-! ## Rotating with one bit more -/

/-- A register with a bit above it. -/
def withTop (x : Bool) (v : BitVec w) : BitVec (w + 1) := BitVec.cons x v

theorem getLsbD_withTop (x : Bool) (v : BitVec w) (i : ℕ) :
    (withTop x v).getLsbD i = if i = w then x else v.getLsbD i :=
  BitVec.getLsbD_cons x v i

@[simp] theorem msb_withTop (x : Bool) (v : BitVec w) : (withTop x v).msb = x := BitVec.msb_cons

theorem withTop_shiftLeftIn (x : Bool) (v : BitVec w) (hw : 0 < w) :
    withTop v.msb (shiftLeftIn v x) = shiftLeftIn (withTop x v) x := by
  refine BitVec.eq_of_getLsbD_eq fun i hi => ?_
  rw [getLsbD_withTop, getLsbD_shiftLeftIn _ _ hi, getLsbD_withTop]
  by_cases hlast : i = w
  · rw [if_pos hlast, if_neg (by omega), if_neg (by omega), BitVec.msb_eq_getLsbD_last, hlast]
  · rw [if_neg hlast, getLsbD_shiftLeftIn _ _ (by omega)]
    split_ifs with hfirst
    · rfl
    · omega
    · rfl

theorem withTop_shiftRightIn (x : Bool) (v : BitVec w) :
    withTop (v.getLsbD 0) (shiftRightIn v x) = shiftRightIn (withTop x v) (v.getLsbD 0) := by
  refine BitVec.eq_of_getLsbD_eq fun i hi => ?_
  rw [getLsbD_withTop, getLsbD_shiftRightIn _ _ hi, getLsbD_withTop]
  by_cases hlast : i = w
  · rw [if_pos hlast, if_pos (by omega)]
  · rw [if_neg hlast, if_neg (by omega), getLsbD_shiftRightIn _ _ (by omega)]

theorem withTop_msb (u : BitVec (w + 1)) : withTop u.msb (u.setWidth w) = u :=
  BitVec.cons_msb_setWidth u

@[simp] theorem setWidth_withTop (x : Bool) (v : BitVec w) : (withTop x v).setWidth w = v :=
  BitVec.setWidth_cons

theorem shiftLeftIn_msb (u : BitVec (w + 1)) (hw : 0 < w) :
    shiftLeftIn u u.msb = withTop (u.setWidth w).msb (shiftLeftIn (u.setWidth w) u.msb) := by
  rw [withTop_shiftLeftIn _ _ hw, withTop_msb]

theorem shiftRightIn_low (u : BitVec (w + 1)) (hw : 0 < w) :
    shiftRightIn u (u.getLsbD 0) =
      withTop ((u.setWidth w).getLsbD 0) (shiftRightIn (u.setWidth w) u.msb) := by
  have hlow : (u.setWidth w).getLsbD 0 = u.getLsbD 0 := by
    rw [BitVec.getLsbD_setWidth, decide_eq_true hw, Bool.true_and]
  rw [withTop_shiftRightIn, withTop_msb, hlow]

end Apollo.Lib
