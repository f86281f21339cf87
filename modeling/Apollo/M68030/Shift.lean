import Mathlib
import Apollo.Lib.ShiftIn
import Apollo.M68030.ConditionCodes

/-!
# Shifts and rotates of the MC68030

`ap_m68030_alu_shift` of `src/core/cpu/m68030/ap_m68030_alu.c`, which moves an operand a bit at a time,
and what it comes to (`aluShift_shifts`): an arithmetic or logical shift is a multiplication or a floor
division by a power of two, a rotation is one of the operand's bits, and a rotation through `X` one of
those bits and `X`. The condition codes are those of the last bit out, except that a count of zero clears
`C` or copies `X` to it, and that `V` remembers every sign that was seen on the way.
-/

namespace Apollo.M68030

open Apollo.Lib

/-- `ap_m68030_shift_type_t`. -/
inductive ShiftType
  | arithmetic
  | logical
  | rotateExtend
  | rotate
deriving DecidableEq

/-- What the loop of `ap_m68030_alu_shift` changes. -/
structure Shifting where
  v : BitVec 32
  carry : Bool
  x : Bool
  msbChanged : Bool

/-- One turn of that loop. -/
def shiftOnce (type : ShiftType) (left : Bool) (size : Nat) (originalSign : Bool) (s : Shifting) :
    Shifting :=
  if left then
    let carry := negative s.v size
    let shifted := (s.v <<< 1) &&& sizeMask size
    let (v, x) :=
      match type with
      | .rotate => (shifted ||| if carry then 1 else 0, s.x)
      | .rotateExtend => (shifted ||| if s.x then 1 else 0, carry)
      | .arithmetic | .logical => (shifted, carry)
    { v, carry, x, msbChanged := s.msbChanged || negative v size != originalSign }
  else
    let carry := s.v &&& 1 != 0
    let shifted := (s.v >>> 1) &&& sizeMask size
    let (v, x) :=
      match type with
      | .arithmetic => (if negative s.v size then shifted ||| signBit size else shifted, carry)
      | .logical => (shifted, carry)
      | .rotate => (shifted ||| if carry then signBit size else 0, s.x)
      | .rotateExtend => (shifted ||| if s.x then signBit size else 0, carry)
    { s with v, carry, x }

/-- `ap_m68030_alu_shift`. -/
def aluShift (type : ShiftType) (left : Bool) (value : BitVec 32) (count size : Nat) (xIn : Bool) :
    AluResult :=
  let v := value &&& sizeMask size
  if count = 0 then
    { result := v, n := negative v size, z := v = 0, v := false
      c := if type = .rotateExtend then xIn else false
      x := false, setsX := false }
  else
    let s := (shiftOnce type left size (negative v size))^[count]
      { v, carry := false, x := xIn, msbChanged := false }
    { result := s.v, n := negative s.v size, z := s.v = 0
      v := if type = .arithmetic ∧ left then s.msbChanged else false
      c := s.carry
      x := if type = .rotate then false else s.x
      setsX := type ≠ .rotate }

/-! ## What a shift is -/

section Meaning

variable {w : ℕ}

/-- An operand of `w` bits, shifted so many places. -/
def shifted (type : ShiftType) (left : Bool) (v : BitVec w) (x : Bool) (count : ℕ) : BitVec w :=
  match type, left with
  | .arithmetic, true | .logical, true => BitVec.ofNat w (v.toNat * 2 ^ count)
  | .arithmetic, false => BitVec.ofInt w (v.toInt / 2 ^ count)
  | .logical, false => BitVec.ofNat w (v.toNat / 2 ^ count)
  | .rotateExtend, true => ((withTop x v).rotateLeft count).setWidth w
  | .rotateExtend, false => ((withTop x v).rotateRight count).setWidth w
  | .rotate, true => v.rotateLeft count
  | .rotate, false => v.rotateRight count

/-- The last bit that a shift by at least one place moves out; through `X`, the bit that is in it. -/
def lastOut (type : ShiftType) (left : Bool) (v : BitVec w) (x : Bool) (count : ℕ) : Bool :=
  match type, left with
  | .arithmetic, true | .logical, true => (v.toNat * 2 ^ count).testBit w
  | .arithmetic, false => v.toInt / 2 ^ (count - 1) % 2 = 1
  | .logical, false => v.toNat / 2 ^ (count - 1) % 2 = 1
  | .rotateExtend, true => ((withTop x v).rotateLeft count).msb
  | .rotateExtend, false => ((withTop x v).rotateRight count).msb
  | .rotate, true => (v.rotateLeft count).getLsbD 0
  | .rotate, false => (v.rotateRight count).msb

/-- The carry of a shift: without a place to move, there is none, and `X` is in its place where the
operand moves through it. -/
def carryOut (type : ShiftType) (left : Bool) (v : BitVec w) (x : Bool) (count : ℕ) : Bool :=
  if count = 0 then decide (type = .rotateExtend) && x else lastOut type left v x count

/-- The sign is another one somewhere on the way to the left. -/
def SignChanges (v : BitVec w) (count : ℕ) : Prop :=
  ∃ places ≤ count, (BitVec.ofNat w (v.toNat * 2 ^ places)).msb ≠ v.msb

/-- A result is that of a shift. -/
structure Shifts (type : ShiftType) (left : Bool) (v : BitVec w) (x : Bool) (count : ℕ)
    (r : AluResult) : Prop where
  result : r.result = (shifted type left v x count).setWidth 32
  negative : r.n = (shifted type left v x count).msb
  zero : r.z = decide (shifted type left v x count = 0)
  overflow : r.v = true ↔ type = .arithmetic ∧ left = true ∧ SignChanges v count
  carry : r.c = carryOut type left v x count
  extend : r.setsX = true ↔ type ≠ .rotate ∧ 0 < count
  extendOut : r.setsX = true → r.x = r.c

end Meaning

/-! ## A turn of the loop in a long word -/

section Operand

variable {size : ℕ}

theorem shiftLeft_masked (h : OperandSize size) (u : BitVec (8 * size)) (b : Bool) :
    ((u.setWidth 32 <<< 1) &&& sizeMask size) ||| (if b then 1 else 0) =
      (shiftLeftIn u b).setWidth 32 := by
  have hpos := h.width_pos
  refine BitVec.eq_of_getLsbD_eq fun i hi => ?_
  have hone : (if b then (1 : BitVec 32) else 0).getLsbD i = (decide (i = 0) && b) := by
    cases b
    · simp
    · simp [BitVec.getLsbD_one]
  rw [BitVec.getLsbD_or, BitVec.getLsbD_and, sizeMask_bit h hi, BitVec.getLsbD_shiftLeft,
    BitVec.getLsbD_setWidth, BitVec.getLsbD_setWidth, hone, decide_eq_true hi]
  by_cases hin : i < 8 * size
  · rw [getLsbD_shiftLeftIn u b hin]
    by_cases hfirst : i = 0
    · simp [hfirst]
    · simp [hfirst, hin, show ¬ i < 1 by omega, show i - 1 < 32 by omega]
  · rw [BitVec.getLsbD_of_ge (shiftLeftIn u b) i (by omega)]
    simp [hin, show i ≠ 0 by omega]

theorem shiftRight_masked (h : OperandSize size) (u : BitVec (8 * size)) (b : Bool) :
    ((u.setWidth 32 >>> 1) &&& sizeMask size) ||| (if b then signBit size else 0) =
      (shiftRightIn u b).setWidth 32 := by
  have hpos := h.width_pos
  have hle := h.width_le
  refine BitVec.eq_of_getLsbD_eq fun i hi => ?_
  have hsign : (if b then signBit size else 0).getLsbD i = (decide (i + 1 = 8 * size) && b) := by
    cases b
    · simp
    · rw [if_pos rfl, signBit_bit h hi, Bool.and_true]
  rw [BitVec.getLsbD_or, BitVec.getLsbD_and, sizeMask_bit h hi, BitVec.getLsbD_ushiftRight,
    BitVec.getLsbD_setWidth, BitVec.getLsbD_setWidth, hsign, decide_eq_true hi, Nat.add_comm 1 i]
  by_cases hin : i < 8 * size
  · rw [getLsbD_shiftRightIn u b hin]
    by_cases hlast : i + 1 = 8 * size
    · simp [hlast]
    · simp [hlast, hin, show i + 1 < 32 by omega]
  · rw [BitVec.getLsbD_of_ge (shiftRightIn u b) i (by omega)]
    simp [hin, show ¬ i + 1 = 8 * size by omega]

theorem low_setWidth (h : OperandSize size) (u : BitVec (8 * size)) :
    (u.setWidth 32 &&& 1 != 0) = u.getLsbD 0 := by
  have hpos := h.width_pos
  have hbit : (u.setWidth 32).getLsbD 0 = u.getLsbD 0 := by
    rw [BitVec.getLsbD_setWidth, decide_eq_true (by decide), Bool.true_and]
  rw [show (1 : BitVec 32) = BitVec.twoPow 32 0 from rfl, BitVec.and_twoPow, hbit]
  cases u.getLsbD 0 <;> decide

end Operand

/-! ## One place more -/

section Places

variable {w : ℕ}

/-- What enters at the end that becomes free. -/
def entering (type : ShiftType) (left : Bool) (u : BitVec w) (x : Bool) : Bool :=
  match type, left with
  | .arithmetic, true | .logical, true | .logical, false => false
  | .arithmetic, false => u.msb
  | .rotateExtend, _ => x
  | .rotate, true => u.msb
  | .rotate, false => u.getLsbD 0

/-- What leaves at the other end. -/
def leaving (left : Bool) (u : BitVec w) : Bool := if left then u.msb else u.getLsbD 0

/-- A register moved by one place. -/
def movedOnce (left : Bool) (u : BitVec w) (b : Bool) : BitVec w :=
  if left then shiftLeftIn u b else shiftRightIn u b

/-- `X` after so many places. -/
def extendAfter (type : ShiftType) (left : Bool) (v : BitVec w) (x : Bool) (count : ℕ) : Bool :=
  if type = .rotate ∨ count = 0 then x else lastOut type left v x count

theorem ofNat_mul_two_pow (v : BitVec w) (k : ℕ) : BitVec.ofNat w (v.toNat * 2 ^ k) = v <<< k := by
  refine BitVec.eq_of_toNat_eq ?_
  rw [BitVec.toNat_ofNat, BitVec.toNat_shiftLeft, Nat.shiftLeft_eq]

theorem ofNat_div_two_pow (v : BitVec w) (k : ℕ) : BitVec.ofNat w (v.toNat / 2 ^ k) = v >>> k := by
  refine BitVec.eq_of_toNat_eq ?_
  rw [BitVec.toNat_ofNat, BitVec.toNat_ushiftRight, Nat.shiftRight_eq_div_pow,
    Nat.mod_eq_of_lt ((Nat.div_le_self _ _).trans_lt v.isLt)]

theorem toInt_sshiftRight_eq (v : BitVec w) (k : ℕ) : (v.sshiftRight k).toInt = v.toInt / 2 ^ k := by
  rw [BitVec.toInt_sshiftRight, Int.shiftRight_eq_div_pow]
  norm_cast

theorem ofInt_div_two_pow (v : BitVec w) (k : ℕ) :
    BitVec.ofInt w (v.toInt / 2 ^ k) = v.sshiftRight k := by
  rw [← toInt_sshiftRight_eq, BitVec.ofInt_toInt]

theorem shifted_zero (type : ShiftType) (left : Bool) (v : BitVec w) (x : Bool) :
    shifted type left v x 0 = v := by
  cases type <;> cases left <;> unfold shifted <;> dsimp only
  · rw [ofInt_div_two_pow, BitVec.sshiftRight_zero]
  · rw [ofNat_mul_two_pow, BitVec.shiftLeft_zero]
  · rw [ofNat_div_two_pow, BitVec.ushiftRight_zero]
  · rw [ofNat_mul_two_pow, BitVec.shiftLeft_zero]
  · rw [rotateRight_none, setWidth_withTop]
  · rw [rotateLeft_none, setWidth_withTop]
  · exact rotateRight_none _
  · exact rotateLeft_none _

theorem msb_ofNat_mul (hw : 0 < w) (v : BitVec w) (k : ℕ) :
    (v.toNat * 2 ^ (k + 1)).testBit w = (BitVec.ofNat w (v.toNat * 2 ^ k)).msb := by
  obtain ⟨n, rfl⟩ := Nat.exists_eq_add_of_le' hw
  rw [BitVec.msb_eq_getLsbD_last, BitVec.getLsbD_ofNat, Nat.testBit_succ, pow_succ, ← mul_assoc,
    Nat.mul_div_cancel _ two_pos, Nat.add_sub_cancel, decide_eq_true (Nat.lt_succ_self n), Bool.true_and]

theorem low_eq_parity (u : BitVec w) : u.getLsbD 0 = decide (u.toNat % 2 = 1) := by
  rw [BitVec.getLsbD, Nat.testBit_zero]

theorem low_eq_parity_toInt (hw : 0 < w) (u : BitVec w) : u.getLsbD 0 = decide (u.toInt % 2 = 1) := by
  obtain ⟨n, rfl⟩ := Nat.exists_eq_add_of_le' hw
  rw [low_eq_parity, BitVec.toInt_eq_toNat_cond]
  refine decide_eq_decide.mpr ?_
  rw [pow_succ]
  split_ifs <;> omega

/-- ONE PLACE MORE: the operand moves, with what enters for its kind, and the last bit out is the one
that leaves. -/
theorem shifted_succ (hw : 0 < w) (type : ShiftType) (left : Bool) (v : BitVec w) (x : Bool)
    (count : ℕ) :
    shifted type left v x (count + 1) =
        movedOnce left (shifted type left v x count)
          (entering type left (shifted type left v x count) (extendAfter type left v x count)) ∧
      lastOut type left v x (count + 1) = leaving left (shifted type left v x count) := by
  have hleft : BitVec.ofNat w (v.toNat * 2 ^ (count + 1)) =
      shiftLeftIn (BitVec.ofNat w (v.toNat * 2 ^ count)) false := by
    rw [ofNat_mul_two_pow, ofNat_mul_two_pow, shiftLeftIn_false]
  have hextend : count = 0 → lastOut .rotateExtend left v x count = x := by
    rintro rfl
    cases left
    · exact (congrArg BitVec.msb (rotateRight_none _)).trans (msb_withTop x v)
    · exact (congrArg BitVec.msb (rotateLeft_none _)).trans (msb_withTop x v)
  have hbelow : extendAfter .rotateExtend left v x count = lastOut .rotateExtend left v x count := by
    unfold extendAfter
    by_cases hcount : count = 0
    · rw [if_pos (.inr hcount), hextend hcount]
    · rw [if_neg (not_or.mpr ⟨nofun, hcount⟩)]
  cases type with
  | arithmetic =>
    cases left with
    | true => exact ⟨hleft, msb_ofNat_mul hw v count⟩
    | false =>
      constructor
      · change BitVec.ofInt w _ = shiftRightIn (BitVec.ofInt w _) (BitVec.ofInt w _).msb
        rw [ofInt_div_two_pow, ofInt_div_two_pow, shiftRightIn_msb]
      · change decide _ = (BitVec.ofInt w _).getLsbD 0
        rw [ofInt_div_two_pow, low_eq_parity_toInt hw, toInt_sshiftRight_eq, Nat.add_sub_cancel]
  | logical =>
    cases left with
    | true => exact ⟨hleft, msb_ofNat_mul hw v count⟩
    | false =>
      constructor
      · change BitVec.ofNat w _ = shiftRightIn (BitVec.ofNat w _) false
        rw [ofNat_div_two_pow, ofNat_div_two_pow, shiftRightIn_false]
      · change decide _ = (BitVec.ofNat w _).getLsbD 0
        rw [ofNat_div_two_pow, low_eq_parity, BitVec.toNat_ushiftRight, Nat.shiftRight_eq_div_pow]
        rfl
  | rotateExtend =>
    cases left with
    | true =>
      have hnext := shiftLeftIn_msb ((withTop x v).rotateLeft count) hw
      rw [shiftLeftIn_rotateLeft] at hnext
      constructor
      · change ((withTop x v).rotateLeft (count + 1)).setWidth w = shiftLeftIn _ (extendAfter _ _ _ _ _)
        rw [hbelow, hnext, setWidth_withTop]
        rfl
      · exact (congrArg BitVec.msb hnext).trans (msb_withTop _ _)
    | false =>
      have hnext := shiftRightIn_low ((withTop x v).rotateRight count) hw
      rw [shiftRightIn_rotateRight] at hnext
      constructor
      · change ((withTop x v).rotateRight (count + 1)).setWidth w = shiftRightIn _ (extendAfter _ _ _ _ _)
        rw [hbelow, hnext, setWidth_withTop]
        rfl
      · exact (congrArg BitVec.msb hnext).trans (msb_withTop _ _)
  | rotate =>
    cases left with
    | true =>
      constructor
      · exact (shiftLeftIn_rotateLeft v count).symm
      · change (v.rotateLeft (count + 1)).getLsbD 0 = (v.rotateLeft count).msb
        rw [← shiftLeftIn_rotateLeft, getLsbD_shiftLeftIn _ _ hw, if_pos rfl]
    | false =>
      constructor
      · exact (shiftRightIn_rotateRight v count).symm
      · change (v.rotateRight (count + 1)).msb = (v.rotateRight count).getLsbD 0
        rw [← shiftRightIn_rotateRight, BitVec.msb_eq_getLsbD_last,
          getLsbD_shiftRightIn _ _ (show w - 1 < w by omega), if_pos (Nat.sub_add_cancel hw)]

end Places

/-! ## The loop -/

section Loop

variable {size : ℕ} {type : ShiftType} {left : Bool} {x : Bool} {count : ℕ} {s : Shifting}

/-- A TURN OF THE LOOP is one place more. -/
theorem shiftOnce_spec (type : ShiftType) (left : Bool) (h : OperandSize size)
    {u : BitVec (8 * size)} (hv : s.v = u.setWidth 32) (originalSign : Bool) :
    let s' := shiftOnce type left size originalSign s
    let moved := movedOnce left u (entering type left u s.x)
    s'.v = moved.setWidth 32 ∧ s'.carry = leaving left u ∧
      s'.x = (if type = .rotate then s.x else leaving left u) ∧
      (left = true → s'.msbChanged = (s.msbChanged || moved.msb != originalSign)) := by
  have hleft := shiftLeft_masked h u
  have hright := shiftRight_masked h u
  have hleftNone : u.setWidth 32 <<< 1 &&& sizeMask size = (shiftLeftIn u false).setWidth 32 := by
    simpa using hleft false
  have hrightNone : u.setWidth 32 >>> 1 &&& sizeMask size = (shiftRightIn u false).setWidth 32 := by
    simpa using hright false
  have hsign := negative_setWidth h
  have hlow := low_setWidth h u
  cases left with
  | true =>
    cases type with
    | arithmetic =>
      simp only [shiftOnce, movedOnce, entering, leaving, hv, hsign, if_true, hleftNone]
      simp
    | logical =>
      simp only [shiftOnce, movedOnce, entering, leaving, hv, hsign, if_true, hleftNone]
      simp
    | rotateExtend =>
      simp only [shiftOnce, movedOnce, entering, leaving, hv, hsign, if_true, hleft]
      simp
    | rotate =>
      simp only [shiftOnce, movedOnce, entering, leaving, hv, hsign, if_true, hleft]
      simp
  | false =>
    cases type with
    | arithmetic =>
      have hkept : (if u.msb then (u.setWidth 32 >>> 1 &&& sizeMask size) ||| signBit size
          else u.setWidth 32 >>> 1 &&& sizeMask size) = (shiftRightIn u u.msb).setWidth 32 := by
        rw [← hright]
        cases u.msb <;> simp
      simp only [shiftOnce, movedOnce, entering, leaving, hv, hsign, hlow, Bool.false_eq_true, if_false,
        hkept]
      simp
    | logical =>
      simp only [shiftOnce, movedOnce, entering, leaving, hv, hlow, Bool.false_eq_true, if_false,
        hrightNone]
      simp
    | rotateExtend =>
      simp only [shiftOnce, movedOnce, entering, leaving, hv, hlow, Bool.false_eq_true, if_false, hright]
      simp
    | rotate =>
      simp only [shiftOnce, movedOnce, entering, leaving, hv, hlow, Bool.false_eq_true, if_false, hright]
      simp

/-- What the loop has after so many turns. -/
structure Shifting.After (s : Shifting) (type : ShiftType) (left : Bool) (v : BitVec (8 * size))
    (x : Bool) (count : ℕ) : Prop where
  value : s.v = (shifted type left v x count).setWidth 32
  extend : s.x = extendAfter type left v x count
  carry : 0 < count → s.carry = lastOut type left v x count
  msbChanged : type = .arithmetic → left = true → (s.msbChanged = true ↔ SignChanges v count)

theorem signChanges_succ {w : ℕ} (v : BitVec w) (count : ℕ) :
    SignChanges v (count + 1) ↔
      SignChanges v count ∨ (BitVec.ofNat w (v.toNat * 2 ^ (count + 1))).msb ≠ v.msb := by
  constructor
  · rintro ⟨places, hle, hne⟩
    rcases Nat.le_succ_iff.mp hle with hle | rfl
    · exact .inl ⟨places, hle, hne⟩
    · exact .inr hne
  · rintro (⟨places, hle, hne⟩ | hne)
    · exact ⟨places, Nat.le_succ_of_le hle, hne⟩
    · exact ⟨count + 1, le_rfl, hne⟩

theorem Shifting.After.next {v : BitVec (8 * size)} (h : OperandSize size)
    (hs : s.After type left v x count) :
    (shiftOnce type left size v.msb s).After type left v x (count + 1) := by
  obtain ⟨hmoved, hout⟩ := shifted_succ h.width_pos type left v x count
  obtain ⟨hv, hcarry, hx, hmsb⟩ := shiftOnce_spec type left h hs.value v.msb
  rw [hs.extend, ← hmoved] at hv hmsb
  refine ⟨hv, ?_, fun _ => hcarry.trans hout.symm, ?_⟩
  · rw [hx, hs.extend, ← hout]
    unfold extendAfter
    by_cases hrotate : type = .rotate
    · rw [if_pos hrotate, if_pos (.inl hrotate), if_pos (.inl hrotate)]
    · rw [if_neg hrotate, if_neg (not_or.mpr ⟨hrotate, Nat.succ_ne_zero count⟩)]
  · rintro rfl rfl
    rw [hmsb rfl, Bool.or_eq_true, hs.msbChanged rfl rfl, signChanges_succ, bne_iff_ne]
    rfl

theorem Shifting.After.iterate {v : BitVec (8 * size)} (h : OperandSize size)
    (hs : s.After type left v x 0) (count : ℕ) :
    ((shiftOnce type left size v.msb)^[count] s).After type left v x count := by
  induction count with
  | zero => exact hs
  | succ count ih =>
    rw [Function.iterate_succ_apply']
    exact ih.next h

/-- THE SHIFT AND ROTATE LOOP IS ITS CLOSED FORM, for every kind, size, operand, `X` and count. -/
theorem aluShift_shifts (h : OperandSize size) (type : ShiftType) (left : Bool) (value : BitVec 32)
    (count : ℕ) (xIn : Bool) :
    Shifts type left (value.setWidth (8 * size)) xIn count (aluShift type left value count size xIn) := by
  generalize hv : value.setWidth (8 * size) = v
  have hmasked : value &&& sizeMask size = v.setWidth 32 := (masked_eq h value).trans (by rw [hv])
  have hsign := negative_setWidth h
  have hzero : ∀ u : BitVec (8 * size), decide (u.setWidth 32 = 0) = decide (u = 0) := fun u =>
    decide_eq_decide.mpr (setWidth_eq_zero h u)
  unfold aluShift
  dsimp only
  rw [hmasked, hsign]
  by_cases hcount : count = 0
  · subst hcount
    rw [if_pos rfl]
    refine ⟨?_, ?_, ?_, ?_, ?_, ?_, ?_⟩
    · rw [shifted_zero]
    · rw [shifted_zero]
    · rw [shifted_zero]
      exact hzero v
    · refine iff_of_false Bool.false_ne_true ?_
      rintro ⟨-, -, places, hle, hne⟩
      obtain rfl := Nat.le_zero.mp hle
      rw [pow_zero, mul_one, BitVec.ofNat_toNat, BitVec.setWidth_eq] at hne
      exact hne rfl
    · unfold carryOut
      rw [if_pos rfl]
      cases type <;> rfl
    · exact iff_of_false Bool.false_ne_true fun hne => absurd hne.2 (Nat.lt_irrefl 0)
    · exact fun hset => nomatch hset
  · have hstart : (Shifting.mk (v.setWidth 32) false xIn false).After type left v xIn 0 := by
      refine ⟨?_, ?_, fun hpos => absurd hpos (Nat.lt_irrefl 0), fun _ _ => ?_⟩
      · rw [shifted_zero]
      · unfold extendAfter
        rw [if_pos (.inr rfl)]
      · refine iff_of_false Bool.false_ne_true ?_
        rintro ⟨places, hle, hne⟩
        obtain rfl := Nat.le_zero.mp hle
        rw [pow_zero, mul_one, BitVec.ofNat_toNat, BitVec.setWidth_eq] at hne
        exact hne rfl
    have hend := hstart.iterate h count
    rw [if_neg hcount]
    generalize (shiftOnce type left size v.msb)^[count] (Shifting.mk (v.setWidth 32) false xIn false) = s
      at hend
    have hcarry : s.carry = carryOut type left v xIn count := by
      unfold carryOut
      rw [if_neg hcount]
      exact hend.carry (Nat.pos_of_ne_zero hcount)
    refine ⟨hend.value, ?_, ?_, ?_, hcarry, ?_, ?_⟩
    · rw [hend.value, hsign]
    · rw [hend.value]
      exact hzero _
    · by_cases harithmetic : type = .arithmetic ∧ left = true
      · rw [if_pos harithmetic, hend.msbChanged harithmetic.1 harithmetic.2]
        exact ⟨fun hchanges => ⟨harithmetic.1, harithmetic.2, hchanges⟩, fun hall => hall.2.2⟩
      · rw [if_neg harithmetic]
        exact iff_of_false Bool.false_ne_true fun hall => harithmetic ⟨hall.1, hall.2.1⟩
    · rw [decide_eq_true_iff]
      exact ⟨fun hne => ⟨hne, Nat.pos_of_ne_zero hcount⟩, fun hall => hall.1⟩
    · intro hset
      have hne : type ≠ .rotate := of_decide_eq_true hset
      rw [if_neg hne, hend.extend, hcarry]
      unfold extendAfter carryOut
      rw [if_neg (not_or.mpr ⟨hne, hcount⟩), if_neg hcount]

theorem aluShift_shifts_asl :
    Shifts .arithmetic true ((0x40 : BitVec 32).setWidth (8 * 1)) false 1
      (aluShift .arithmetic true 0x40 1 1 false) :=
  aluShift_shifts (.inl rfl) .arithmetic true 0x40 1 false

end Loop

end Apollo.M68030
