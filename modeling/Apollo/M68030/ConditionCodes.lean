import Mathlib
import Apollo.M68030.Alu
import Apollo.M68030.OperandMemory

/-!
# The bits of the condition codes

What a bit of the condition code register is after it was written, as a whole, a flag at a time, or
from a result of the arithmetic unit.
-/

namespace Apollo.M68030

theorem readCcr_writeCcr (regs : Regs) (ccr : BitVec 16) :
    (regs.writeCcr ccr).readCcr = ccr &&& ccrMask := by
  have hcodes : srDefined &&& ccrMask = ccrMask := by decide
  have hnone : ~~~ccrMask &&& ccrMask = 0#16 := by decide
  change ((regs.sr.word &&& ~~~ccrMask) ||| (ccr &&& ccrMask)) &&& srDefined &&& ccrMask = ccr &&& ccrMask
  rw [BitVec.and_assoc, hcodes, BitVec.and_or_distrib_right, BitVec.and_assoc, hnone, BitVec.and_zero,
    BitVec.zero_or, BitVec.and_assoc, BitVec.and_self]

theorem getLsbD_readCcr (regs : Regs) (bit : ℕ) :
    regs.readCcr.getLsbD bit = (regs.sr.word.getLsbD bit && decide (bit < 5)) := by
  have hmask : ∀ bit < 16, ccrMask.getLsbD bit = decide (bit < 5) := by decide
  unfold Regs.readCcr
  rw [BitVec.getLsbD_and]
  by_cases hbit : bit < 16
  · rw [hmask bit hbit]
  · rw [BitVec.getLsbD_of_ge _ _ (by omega), Bool.false_and, Bool.false_and]

theorem getLsbD_flag {flag : ℕ} (bit : ℕ) (h : flag < 16) :
    (1#16 <<< flag).getLsbD bit = decide (bit = flag) := by
  rw [← BitVec.twoPow_eq, BitVec.getLsbD_twoPow, decide_eq_true h, Bool.true_and]
  exact decide_eq_decide.mpr eq_comm

theorem getLsbD_setFlag (word : BitVec 16) {flag : ℕ} (bit : ℕ) (h : flag < 16) :
    (word ||| (1#16 <<< flag)).getLsbD bit = (word.getLsbD bit || decide (bit = flag)) := by
  rw [BitVec.getLsbD_or, getLsbD_flag bit h]

theorem getLsbD_clearFlag (word : BitVec 16) {flag : ℕ} (bit : ℕ) (h : flag < 16) :
    (word &&& ~~~(1#16 <<< flag)).getLsbD bit = (word.getLsbD bit && !decide (bit = flag)) := by
  rw [BitVec.getLsbD_and, BitVec.getLsbD_not, getLsbD_flag bit h]
  by_cases hbit : bit < 16
  · rw [decide_eq_true hbit, Bool.true_and]
  · rw [BitVec.getLsbD_of_ge _ _ (by omega), Bool.false_and, Bool.false_and]

theorem getLsbD_ccrFlag (set : Bool) {flag : ℕ} (bit : ℕ) (h : flag < 16) :
    (ccrFlag set flag).getLsbD bit = (set && decide (bit = flag)) := by
  unfold ccrFlag
  cases set
  · simp
  · rw [if_pos rfl, getLsbD_flag bit h, Bool.true_and]

theorem getLsbD_aluApply (ccr : BitVec 16) (r : AluResult) :
    (aluApply ccr r).getLsbD srXBit = (if r.setsX then r.x else ccr.getLsbD srXBit) ∧
      (aluApply ccr r).getLsbD srNBit = r.n ∧ (aluApply ccr r).getLsbD srZBit = r.z ∧
      (aluApply ccr r).getLsbD srVBit = r.v ∧ (aluApply ccr r).getLsbD srCBit = r.c := by
  unfold aluApply
  simp only [BitVec.getLsbD_or, getLsbD_ccrFlag _ _ (show srXBit < 16 by decide),
    getLsbD_ccrFlag _ _ (show srNBit < 16 by decide), getLsbD_ccrFlag _ _ (show srZBit < 16 by decide),
    getLsbD_ccrFlag _ _ (show srVBit < 16 by decide), getLsbD_ccrFlag _ _ (show srCBit < 16 by decide)]
  simp [srXBit, srNBit, srZBit, srVBit, srCBit]

/-!
## Operands of a byte, a word or a long word

An operand is held in a long word with nothing above it: masked, it is the bits of its width
(`masked_eq`), and its sign is the uppermost of these (`negative_setWidth`).
-/

variable {size : ℕ}

/-- The sizes of operands. -/
def OperandSize (size : ℕ) : Prop := size = 1 ∨ size = 2 ∨ size = 4

theorem sizeMask_bit (h : OperandSize size) {i : ℕ} (hi : i < 32) :
    (sizeMask size).getLsbD i = decide (i < 8 * size) := by
  rw [sizeMask_getLsbD hi]
  rcases h with rfl | rfl | rfl <;> rfl

theorem signBit_bit (h : OperandSize size) {i : ℕ} (hi : i < 32) :
    (signBit size).getLsbD i = decide (i + 1 = 8 * size) := by
  revert i
  rcases h with rfl | rfl | rfl <;> decide

theorem OperandSize.width_le (h : OperandSize size) : 8 * size ≤ 32 := by
  rcases h with rfl | rfl | rfl <;> decide

theorem OperandSize.width_pos (h : OperandSize size) : 0 < 8 * size := by
  rcases h with rfl | rfl | rfl <;> decide

theorem masked_eq (h : OperandSize size) (value : BitVec 32) :
    value &&& sizeMask size = (value.setWidth (8 * size)).setWidth 32 := by
  refine BitVec.eq_of_getLsbD_eq fun i hi => ?_
  rw [BitVec.getLsbD_and, sizeMask_bit h hi, BitVec.getLsbD_setWidth, BitVec.getLsbD_setWidth,
    decide_eq_true hi, Bool.true_and, Bool.and_comm]

theorem negative_setWidth (h : OperandSize size) (u : BitVec (8 * size)) :
    negative (u.setWidth 32) size = u.msb := by
  have hpos := h.width_pos
  have hle := h.width_le
  have hpower : signBit size = BitVec.twoPow 32 (8 * size - 1) := by
    rcases h with rfl | rfl | rfl <;> rfl
  have hbit : (u.setWidth 32).getLsbD (8 * size - 1) = u.msb := by
    rw [BitVec.msb_eq_getLsbD_last, BitVec.getLsbD_setWidth, decide_eq_true (by omega), Bool.true_and]
  have hzero : BitVec.twoPow 32 (8 * size - 1) ≠ 0 := by
    rw [← hpower]
    rcases h with rfl | rfl | rfl <;> decide
  unfold negative
  rw [hpower, BitVec.and_twoPow, hbit]
  cases u.msb
  · simp
  · simp only [if_true]
    exact decide_eq_true hzero

theorem setWidth_eq_zero (h : OperandSize size) (u : BitVec (8 * size)) :
    u.setWidth 32 = 0 ↔ u = 0 := by
  have hle := h.width_le
  constructor
  · intro hzero
    have hback := congrArg (BitVec.setWidth (8 * size)) hzero
    rw [BitVec.setWidth_setWidth_of_le _ hle, BitVec.setWidth_eq] at hback
    exact hback.trans (BitVec.setWidth_zero _ _)
  · rintro rfl
    exact BitVec.setWidth_zero _ _

end Apollo.M68030
