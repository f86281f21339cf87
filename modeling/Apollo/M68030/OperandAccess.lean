import Mathlib
import Apollo.M68030.Arith
import Apollo.M68030.ConditionCodes
import Apollo.M68030.ResolveAddress
import Apollo.M68030.StackAccess

/-!
# Operands of an instruction over memory

What an instruction's operands are when there is a memory of bytes behind its data accesses: an operand
that is read is loaded, one that is written is stored, and the modes that step through memory do one of
these at the address that they leave in, or take from, their register.
-/

namespace Apollo.M68030

open Apollo.Lib

namespace Regs

variable (regs : Regs) (i j : Fin 8) (value : BitVec 32) (ccr : BitVec 16)

@[simp] theorem writeAddressRegister_d : (regs.writeAddressRegister i value).d = regs.d := by
  unfold writeAddressRegister
  split
  · exact setStackPointer_d ..
  · rfl

theorem readAddressRegister_write :
    (regs.writeAddressRegister i value).readAddressRegister j =
      if j = i then value else regs.readAddressRegister j := by
  have hactive : (regs.writeA7 value).activeStack = regs.activeStack := activeStack_congr (by simp)
  unfold writeAddressRegister
  by_cases hi : i.val = 7
  · rw [dif_pos hi]
    unfold readAddressRegister
    by_cases hj : j.val = 7
    · rw [dif_pos hj, if_pos (Fin.ext (hj.trans hi.symm)), readA7, hactive, writeA7,
        stackPointer_setStackPointer, if_pos rfl]
    · have hne : j ≠ i := fun h => hj (h ▸ hi)
      rw [dif_neg hj, dif_neg hj, if_neg hne, writeA7, setStackPointer_a]
  · rw [dif_neg hi]
    unfold readAddressRegister
    by_cases hj : j.val = 7
    · have hne : j ≠ i := fun h => hi (h ▸ hj)
      rw [dif_pos hj, dif_pos hj, if_neg hne]
      rfl
    · rw [dif_neg hj, dif_neg hj]
      by_cases heq : j = i
      · subst heq
        rw [if_pos rfl]
        exact Vector.getElem_set_self _
      · rw [if_neg heq]
        exact Vector.getElem_set_ne (by omega) (by omega) fun h => heq (Fin.ext h.symm)

@[simp] theorem readAddressRegister_writeCcr :
    (regs.writeCcr ccr).readAddressRegister j = regs.readAddressRegister j := by
  have hactive : (regs.writeCcr ccr).activeStack = regs.activeStack := by
    have hbit : ∀ bit < 16, 5 ≤ bit → (regs.writeCcr ccr).sr.word.getLsbD bit = regs.sr.word.getLsbD bit := by
      intro bit hbit hhigh
      have hmask : ∀ bit < 16, 5 ≤ bit → ccrMask.getLsbD bit = false := by decide
      have hdefined := congrArg (BitVec.getLsbD · bit) regs.sr.defined
      change (((regs.sr.word &&& ~~~ccrMask) ||| (ccr &&& ccrMask)) &&& srDefined).getLsbD bit = _
      rw [BitVec.getLsbD_and, BitVec.getLsbD_or, BitVec.getLsbD_and, BitVec.getLsbD_and,
        BitVec.getLsbD_not, hmask bit hbit hhigh, decide_eq_true hbit, Bool.not_false, Bool.and_true,
        Bool.and_true, Bool.and_false, Bool.or_false, ← BitVec.getLsbD_and]
      exact hdefined
    unfold activeStack supervisor master
    rw [hbit srSBit (by decide) (by decide), hbit srMBit (by decide) (by decide)]
  unfold readAddressRegister readA7
  rw [hactive]
  rfl

end Regs

/-! ## Reading and writing -/

section Access

variable {σ : Type} {ports : Ports σ} {functionCode : BitVec 8} (view : MemoryPorts ports functionCode)
  {cpu cpu' : Cpu σ} {address value : BitVec 32} {size : ℕ}

theorem MemoryPorts.readOperand_ok (hcode : cpu.dataFunctionCode = functionCode) (hsize : OperandSize size)
    (h : readOperand ports (.ofMemory address) size cpu = .ok value cpu') :
    ∃ memory, cpu' = { cpu with memory } ∧ view.memory memory = view.memory cpu.memory ∧
      value = (view.memory cpu.memory).loadAt address size := by
  unfold readOperand at h
  rw [Attempt.read_bind, hcode] at h
  exact view.stepOperandRead_ok hsize h

theorem MemoryPorts.writeOperand_ok (hcode : cpu.dataFunctionCode = functionCode) (hsize : OperandSize size)
    (h : writeOperand ports (.ofMemory address) size value cpu = .ok () cpu') :
    ∃ memory, cpu' = { cpu with memory } ∧
      view.memory memory = (view.memory cpu.memory).storeAt address size value := by
  unfold writeOperand at h
  rw [Attempt.read_bind, hcode] at h
  exact view.stepOperandWrite_ok (by have := hsize.width_le; omega) h

theorem fits_masked (hsize : OperandSize size) (value : BitVec 32) :
    ByteMemory.Fits (value &&& sizeMask size) size := by
  intro j hj
  refine BitVec.eq_of_getLsbD_eq fun i hi => ?_
  rw [byteAt_getLsbD _ _ hi, BitVec.getLsbD_and, sizeMask_bit hsize (by omega),
    decide_eq_false (by omega), Bool.and_false]
  exact BitVec.getLsbD_zero.symm

/-- Where a mode that steps down through memory leaves its register. -/
def steppedDown (regs : Regs) (reg : Fin 8) (size : ℕ) : BitVec 32 :=
  regs.readAddressRegister reg - BitVec.ofNat 32 (addressStep reg size)

theorem MemoryPorts.readPredecrementAt_ok (hcode : cpu.dataFunctionCode = functionCode)
    (hsize : OperandSize size) {reg : Fin 8} {target : Address}
    (h : readPredecrementAt ports reg size cpu = .ok (value, target) cpu') :
    target = .ofMemory (steppedDown cpu.regs reg size) ∧
      ∃ memory, cpu' = { cpu with
          regs := cpu.regs.writeAddressRegister reg (steppedDown cpu.regs reg size), memory } ∧
        view.memory memory = view.memory cpu.memory ∧
        value = (view.memory cpu.memory).loadAt (steppedDown cpu.regs reg size) size := by
  unfold readPredecrementAt at h
  obtain ⟨where', cpu₁, hresolve, h⟩ := Attempt.bind_eq_ok.mp h
  obtain ⟨rfl, rfl⟩ : where' = .ofMemory (steppedDown cpu.regs reg size) ∧ cpu₁ = { cpu with
      regs := cpu.regs.writeAddressRegister reg (steppedDown cpu.regs reg size) } := by
    cases hresolve
    exact ⟨rfl, rfl⟩
  obtain ⟨read, cpu₂, hread, h⟩ := Attempt.bind_eq_ok.mp h
  cases h
  obtain ⟨memory, rfl, hmemory, hvalue⟩ := view.readOperand_ok (by exact hcode) hsize hread
  exact ⟨rfl, memory, rfl, hmemory, hvalue⟩

end Access

end Apollo.M68030
