import Apollo.Lib.Sizes
import Mathlib

/-!
# The MC68030's registers

`src/core/cpu/m68030/ap_m68030_regs.c` and `.h`. There are three stack pointers and one name
for them: `A7` is whichever of the three the `S` and `M` bits of the status register select.
The status register has only the bits that the manual defines, so a value of it carries that
the others are clear.
-/

namespace Apollo.M68030

/-! ## The status register -/

/-- `AP_M68030_SR_DEFINED`. -/
def srDefined : BitVec 16 := 0xF71F

/-- `AP_M68030_CCR_MASK`. -/
def ccrMask : BitVec 16 := 0x001F

/-- `AP_M68030_SR_T1_BIT`. -/
def srT1Bit : Nat := 15

/-- `AP_M68030_SR_T0_BIT`. -/
def srT0Bit : Nat := 14

/-- `AP_M68030_SR_S_BIT`. -/
def srSBit : Nat := 13

/-- `AP_M68030_SR_M_BIT`. -/
def srMBit : Nat := 12

/-- `AP_M68030_SR_INTERRUPT_SHIFT`. -/
def srInterruptShift : Nat := 8

/-- `AP_M68030_SR_INTERRUPT_MASK`. -/
def srInterruptMask : BitVec 16 := 0x7

/-- A value of the status register: none of the bits that it does not have is set. -/
structure StatusRegister where
  word : BitVec 16
  defined : word &&& srDefined = word
deriving DecidableEq

/-- What the status register keeps of a word that is written to it. -/
def StatusRegister.ofWord (word : BitVec 16) : StatusRegister :=
  ⟨word &&& srDefined, by rw [BitVec.and_assoc, BitVec.and_self]⟩

@[simp] theorem StatusRegister.ofWord_word (sr : StatusRegister) : ofWord sr.word = sr := by
  obtain ⟨word, defined⟩ := sr
  simpa only [ofWord, StatusRegister.mk.injEq] using defined

/-! ## The register file -/

/-- `ap_m68030_regs_t`. -/
structure Regs where
  d : Vector (BitVec 32) 8
  a : Vector (BitVec 32) 7
  usp : BitVec 32
  isp : BitVec 32
  msp : BitVec 32
  pc : BitVec 32
  sr : StatusRegister
  vbr : BitVec 32
  sfc : BitVec 8
  dfc : BitVec 8
deriving DecidableEq

/-- `ap_m68030_stack_t`. -/
inductive Stack
  | usp
  | isp
  | msp
deriving DecidableEq, Repr

namespace Regs

/-- `ap_m68030_supervisor`. -/
def supervisor (regs : Regs) : Bool := regs.sr.word.getLsbD srSBit

/-- `ap_m68030_master`. -/
def master (regs : Regs) : Bool := regs.sr.word.getLsbD srMBit

/-- `ap_m68030_interrupt_mask`. -/
def interruptMask (regs : Regs) : Nat :=
  ((regs.sr.word >>> srInterruptShift) &&& srInterruptMask).toNat

/-- `ap_m68030_active_stack`. -/
def activeStack (regs : Regs) : Stack :=
  if !regs.supervisor then .usp else if regs.master then .msp else .isp

/-- A stack pointer by its own name. -/
def stackPointer (regs : Regs) : Stack → BitVec 32
  | .usp => regs.usp
  | .isp => regs.isp
  | .msp => regs.msp

/-- A stack pointer written by its own name. -/
def setStackPointer (regs : Regs) (value : BitVec 32) : Stack → Regs
  | .usp => { regs with usp := value }
  | .isp => { regs with isp := value }
  | .msp => { regs with msp := value }

/-- `ap_m68030_read_a7`. -/
def readA7 (regs : Regs) : BitVec 32 := regs.stackPointer regs.activeStack

/-- `ap_m68030_write_a7`. -/
def writeA7 (regs : Regs) (value : BitVec 32) : Regs :=
  regs.setStackPointer value regs.activeStack

/-- `ap_m68030_read_address_register`. -/
def readAddressRegister (regs : Regs) (index : Fin 8) : BitVec 32 :=
  if h : index.val = 7 then regs.readA7 else regs.a.get ⟨index.val, by omega⟩

/-- `ap_m68030_write_address_register`. -/
def writeAddressRegister (regs : Regs) (index : Fin 8) (value : BitVec 32) : Regs :=
  if h : index.val = 7 then regs.writeA7 value
  else { regs with a := regs.a.set index.val value (by omega) }

/-- `ap_m68030_write_sr`. -/
def writeSr (regs : Regs) (value : BitVec 16) : Regs := { regs with sr := .ofWord value }

/-- `ap_m68030_read_ccr`. -/
def readCcr (regs : Regs) : BitVec 16 := regs.sr.word &&& ccrMask

/-- `ap_m68030_write_ccr`. The bits outside the condition codes are those of a status register,
and the condition codes are bits that it has. -/
def writeCcr (regs : Regs) (value : BitVec 16) : Regs :=
  { regs with sr := .ofWord ((regs.sr.word &&& ~~~ccrMask) ||| (value &&& ccrMask)) }

/-! ## What writing a stack pointer leaves -/

variable (regs : Regs) (value : BitVec 32) (s s' : Stack) (word : BitVec 16)

@[simp] theorem setStackPointer_d : (regs.setStackPointer value s).d = regs.d := by
  cases s <;> rfl

@[simp] theorem setStackPointer_a : (regs.setStackPointer value s).a = regs.a := by
  cases s <;> rfl

@[simp] theorem setStackPointer_sr : (regs.setStackPointer value s).sr = regs.sr := by
  cases s <;> rfl

@[simp] theorem setStackPointer_pc : (regs.setStackPointer value s).pc = regs.pc := by
  cases s <;> rfl

@[simp] theorem setStackPointer_vbr : (regs.setStackPointer value s).vbr = regs.vbr := by
  cases s <;> rfl

theorem stackPointer_setStackPointer :
    (regs.setStackPointer value s).stackPointer s' =
      if s' = s then value else regs.stackPointer s' := by
  cases s <;> cases s' <;> rfl

theorem stackPointers_eq {regs regs' : Regs}
    (h : ∀ s, regs.stackPointer s = regs'.stackPointer s) :
    regs.usp = regs'.usp ∧ regs.isp = regs'.isp ∧ regs.msp = regs'.msp :=
  ⟨h .usp, h .isp, h .msp⟩

theorem activeStack_congr {regs regs' : Regs} (h : regs.sr = regs'.sr) :
    regs.activeStack = regs'.activeStack := by
  rw [activeStack, activeStack, supervisor, supervisor, master, master, h]

@[simp] theorem writeA7_sr : (regs.writeA7 value).sr = regs.sr := setStackPointer_sr ..

@[simp] theorem writeA7_pc : (regs.writeA7 value).pc = regs.pc := setStackPointer_pc ..

@[simp] theorem writeA7_vbr : (regs.writeA7 value).vbr = regs.vbr := setStackPointer_vbr ..

@[simp] theorem writeSr_sr : (regs.writeSr word).sr = .ofWord word := rfl

@[simp] theorem writeSr_pc : (regs.writeSr word).pc = regs.pc := rfl

@[simp] theorem writeSr_vbr : (regs.writeSr word).vbr = regs.vbr := rfl

@[simp] theorem stackPointer_writeSr : (regs.writeSr word).stackPointer s = regs.stackPointer s := by
  cases s <;> rfl

end Regs

end Apollo.M68030
