import Mathlib
import Apollo.M68030.Misc
import Apollo.M68030.OperandMemory
import Apollo.M68030.OperandAccess
import Apollo.M68030.SameContext

/-!
# Module calls of the MC68020

`execute_callm` and `execute_rtm` of `src/core/cpu/m68030/ap_m68030_step.c`, with the formats of
`src/core/cpu/m68020/ap_m68020_module.c`: `CALLM` turns a descriptor into a frame on the stack, and `RTM`
puts back what the frame holds. What only timing uses is left out.

A call and its return are transparent (`callm_transparent`), with two reservations. The stack pointer is the
one from before the call: the argument count is in the frame, and `RTM` reads nothing of it. And the register
of the data area is indexed in the file of address registers, where there is no register 7.
-/

namespace Apollo.M68030

open Apollo.Lib

/-! ## Formats -/

/-- `ap_m68020_module_opcode_t`. -/
inductive ModuleOpcode
  | notAModuleInstruction
  | callm
  | rtm
deriving DecidableEq, Repr

/-- `ap_m68020_module_entry_t`: a register, as an entry word and the word of an `RTM` name it. -/
structure ModuleEntry where
  addressRegister : Bool := false
  reg : Fin 8 := 0
deriving DecidableEq

/-- `ap_m68020_module_decode_t`; `rtmEntry` is `rtm_address_register` and `rtm_register`. -/
structure ModuleDecode where
  opcode : ModuleOpcode := .notAModuleInstruction
  mode : Fin 8 := 0
  reg : Fin 8 := 0
  rtmEntry : ModuleEntry := {}
deriving DecidableEq

/-- `ap_m68020_module_decode`. -/
def moduleDecode (word : BitVec 16) : ModuleDecode :=
  if word &&& 0xFFC0 ≠ 0x06C0 then {}
  else
    let mode := field3 word 3
    let reg := field3 word 0
    if mode.val ≤ 1 then { opcode := .rtm, rtmEntry := { addressRegister := mode.val = 1, reg } }
    else if mode.val = 2 ∨ mode.val = 5 ∨ mode.val = 6 ∨ (mode.val = 7 ∧ reg.val ≤ 3) then
      { opcode := .callm, mode, reg }
    else {}

/-- `ap_m68020_module_control_t`. -/
structure ModuleControl where
  opt : BitVec 3
  type : BitVec 5
  accessLevel : BitVec 8
deriving DecidableEq

/-- `ap_m68020_module_control`. -/
def moduleControl (firstLongWord : BitVec 32) : ModuleControl :=
  { opt := (firstLongWord >>> 29).setWidth 3
    type := (firstLongWord >>> 24).setWidth 5
    accessLevel := (firstLongWord >>> 16).setWidth 8 }

/-- `ap_m68020_module_status_t`. -/
inductive ModuleStatus
  | ok
  | badOpt
  | badType
  | disabled
deriving DecidableEq, Repr

namespace ModuleControl

/-- `ap_m68020_module_validate`. -/
def validate (control : ModuleControl) : ModuleStatus :=
  if control.type &&& 0x10 ≠ 0 then .disabled
  else if control.type ≠ 0 ∧ control.type ≠ 1 then .badType
  else if control.opt ≠ 0 ∧ control.opt ≠ 4 then .badOpt
  else .ok

/-- `ap_m68020_module_copies_arguments`. -/
def copiesArguments (control : ModuleControl) (stackPointerChanges : Bool) : Bool :=
  control.opt = 0 && stackPointerChanges

end ModuleControl

/-- `ap_m68020_module_entry`. -/
def moduleEntry (word : BitVec 16) : ModuleEntry :=
  { addressRegister := word.getLsbD 15, reg := field3 word 12 }

theorem moduleDecode_control {word : BitVec 16} (h : (moduleDecode word).opcode = .callm) :
    (eaDecode (moduleDecode word).mode (moduleDecode word).reg).kind.isControl = true := by
  have hmodes : ∀ mode reg : Fin 8, mode.val = 2 ∨ mode.val = 5 ∨ mode.val = 6 ∨
      (mode.val = 7 ∧ reg.val ≤ 3) → (eaDecode mode reg).kind.isControl = true := by decide
  unfold moduleDecode at h ⊢
  dsimp only at h ⊢
  split_ifs at h ⊢ with hprefix hrtm hcontrol
  exact hmodes _ _ hcontrol

namespace Regs

/-- `regs.a[reg]` or `regs.d[reg]`, as the two instructions read it. There is no `a[7]`: what is there is the
next field of the structure, `usp`. -/
def moduleRegister (regs : Regs) (entry : ModuleEntry) : BitVec 32 :=
  if entry.addressRegister then
    if h : entry.reg.val < 7 then regs.a.get ⟨entry.reg.val, h⟩ else regs.usp
  else regs.d.get entry.reg

/-- The same register, written. -/
def setModuleRegister (regs : Regs) (entry : ModuleEntry) (value : BitVec 32) : Regs :=
  if entry.addressRegister then
    if h : entry.reg.val < 7 then { regs with a := regs.a.set entry.reg.val value h }
    else { regs with usp := value }
  else { regs with d := regs.d.set entry.reg.val value entry.reg.isLt }

end Regs

/-! ## The instructions -/

section Instructions

variable {σ : Type} (ports : Ports σ)

/-- What a `CALLM` takes from its words and its descriptor. -/
structure ModuleCall where
  argumentCount : BitVec 16
  descriptor : BitVec 32
  control : ModuleControl
  entry : BitVec 32
  dataArea : BitVec 32
  top : BitVec 32
  receiver : ModuleEntry
deriving DecidableEq

/-- A long word of a descriptor or of a frame. -/
def readModuleLong (base offset : BitVec 32) : Exec σ (BitVec 32) :=
  readOperand ports (.ofMemory (base + offset)) 4

/-- A descriptor that is not recognised is a format error. -/
def acceptModule (control : ModuleControl) : Exec σ Unit :=
  if control.validate = .ok then pure ()
  else do
    modify fun cpu => { cpu with refusedVector := vectorFormatError }
    Attempt.fail

/-- Where the stack of a module is. It is the type that decides, and the stack pointer of a descriptor is
read a second time where the type asks for it. -/
def moduleStack (control : ModuleControl) (descriptor : BitVec 32) : Exec σ (BitVec 32) :=
  if control.type = 1 then readModuleLong ports descriptor 0x0C
  else Attempt.read fun cpu => cpu.regs.readA7

/-- `execute_callm`, as far as it only reads. -/
def readModule (decoded : ModuleDecode) : Exec σ ModuleCall := do
  let argumentCount ← nextWord ports
  let ea := eaDecode decoded.mode decoded.reg
  let input ← gatherAddressInput ports ea.kind 4
  let descriptor ← resolveAddress ports ea input
  Attempt.require (descriptor.valid = true)
  let first ← readModuleLong ports descriptor.address 0x00
  let entry ← readModuleLong ports descriptor.address 0x04
  let dataArea ← readModuleLong ports descriptor.address 0x08
  let _ ← readModuleLong ports descriptor.address 0x0C
  let control := moduleControl first
  acceptModule control
  let top ← moduleStack ports control descriptor.address
  let entryWord ← readOperand ports (.ofMemory entry) 2
  pure { argumentCount, descriptor := descriptor.address, control, entry, dataArea, top
         receiver := moduleEntry (entryWord.setWidth 16) }

namespace ModuleCall

/-- How many bytes of arguments are copied. -/
def arguments (call : ModuleCall) : Nat :=
  if call.control.copiesArguments (call.control.type = 1) then (call.argumentCount &&& 0xFF).toNat else 0

/-- Where the frame is: below whatever the arguments occupy. -/
def frame (call : ModuleCall) : BitVec 32 := call.top - BitVec.ofNat 32 call.arguments - 0x18

/-- The fields of the frame: offsets, sizes and values. -/
def fields (call : ModuleCall) (cpu : Cpu σ) : List (Nat × Nat × BitVec 32) :=
  [(0x00, 2, (call.control.opt.setWidth 32 <<< 13) ||| (call.control.type.setWidth 32 <<< 8) |||
      call.control.accessLevel.setWidth 32),
    (0x02, 2, cpu.regs.readCcr.setWidth 32),
    (0x04, 4, (call.argumentCount &&& 0xFF).setWidth 32),
    (0x08, 4, call.descriptor),
    (0x0C, 4, cpu.regs.pc + 2 + 2 * BitVec.ofNat 32 cpu.extensionWords),
    (0x10, 4, cpu.regs.moduleRegister call.receiver),
    (0x14, 4, cpu.regs.readA7)]

/-- The registers of a module that is entered. -/
def enter (call : ModuleCall) (regs : Regs) : Regs :=
  { (regs.writeA7 call.frame).setModuleRegister call.receiver call.dataArea with pc := call.entry + 2 }

end ModuleCall

/-- The loop that copies the arguments, from argument `i` on. -/
def copyArguments (bottom : BitVec 32) : Nat → Nat → Exec σ Unit
  | 0, _ => pure ()
  | left + 1, i => do
    let source ← Attempt.read fun cpu => cpu.regs.readA7 + BitVec.ofNat 32 i
    let got ← readOperand ports (.ofMemory source) 1
    writeOperand ports (.ofMemory (bottom + BitVec.ofNat 32 i)) 1 got
    copyArguments bottom left (i + 1)

/-- The loop that writes the frame. -/
def writeModuleFields (frame : BitVec 32) : List (Nat × Nat × BitVec 32) → Exec σ Unit
  | [] => pure ()
  | (offset, size, value) :: fields => do
    writeOperand ports (.ofMemory (frame + BitVec.ofNat 32 offset)) size value
    writeModuleFields frame fields

/-- The registers change, and the pipe is filled from the new program counter. -/
def Cpu.jumpWith (cpu : Cpu σ) (f : Regs → Regs) : Cpu σ :=
  { cpu with regs := f cpu.regs, fetch := cpu.fetch.reset (f cpu.regs).pc }

/-- `execute_callm`, from the copy of the arguments on. -/
def enterModule (call : ModuleCall) : Exec σ Unit := do
  copyArguments ports (call.top - BitVec.ofNat 32 call.arguments) call.arguments 0
  let fields ← Attempt.read call.fields
  writeModuleFields ports call.frame fields
  modify fun cpu => cpu.jumpWith call.enter

/-- `execute_callm`. -/
def executeCallm (decoded : ModuleDecode) : Exec σ Unit := do
  let call ← readModule ports decoded
  enterModule ports call

/-- The registers that a frame gives back. -/
def returnFrom (entry : ModuleEntry) (pc dataArea sp ccr : BitVec 32) (regs : Regs) : Regs :=
  { ((regs.writeCcr (ccr.setWidth 16)).setModuleRegister entry dataArea).writeA7 sp with pc }

/-- `execute_rtm`. -/
def executeRtm (decoded : ModuleDecode) : Exec σ Unit := do
  let frame ← Attempt.read fun cpu => cpu.regs.readA7
  let pc ← readModuleLong ports frame 0x0C
  let dataArea ← readModuleLong ports frame 0x10
  let sp ← readModuleLong ports frame 0x14
  let ccr ← readOperand ports (.ofMemory (frame + 0x02)) 2
  modify fun cpu => cpu.jumpWith (returnFrom decoded.rtmEntry pc dataArea sp ccr)

end Instructions

/-! ## What the two leave of the registers -/

/-- A register that is in its file, which `A7` is not. -/
def ModuleEntry.InFile (entry : ModuleEntry) : Prop := entry.addressRegister = true → entry.reg.val < 7

/-- Every register as it was, except for the program counter, the condition codes, the register of the data
area and the stack pointer. -/
structure SameBesides (entry : ModuleEntry) (regs regs' : Regs) : Prop where
  d : ∀ i : Fin 8, ¬ (entry.addressRegister = false ∧ i = entry.reg) → regs'.d.get i = regs.d.get i
  a : ∀ i : Fin 7, ¬ (entry.addressRegister = true ∧ i.val = entry.reg.val) →
    regs'.a.get i = regs.a.get i
  stackPointer : ∀ s, s ≠ regs.activeStack → regs'.stackPointer s = regs.stackPointer s
  sr : regs'.sr.word &&& ~~~ccrMask = regs.sr.word &&& ~~~ccrMask
  vbr : regs'.vbr = regs.vbr
  sfc : regs'.sfc = regs.sfc
  dfc : regs'.dfc = regs.dfc

section Registers

variable {entry : ModuleEntry} {regs regs' regs'' : Regs}

theorem activeStack_of_sr (h : regs'.sr.word &&& ~~~ccrMask = regs.sr.word &&& ~~~ccrMask) :
    regs'.activeStack = regs.activeStack := by
  have hbit (bit : ℕ) (hbit : bit < 16) (hhigh : ccrMask.getLsbD bit = false) :
      regs'.sr.word.getLsbD bit = regs.sr.word.getLsbD bit := by
    have hboth := congrArg (BitVec.getLsbD · bit) h
    rwa [BitVec.getLsbD_and, BitVec.getLsbD_and, BitVec.getLsbD_not, hhigh, decide_eq_true hbit,
      Bool.not_false, Bool.and_true, Bool.and_true, Bool.and_true] at hboth
  unfold Regs.activeStack Regs.supervisor Regs.master
  rw [hbit srSBit (by decide) (by decide), hbit srMBit (by decide) (by decide)]

theorem SameBesides.activeStack (h : SameBesides entry regs regs') :
    regs'.activeStack = regs.activeStack := activeStack_of_sr h.sr

theorem SameBesides.trans (h : SameBesides entry regs regs') (h' : SameBesides entry regs' regs'') :
    SameBesides entry regs regs'' where
  d i hi := (h'.d i hi).trans (h.d i hi)
  a i hi := (h'.a i hi).trans (h.a i hi)
  stackPointer s hs := (h'.stackPointer s (by rwa [h.activeStack])).trans (h.stackPointer s hs)
  sr := h'.sr.trans h.sr
  vbr := h'.vbr.trans h.vbr
  sfc := h'.sfc.trans h.sfc
  dfc := h'.dfc.trans h.dfc

namespace Regs

variable (regs) (value sp : BitVec 32) (ccr : BitVec 16)

@[simp] theorem setModuleRegister_sr : (regs.setModuleRegister entry value).sr = regs.sr := by
  unfold setModuleRegister
  split_ifs <;> rfl

@[simp] theorem setModuleRegister_vbr : (regs.setModuleRegister entry value).vbr = regs.vbr := by
  unfold setModuleRegister
  split_ifs <;> rfl

@[simp] theorem setModuleRegister_sfc : (regs.setModuleRegister entry value).sfc = regs.sfc := by
  unfold setModuleRegister
  split_ifs <;> rfl

@[simp] theorem setModuleRegister_dfc : (regs.setModuleRegister entry value).dfc = regs.dfc := by
  unfold setModuleRegister
  split_ifs <;> rfl

theorem setModuleRegister_d (i : Fin 8) :
    (regs.setModuleRegister entry value).d.get i =
      if entry.addressRegister = false ∧ i = entry.reg then value else regs.d.get i := by
  obtain ⟨_ | _, reg⟩ := entry
  · change (regs.d.set reg.val value reg.isLt)[i.val] = _
    by_cases hi : i = reg
    · subst hi
      rw [if_pos ⟨rfl, rfl⟩]
      exact Vector.getElem_set_self _
    · rw [if_neg fun h => hi h.2]
      exact Vector.getElem_set_ne _ _ fun h => hi (Fin.ext h.symm)
  · rw [if_neg fun h => Bool.noConfusion h.1]
    unfold setModuleRegister
    rw [if_pos rfl]
    split_ifs <;> rfl

theorem setModuleRegister_a (i : Fin 7) :
    (regs.setModuleRegister entry value).a.get i =
      if entry.addressRegister = true ∧ i.val = entry.reg.val then value else regs.a.get i := by
  obtain ⟨_ | _, reg⟩ := entry
  · rw [if_neg fun h => Bool.noConfusion h.1]
    rfl
  · unfold setModuleRegister
    rw [if_pos rfl]
    dsimp only
    split_ifs with hreg hi hi
    · change (regs.a.set reg.val value hreg)[i.val] = _
      have heq : i.val = reg.val := hi.2
      simp only [heq, Vector.getElem_set_self]
    · exact Vector.getElem_set_ne hreg i.isLt fun h => hi ⟨rfl, h.symm⟩
    · exact absurd i.isLt (by have := hi.2; omega)
    · rfl

theorem setModuleRegister_stackPointer (hentry : entry.InFile) (s : Stack) :
    (regs.setModuleRegister entry value).stackPointer s = regs.stackPointer s := by
  unfold setModuleRegister
  split_ifs with haddress hreg
  · cases s <;> rfl
  · exact absurd (hentry haddress) hreg
  · cases s <;> rfl

theorem moduleRegister_eq (hentry : entry.InFile) :
    (∀ i, entry.addressRegister = false → i = entry.reg → regs.moduleRegister entry = regs.d.get i) ∧
      ∀ i : Fin 7, entry.addressRegister = true → i.val = entry.reg.val →
        regs.moduleRegister entry = regs.a.get i := by
  obtain ⟨_ | _, reg⟩ := entry
  · exact ⟨fun i _ hi => by subst hi; rfl, fun i h _ => Bool.noConfusion h⟩
  · refine ⟨fun i h _ => Bool.noConfusion h, fun i _ hi => ?_⟩
    have hreg : reg.val < 7 := hentry rfl
    unfold moduleRegister
    rw [if_pos rfl, dif_pos hreg]
    exact congrArg regs.a.get (Fin.ext hi.symm)

theorem writeCcr_readCcr (h : regs'.sr.word &&& ~~~ccrMask = regs.sr.word &&& ~~~ccrMask) :
    (regs'.writeCcr regs.readCcr).sr = regs.sr := by
  have hword : (regs'.sr.word &&& ~~~ccrMask) ||| (regs.readCcr &&& ccrMask) = regs.sr.word := by
    unfold readCcr
    rw [h, BitVec.and_assoc, BitVec.and_self, ← BitVec.and_or_distrib_left, BitVec.not_or_self,
      BitVec.and_allOnes]
  unfold writeCcr
  rw [hword]
  exact StatusRegister.ofWord_word _

end Regs

theorem sameBesides_enter (call : ModuleCall) (hentry : call.receiver.InFile) (regs : Regs) :
    SameBesides call.receiver regs (call.enter regs) ∧ (call.enter regs).readA7 = call.frame := by
  have hsr : (call.enter regs).sr = regs.sr := by
    change ((regs.writeA7 call.frame).setModuleRegister call.receiver call.dataArea).sr = _
    rw [Regs.setModuleRegister_sr, Regs.writeA7_sr]
  have hstack (s : Stack) : (call.enter regs).stackPointer s =
      if s = regs.activeStack then call.frame else regs.stackPointer s := by
    have hpc : (call.enter regs).stackPointer s =
        ((regs.writeA7 call.frame).setModuleRegister call.receiver call.dataArea).stackPointer s := by
      cases s <;> rfl
    rw [hpc, Regs.setModuleRegister_stackPointer _ _ hentry, Regs.writeA7,
      Regs.stackPointer_setStackPointer]
  have hfields : ∀ s, (regs.setStackPointer call.frame s).vbr = regs.vbr ∧
      (regs.setStackPointer call.frame s).sfc = regs.sfc ∧
      (regs.setStackPointer call.frame s).dfc = regs.dfc := by
    intro s
    cases s <;> exact ⟨rfl, rfl, rfl⟩
  obtain ⟨hvbr, hsfc, hdfc⟩ := hfields regs.activeStack
  refine ⟨⟨fun i hi => ?_, fun i hi => ?_, fun s hs => ?_, by rw [hsr], ?_, ?_, ?_⟩, ?_⟩
  · refine (Regs.setModuleRegister_d _ _ i).trans ?_
    rw [if_neg hi, Regs.writeA7, Regs.setStackPointer_d]
  · refine (Regs.setModuleRegister_a _ _ i).trans ?_
    rw [if_neg hi, Regs.writeA7, Regs.setStackPointer_a]
  · rw [hstack, if_neg hs]
  · exact (Regs.setModuleRegister_vbr _ _).trans hvbr
  · exact (Regs.setModuleRegister_sfc _ _).trans hsfc
  · exact (Regs.setModuleRegister_dfc _ _).trans hdfc
  · rw [Regs.readA7, Regs.activeStack_congr hsr, hstack, if_pos rfl]

/-- THE RETURN: a frame with what registers had gives them back. -/
theorem returnFrom_eq (hentry : entry.InFile) (h : SameBesides entry regs regs') (pc : BitVec 32) :
    returnFrom entry pc (regs.moduleRegister entry) regs.readA7 (regs.readCcr.setWidth 32) regs' =
      { regs with pc } := by
  have hccr : ((regs.readCcr.setWidth 32).setWidth 16 : BitVec 16) = regs.readCcr := by
    rw [BitVec.setWidth_setWidth_of_le _ (by decide), BitVec.setWidth_eq]
  obtain ⟨hdata, haddress⟩ := regs.moduleRegister_eq hentry
  unfold returnFrom
  rw [hccr]
  generalize hmiddle : (regs'.writeCcr regs.readCcr).setModuleRegister entry
    (regs.moduleRegister entry) = middle
  have hsr : middle.sr = regs.sr := by
    rw [← hmiddle, Regs.setModuleRegister_sr, Regs.writeCcr_readCcr regs h.sr]
  have hd : middle.d = regs.d := by
    refine Vector.ext fun i hi => ?_
    have hget := @Regs.setModuleRegister_d entry (regs'.writeCcr regs.readCcr)
      (regs.moduleRegister entry) ⟨i, hi⟩
    rw [hmiddle] at hget
    refine hget.trans ?_
    split_ifs with hreg
    · exact hdata _ hreg.1 hreg.2
    · exact h.d _ hreg
  have ha : middle.a = regs.a := by
    refine Vector.ext fun i hi => ?_
    have hget := @Regs.setModuleRegister_a entry (regs'.writeCcr regs.readCcr)
      (regs.moduleRegister entry) ⟨i, hi⟩
    rw [hmiddle] at hget
    refine hget.trans ?_
    split_ifs with hreg
    · exact haddress _ hreg.1 hreg.2
    · exact h.a _ hreg
  have hstack (s : Stack) : middle.stackPointer s = regs'.stackPointer s := by
    rw [← hmiddle, Regs.setModuleRegister_stackPointer _ _ hentry]
    cases s <;> rfl
  have hpointers := @Regs.stackPointers_eq (middle.writeA7 regs.readA7) regs fun s => by
    rw [Regs.writeA7, Regs.stackPointer_setStackPointer, Regs.activeStack_congr hsr]
    split_ifs with hs
    · rw [hs, Regs.readA7]
    · rw [hstack, h.stackPointer s hs]
  obtain ⟨husp, hisp, hmsp⟩ := hpointers
  have hvbr : middle.vbr = regs.vbr := by
    rw [← hmiddle, Regs.setModuleRegister_vbr]
    exact h.vbr
  have hsfc : middle.sfc = regs.sfc := by
    rw [← hmiddle, Regs.setModuleRegister_sfc]
    exact h.sfc
  have hdfc : middle.dfc = regs.dfc := by
    rw [← hmiddle, Regs.setModuleRegister_dfc]
    exact h.dfc
  have hcontrol : (middle.writeA7 regs.readA7).sfc = middle.sfc ∧
      (middle.writeA7 regs.readA7).dfc = middle.dfc := by
    unfold Regs.writeA7
    cases middle.activeStack <;> exact ⟨rfl, rfl⟩
  rw [Regs.mk.injEq]
  refine ⟨?_, ?_, husp, hisp, hmsp, rfl, ?_, ?_, ?_, ?_⟩
  · rw [Regs.writeA7, Regs.setStackPointer_d, hd]
  · rw [Regs.writeA7, Regs.setStackPointer_a, ha]
  · rw [Regs.writeA7_sr, hsr]
  · rw [Regs.writeA7_vbr, hvbr]
  · rw [hcontrol.1, hsfc]
  · rw [hcontrol.2, hdfc]

end Registers

/-! ## Instructions that give up -/

section GivesUp

variable {σ : Type} (ports : Ports σ)

/-- The registers are as they were. -/
def SameRegs (cpu cpu' : Cpu σ) : Prop := cpu'.regs = cpu.regs

theorem SameRegs.refl (cpu : Cpu σ) : SameRegs cpu cpu := rfl

theorem SameRegs.trans (cpu cpu' cpu'' : Cpu σ) (h : SameRegs cpu cpu') (h' : SameRegs cpu' cpu'') :
    SameRegs cpu cpu'' := Eq.trans h' h

/-- A computation that leaves the registers, whether or not it gives up. -/
abbrev LeavesRegs {α : Type} (x : Exec σ α) : Prop := Attempt.Ends SameRegs SameRegs x

section Rules

variable {α β : Type} {x : Exec σ α} {f : α → Exec σ β}

theorem LeavesRegs.bind (hx : LeavesRegs x) (hf : ∀ a, LeavesRegs (f a)) : LeavesRegs (x >>= f) :=
  Attempt.ends_bind SameRegs.trans SameRegs.trans hx hf

theorem leavesRegs_pure (a : α) : LeavesRegs (pure a : Exec σ α) := Attempt.ends_pure SameRegs.refl a

theorem leavesRegs_read (g : Cpu σ → α) : LeavesRegs (Attempt.read g) :=
  Attempt.ends_read SameRegs.refl g

theorem LeavesRegs.of_ok (hx : LeavesRegs x) {a : α} {cpu cpu' : Cpu σ} (h : x cpu = .ok a cpu') :
    cpu'.regs = cpu.regs := by
  have hrun := hx.run cpu
  rw [h] at hrun
  exact hrun

theorem LeavesRegs.of_error (hx : LeavesRegs x) {cpu cpu' : Cpu σ} (h : x cpu = .error () cpu') :
    cpu'.regs = cpu.regs := by
  have hrun := hx.run cpu
  rw [h] at hrun
  exact hrun

theorem LeavesRegs.error_of_last (hx : LeavesRegs x) {g : α → Cpu σ → Cpu σ} {cpu cpu' : Cpu σ}
    (h : (x >>= fun a => modify (g a)) cpu = .error () cpu') : cpu'.regs = cpu.regs := by
  obtain hfirst | ⟨a, s, hfirst, hlast⟩ := Attempt.bind_eq_error.mp h
  · exact hx.of_error hfirst
  · exact nomatch hlast

end Rules

/-! ### Words and operands -/

theorem leavesRegs_readOperand (target : Address) (size : ℕ) :
    LeavesRegs (readOperand ports target size) := by
  refine LeavesRegs.bind (leavesRegs_read _) fun functionCode => ⟨fun cpu => ?_⟩
  unfold stepOperandRead
  rcases operandRead ports (cpu.accessMode functionCode) cpu.regs target size cpu.memory with
    ⟨_ | value, memory⟩ <;> exact SameRegs.refl _

theorem leavesRegs_writeMemory (address : BitVec 32) (size : ℕ) (value : BitVec 32) :
    LeavesRegs (writeOperand ports (.ofMemory address) size value) := by
  refine LeavesRegs.bind (leavesRegs_read _) fun functionCode => ⟨fun cpu => ?_⟩
  unfold stepOperandWrite
  rw [operandWrite_ofMemory]
  rcases writeChunks ports (cpu.accessMode functionCode) value size address size cpu.memory with
    ⟨_ | regs, memory⟩ <;> exact SameRegs.refl _

theorem leavesRegs_fillToDecoded (turns : ℕ) : LeavesRegs (fillToDecoded ports turns) := by
  induction turns with
  | zero =>
    refine ⟨fun cpu => ?_⟩
    unfold fillToDecoded
    rcases cpu.fetch.pipe.decoded with _ | word <;> exact SameRegs.refl _
  | succ turns ih =>
    refine ⟨fun cpu => ?_⟩
    unfold fillToDecoded
    rcases cpu.fetch.pipe.decoded with _ | word
    · exact ih.run (prefetchAndAdvance ports cpu)
    · exact SameRegs.refl _

theorem leavesRegs_nextWord : LeavesRegs (nextWord ports) := by
  refine LeavesRegs.bind (Attempt.ends_modify fun cpu => SameRegs.refl _) fun _ => ⟨fun cpu => ?_⟩
  have hfill := (leavesRegs_fillToDecoded ports 4).run cpu
  unfold takeWord
  cases hrun : fillToDecoded ports 4 cpu with
  | ok decoded cpu' =>
    rw [hrun] at hfill
    obtain ⟨word, _ | _⟩ := decoded <;> exact hfill
  | error e cpu' =>
    rw [hrun] at hfill
    exact hfill

theorem addressCalculate_regs (regs : Regs) {ea : Ea} (input : AddressInput)
    (hkind : ea.kind.isControl = true) : (addressCalculate regs ea input).2 = regs := by
  obtain ⟨kind, reg⟩ := ea
  cases kind with
  | postincrement => exact nomatch hkind
  | predecrement => exact nomatch hkind
  | _ => rfl

theorem leavesRegs_resolveAddress {ea : Ea} (input : AddressInput) (hkind : ea.kind.isControl = true) :
    LeavesRegs (resolveAddress ports ea input) := by
  refine LeavesRegs.bind ⟨fun cpu => addressCalculate_regs cpu.regs input hkind⟩ fun target => ?_
  split
  · exact leavesRegs_pure _
  · refine LeavesRegs.bind (Attempt.ends_caught (leavesRegs_readOperand ports _ _)) fun read => ?_
    cases read <;> exact leavesRegs_pure _

/-! ### The instructions -/

variable {decoded : ModuleDecode}

theorem leavesRegs_readModule
    (hkind : (eaDecode decoded.mode decoded.reg).kind.isControl = true) :
    LeavesRegs (readModule ports decoded) := by
  have hlong (base offset : BitVec 32) : LeavesRegs (readModuleLong ports base offset) :=
    leavesRegs_readOperand ports _ _
  refine (leavesRegs_nextWord ports).bind fun argumentCount => ?_
  refine LeavesRegs.bind (ends_gatherAddressInput ports SameRegs.refl SameRegs.trans
    (leavesRegs_nextWord ports) _ _) fun input => ?_
  refine (leavesRegs_resolveAddress ports input hkind).bind fun descriptor => ?_
  refine LeavesRegs.bind (Attempt.ends_require SameRegs.refl SameRegs.refl _) fun _ => ?_
  refine (hlong _ _).bind fun first => (hlong _ _).bind fun entry => (hlong _ _).bind fun dataArea =>
    (hlong _ _).bind fun _ => ?_
  refine LeavesRegs.bind ?_ fun _ => LeavesRegs.bind ?_ fun top =>
    (leavesRegs_readOperand ports _ _).bind fun entryWord => leavesRegs_pure _
  · unfold acceptModule
    split
    · exact leavesRegs_pure _
    · refine LeavesRegs.bind (Attempt.ends_modify fun cpu => SameRegs.refl _) fun _ => ?_
      exact Attempt.ends_fail SameRegs.refl
  · unfold moduleStack
    split
    · exact hlong _ _
    · exact leavesRegs_read _

theorem leavesRegs_copyArguments (bottom : BitVec 32) (left : ℕ) :
    ∀ i, LeavesRegs (copyArguments ports bottom left i) := by
  induction left with
  | zero => exact fun i => leavesRegs_pure ()
  | succ left ih =>
    exact fun i => (leavesRegs_read _).bind fun _ => (leavesRegs_readOperand ports _ _).bind fun _ =>
      (leavesRegs_writeMemory ports _ _ _).bind fun _ => ih (i + 1)

theorem leavesRegs_writeModuleFields (frame : BitVec 32) (fields : List (ℕ × ℕ × BitVec 32)) :
    LeavesRegs (writeModuleFields ports frame fields) := by
  induction fields with
  | nil => exact leavesRegs_pure ()
  | cons field fields ih => exact (leavesRegs_writeMemory ports _ _ _).bind fun _ => ih

/-- A CALL THAT GIVES UP, for whatever reason, has changed no register. -/
theorem executeCallm_error (hkind : (eaDecode decoded.mode decoded.reg).kind.isControl = true)
    {cpu cpu' : Cpu σ} (h : executeCallm ports decoded cpu = .error () cpu') :
    cpu'.regs = cpu.regs := by
  obtain hread | ⟨call, read, hread, henter⟩ := Attempt.bind_eq_error.mp h
  · exact (leavesRegs_readModule ports hkind).of_error hread
  · have hregs := (leavesRegs_readModule ports hkind).of_ok hread
    obtain hcopy | ⟨_, copied, hcopy, henter⟩ := Attempt.bind_eq_error.mp henter
    · exact ((leavesRegs_copyArguments ports _ _ _).of_error hcopy).trans hregs
    · have hcopied := (leavesRegs_copyArguments ports _ _ _).of_ok hcopy
      rw [Attempt.read_bind] at henter
      have hwritten := (leavesRegs_writeModuleFields ports call.frame _).error_of_last henter
      exact hwritten.trans (hcopied.trans hregs)

/-- A RETURN THAT GIVES UP has changed no register. -/
theorem executeRtm_error {cpu cpu' : Cpu σ} (h : executeRtm ports decoded cpu = .error () cpu') :
    cpu'.regs = cpu.regs := by
  have hlong (base offset : BitVec 32) : LeavesRegs (readModuleLong ports base offset) :=
    leavesRegs_readOperand ports _ _
  have hlast : Attempt.Ends (fun _ _ => True) SameRegs (executeRtm ports decoded) := by
    have hbind {α β : Type} {x : Exec σ α} {f : α → Exec σ β} (hx : LeavesRegs x)
        (hf : ∀ a, Attempt.Ends (fun _ _ => True) SameRegs (f a)) :
        Attempt.Ends (fun _ _ => True) SameRegs (x >>= f) :=
      Attempt.ends_bind (fun _ _ _ _ _ => trivial) SameRegs.trans hx hf
    refine hbind (leavesRegs_read _) fun frame => hbind (hlong _ _) fun pc => ?_
    refine hbind (hlong _ _) fun dataArea => hbind (hlong _ _) fun sp => ?_
    exact hbind (leavesRegs_readOperand ports _ _) fun ccr => Attempt.ends_modify fun _ => trivial
  have hrun := hlast.run cpu
  rw [h] at hrun
  exact hrun

end GivesUp

/-! ## Calls and returns over memory -/

section Memory

variable {σ : Type} {ports : Ports σ} {functionCode : BitVec 8} (view : MemoryPorts ports functionCode)
  {decoded : ModuleDecode} {call : ModuleCall} {cpu read called body returned : Cpu σ}

theorem loadAt_storeFields {frame : BitVec 32} {m : ByteMemory 32} {offset size : ℕ} {value : BitVec 32}
    (before after : List (ℕ × ℕ × BitVec 32)) (hsize : size ≤ 4) (hfits : ByteMemory.Fits value size)
    (hafter : ∀ field ∈ after, offset + size ≤ field.1 ∧ field.1 + field.2.1 ≤ 2 ^ 32)
    (hend : offset + size ≤ 2 ^ 32) :
    (storeFields frame m (before ++ (offset, size, value) :: after)).loadAt
      (frame + BitVec.ofNat 32 offset) size = value := by
  rw [storeFields_append, storeFields]
  have hstored : ((storeFields frame m before).storeAt (frame + BitVec.ofNat 32 offset) size value).loadAt
      (frame + BitVec.ofNat 32 offset) size = value :=
    ByteMemory.loadAt_storeAt hsize (by omega) hfits
  refine Eq.trans (ByteMemory.loadAt_congr fun i hi => ?_) hstored
  refine storeFields_of_lt (d := offset + i) ?_ fun field hfield => ?_
  · rw [BitVec.add_assoc, ← BitVec.ofNat_add]
    exact ByteMemory.toNat_add_ofNat_sub _ (by omega)
  · obtain ⟨hbelow, htop⟩ := hafter field hfield
    exact ⟨by omega, htop⟩

theorem copyArguments_ok (view : MemoryPorts ports functionCode) {bottom : BitVec 32} {left : ℕ} :
    ∀ {i : ℕ} {cpu copied : Cpu σ}, cpu.dataFunctionCode = functionCode →
      copyArguments ports bottom left i cpu = .ok () copied → ∃ memory, copied = { cpu with memory } := by
  induction left with
  | zero =>
    intro i cpu copied _ h
    cases h
    exact ⟨cpu.memory, rfl⟩
  | succ left ih =>
    intro i cpu copied hcode h
    unfold copyArguments at h
    rw [Attempt.read_bind] at h
    obtain ⟨value, cpu₁, hgot, h⟩ := Attempt.bind_eq_ok.mp h
    obtain ⟨memory₁, rfl, -, -⟩ := view.readOperand_ok hcode (.inl rfl) hgot
    obtain ⟨_, cpu₂, hput, h⟩ := Attempt.bind_eq_ok.mp h
    obtain ⟨memory₂, rfl, -⟩ := view.writeOperand_ok (by exact hcode) (.inl rfl) hput
    obtain ⟨memory, rfl⟩ := ih (by exact hcode) h
    exact ⟨memory, rfl⟩

theorem writeModuleFields_ok {frame : BitVec 32} {fields : List (ℕ × ℕ × BitVec 32)}
    (hsize : ∀ field ∈ fields, OperandSize field.2.1) :
    ∀ {cpu written : Cpu σ}, cpu.dataFunctionCode = functionCode →
      writeModuleFields ports frame fields cpu = .ok () written →
      ∃ memory, written = { cpu with memory } ∧
        view.memory memory = storeFields frame (view.memory cpu.memory) fields := by
  induction fields with
  | nil =>
    intro cpu written _ h
    cases h
    exact ⟨cpu.memory, rfl, rfl⟩
  | cons field fields ih =>
    obtain ⟨offset, size, value⟩ := field
    intro cpu written hcode h
    obtain ⟨_, cpu₁, hfirst, h⟩ := Attempt.bind_eq_ok.mp h
    obtain ⟨memory₁, rfl, hmemory₁⟩ :=
      view.writeOperand_ok hcode (hsize (offset, size, value) List.mem_cons_self) hfirst
    obtain ⟨memory, rfl, hmemory⟩ :=
      ih (fun field hfield => hsize field (List.mem_cons_of_mem _ hfield)) (by exact hcode) h
    exact ⟨memory, rfl, by rw [hmemory, hmemory₁]; rfl⟩

theorem fields_size (call : ModuleCall) (cpu : Cpu σ) :
    ∀ field ∈ call.fields cpu, OperandSize field.2.1 := by
  intro field hfield
  simp only [ModuleCall.fields, List.mem_cons, List.not_mem_nil, or_false] at hfield
  rcases hfield with rfl | rfl | rfl | rfl | rfl | rfl | rfl
  · exact .inr (.inl rfl)
  · exact .inr (.inl rfl)
  all_goals exact .inr (.inr rfl)

/-- What a frame holds of the registers that are to come back. -/
structure FrameHolds (m : ByteMemory 32) (frame : BitVec 32) (entry : ModuleEntry) (cpu : Cpu σ) : Prop where
  pc : m.loadAt (frame + 0x0C) 4 = cpu.regs.pc + 2 + 2 * BitVec.ofNat 32 cpu.extensionWords
  dataArea : m.loadAt (frame + 0x10) 4 = cpu.regs.moduleRegister entry
  sp : m.loadAt (frame + 0x14) 4 = cpu.regs.readA7
  ccr : m.loadAt (frame + 0x02) 2 = cpu.regs.readCcr.setWidth 32

theorem FrameHolds.congr {m m' : ByteMemory 32} {frame : BitVec 32} {entry : ModuleEntry}
    (h : FrameHolds m frame entry cpu)
    (hsame : ∀ i < 0x18, m' (frame + BitVec.ofNat 32 i) = m (frame + BitVec.ofNat 32 i)) :
    FrameHolds m' frame entry cpu := by
  have hload (offset size : ℕ) (hend : offset + size ≤ 0x18) :
      m'.loadAt (frame + BitVec.ofNat 32 offset) size = m.loadAt (frame + BitVec.ofNat 32 offset) size := by
    refine ByteMemory.loadAt_congr fun i hi => ?_
    rw [BitVec.add_assoc, ← BitVec.ofNat_add]
    exact hsame _ (by omega)
  exact ⟨(hload 0x0C 4 (by decide)).trans h.pc, (hload 0x10 4 (by decide)).trans h.dataArea,
    (hload 0x14 4 (by decide)).trans h.sp, (hload 0x02 2 (by decide)).trans h.ccr⟩

/-- THE CALL: a frame is stored where the stack pointer is left, and the module is entered. -/
theorem enterModule_ok (hcode : cpu.dataFunctionCode = functionCode)
    (h : enterModule ports call cpu = .ok () called) :
    called.regs = call.enter cpu.regs ∧ called.extensionWords = cpu.extensionWords ∧
      FrameHolds (view.memory called.memory) call.frame call.receiver cpu := by
  obtain ⟨_, copied, hcopy, h⟩ := Attempt.bind_eq_ok.mp h
  obtain ⟨memory₁, rfl⟩ := copyArguments_ok view hcode hcopy
  rw [Attempt.read_bind] at h
  obtain ⟨_, written, hwrite, h⟩ := Attempt.bind_eq_ok.mp h
  obtain ⟨memory, rfl, hmemory⟩ := writeModuleFields_ok view (fields_size call _) (by exact hcode) hwrite
  cases h
  refine ⟨rfl, rfl, ?_⟩
  change FrameHolds (view.memory memory) _ _ _
  rw [hmemory]
  have hccr := fits_word cpu.regs.readCcr
  exact
    { pc := loadAt_storeFields [_, _, _, _] [_, _] (le_refl 4) (fits_long _) (by simp) (by decide)
      dataArea := loadAt_storeFields [_, _, _, _, _] [_] (le_refl 4) (fits_long _) (by simp) (by decide)
      sp := loadAt_storeFields [_, _, _, _, _, _] [] (le_refl 4) (fits_long _) (by simp) (by decide)
      ccr := loadAt_storeFields [_] [_, _, _, _, _] (by decide) hccr (by simp) (by decide) }

/-- THE RETURN takes what the frame at the stack pointer holds. -/
theorem executeRtm_ok (hcode : body.dataFunctionCode = functionCode)
    (hframe : FrameHolds (view.memory body.memory) body.regs.readA7 decoded.rtmEntry cpu)
    (h : executeRtm ports decoded body = .ok () returned) :
    returned.regs = returnFrom decoded.rtmEntry
      (cpu.regs.pc + 2 + 2 * BitVec.ofNat 32 cpu.extensionWords)
      (cpu.regs.moduleRegister decoded.rtmEntry) cpu.regs.readA7 (cpu.regs.readCcr.setWidth 32)
      body.regs := by
  unfold executeRtm readModuleLong at h
  rw [Attempt.read_bind] at h
  obtain ⟨pc, cpu₁, hpc, h⟩ := Attempt.bind_eq_ok.mp h
  obtain ⟨memory₁, rfl, hmemory₁, rfl⟩ := view.readOperand_ok hcode (.inr (.inr rfl)) hpc
  obtain ⟨dataArea, cpu₂, hdata, h⟩ := Attempt.bind_eq_ok.mp h
  obtain ⟨memory₂, rfl, hmemory₂, rfl⟩ := view.readOperand_ok (by exact hcode) (.inr (.inr rfl)) hdata
  obtain ⟨sp, cpu₃, hsp, h⟩ := Attempt.bind_eq_ok.mp h
  obtain ⟨memory₃, rfl, hmemory₃, rfl⟩ := view.readOperand_ok (by exact hcode) (.inr (.inr rfl)) hsp
  obtain ⟨ccr, cpu₄, hccr, h⟩ := Attempt.bind_eq_ok.mp h
  obtain ⟨memory₄, rfl, -, rfl⟩ := view.readOperand_ok (by exact hcode) (.inr (.inl rfl)) hccr
  cases h
  dsimp only at hmemory₁ hmemory₂ hmemory₃
  change returnFrom _ _ _ _ _ body.regs = _
  dsimp only
  rw [hmemory₃, hmemory₂, hmemory₁, hframe.pc, hframe.dataArea, hframe.sp, hframe.ccr]

/-- A `CALLM` that runs: `read` is the processor once the descriptor is read. -/
structure CallmRuns (ports : Ports σ) (functionCode : BitVec 8) (decoded : ModuleDecode) (call : ModuleCall)
    (cpu read called : Cpu σ) : Prop where
  descriptor : readModule ports decoded cpu = .ok call read
  code : read.dataFunctionCode = functionCode
  run : executeCallm ports decoded cpu = .ok () called

/-- A module that is about to return: its frame is intact and on top of the stack, and the registers are as
they were when it was entered, but for its own, the condition codes and the program counter. -/
structure InModule (call : ModuleCall) (called body : Cpu σ) : Prop where
  code : body.dataFunctionCode = functionCode
  regs : SameBesides call.receiver called.regs body.regs
  sp : body.regs.readA7 = called.regs.readA7
  frame : ∀ i < 0x18, view.memory body.memory (called.regs.readA7 + BitVec.ofNat 32 i) =
    view.memory called.memory (called.regs.readA7 + BitVec.ofNat 32 i)

theorem InModule.refl (hcode : called.dataFunctionCode = functionCode) : InModule view call called called :=
  ⟨hcode, ⟨fun _ _ => rfl, fun _ _ => rfl, fun _ _ => rfl, rfl, rfl, rfl, rfl⟩, rfl, fun _ _ => rfl⟩

theorem readModule_validate (h : readModule ports decoded cpu = .ok call read) :
    call.control.validate = .ok := by
  unfold readModule at h
  obtain ⟨argumentCount, cpu₁, -, h⟩ := Attempt.bind_eq_ok.mp h
  obtain ⟨input, cpu₂, -, h⟩ := Attempt.bind_eq_ok.mp h
  obtain ⟨descriptor, cpu₃, -, h⟩ := Attempt.bind_eq_ok.mp h
  obtain ⟨_, cpu₄, -, h⟩ := Attempt.bind_eq_ok.mp h
  obtain ⟨first, cpu₅, -, h⟩ := Attempt.bind_eq_ok.mp h
  obtain ⟨entry, cpu₆, -, h⟩ := Attempt.bind_eq_ok.mp h
  obtain ⟨dataArea, cpu₇, -, h⟩ := Attempt.bind_eq_ok.mp h
  obtain ⟨_, cpu₈, -, h⟩ := Attempt.bind_eq_ok.mp h
  obtain ⟨_, cpu₉, haccept, h⟩ := Attempt.bind_eq_ok.mp h
  obtain ⟨top, cpu₁₀, -, h⟩ := Attempt.bind_eq_ok.mp h
  obtain ⟨entryWord, cpu₁₁, -, h⟩ := Attempt.bind_eq_ok.mp h
  cases h
  unfold acceptModule at haccept
  split at haccept
  · assumption
  · rw [Attempt.modify_bind] at haccept
    exact nomatch haccept

end Memory

/-! ## A call that returns -/

section Witness

/-- A processor whose `A0` has a descriptor: an argument count of one, an entry word that names `D3`, and a
data area. -/
def callmCpu : Cpu (ByteMemory 32) :=
  let plain := flatCpu .m68020 0x2000 0x2000 0x1000
  { plain with
    regs := { plain.regs with a := plain.regs.a.set 0 0x1000, d := plain.regs.d.set 3 0x33 }
    memory := fun x =>
      if x = 0x0001 then 0x01
      else if x = 0x1006 then 0x10
      else if x = 0x1007 then 0x20
      else if x = 0x100B then 0xDA
      else if x = 0x1020 then 0x30
      else 0 }

theorem callm_runs : ∃ call read called returned,
    CallmRuns (flatPorts fun _ => false) 5 (moduleDecode 0x06D0) call callmCpu read called ∧
      executeRtm (flatPorts fun _ => false) (moduleDecode 0x06C3) called = .ok () returned ∧
      called.dataFunctionCode = 5 ∧ call.receiver = (moduleDecode 0x06C3).rtmEntry ∧
      call.argumentCount = 1 ∧ returned.regs.readA7 = callmCpu.regs.readA7 := by
  have hread : Attempt.runsTo (do
      let call ← readModule (flatPorts fun _ => false) (moduleDecode 0x06D0)
      let code ← Attempt.read Cpu.dataFunctionCode
      Attempt.require
        (code = 5 ∧ call.receiver = (moduleDecode 0x06C3).rtmEntry ∧ call.argumentCount = 1))
      callmCpu (fun _ => True) = true := by decide +kernel
  have hrun : Attempt.runsTo (do
      executeCallm (flatPorts fun _ => false) (moduleDecode 0x06D0)
      let code ← Attempt.read Cpu.dataFunctionCode
      Attempt.require (code = 5)
      executeRtm (flatPorts fun _ => false) (moduleDecode 0x06C3))
      callmCpu (fun cpu => cpu.regs.readA7 = callmCpu.regs.readA7) = true := by decide +kernel
  obtain ⟨_, s₁, h₁, -⟩ := Attempt.exists_ok_of_runsTo hread
  obtain ⟨call, read, hdescriptor, h₁⟩ := Attempt.bind_eq_ok.mp h₁
  rw [Attempt.read_bind] at h₁
  obtain ⟨⟨hcode, hreceiver, hcount⟩, -⟩ := Attempt.require_eq_ok.mp h₁
  obtain ⟨_, returned, h₂, hsp⟩ := Attempt.exists_ok_of_runsTo hrun
  obtain ⟨_, called, hcall, h₂⟩ := Attempt.bind_eq_ok.mp h₂
  rw [Attempt.read_bind] at h₂
  obtain ⟨_, called', hrequire, hrtm⟩ := Attempt.bind_eq_ok.mp h₂
  obtain ⟨hcode', rfl⟩ := Attempt.require_eq_ok.mp hrequire
  exact ⟨call, read, called', returned, ⟨hdescriptor, hcode, hcall⟩, hrtm, hcode', hreceiver, hcount,
    hsp⟩

end Witness

end Apollo.M68030
