import Apollo.M68030.ExceptionEntry
import Apollo.M68030.OperandMemory
import Apollo.M68030.ReturnFrame

/-!
# An exception and the return from it

An exception entry stacks one frame, or two for an interrupt that comes in the master state. A
handler that leaves the stack as it found it returns through them, and the processor is where
it was: with two exceptions. A 68020's long bus fault frame is longer to the entry than to the
return. And where the interrupt stack overlaps the master stack, the second frame of an
interrupt can be written over what the first one says.
-/

namespace Apollo.M68030

open Apollo.Lib

/-- The ways into an exception: `ap_m68030_take_exception`, `ap_m68030_take_bus_fault`,
`ap_m68030_take_address_error` and `ap_m68030_take_interrupt`. -/
inductive Entry
  | exception (vector : Nat) (stackedPc instructionAddress : BitVec 32)
  | busFault (vector : Nat) (instructionAddress : BitVec 32)
  | addressError
  | interrupt
deriving DecidableEq

namespace Entry

variable {σ : Type} (ports : Ports σ)

/-- An entry runs. -/
def run : Entry → Exec σ ExceptionResult
  | exception vector stackedPc instructionAddress =>
    takeException ports vector stackedPc instructionAddress
  | busFault vector instructionAddress => takeBusFault ports vector instructionAddress
  | addressError => takeAddressError ports
  | interrupt => takeInterrupt ports

/-- The vector that an interrupt takes. -/
def interruptVector (cpu : Cpu σ) : Nat :=
  (acknowledgeInterrupt ports cpu.interruptLevel cpu).1

/-- The format of the frame that an entry stacks, the first one if it stacks two. -/
def format (cpu : Cpu σ) : Entry → FrameFormat
  | exception vector _ _ => frameForVector vector
  | busFault _ instructionAddress =>
    faultFormat cpu.frameVariant (faultSsw cpu) cpu.fault.address instructionAddress
  | addressError =>
    faultFormat cpu.frameVariant { stageCRerun := true, stageBRerun := true } cpu.regs.pc
      cpu.regs.pc
  | interrupt => frameForVector (interruptVector ports cpu)

/-- The program counter that an entry stacks. -/
def stackedPc (cpu : Cpu σ) : Entry → BitVec 32
  | exception _ stackedPc _ => stackedPc
  | busFault vector instructionAddress =>
    if (busFault vector instructionAddress).format ports cpu = .longBusFault then
      instructionAddress
    else cpu.regs.pc
  | addressError => cpu.regs.pc
  | interrupt => cpu.regs.pc

/-- Where the frame of an entry is, the first one if it stacks two. -/
def frame (cpu : Cpu σ) (entry : Entry) : BitVec 32 :=
  cpu.regs.stackPointer (handlerStack cpu.regs) -
    BitVec.ofNat 32 (frameWords (entry.format ports cpu) * 2)

/-- Whether an entry stacks a second, throwaway, frame. -/
def twoFrames (cpu : Cpu σ) : Entry → Bool
  | interrupt => cpu.regs.master
  | _ => false

/-- The bytes of the frames that an entry stacks. -/
def area (cpu : Cpu σ) (entry : Entry) (x : BitVec 32) : Prop :=
  (x - entry.frame ports cpu).toNat < frameWords (entry.format ports cpu) * 2 ∨
    (entry.twoFrames cpu = true ∧ (x - (cpu.regs.isp - 8)).toNat < 8)

end Entry

/-- A handler leaves the frames and the stacks as it found them. -/
structure LeavesStack {σ : Type} {ports : Ports σ} (view : MemoryPorts ports fcSupervisorData)
    (area : BitVec 32 → Prop) (found left : Cpu σ) : Prop where
  pointers : ∀ s, left.regs.stackPointer s = found.regs.stackPointer s
  active : left.regs.activeStack = found.regs.activeStack
  memory : ∀ x, area x → view.memory left.memory x = view.memory found.memory x
  readable : StaysReadable ports fcSupervisorData area left.memory
  variant : left.frameVariant = found.frameVariant
  pending : left.pendingVector = 0

/-- RTE succeeds, and the processor has the status register and the stack pointers that it had
at an earlier time, and is at an address. -/
def Restores {σ : Type} (ports : Ports σ) (before : Cpu σ) (pc : BitVec 32) (cpu : Cpu σ) : Prop :=
  ∃ after, executeRte ports cpu = .ok () after ∧ after.pendingVector = 0 ∧
    after.regs.sr = before.regs.sr ∧ after.regs.pc = pc ∧ after.regs.usp = before.regs.usp ∧
    after.regs.isp = before.regs.isp ∧ after.regs.msp = before.regs.msp

/-- The second frame of an interrupt, written on the interrupt stack, leaves the header of the
first, on the master stack. -/
def MasterFrameSurvives (regs : Regs) (vector : Nat) : Prop :=
  let format := frameForVector vector
  let frame := regs.msp - BitVec.ofNat 32 (frameWords format * 2)
  let first := storeFields frame (fun _ => 0)
    (exceptionFields format vector regs.pc regs.pc regs.sr.word)
  HasHeader
    (storeFields (regs.isp - 8) first
      (frameHeader .throwaway vector regs.pc (regs.sr.word ||| (1#16 <<< srSBit))))
    frame format regs.sr regs.pc

/-- What an entry has to be for the return from it to undo it. -/
def Entry.Undone {σ : Type} (ports : Ports σ) (cpu : Cpu σ) (entry : Entry) : Prop :=
  ¬ (cpu.frameVariant = .m68020 ∧ entry.format ports cpu = .longBusFault) ∧
    (entry.twoFrames cpu = true → MasterFrameSurvives cpu.regs (Entry.interruptVector ports cpu))

/-! ## Entries with one frame -/

section Return

variable {σ : Type} {ports : Ports σ} (view : MemoryPorts ports fcSupervisorData)
  {cpu found left : Cpu σ} {entry : Entry} {out : ExceptionResult} {format : FrameFormat}
  {frame pc : BitVec 32} {area : BitVec 32 → Prop}

/-- A frame that an entry has stacked: where the stack pointer is, and what the header says. -/
structure Stacked (stack : Stack) (format : FrameFormat) (frame : BitVec 32) (sr : StatusRegister)
    (pc : BitVec 32) (found : Cpu σ) : Prop where
  active : found.regs.activeStack = stack
  pointer : found.regs.stackPointer stack = frame
  header : HasHeader (view.memory found.memory) frame format sr pc

theorem stackPointer_handlerRegs (frame : BitVec 32) (regs : Regs) (s : Stack) :
    (handlerRegs regs frame).stackPointer s =
      if s = handlerStack regs then frame else regs.stackPointer s := by
  rw [handlerRegs, Regs.writeA7, Regs.stackPointer_setStackPointer, activeStack_writeSr_handlerSr,
    Regs.stackPointer_writeSr]

theorem activeStack_handlerRegs (frame : BitVec 32) (regs : Regs) :
    (handlerRegs regs frame).activeStack = handlerStack regs := by
  rw [handlerRegs, Regs.activeStack_congr (Regs.writeA7_sr ..), activeStack_writeSr_handlerSr]

/-- A format that an entry other than an interrupt's second frame stacks is one that the part
returns through. -/
theorem frameFormatDefined_of (variant : FrameVariant)
    (h : (variant = .m68040 ↔ format = .accessError) ∧
        (format = .shortBusFault ∨ format = .longBusFault ∨ format = .accessError) ∨
      format = .short ∨ format = .sixWord) :
    ∀ formatWord, frameFormatOf formatWord = some format →
      frameFormatDefined formatWord variant = true := by
  intro formatWord hof
  unfold frameFormatDefined
  rw [hof]
  cases format <;> cases variant <;> simp at h ⊢

theorem MemoryPorts.return_stacked {sr : StatusRegister} {stack : Stack}
    (h : Stacked view stack format frame sr pc left) (hthrowaway : format ≠ .throwaway)
    (hmid : format ≠ .coprocessorMid)
    (hdefined : ∀ formatWord, frameFormatOf formatWord = some format →
      frameFormatDefined formatWord left.frameVariant = true)
    (hreadable : StaysReadable ports fcSupervisorData area left.memory)
    (harea : ∀ i < frameWords format * 2, area (frame + BitVec.ofNat 32 i)) (frames : Nat) :
    ∃ after, returnFrames ports (frames + 1) left = .ok () after ∧
      after.pendingVector = left.pendingVector ∧ after.regs.sr = sr ∧ after.regs.pc = pc ∧
      ∀ s, after.regs.stackPointer s =
        if s = stack then frame + BitVec.ofNat 32 (returnBytes format left.frameVariant)
        else left.regs.stackPointer s := by
  have ha7 : left.regs.readA7 = frame := by rw [Regs.readA7, h.active, h.pointer]
  have hbytes : returnBytes format left.frameVariant ≤ frameWords format * 2 := by
    unfold returnBytes
    cases format <;> cases left.frameVariant <;> decide
  obtain ⟨memory, hreturn⟩ := view.returnFrames_frame frames (ha7 ▸ h.header)
    hthrowaway hmid hdefined hreadable fun i hi => by
      rw [ha7]
      exact harea i (by omega)
  refine ⟨_, hreturn, rfl, rfl, rfl, fun s => ?_⟩
  have hpointer : ∀ s, (jumpTo pc { left with
      memory, regs := returnRegs left.regs (returnBytes format left.frameVariant) sr }).regs.stackPointer s =
        (left.regs.writeA7 (left.regs.readA7 +
          BitVec.ofNat 32 (returnBytes format left.frameVariant))).stackPointer s := by
    intro s
    cases s <;> rfl
  rw [hpointer, Regs.writeA7, Regs.stackPointer_setStackPointer, h.active, ha7]

/-- What an entry with one frame leaves. -/
structure EnteredOnce (cpu found : Cpu σ) (format : FrameFormat) (frame : BitVec 32)
    (sr : StatusRegister) (pc : BitVec 32) : Prop where
  stacked : Stacked view (handlerStack cpu.regs) format frame sr pc found
  others : ∀ s, s ≠ handlerStack cpu.regs →
    found.regs.stackPointer s = cpu.regs.stackPointer s
  variant : found.frameVariant = cpu.frameVariant

theorem takeExceptionWith_format {vector : Nat} {stackedPc instructionAddress : BitVec 32}
    {savedSr : BitVec 16}
    (h : takeExceptionWith ports vector stackedPc instructionAddress savedSr cpu =
      .ok out found) :
    frameForVector vector = .short ∨ frameForVector vector = .sixWord ∨
      frameForVector vector = .coprocessorMid := by
  obtain ⟨u, cpu₁, -, hthen⟩ := Attempt.bind_eq_ok.mp h
  obtain ⟨u', cpu₂, hrequire, -⟩ := Attempt.bind_eq_ok.mp hthen
  exact (Attempt.require_eq_ok.mp hrequire).1

/-- AN EXCEPTION STACKS ITS FRAME. -/
theorem MemoryPorts.takeExceptionWith_entered {vector : Nat}
    {stackedPc instructionAddress : BitVec 32} {sr : StatusRegister}
    (h : takeExceptionWith ports vector stackedPc instructionAddress sr.word cpu = .ok out found) :
    EnteredOnce view cpu found (frameForVector vector)
      (cpu.regs.stackPointer (handlerStack cpu.regs) -
        BitVec.ofNat 32 (frameWords (frameForVector vector) * 2)) sr stackedPc := by
  obtain ⟨memory, noAllocate, handler, rfl, hmemory⟩ := view.takeExceptionWith_ok h
  have hactive := activeStack_handlerRegs (cpu.regs.stackPointer (handlerStack cpu.regs) -
    BitVec.ofNat 32 (frameWords (frameForVector vector) * 2)) cpu.regs
  have hpointer := stackPointer_handlerRegs (cpu.regs.stackPointer (handlerStack cpu.regs) -
    BitVec.ofNat 32 (frameWords (frameForVector vector) * 2)) cpu.regs
  refine ⟨⟨hactive, ?_, ?_⟩, fun s hs => ?_, rfl⟩
  · exact (hpointer _).trans (if_pos rfl)
  · have hheader := hasHeader_storeFields (cpu.regs.stackPointer (handlerStack cpu.regs) -
        BitVec.ofNat 32 (frameWords (frameForVector vector) * 2)) (view.memory cpu.memory)
      (exceptionTail (frameForVector vector) instructionAddress)
      (frameForVector vector) vector stackedPc sr.word fun field hfield =>
        ⟨(mem_exceptionTail hfield).1, (mem_exceptionTail hfield).2.1⟩
    rw [← exceptionFields_eq, StatusRegister.ofWord_word] at hheader
    exact hmemory ▸ hheader
  · exact (hpointer s).trans (if_neg hs)

/-- A BUS OR ADDRESS ERROR STACKS ITS FRAME. -/
theorem MemoryPorts.takeBusFaultWith_entered {vector : Nat} {instructionAddress : BitVec 32}
    {ssw : SpecialStatus} {faultAddress dataOutput : BitVec 32}
    (hformat : format = faultFormat cpu.frameVariant ssw faultAddress instructionAddress)
    (h : takeBusFaultWith ports vector instructionAddress ssw faultAddress dataOutput cpu =
      .ok out found) :
    EnteredOnce view cpu found format
      (cpu.regs.stackPointer (handlerStack cpu.regs) - BitVec.ofNat 32 (frameWords format * 2))
      cpu.regs.sr (if format = .longBusFault then instructionAddress else cpu.regs.pc) := by
  obtain ⟨memory, noAllocate, handler, rfl, hmemory⟩ := view.takeBusFaultWith_ok hformat h
  have hactive := activeStack_handlerRegs (cpu.regs.stackPointer (handlerStack cpu.regs) -
    BitVec.ofNat 32 (frameWords format * 2)) cpu.regs
  have hpointer := stackPointer_handlerRegs (cpu.regs.stackPointer (handlerStack cpu.regs) -
    BitVec.ofNat 32 (frameWords format * 2)) cpu.regs
  refine ⟨⟨hactive, (hpointer _).trans (if_pos rfl), ?_⟩,
    fun s hs => (hpointer s).trans (if_neg hs), rfl⟩
  obtain ⟨before, after, hsplit, -, hafter⟩ := busFaultFields_eq cpu format
    vector cpu.regs.sr.word
    (if format = .longBusFault then instructionAddress else cpu.regs.pc) ssw
    faultAddress dataOutput
  have hheader := hasHeader_storeFields (cpu.regs.stackPointer (handlerStack cpu.regs) -
      BitVec.ofNat 32 (frameWords format * 2))
    (storeFields (cpu.regs.stackPointer (handlerStack cpu.regs) -
      BitVec.ofNat 32 (frameWords format * 2)) (view.memory cpu.memory) before)
    after format vector
    (if format = .longBusFault then instructionAddress else cpu.regs.pc) cpu.regs.sr.word
    fun field hfield => ⟨(hafter field hfield).1, (hafter field hfield).2.1⟩
  rw [← storeFields_append, ← hsplit, StatusRegister.ofWord_word] at hheader
  exact hmemory ▸ hheader

/-- A return from an entry with one frame restores the processor unless the frame is longer to
the entry than to the return. -/
theorem MemoryPorts.restores_once {sr : StatusRegister}
    (h : EnteredOnce view cpu found format frame sr pc) (hsr : sr = cpu.regs.sr)
    (hframe : frame =
      cpu.regs.stackPointer (handlerStack cpu.regs) - BitVec.ofNat 32 (frameWords format * 2))
    (hformat : (cpu.frameVariant = .m68040 ↔ format = .accessError) ∧
        (format = .shortBusFault ∨ format = .longBusFault ∨ format = .accessError) ∨
      format = .short ∨ format = .sixWord)
    (harea : ∀ x, (x - frame).toNat < frameWords format * 2 → area x)
    (hleft : LeavesStack view area found left) :
    Restores ports cpu pc left ↔ ¬ (cpu.frameVariant = .m68020 ∧ format = .longBusFault) := by
  have hwords : frameWords format * 2 ≤ 92 ∧ 8 ≤ frameWords format * 2 := by
    cases format <;> decide
  have hbytes : ∀ i < frameWords format * 2, area (frame + BitVec.ofNat 32 i) := by
    intro i hi
    apply harea
    rw [ByteMemory.toNat_add_ofNat_sub _ (by omega)]
    exact hi
  have hvariant : left.frameVariant = cpu.frameVariant := hleft.variant.trans h.variant
  have hstacked : Stacked view (handlerStack cpu.regs) format frame sr pc left :=
    ⟨hleft.active.trans h.stacked.active, (hleft.pointers _).trans h.stacked.pointer,
      h.stacked.header.congr fun i hi => hleft.memory _ (hbytes i (by omega))⟩
  obtain ⟨after, hreturn, hpending, hafterSr, hafterPc, hafterPointers⟩ :=
    view.return_stacked hstacked (by rintro rfl; simp at hformat) (by rintro rfl; simp at hformat)
      (frameFormatDefined_of left.frameVariant (hvariant ▸ hformat)) hleft.readable hbytes 7
  constructor
  · rintro ⟨after', hrte, -, -, -, husp, hisp, hmsp⟩ ⟨hpart, hlong⟩
    obtain rfl : after = after' := by
      have := hreturn.symm.trans hrte
      cases this
      rfl
    -- four bytes of the frame are left on the stack
    have hpointer : after.regs.stackPointer (handlerStack cpu.regs) =
        cpu.regs.stackPointer (handlerStack cpu.regs) := by
      cases handlerStack cpu.regs <;> assumption
    rw [hafterPointers, if_pos rfl, hframe, hvariant, hpart, hlong] at hpointer
    generalize cpu.regs.stackPointer (handlerStack cpu.regs) = top at hpointer
    have hlengths := hpointer.trans
      (BitVec.sub_add_cancel top (BitVec.ofNat 32 (frameWords .longBusFault * 2))).symm
    exact absurd ((BitVec.add_right_inj _).mp hlengths) (by decide)
  · intro hgood
    have hlength : returnBytes format left.frameVariant = frameWords format * 2 := by
      rw [hvariant]
      unfold returnBytes
      cases format <;> cases hcase : cpu.frameVariant <;>
        first
        | simp [hcase] at hformat hgood; done
        | decide
    refine ⟨after, hreturn, hpending.trans hleft.pending, hafterSr.trans hsr, hafterPc, ?_⟩
    refine Regs.stackPointers_eq fun s => ?_
    rw [hafterPointers]
    split
    · rename_i hs
      rw [hlength, hs, hframe, BitVec.sub_add_cancel]
    · rename_i hs
      exact (hleft.pointers s).trans (h.others s hs)

/-! ## Interrupts -/

/-- What an interrupt with two frames leaves. -/
structure EnteredTwice (cpu found : Cpu σ) (vector : Nat) : Prop where
  active : found.regs.activeStack = .isp
  usp : found.regs.usp = cpu.regs.usp
  isp : found.regs.isp = cpu.regs.isp - 8
  msp : found.regs.msp =
    cpu.regs.msp - BitVec.ofNat 32 (frameWords (frameForVector vector) * 2)
  variant : found.frameVariant = cpu.frameVariant
  memory : ∃ m, view.memory found.memory =
    storeFields (cpu.regs.isp - 8)
      (storeFields (cpu.regs.msp - BitVec.ofNat 32 (frameWords (frameForVector vector) * 2)) m
        (exceptionFields (frameForVector vector) vector cpu.regs.pc cpu.regs.pc cpu.regs.sr.word))
      (frameHeader .throwaway vector cpu.regs.pc (cpu.regs.sr.word ||| (1#16 <<< srSBit)))

theorem supervisor_ofWord (regs : Regs) (word : BitVec 16) :
    Regs.supervisor { regs with sr := .ofWord word } = word.getLsbD 13 := by
  have hdefined : (0xF71F#16).getLsbD 13 = true := by decide
  change (word &&& 0xF71F#16).getLsbD 13 = _
  rw [BitVec.getLsbD_and, hdefined, Bool.and_true]

theorem master_ofWord (regs : Regs) (word : BitVec 16) :
    Regs.master { regs with sr := .ofWord word } = word.getLsbD 12 := by
  have hdefined : (0xF71F#16).getLsbD 12 = true := by decide
  change (word &&& 0xF71F#16).getLsbD 12 = _
  rw [BitVec.getLsbD_and, hdefined, Bool.and_true]

theorem master_raisedSr (regs : Regs) (level : Nat) :
    (regs.writeSr (raisedSr regs.sr level)).master = regs.master := by
  have hmask : (srInterruptMask <<< srInterruptShift).getLsbD 12 = false := by decide
  have hlevel : ((BitVec.ofNat 16 level &&& srInterruptMask) <<< srInterruptShift).getLsbD 12 =
      false := by
    have hfour : srInterruptMask.getLsbD (12 - srInterruptShift) = false := by decide
    rw [BitVec.getLsbD_shiftLeft, BitVec.getLsbD_and, hfour, Bool.and_false, Bool.and_false]
  rw [Regs.writeSr, master_ofWord, raisedSr, BitVec.getLsbD_or, hlevel, Bool.or_false,
    BitVec.getLsbD_and, BitVec.getLsbD_not, hmask]
  simp [Regs.master, srMBit]

theorem MemoryPorts.writeThrowaway_ok {vector : Nat} {resume : BitVec 32} {savedSr : BitVec 16}
    (hactive : cpu.regs.activeStack = .msp)
    (h : writeThrowaway ports vector resume savedSr cpu = .ok frame found) :
    found.regs.activeStack = .isp ∧ found.regs.usp = cpu.regs.usp ∧
      found.regs.isp = cpu.regs.isp - 8 ∧ found.regs.msp = cpu.regs.msp ∧
      found.frameVariant = cpu.frameVariant ∧
      view.memory found.memory = storeFields (cpu.regs.isp - 8) (view.memory cpu.memory)
        (frameHeader .throwaway vector resume (savedSr ||| (1#16 <<< srSBit))) := by
  have hsupervisor : cpu.regs.supervisor = true := by
    by_contra hnot
    rw [Regs.activeStack] at hactive
    simp [hnot] at hactive
  have hs : (1#16 <<< srMBit).getLsbD 13 = false := by decide
  have hm : (1#16 <<< srMBit).getLsbD 12 = true := by decide
  have hnext : ∀ regs : Regs, regs.sr = .ofWord (cpu.regs.sr.word &&& ~~~(1#16 <<< srMBit)) →
      regs.activeStack = .isp := by
    intro regs hsr
    have hsup := supervisor_ofWord regs (cpu.regs.sr.word &&& ~~~(1#16 <<< srMBit))
    have hmas := master_ofWord regs (cpu.regs.sr.word &&& ~~~(1#16 <<< srMBit))
    rw [← hsr, BitVec.getLsbD_and, BitVec.getLsbD_not] at hsup hmas
    rw [hs] at hsup
    rw [hm] at hmas
    rw [Regs.activeStack, hsup, hmas]
    have hbit : cpu.regs.sr.word.getLsbD 13 = true := hsupervisor
    simp [hbit]
  unfold writeThrowaway at h
  rw [Attempt.modify_bind, Attempt.read_bind] at h
  have ha7 : (cpu.mapRegs fun regs =>
      regs.writeSr (regs.sr.word &&& ~~~(1#16 <<< srMBit))).regs.readA7 = cpu.regs.isp := by
    rw [Regs.readA7, hnext _ rfl]
    rfl
  rw [ha7] at h
  obtain ⟨u, cpu₁, hfields, hend⟩ := Attempt.bind_eq_ok.mp h
  obtain ⟨memory, noAllocate, rfl, hmemory⟩ :=
    view.writeFields_ok (fun field hfield => size_frameHeader hfield) hfields
  rw [Attempt.modify_bind] at hend
  cases hend
  have hwrite : ∀ regs : Regs, regs.activeStack = .isp → ∀ value,
      regs.writeA7 value = { regs with isp := value } := by
    intro regs hregs value
    rw [Regs.writeA7, hregs]
    rfl
  refine ⟨hnext _ (Regs.writeA7_sr ..), ?_⟩
  rw [Cpu.mapRegs, hwrite _ (hnext _ rfl)]
  exact ⟨rfl, rfl, rfl, rfl, hmemory⟩

theorem EnteredOnce.of_regs {cpu' : Cpu σ} {sr : StatusRegister}
    (h : EnteredOnce view cpu' found format frame sr pc)
    (hstack : handlerStack cpu'.regs = handlerStack cpu.regs)
    (hpointers : ∀ s, cpu'.regs.stackPointer s = cpu.regs.stackPointer s)
    (hvariant : cpu'.frameVariant = cpu.frameVariant) :
    EnteredOnce view cpu found format frame sr pc :=
  ⟨hstack ▸ h.stacked, fun s hs => (h.others s (hstack ▸ hs)).trans (hpointers s),
    h.variant.trans hvariant⟩

/-- What an interrupt that is taken does: an exception, from the registers with the mask
raised, and in the master state a throwaway frame. -/
theorem takeInterrupt_ok (h : takeInterrupt ports cpu = .ok out found) :
    ∃ cpu₂ out₁ cpu₃,
      cpu₂.regs = cpu.regs.writeSr (raisedSr cpu.regs.sr cpu.interruptLevel) ∧
      cpu₂.frameVariant = cpu.frameVariant ∧
      takeExceptionWith ports (Entry.interruptVector ports cpu) cpu.regs.pc cpu.regs.pc
        cpu.regs.sr.word cpu₂ = .ok out₁ cpu₃ ∧
      if cpu.regs.master then
        ∃ frame, writeThrowaway ports (Entry.interruptVector ports cpu) cpu.regs.pc
          cpu.regs.sr.word cpu₃ = .ok frame found
      else found = cpu₃ := by
  unfold takeInterrupt at h
  rw [Attempt.read_bind, Attempt.modify_bind] at h
  obtain ⟨u, cpu₁, hrequire, hthen⟩ := Attempt.bind_eq_ok.mp h
  obtain ⟨-, rfl⟩ := Attempt.require_eq_ok.mp hrequire
  rw [Attempt.modify_bind] at hthen
  obtain ⟨vector, cpu₂, hacknowledge, hrest⟩ := Attempt.bind_eq_ok.mp hthen
  -- the acknowledge cycle sees the machine, and no more of the core
  have hacknowledged : vector = Entry.interruptVector ports cpu ∧
      cpu₂.regs = cpu.regs.writeSr (raisedSr cpu.regs.sr cpu.interruptLevel) ∧
      cpu₂.frameVariant = cpu.frameVariant := by
    cases hacknowledge
    unfold Entry.interruptVector acknowledgeInterrupt
    rcases hports : ports.acknowledge with _ | acknowledge
    · exact ⟨rfl, rfl, rfl⟩
    · exact ⟨rfl, rfl, rfl⟩
  clear hacknowledge hthen hrequire h
  obtain ⟨rfl, hregs, hvariant⟩ := hacknowledged
  rw [Attempt.read_bind] at hrest
  obtain ⟨out₁, cpu₃, hexception, hend⟩ := Attempt.bind_eq_ok.mp hrest
  have hpc : cpu₂.regs.pc = cpu.regs.pc := by rw [hregs, Regs.writeSr_pc]
  dsimp only [id] at hend hexception
  rw [hpc] at hend hexception
  have hsecond : ∀ master : Bool,
      (if !master then pure out₁
        else do
          let frame ← writeThrowaway ports (Entry.interruptVector ports cpu) cpu.regs.pc
            cpu.regs.sr.word
          pure { out₁ with frameAddress := frame } : Exec σ ExceptionResult) cpu₃ = .ok out found →
        if master then
          ∃ frame, writeThrowaway ports (Entry.interruptVector ports cpu) cpu.regs.pc
            cpu.regs.sr.word cpu₃ = .ok frame found
        else found = cpu₃ := by
    rintro (_ | _) hmaster
    · cases hmaster
      exact rfl
    · obtain ⟨frame, cpu₄, hthrowaway, hpure⟩ := Attempt.bind_eq_ok.mp hmaster
      cases hpure
      exact ⟨frame, hthrowaway⟩
  exact ⟨cpu₂, out₁, cpu₃, hregs, hvariant, hexception, hsecond _ hend⟩

/-- AN INTERRUPT STACKS ITS FRAMES: one, or, in the master state, two. -/
theorem MemoryPorts.takeInterrupt_entered (h : takeInterrupt ports cpu = .ok out found) :
    (frameForVector (Entry.interruptVector ports cpu) = .short ∨
        frameForVector (Entry.interruptVector ports cpu) = .sixWord ∨
        frameForVector (Entry.interruptVector ports cpu) = .coprocessorMid) ∧
      if cpu.regs.master then EnteredTwice view cpu found (Entry.interruptVector ports cpu)
      else
        EnteredOnce view cpu found (frameForVector (Entry.interruptVector ports cpu))
          (cpu.regs.stackPointer (handlerStack cpu.regs) -
            BitVec.ofNat 32 (frameWords (frameForVector (Entry.interruptVector ports cpu)) * 2))
          cpu.regs.sr cpu.regs.pc := by
  obtain ⟨cpu₂, out₁, cpu₃, hregs, hvariant, hexception, hend⟩ := takeInterrupt_ok h
  generalize Entry.interruptVector ports cpu = vector at hexception hend ⊢
  have hmaster : cpu₂.regs.master = cpu.regs.master := by rw [hregs, master_raisedSr]
  have hpointers : ∀ s, cpu₂.regs.stackPointer s = cpu.regs.stackPointer s := fun s => by
    rw [hregs, Regs.stackPointer_writeSr]
  have hstack : handlerStack cpu₂.regs = handlerStack cpu.regs := by
    rw [handlerStack, handlerStack, hmaster]
  have hentered : EnteredOnce view cpu₂ cpu₃ _ _ cpu.regs.sr _ :=
    view.takeExceptionWith_entered hexception
  rw [hpointers, hstack] at hentered
  replace hentered := hentered.of_regs view hstack hpointers hvariant
  refine ⟨takeExceptionWith_format hexception, ?_⟩
  cases hm : cpu.regs.master
  · rw [hm, if_neg (by decide)] at hend
    rw [if_neg (by decide), hend]
    exact hentered
  · rw [hm, if_pos rfl] at hend
    rw [if_pos rfl]
    obtain ⟨frame, hthrowaway⟩ := hend
    have hmsp : handlerStack cpu.regs = .msp := by rw [handlerStack, hm, if_pos rfl]
    obtain ⟨memory₃, noAllocate₃, handler, hcpu₃, hstored⟩ := view.takeExceptionWith_ok hexception
    have hmemory₃ : cpu₃.memory = memory₃ := congrArg Cpu.memory hcpu₃
    rw [← hmemory₃, hpointers, hstack, hmsp] at hstored
    have hactive := hentered.stacked.active
    rw [hmsp] at hactive
    have hmspValue := hentered.stacked.pointer
    rw [hmsp] at hmspValue
    have hispValue := hentered.others .isp (by rw [hmsp]; decide)
    have huspValue := hentered.others .usp (by rw [hmsp]; decide)
    obtain ⟨hfound, husp, hisp, hmspFound, hvariantFound, hmemory⟩ :=
      view.writeThrowaway_ok hactive hthrowaway
    have hisp₃ : cpu₃.regs.isp = cpu.regs.isp := hispValue
    rw [hisp₃] at hisp hmemory
    rw [hstored] at hmemory
    exact ⟨hfound, husp.trans huspValue, hisp, hmspFound.trans hmspValue,
      hvariantFound.trans hentered.variant, view.memory cpu₂.memory, hmemory⟩

/-- The second frame of an interrupt leaves the first one's header whatever memory the two were
stacked in. -/
theorem masterFrameSurvives_iff (regs : Regs) (vector : Nat) (m m' : ByteMemory 32)
    (hm : ∀ i < 8, m' (regs.msp - BitVec.ofNat 32 (frameWords (frameForVector vector) * 2) +
        BitVec.ofNat 32 i) =
      storeFields (regs.isp - 8)
        (storeFields (regs.msp - BitVec.ofNat 32 (frameWords (frameForVector vector) * 2)) m
          (exceptionFields (frameForVector vector) vector regs.pc regs.pc regs.sr.word))
        (frameHeader .throwaway vector regs.pc (regs.sr.word ||| (1#16 <<< srSBit)))
        (regs.msp - BitVec.ofNat 32 (frameWords (frameForVector vector) * 2) +
          BitVec.ofNat 32 i)) :
    MasterFrameSurvives regs vector ↔
      HasHeader m' (regs.msp - BitVec.ofNat 32 (frameWords (frameForVector vector) * 2))
        (frameForVector vector) regs.sr regs.pc := by
  unfold MasterFrameSurvives
  dsimp only
  generalize hframe : regs.msp - BitVec.ofNat 32 (frameWords (frameForVector vector) * 2) = frame
    at hm
  have hbytes : ∀ i < 8, m' (frame + BitVec.ofNat 32 i) =
      storeFields (regs.isp - 8)
        (storeFields frame (fun _ => 0)
          (exceptionFields (frameForVector vector) vector regs.pc regs.pc regs.sr.word))
        (frameHeader .throwaway vector regs.pc (regs.sr.word ||| (1#16 <<< srSBit)))
        (frame + BitVec.ofNat 32 i) := by
    intro i hi
    refine (hm i hi).trans (storeFields_congr ?_)
    rw [exceptionFields_eq]
    refine storeFields_header_congr _ _ _ _ ?_
    rw [ByteMemory.toNat_add_ofNat_sub _ (by omega)]
    exact hi
  exact ⟨fun h => h.congr hbytes, fun h => h.congr fun i hi => (hbytes i hi).symm⟩

/-- The stack pointers of a processor that has returned past the throwaway frame. -/
structure PastThrowaway (cpu cpu₁ : Cpu σ) (frame : BitVec 32) : Prop where
  active : cpu₁.regs.activeStack = .msp
  usp : cpu₁.regs.usp = cpu.regs.usp
  isp : cpu₁.regs.isp = cpu.regs.isp
  msp : cpu₁.regs.msp = frame
  variant : cpu₁.frameVariant = cpu.frameVariant
  pending : cpu₁.pendingVector = 0

theorem MemoryPorts.return_throwaway {vector : Nat} (h : EnteredTwice view cpu found vector)
    (hmaster : cpu.regs.master = true)
    (harea : ∀ i < 8, area (cpu.regs.isp - 8 + BitVec.ofNat 32 i))
    (hleft : LeavesStack view area found left) :
    ∃ cpu₁, executeRte ports left = returnFrames ports 7 cpu₁ ∧
      PastThrowaway cpu cpu₁
        (cpu.regs.msp - BitVec.ofNat 32 (frameWords (frameForVector vector) * 2)) ∧
      view.memory cpu₁.memory = view.memory left.memory ∧
      StaysReadable ports fcSupervisorData area cpu₁.memory := by
  obtain ⟨m, hmemory⟩ := h.memory
  have hactive : left.regs.activeStack = .isp := hleft.active.trans h.active
  have hisp : left.regs.isp = cpu.regs.isp - 8 := (hleft.pointers .isp).trans h.isp
  have ha7 : left.regs.readA7 = cpu.regs.isp - 8 := by
    rw [Regs.readA7, hactive]
    exact hisp
  have hheader : HasHeader (view.memory left.memory) left.regs.readA7 .throwaway
      (.ofWord (cpu.regs.sr.word ||| (1#16 <<< srSBit))) cpu.regs.pc := by
    have hstored := hasHeader_storeFields (cpu.regs.isp - 8)
      (storeFields (cpu.regs.msp - BitVec.ofNat 32 (frameWords (frameForVector vector) * 2)) m
        (exceptionFields (frameForVector vector) vector cpu.regs.pc cpu.regs.pc cpu.regs.sr.word))
      [] .throwaway vector cpu.regs.pc (cpu.regs.sr.word ||| (1#16 <<< srSBit))
      (List.forall_mem_nil _)
    rw [List.append_nil, ← hmemory] at hstored
    rw [ha7]
    exact hstored.congr fun i hi => hleft.memory _ (harea i hi)
  obtain ⟨memory, hreturn, hsame, hreadable⟩ :=
    view.returnFrames_throwaway 7 hheader hleft.readable fun i hi => by
      rw [ha7]
      exact harea i hi
  refine ⟨_, hreturn, ⟨?_, ?_, ?_, ?_, hleft.variant.trans h.variant, hleft.pending⟩, hsame,
    hreadable⟩
  · have hs : (1#16 <<< srSBit).getLsbD 13 = true := by decide
    have hsup := supervisor_ofWord (left.regs.writeA7 (left.regs.readA7 + BitVec.ofNat 32 8))
      (cpu.regs.sr.word ||| (1#16 <<< srSBit))
    have hmas := master_ofWord (left.regs.writeA7 (left.regs.readA7 + BitVec.ofNat 32 8))
      (cpu.regs.sr.word ||| (1#16 <<< srSBit))
    have hbit : cpu.regs.sr.word.getLsbD 12 = true := hmaster
    rw [BitVec.getLsbD_or, hs, Bool.or_true] at hsup
    rw [BitVec.getLsbD_or, hbit, Bool.true_or] at hmas
    unfold Regs.activeStack returnRegs
    rw [hsup, hmas]
    rfl
  all_goals
    unfold returnRegs Regs.writeA7
    rw [hactive, ha7]
  · exact (hleft.pointers .usp).trans h.usp
  · exact BitVec.sub_add_cancel ..
  · exact (hleft.pointers .msp).trans h.msp

theorem returnBytes_eq_frameWords {format' : FrameFormat} {variant : FrameVariant}
    (hformat : format = .short ∨ format = .sixWord) (hthrowaway : format' ≠ .throwaway)
    (h : returnBytes format' variant = frameWords format * 2) : format' = format := by
  obtain rfl | rfl := hformat
  all_goals
    cases format'
    all_goals
      first
      | rfl
      | exact absurd rfl hthrowaway
      | cases variant <;> exact absurd h (by decide)

/-- A return from an interrupt with two frames restores the processor if and only if the second
frame has left the first one as it was. -/
theorem MemoryPorts.restores_twice {vector : Nat} (h : EnteredTwice view cpu found vector)
    (hmaster : cpu.regs.master = true)
    (hformat : frameForVector vector = .short ∨ frameForVector vector = .sixWord)
    (hmasterArea : ∀ i < frameWords (frameForVector vector) * 2,
      area (cpu.regs.msp - BitVec.ofNat 32 (frameWords (frameForVector vector) * 2) +
        BitVec.ofNat 32 i))
    (harea : ∀ i < 8, area (cpu.regs.isp - 8 + BitVec.ofNat 32 i))
    (hleft : LeavesStack view area found left) :
    Restores ports cpu cpu.regs.pc left ↔ MasterFrameSurvives cpu.regs vector := by
  obtain ⟨cpu₁, hreturn, hpast, hsame, hreadable⟩ := view.return_throwaway h hmaster harea hleft
  obtain ⟨m, hmemory⟩ := h.memory
  have hwords : 8 ≤ frameWords (frameForVector vector) * 2 ∧
      frameWords (frameForVector vector) * 2 ≤ 12 := by
    obtain hformat | hformat := hformat <;> rw [hformat] <;> decide
  have hmemory₁ := masterFrameSurvives_iff cpu.regs vector m
    (view.memory cpu₁.memory) fun i hi => by
      rw [hsame, hleft.memory _ (hmasterArea i (by omega)), hmemory]
  rw [hmemory₁]
  generalize hlength : frameWords (frameForVector vector) * 2 = bytes at *
  constructor
  · rintro ⟨after, hrte, hpending, hsr, hpc, husp, hisp, hmsp⟩
    have hsum : after.regs.stackSum = cpu.regs.stackSum := by
      rw [Regs.stackSum, husp, hisp, hmsp, Regs.stackSum]
    have hsum₁ : cpu₁.regs.stackSum + BitVec.ofNat 32 bytes = cpu.regs.stackSum := by
      rw [Regs.stackSum, hpast.usp, hpast.isp, hpast.msp, Regs.stackSum, BitVec.add_assoc,
        BitVec.sub_add_cancel]
    have hk : ∀ k < 2 ^ 32, after.regs.stackSum = cpu₁.regs.stackSum + BitVec.ofNat 32 k →
        k = bytes := by
      intro k hk hafter
      have hequal := (BitVec.add_right_inj _).mp
        (hafter.symm.trans (hsum.trans hsum₁.symm))
      rw [← BitVec.toNat_inj, BitVec.toNat_ofNat, BitVec.toNat_ofNat] at hequal
      omega
    rw [hreturn] at hrte
    obtain ⟨format', formatWord, sr', pc', hheader, hthrowaway, hof, hdefined, hregs⟩ |
      ⟨cpu₂, sr', hregs, hrest⟩ := view.returnFrames_ok hrte hpending
    · -- the stack pointers tell how long the frame was
      obtain ⟨hlow, hhigh, -⟩ := returnBytes_bounds hof hdefined
      have hbytes := hk (returnBytes format' cpu₁.frameVariant) (by omega) (by
        rw [hregs]
        exact stackSum_returnRegs cpu₁.regs _ sr')
      have hsame' := returnBytes_eq_frameWords hformat hthrowaway
        (hbytes.trans hlength.symm)
      have ha7 : cpu₁.regs.readA7 = cpu.regs.msp - BitVec.ofNat 32 bytes := by
        rw [Regs.readA7, hpast.active]
        exact hpast.msp
      rw [hregs] at hsr hpc
      rw [ha7, hsame', show sr' = cpu.regs.sr from hsr, show pc' = cpu.regs.pc from hpc] at hheader
      exact hheader
    · -- another throwaway frame would have moved them too far
      obtain ⟨k, hlow, hhigh, hsum₂⟩ := view.stackSum_returnFrames hrest hpending
      have hbytes := hk (8 + k) (by omega) (by
        rw [hsum₂, hregs, stackSum_returnRegs, BitVec.ofNat_add, BitVec.add_assoc])
      omega
  · intro hheader
    have hstacked : Stacked view .msp (frameForVector vector)
        (cpu.regs.msp - BitVec.ofNat 32 bytes) cpu.regs.sr cpu.regs.pc cpu₁ :=
      ⟨hpast.active, hpast.msp, hheader⟩
    obtain ⟨after, hrte, hpending, hsr, hpc, hpointers⟩ := view.return_stacked hstacked
      (by rintro hbad; rw [hbad] at hformat; simp at hformat)
      (by rintro hbad; rw [hbad] at hformat; simp at hformat)
      (frameFormatDefined_of _ (.inr hformat)) hreadable (hlength ▸ hmasterArea) 6
    have hbytes : returnBytes (frameForVector vector) cpu₁.frameVariant = bytes := by
      rw [← hlength, returnBytes]
      obtain hformat | hformat := hformat <;> rw [hformat] <;> rfl
    rw [hbytes] at hpointers
    refine ⟨after, hreturn.trans hrte, hpending.trans hpast.pending, hsr, hpc,
      (hpointers .usp).trans hpast.usp, (hpointers .isp).trans hpast.isp, ?_⟩
    refine (hpointers .msp).trans ?_
    rw [if_pos rfl, BitVec.sub_add_cancel]

/-! ## Every entry -/

theorem faultFormat_cases (variant : FrameVariant) (ssw : SpecialStatus)
    (faultAddress instructionAddress : BitVec 32) :
    (variant = .m68040 ↔ faultFormat variant ssw faultAddress instructionAddress = .accessError) ∧
      (faultFormat variant ssw faultAddress instructionAddress = .shortBusFault ∨
        faultFormat variant ssw faultAddress instructionAddress = .longBusFault ∨
        faultFormat variant ssw faultAddress instructionAddress = .accessError) := by
  have hframe : ∀ boundary, busFaultFrame ssw boundary = .shortBusFault ∨
      busFaultFrame ssw boundary = .longBusFault := by
    intro boundary
    unfold busFaultFrame
    dsimp only
    split
    · exact .inr rfl
    · split
      · exact .inr rfl
      · exact .inl rfl
  unfold faultFormat
  split
  · rename_i hpart
    simp [hpart]
  · rename_i hpart
    obtain hframe | hframe := hframe (faultAddress = instructionAddress) <;> simp [hpart, hframe]

theorem MemoryPorts.restores_takeBusFault {vector : Nat} {instructionAddress : BitVec 32}
    (h : takeBusFault ports vector instructionAddress cpu = .ok out found)
    (hleft : LeavesStack view
      ((Entry.busFault vector instructionAddress).area ports cpu) found left) :
    Restores ports cpu ((Entry.busFault vector instructionAddress).stackedPc ports cpu) left ↔
      ¬ (cpu.frameVariant = .m68020 ∧
        (Entry.busFault vector instructionAddress).format ports cpu = .longBusFault) := by
  unfold takeBusFault at h
  rw [Attempt.read_bind] at h
  obtain ⟨u, cpu₁, hrequire, hfault⟩ := Attempt.bind_eq_ok.mp h
  obtain ⟨-, rfl⟩ := Attempt.require_eq_ok.mp hrequire
  dsimp only [id] at hfault
  exact view.restores_once (view.takeBusFaultWith_entered rfl hfault) rfl rfl
    (.inl (faultFormat_cases ..)) (fun x hx => .inl hx) hleft

/-- THE RETURN FROM AN EXCEPTION: a handler that leaves the frames and the stacks as it found
them returns to where the exception came, with the status register and the three stack pointers
that there were, if and only if the frame is no 68020's long bus fault frame and the second frame
of an interrupt, if there is one, was not written over the first. -/
theorem Entry.restores_iff (h : entry.run ports cpu = .ok out found)
    (hmid : entry.format ports cpu ≠ .coprocessorMid)
    (hleft : LeavesStack view (entry.area ports cpu) found left) :
    Restores ports cpu (entry.stackedPc ports cpu) left ↔ entry.Undone ports cpu := by
  unfold Entry.Undone
  cases entry with
  | exception vector stackedPc instructionAddress =>
    have hrun : takeExceptionWith ports vector stackedPc instructionAddress cpu.regs.sr.word cpu =
        .ok out found := h
    have hformat := takeExceptionWith_format hrun
    have hshort : frameForVector vector = .short ∨ frameForVector vector = .sixWord := by
      obtain hformat | hformat | hformat := hformat
      · exact .inl hformat
      · exact .inr hformat
      · exact absurd hformat hmid
    refine (view.restores_once (view.takeExceptionWith_entered hrun) rfl rfl (.inr hshort)
      (fun x hx => .inl hx) hleft).trans ?_
    simp [Entry.twoFrames, Entry.format]
  | busFault vector instructionAddress =>
    refine (view.restores_takeBusFault h hleft).trans ?_
    simp [Entry.twoFrames]
  | addressError =>
    have hrun : takeAddressError ports cpu = .ok out found := h
    unfold takeAddressError at hrun
    rw [Attempt.read_bind] at hrun
    have hpc : (if faultFormat cpu.frameVariant { stageCRerun := true, stageBRerun := true }
        cpu.regs.pc cpu.regs.pc = .longBusFault then cpu.regs.pc else cpu.regs.pc) =
          cpu.regs.pc := ite_self _
    have hentered := view.takeBusFaultWith_entered rfl hrun
    rw [hpc] at hentered
    refine (view.restores_once hentered rfl rfl
      (.inl (faultFormat_cases ..)) (fun x hx => .inl hx) hleft).trans ?_
    simp [Entry.twoFrames, Entry.format]
  | interrupt =>
    have hrun : takeInterrupt ports cpu = .ok out found := h
    obtain ⟨hformat, hentered⟩ := view.takeInterrupt_entered hrun
    have hshort : frameForVector (Entry.interruptVector ports cpu) = .short ∨
        frameForVector (Entry.interruptVector ports cpu) = .sixWord := by
      obtain hformat | hformat | hformat := hformat
      · exact .inl hformat
      · exact .inr hformat
      · exact absurd hformat hmid
    have hnotLong : Entry.interrupt.format ports cpu ≠ .longBusFault := by
      rw [Entry.format]
      obtain hformat | hformat := hshort <;> rw [hformat] <;> decide
    cases hm : cpu.regs.master
    · rw [hm, if_neg (by decide)] at hentered
      refine (view.restores_once hentered rfl rfl (.inr hshort)
        (fun x hx => .inl hx) hleft).trans ?_
      simp [Entry.twoFrames, hm, Entry.format]
    · rw [hm, if_pos rfl] at hentered
      have hmsp : cpu.regs.stackPointer (handlerStack cpu.regs) = cpu.regs.msp := by
        rw [handlerStack, hm, if_pos rfl]
        rfl
      refine (view.restores_twice hentered hm hshort (fun i hi => .inl ?_)
        (fun i hi => .inr ⟨hm, ?_⟩) hleft).trans ?_
      · simp [Entry.twoFrames, hm, hnotLong]
      · rw [Entry.frame, Entry.format, hmsp, ByteMemory.toNat_add_ofNat_sub _ ?_]
        · exact hi
        · obtain hformat | hformat := hshort <;> rw [hformat] at hi <;>
            exact lt_of_lt_of_le hi (by decide)
      · rw [ByteMemory.toNat_add_ofNat_sub _ (by omega)]
        exact hi

end Return

/-! ## On plain memory -/

theorem staysReadable_flatPorts (functionCode : BitVec 8) (area : BitVec 32 → Prop)
    (m : ByteMemory 32) : StaysReadable (flatPorts fun _ => false) functionCode area m :=
  ⟨fun _ => True, trivial, fun _ _ _ _ _ _ _ _ => ⟨⟨_, rfl⟩, trivial⟩⟩

theorem leavesStack_flatPorts {area : BitVec 32 → Prop} {found : Cpu (ByteMemory 32)}
    (h : found.pendingVector = 0) :
    LeavesStack (flatMemory (fun _ => false) fcSupervisorData) area found found :=
  ⟨fun _ => rfl, rfl, fun _ _ => rfl, staysReadable_flatPorts .., rfl, h⟩

/-- An interrupt in the master state of a 68020, and the return from its two frames. -/
theorem Entry.restores_interrupt :
    ∃ out found,
      Entry.interrupt.run (flatPorts fun _ => false)
          { flatCpu .m68020 0x3000 0x1000 0x2000 with interruptLevel := 3 } = .ok out found ∧
        Restores (flatPorts fun _ => false)
          { flatCpu .m68020 0x3000 0x1000 0x2000 with interruptLevel := 3 } 0x400 found := by
  obtain ⟨out, found, hrun, hpending⟩ := Attempt.exists_ok_of_runsTo (x := Entry.interrupt.run
    (flatPorts fun _ => false))
    (s := { flatCpu .m68020 0x3000 0x1000 0x2000 with interruptLevel := 3 })
    (p := fun found => found.pendingVector = 0) (by decide +kernel)
  refine ⟨out, found, hrun, ?_⟩
  refine (Entry.restores_iff (flatMemory _ fcSupervisorData) hrun
    (by decide +kernel) (leavesStack_flatPorts hpending)).mpr ⟨by decide, fun _ => ⟨?_, ?_, ?_⟩⟩
  all_goals decide +kernel

/-- A read of data that a 68020 takes a bus error for stacks four bytes that the return leaves on
the stack. -/
theorem Entry.not_restores_busFault :
    ∃ out found,
      (Entry.busFault vectorBusError 0x400).run (flatPorts fun _ => false)
          { flatCpu .m68020 0x2000 0x1000 0x2000 with
            accessFaulted := true
            fault := { address := 0x5000, size := 4, read := true, functionCode := 5 } } =
        .ok out found ∧
      LeavesStack (flatMemory (fun _ => false) fcSupervisorData) (fun _ => True) found found ∧
      ¬ Restores (flatPorts fun _ => false)
        { flatCpu .m68020 0x2000 0x1000 0x2000 with
          accessFaulted := true
          fault := { address := 0x5000, size := 4, read := true, functionCode := 5 } }
        0x400 found := by
  obtain ⟨out, found, hrun, hpending⟩ := Attempt.exists_ok_of_runsTo
    (x := (Entry.busFault vectorBusError 0x400).run (flatPorts fun _ => false))
    (s := { flatCpu .m68020 0x2000 0x1000 0x2000 with
      accessFaulted := true
      fault := { address := 0x5000, size := 4, read := true, functionCode := 5 } })
    (p := fun found => found.pendingVector = 0) (by decide +kernel)
  refine ⟨out, found, hrun, leavesStack_flatPorts hpending, fun hrestores => ?_⟩
  exact ((flatMemory _ _).restores_takeBusFault hrun (leavesStack_flatPorts hpending)).mp hrestores
    ⟨rfl, by decide +kernel⟩

end Apollo.M68030
