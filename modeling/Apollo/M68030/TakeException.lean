import Apollo.M68030.Cpu

/-!
# Exception vectors and stack frames of the MC68030 family

The parts of `src/core/cpu/m68030/ap_m68030_exception.c` and `ap_m68030_ssw.c` that taking an
exception and returning from one use: which frame a vector stacks, how many words it is, and
what its format word says. The priorities of exceptions are left out.
-/

namespace Apollo.M68030

/-! ## Vectors -/

/-- `AP_M68030_VECTOR_RESET_SP`. -/
def vectorResetSp : Nat := 0

/-- `AP_M68030_VECTOR_RESET_PC`. -/
def vectorResetPc : Nat := 1

/-- `AP_M68030_VECTOR_BUS_ERROR`. -/
def vectorBusError : Nat := 2

/-- `AP_M68030_VECTOR_ADDRESS_ERROR`. -/
def vectorAddressError : Nat := 3

/-- `AP_M68030_VECTOR_ILLEGAL_INSTRUCTION`. -/
def vectorIllegalInstruction : Nat := 4

/-- `AP_M68030_VECTOR_ZERO_DIVIDE`. -/
def vectorZeroDivide : Nat := 5

/-- `AP_M68030_VECTOR_CHK`. -/
def vectorChk : Nat := 6

/-- `AP_M68030_VECTOR_TRAPCC`. -/
def vectorTrapcc : Nat := 7

/-- `AP_M68030_VECTOR_PRIVILEGE_VIOLATION`. -/
def vectorPrivilegeViolation : Nat := 8

/-- `AP_M68030_VECTOR_TRACE`. -/
def vectorTrace : Nat := 9

/-- `AP_M68030_VECTOR_COPROCESSOR_PROTOCOL`. -/
def vectorCoprocessorProtocol : Nat := 13

/-- `AP_M68030_VECTOR_FORMAT_ERROR`. -/
def vectorFormatError : Nat := 14

/-- `AP_M68030_VECTOR_SPURIOUS_INTERRUPT`, and `AP_M68030_VECTOR_AUTOVECTOR_BASE`. -/
def vectorSpuriousInterrupt : Nat := 24

/-- `AP_M68030_VECTOR_MMU_CONFIGURATION`. -/
def vectorMmuConfiguration : Nat := 56

/-- `ap_m68030_vector_offset`. -/
def vectorOffset (vector : Nat) : BitVec 32 := BitVec.ofNat 32 vector * 4

/-- `ap_m68030_autovector`. -/
def autovector (level : Nat) : Nat := vectorSpuriousInterrupt + level

/-- `ap_m68030_interrupt_recognised`: level 7 on its edge, and any other above the mask. -/
def interruptRecognised (level previousLevel mask : Nat) : Bool :=
  if level = 0 then false else if level = 7 then previousLevel < 7 else mask < level

/-! ## Frames -/

/-- `ap_m68030_frame_format_t`. -/
inductive FrameFormat
  | short
  | throwaway
  | sixWord
  | accessError
  | coprocessorMid
  | shortBusFault
  | longBusFault
deriving DecidableEq, Repr

/-- The four bits by which a format word names a format. -/
def FrameFormat.code : FrameFormat → BitVec 16
  | .short => 0x0
  | .throwaway => 0x1
  | .sixWord => 0x2
  | .accessError => 0x7
  | .coprocessorMid => 0x9
  | .shortBusFault => 0xA
  | .longBusFault => 0xB

/-- `AP_M68030_ACCESS_ERROR_WORDS`. -/
def accessErrorWords : Nat := 30

/-- `ap_m68030_frame_words`. -/
def frameWords : FrameFormat → Nat
  | .short | .throwaway => 4
  | .sixWord => 6
  | .coprocessorMid => 10
  | .shortBusFault => 16
  | .longBusFault => 46
  | .accessError => accessErrorWords

/-- `ap_m68030_long_frame_words`. -/
def longFrameWords : FrameVariant → Nat
  | .m68020 => 44
  | .m68040 => 0
  | .m68030 => 46

/-- `ap_m68030_long_frame_data_output`. -/
def longFrameDataOutput : FrameVariant → Nat
  | .m68020 => 0x28
  | _ => 0x18

/-- `ap_m68030_frame_format_word`. -/
def frameFormatWord (format : FrameFormat) (vector : Nat) : BitVec 16 :=
  (format.code <<< 12) ||| ((vectorOffset vector).setWidth 16 &&& 0x0FFF)

/-- `ap_m68030_frame_format_of`; `none` where the four bits name no format. -/
def frameFormatOf (formatWord : BitVec 16) : Option FrameFormat :=
  [.short, .throwaway, .sixWord, .accessError, .coprocessorMid, .shortBusFault,
    .longBusFault].find? fun format => format.code = (formatWord >>> 12) &&& 0xF

/-- `ap_m68030_frame_format_defined`. -/
def frameFormatDefined (formatWord : BitVec 16) (variant : FrameVariant) : Bool :=
  match frameFormatOf formatWord with
  | some .short | some .throwaway | some .sixWord => true
  | some .coprocessorMid | some .shortBusFault | some .longBusFault => variant ≠ .m68040
  | some .accessError => variant = .m68040
  | none => false

/-- `ap_m68030_frame_for_vector`. -/
def frameForVector (vector : Nat) : FrameFormat :=
  if vector = vectorBusError ∨ vector = vectorAddressError then .shortBusFault
  else if vector = vectorCoprocessorProtocol then .coprocessorMid
  else if vector = vectorZeroDivide ∨ vector = vectorChk ∨ vector = vectorTrapcc ∨
      vector = vectorTrace ∨ vector = vectorMmuConfiguration then .sixWord
  else .short

theorem frameFormatOf_frameFormatWord (format : FrameFormat) (vector : Nat) :
    frameFormatOf (frameFormatWord format vector) = some format := by
  have htop : (frameFormatWord format vector >>> 12) &&& 0xF = format.code := by
    unfold frameFormatWord
    generalize (vectorOffset vector).setWidth 16 = offset
    have hmask : ∀ i < 16, (0x0FFF : BitVec 16).getLsbD (12 + i) = false := by decide
    have hoffset : (offset &&& 0x0FFF) >>> 12 = 0#16 := by
      apply BitVec.eq_of_getLsbD_eq
      intro i hi
      rw [BitVec.getLsbD_ushiftRight, BitVec.getLsbD_and, hmask i hi, Bool.and_false,
        BitVec.getLsbD_zero]
    rw [BitVec.ushiftRight_or_distrib, hoffset]
    cases format <;> decide
  unfold frameFormatOf
  rw [htop]
  cases format <;> decide

/-! ## The special status word -/

/-- `ap_m68030_ssw_t`. -/
structure SpecialStatus where
  stageCFault : Bool := false
  stageBFault : Bool := false
  stageCRerun : Bool := false
  stageBRerun : Bool := false
  dataFault : Bool := false
  readModifyWrite : Bool := false
  read : Bool := false
  size : BitVec 2 := 0
  functionCode : BitVec 8 := 0
deriving DecidableEq

/-- `ap_m68030_ssw_size_for`. -/
def sswSizeFor (bytes : Nat) : BitVec 2 :=
  if bytes = 1 then 1 else if bytes = 2 then 2 else if bytes = 3 then 3 else 0

/-- The `bit` of `ap_m68030_ssw.c`. -/
def sswBit (set : Bool) (position : Nat) : BitVec 16 := if set then 1 <<< position else 0

/-- `ap_m68030_ssw_encode`. -/
def SpecialStatus.encode (ssw : SpecialStatus) : BitVec 16 :=
  sswBit ssw.stageCFault 15 ||| sswBit ssw.stageBFault 14 |||
    sswBit (ssw.stageCRerun || ssw.stageCFault) 13 |||
    sswBit (ssw.stageBRerun || ssw.stageBFault) 12 |||
    sswBit ssw.dataFault 8 ||| sswBit ssw.readModifyWrite 7 ||| sswBit ssw.read 6 |||
    (ssw.size.setWidth 16 <<< 4) ||| (ssw.functionCode.setWidth 16 &&& 7)

/-- `ap_m68030_bus_fault_frame`. -/
def busFaultFrame (ssw : SpecialStatus) (atInstructionBoundary : Bool) : FrameFormat :=
  let programSpace := ssw.functionCode = 2 || ssw.functionCode = 6
  if ssw.dataFault && ssw.read && !programSpace then .longBusFault
  else if ssw.dataFault && ssw.read && programSpace && !atInstructionBoundary then .longBusFault
  else .shortBusFault

/-!
## Taking an exception and returning from one

Exception entry of `src/core/cpu/m68030/ap_m68030_step.c` - `take_exception_with`,
`take_bus_fault_with`, `ap_m68030_take_interrupt` and what they are made of - and `RTE`,
`execute_rte`. An entry that gives up is one whose result is not `ok`: the status register, the
interrupt level or a whole first frame may be changed by then. Clocks and the count of
exceptions taken are left out.
-/

open Apollo.Lib

section Exceptions

variable {σ : Type} (ports : Ports σ)

/-- `AP_M68030_FC_SUPERVISOR_DATA`. -/
def fcSupervisorData : BitVec 8 := 5

/-! ## The stack -/

/-- `write_frame_field`: a field of a stack frame, written without allocating a cache line. -/
def writeFrameField (address : BitVec 32) (size : Nat) (value : BitVec 32) : Exec σ Unit := do
  modify fun cpu => { cpu with noAllocate := true }
  let wrote ← (stepOperandWrite ports (.ofMemory address) size value fcSupervisorData).caught
  modify fun cpu => { cpu with noAllocate := false }
  Attempt.require wrote.isSome

/-- `read_stack`. -/
def readStack (offset : Nat) (size : Nat) : Exec σ (BitVec 32) := do
  let a7 ← Attempt.read fun cpu => cpu.regs.readA7
  stepOperandRead ports (.ofMemory (a7 + BitVec.ofNat 32 offset)) size fcSupervisorData

/-- `jump_to`. -/
def jumpTo (target : BitVec 32) (cpu : Cpu σ) : Cpu σ :=
  { cpu with
    regs := { cpu.regs with pc := target }
    fetch := cpu.fetch.reset target }

/-! ## Entry -/

/-- `ap_m68030_exception_result_t` of an entry that completed. -/
structure ExceptionResult where
  frameAddress : BitVec 32
  vectorAddress : BitVec 32
  handler : BitVec 32
  frameFormat : FrameFormat
deriving DecidableEq

/-- The status register of a handler: the `S` bit set, the trace bits clear. -/
def handlerSr (sr : StatusRegister) : BitVec 16 :=
  (sr.word ||| (1#16 <<< srSBit)) &&& ~~~(1#16 <<< srT1Bit) &&& ~~~(1#16 <<< srT0Bit)

/-- The processor enters the supervisor state. -/
def enterSupervisor (cpu : Cpu σ) : Cpu σ := cpu.mapRegs fun regs => regs.writeSr (handlerSr regs.sr)

/-- The end of an entry: the stack pointer moves to the frame, and the handler's address is read
from the vector table. The two entries differ in whether that read may allocate a cache line. -/
def fetchVector (vector : Nat) (frame : BitVec 32) (format : FrameFormat) (noAllocate : Bool) :
    Exec σ ExceptionResult := do
  modify fun cpu => cpu.mapRegs fun regs => regs.writeA7 frame
  let vbr ← Attempt.read fun cpu => cpu.regs.vbr
  let vectorAddress := vbr + vectorOffset vector
  Attempt.onlyIf noAllocate (modify fun cpu => { cpu with noAllocate := true })
  let handler ← (stepOperandRead ports (.ofMemory vectorAddress) 4 fcSupervisorData).caught
  Attempt.onlyIf noAllocate (modify fun cpu => { cpu with noAllocate := false })
  match handler with
  | none => Attempt.fail
  | some handler =>
    modify (jumpTo handler)
    pure { frameAddress := frame, vectorAddress, handler, frameFormat := format }

/-- Fields of a frame, at offsets and with sizes, are written one after the other. -/
def writeFields (frame : BitVec 32) : List (Nat × Nat × BitVec 32) → Exec σ Unit
  | [] => pure ()
  | (offset, size, value) :: fields => do
    writeFrameField ports (frame + BitVec.ofNat 32 offset) size value
    writeFields frame fields

/-- The fields that every frame begins with. -/
def frameHeader (format : FrameFormat) (vector : Nat) (stackedPc : BitVec 32)
    (savedSr : BitVec 16) : List (Nat × Nat × BitVec 32) :=
  [(0, 2, savedSr.setWidth 32), (2, 4, stackedPc),
    (6, 2, (frameFormatWord format vector).setWidth 32)]

/-- The fields that `take_exception_with` writes: the longer frames have the address of the
instruction, and the coprocessor's has two internal registers, which are zero. -/
def exceptionFields (format : FrameFormat) (vector : Nat)
    (stackedPc instructionAddress : BitVec 32) (savedSr : BitVec 16) :
    List (Nat × Nat × BitVec 32) :=
  frameHeader format vector stackedPc savedSr ++
    (if format = .sixWord ∨ format = .coprocessorMid then [(8, 4, instructionAddress)] else []) ++
    (if format = .coprocessorMid then [(12, 4, 0), (16, 4, 0)] else [])

/-- `take_exception_with`. -/
def takeExceptionWith (vector : Nat) (stackedPc instructionAddress : BitVec 32)
    (savedSr : BitVec 16) : Exec σ ExceptionResult := do
  Attempt.require (vector ≠ vectorResetSp ∧ vector ≠ vectorResetPc)
  let format := frameForVector vector
  Attempt.require (format = .short ∨ format = .sixWord ∨ format = .coprocessorMid)
  modify enterSupervisor
  let variant ← Attempt.read fun cpu => cpu.frameVariant
  let bytes := (if format = .longBusFault then longFrameWords variant else frameWords format) * 2
  let a7 ← Attempt.read fun cpu => cpu.regs.readA7
  let frame := a7 - BitVec.ofNat 32 bytes
  writeFields ports frame (exceptionFields format vector stackedPc instructionAddress savedSr)
  fetchVector ports vector frame format true

/-- `ap_m68030_take_exception`. -/
def takeException (vector : Nat) (stackedPc instructionAddress : BitVec 32) :
    Exec σ ExceptionResult := do
  let savedSr ← Attempt.read fun cpu => cpu.regs.sr.word
  takeExceptionWith ports vector stackedPc instructionAddress savedSr

/-! ## Bus and address errors -/

/-- `fault_ssw`. -/
def faultSsw (cpu : Cpu σ) : SpecialStatus :=
  { dataFault := true, read := cpu.fault.read, size := sswSizeFor cpu.fault.size
    functionCode := cpu.fault.functionCode }

/-- `frame_image_put`, as the byte that it leaves at an offset. -/
def imagePut (image : Nat → BitVec 8) (offset size : Nat) (value : BitVec 32) : Nat → BitVec 8 :=
  fun i =>
    if offset ≤ i ∧ i < offset + size then
      (value >>> (8 * (size - 1 - (i - offset)))).setWidth 8
    else image i

/-- `frame_image_long`. -/
def imageLong (image : Nat → BitVec 8) (offset : Nat) : BitVec 32 :=
  image offset ++ image (offset + 1) ++ image (offset + 2) ++ image (offset + 3)

/-- The bytes of a fault frame of the 68020 and 68030, from its eighth on. -/
def faultImage (format : FrameFormat) (variant : FrameVariant) (pipe : Pipe)
    (ssw : SpecialStatus) (faultAddress dataOutput : BitVec 32) : Nat → BitVec 8 :=
  let image := imagePut (fun _ => 0) 0x0A 2 (ssw.encode.setWidth 32)
  let image := imagePut image 0x0C 2 (pipe.c.word.setWidth 32)
  let image := imagePut image 0x0E 2 (pipe.b.word.setWidth 32)
  let image := imagePut image 0x10 4 faultAddress
  imagePut image (if format = .longBusFault then longFrameDataOutput variant else 0x18) 4 dataOutput

/-- The special status word of a 68040 access error frame. -/
def accessErrorSsw (ssw : SpecialStatus) (translation : Bool) : BitVec 16 :=
  (if translation then 0x0400 else 0) ||| (if ssw.read then 0x0100 else 0) |||
    (if ssw.readModifyWrite then 0x0200 else 0) ||| (ssw.size.setWidth 16 <<< 5) |||
    (ssw.functionCode.setWidth 16 &&& 7)

/-- The fields that `take_bus_fault_with` writes, in the order in which it does. -/
def busFaultFields (cpu : Cpu σ) (format : FrameFormat) (vector : Nat) (savedSr : BitVec 16)
    (stackedPc : BitVec 32) (ssw : SpecialStatus) (faultAddress dataOutput : BitVec 32) :
    List (Nat × Nat × BitVec 32) :=
  let bytes := frameWords format * 2
  let common := frameHeader format vector stackedPc savedSr
  if format = .accessError then
    -- the whole frame as zero first, then its named fields
    (List.range (bytes / 2)).map (fun i => (2 * i, 2, 0)) ++ common ++
      [(0x08, 4, 0), (0x0C, 2, (accessErrorSsw ssw cpu.fault.translation).setWidth 32),
        (0x0E, 2, 0), (0x10, 2, 0), (0x12, 2, 0), (0x14, 4, faultAddress)]
  else
    let image := faultImage format cpu.frameVariant cpu.fetch.pipe ssw faultAddress dataOutput
    common ++ (List.range ((bytes - 8) / 4)).map fun i => (8 + 4 * i, 4, imageLong image (8 + 4 * i))

/-- The frame of a bus or address error: the 68040 has one, and the others choose by what
faulted. -/
def faultFormat (variant : FrameVariant) (ssw : SpecialStatus)
    (faultAddress instructionAddress : BitVec 32) : FrameFormat :=
  if variant = .m68040 then .accessError
  else busFaultFrame ssw (faultAddress = instructionAddress)

/-- `take_bus_fault_with`. -/
def takeBusFaultWith (vector : Nat) (instructionAddress : BitVec 32) (ssw : SpecialStatus)
    (faultAddress dataOutput : BitVec 32) : Exec σ ExceptionResult := do
  let entered ← Attempt.read id
  let format := faultFormat entered.frameVariant ssw faultAddress instructionAddress
  let stackedPc := if format = .longBusFault then instructionAddress else entered.regs.pc
  let savedSr := entered.regs.sr.word
  modify enterSupervisor
  let bytes := frameWords format * 2
  let a7 ← Attempt.read fun cpu => cpu.regs.readA7
  let frame := a7 - BitVec.ofNat 32 bytes
  writeFields ports frame
    (busFaultFields entered format vector savedSr stackedPc ssw faultAddress dataOutput)
  fetchVector ports vector frame format false

/-- `ap_m68030_take_bus_fault`. -/
def takeBusFault (vector : Nat) (instructionAddress : BitVec 32) : Exec σ ExceptionResult := do
  let cpu ← Attempt.read id
  Attempt.require cpu.accessFaulted
  takeBusFaultWith ports vector instructionAddress (faultSsw cpu) cpu.fault.address
    cpu.fault.dataOutput

/-- `ap_m68030_take_address_error`. -/
def takeAddressError : Exec σ ExceptionResult := do
  let pc ← Attempt.read fun cpu => cpu.regs.pc
  takeBusFaultWith ports vectorAddressError pc { stageCRerun := true, stageBRerun := true } pc 0

/-! ## Interrupts -/

/-- The status register with the interrupt mask raised to a level. -/
def raisedSr (sr : StatusRegister) (level : Nat) : BitVec 16 :=
  (sr.word &&& ~~~(srInterruptMask <<< srInterruptShift)) |||
    ((BitVec.ofNat 16 level &&& srInterruptMask) <<< srInterruptShift)

/-- The vector that an interrupt takes, after its acknowledge cycle. -/
def acknowledgeInterrupt (level : Nat) (cpu : Cpu σ) : Nat × Cpu σ :=
  match ports.acknowledge with
  | none => (vectorSpuriousInterrupt, cpu)
  | some acknowledge =>
    match acknowledge level cpu.memory with
    | (answer, memory) =>
      (if answer.busError then vectorSpuriousInterrupt
        else if answer.autovector then autovector level else answer.vector, { cpu with memory })

/-- The second frame of an interrupt that came in the master state. -/
def writeThrowaway (vector : Nat) (resume : BitVec 32) (savedSr : BitVec 16) :
    Exec σ (BitVec 32) := do
  modify fun cpu => cpu.mapRegs fun regs => regs.writeSr (regs.sr.word &&& ~~~(1#16 <<< srMBit))
  let a7 ← Attempt.read fun cpu => cpu.regs.readA7
  let frame := a7 - 8
  writeFields ports frame (frameHeader .throwaway vector resume (savedSr ||| (1#16 <<< srSBit)))
  modify fun cpu => cpu.mapRegs fun regs => regs.writeA7 frame
  pure frame

/-- Whether `ap_m68030_take_interrupt` takes the level that stands. -/
def Cpu.interruptPending (cpu : Cpu σ) : Bool :=
  interruptRecognised cpu.interruptLevel cpu.previousInterruptLevel cpu.regs.interruptMask

/-- `ap_m68030_take_interrupt`. -/
def takeInterrupt : Exec σ ExceptionResult := do
  let entered ← Attempt.read id
  let level := entered.interruptLevel
  modify fun cpu => { cpu with previousInterruptLevel := level }
  Attempt.require entered.interruptPending
  let savedSr := entered.regs.sr.word
  modify fun cpu => cpu.mapRegs fun regs => regs.writeSr (raisedSr regs.sr level)
  let vector ← fun cpu => .ok (acknowledgeInterrupt ports level cpu).1
    (acknowledgeInterrupt ports level cpu).2
  let resume ← Attempt.read fun cpu => cpu.regs.pc
  let out ← takeExceptionWith ports vector resume resume savedSr
  if !entered.regs.master then pure out
  else do
    let frame ← writeThrowaway ports vector resume savedSr
    pure { out with frameAddress := frame }

/-! ## Return -/

/-- How long a frame is to `execute_rte`. -/
def returnBytes (format : FrameFormat) (variant : FrameVariant) : Nat :=
  (if format = .longBusFault then longFrameWords variant else frameWords format) * 2

/-- Long words of the stack are read, and what they are is not used. -/
def readDiscarded : List Nat → Exec σ Unit
  | [] => pure ()
  | offset :: offsets => do
    let _ ← readStack ports offset 4
    readDiscarded offsets

/-- The end of `execute_rte`, once a frame other than a throwaway frame is found. -/
def returnThrough (format : FrameFormat) (savedSr : BitVec 16) : Exec σ Unit := do
  Attempt.require (format ≠ .coprocessorMid)
  let savedPc ← readStack ports 2 4
  let variant ← Attempt.read fun cpu => cpu.frameVariant
  let frameBytes := returnBytes format variant
  Attempt.onlyIf (format = .shortBusFault ∨ format = .longBusFault)
    (readDiscarded ports ((List.range ((frameBytes - 8) / 4)).map fun i => 8 + 4 * i))
  modify fun cpu => cpu.mapRegs fun regs =>
    regs.writeA7 (regs.readA7 + BitVec.ofNat 32 frameBytes)
  modify fun cpu => cpu.mapRegs fun regs => regs.writeSr savedSr
  modify (jumpTo savedPc)

/-- The loop of `execute_rte`; an undefined format, and the eighth throwaway frame, are a format
error. -/
def returnFrames : Nat → Exec σ Unit
  | 0 => modify fun cpu => { cpu with pendingVector := vectorFormatError }
  | frames + 1 => do
    let formatWord ← readStack ports 6 2
    let variant ← Attempt.read fun cpu => cpu.frameVariant
    if !frameFormatDefined (formatWord.setWidth 16) variant then
      modify fun cpu => { cpu with pendingVector := vectorFormatError }
    else do
      let savedSr ← readStack ports 0 2
      if frameFormatOf (formatWord.setWidth 16) = some .throwaway then do
        modify fun cpu => cpu.mapRegs fun regs => regs.writeA7 (regs.readA7 + 8)
        modify fun cpu => cpu.mapRegs fun regs => regs.writeSr (savedSr.setWidth 16)
        returnFrames frames
      else
        match frameFormatOf (formatWord.setWidth 16) with
        | none => Attempt.fail
        | some format => returnThrough ports format (savedSr.setWidth 16)

/-- `execute_rte`. -/
def executeRte : Exec σ Unit := returnFrames ports 8

end Exceptions

end Apollo.M68030
