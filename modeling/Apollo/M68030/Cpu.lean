import Apollo.M68030.Operand

/-!
# The instruction pipe of the MC68030

`src/core/cpu/m68030/ap_m68030_pipe.c` and `ap_m68030_fetch.c`: three stages of instruction
words behind a holding register of one long word. A word whose fetch faulted is held as
abnormal, and it is only when the word is used that the fault is one. Clocks are left out.
-/

namespace Apollo.M68030

/-- `ap_m68030_pipe_stage_t`. -/
structure PipeStage where
  word : BitVec 16 := 0
  valid : Bool := false
  abnormal : Bool := false
  abnormalTranslation : Bool := false
deriving DecidableEq

/-- `ap_m68030_pipe_t`. -/
structure Pipe where
  b : PipeStage := {}
  c : PipeStage := {}
  d : PipeStage := {}
  holdingData : BitVec 32 := 0
  holdingAddress : BitVec 32 := 0
  holdingValid : Bool := false
  holdingAbnormal : Bool := false
  holdingAbnormalTranslation : Bool := false
deriving DecidableEq

/-- `holding_base`. -/
def holdingBase (address : BitVec 32) : BitVec 32 := address &&& 0xFFFFFFFC

/-- `word_from_holding`. -/
def wordFromHolding (longword address : BitVec 32) : BitVec 16 :=
  if address &&& 2 = 0 then (longword >>> 16).setWidth 16 else longword.setWidth 16

namespace Pipe

/-- `ap_m68030_pipe_holds`. -/
def holds (pipe : Pipe) (address : BitVec 32) : Bool :=
  pipe.holdingValid && holdingBase address = pipe.holdingAddress

/-- `ap_m68030_pipe_fill`. -/
def fill (pipe : Pipe) (address longword : BitVec 32) (abnormal abnormalTranslation : Bool) :
    Pipe :=
  { pipe with
    holdingData := longword
    holdingAddress := holdingBase address
    holdingValid := true
    holdingAbnormal := abnormal
    holdingAbnormalTranslation := abnormalTranslation
    b := { word := wordFromHolding longword address, valid := true, abnormal, abnormalTranslation } }

/-- `ap_m68030_pipe_load_from_holding`. -/
def loadFromHolding (pipe : Pipe) (address : BitVec 32) : Pipe :=
  if !pipe.holds address then { pipe with b := {} }
  else
    { pipe with
      b :=
        { word := wordFromHolding pipe.holdingData address
          valid := true
          abnormal := pipe.holdingAbnormal
          abnormalTranslation := pipe.holdingAbnormalTranslation } }

/-- `ap_m68030_pipe_advance`. -/
def advance (pipe : Pipe) : Pipe := { pipe with d := pipe.c, c := pipe.b, b := {} }

/-- `ap_m68030_pipe_decoded`: the word to be executed, and whether its fetch faulted. -/
def decoded (pipe : Pipe) : Option (BitVec 16 × Bool) :=
  if pipe.d.valid then some (pipe.d.word, pipe.d.abnormal) else none

/-- `ap_m68030_pipe_decoded_translation`. -/
def decodedTranslation (pipe : Pipe) : Bool := pipe.d.valid && pipe.d.abnormalTranslation

end Pipe

/-- `ap_m68030_fetch_t`. -/
structure Fetch where
  pipe : Pipe := {}
  address : BitVec 32 := 0
  functionCode : BitVec 8
deriving DecidableEq

/-- `ap_m68030_fetch_reset`. -/
def Fetch.reset (fetch : Fetch) (address : BitVec 32) : Fetch :=
  { fetch with pipe := {}, address }

/-- The request for the long word that an instruction word is in. -/
def Fetch.request (fetch : Fetch) : Request :=
  { stream := .instruction, write := false, address := fetch.address &&& ~~~3
    functionCode := fetch.functionCode, value := 0, size := 4, rmc := false, noAllocate := false }

/-- `ap_m68030_fetch_prefetch`. -/
def Fetch.prefetch {σ : Type} (ports : Ports σ) (fetch : Fetch) (s : σ) : Fetch × σ :=
  let next := fetch.address + 2
  if fetch.pipe.holds fetch.address then
    ({ fetch with pipe := fetch.pipe.loadFromHolding fetch.address, address := next }, s)
  else
    match ports.access fetch.request s with
    | (.fault translation, s) =>
      ({ fetch with pipe := fetch.pipe.fill fetch.address 0 true translation, address := next }, s)
    | (.ok long, s) =>
      ({ fetch with pipe := fetch.pipe.fill fetch.address long false false, address := next }, s)

/-!
## The state of the MC68030 core

`ap_m68030_cpu_t` of `src/core/cpu/m68030/ap_m68030_step.h`, with the operand accesses that
note a fault, `step_operand_read` and `step_operand_write` of `ap_m68030_step.c`. Behind the
core's access contexts there is a state `σ`: caches, translation, the board. A function of the
source that returns `false` is a computation that gives up, and what it did stays done.
-/

open Apollo.Lib

/-- `ap_m68030_frame_variant_t`. -/
inductive FrameVariant
  | m68030
  | m68020
  | m68040
deriving DecidableEq, Repr

/-- What the core notes of the access that faulted, the `fault_…` fields of
`ap_m68030_cpu_t`. -/
structure FaultNote where
  address : BitVec 32 := 0
  size : Nat := 0
  read : Bool := false
  functionCode : BitVec 8 := 0
  instructionStream : Bool := false
  dataOutput : BitVec 32 := 0
  translation : Bool := false
deriving DecidableEq

/-- `ap_m68030_cpu_t`. The switches `rmc` and `noAllocate` are those of its data context. -/
structure Cpu (σ : Type) where
  regs : Regs
  fetch : Fetch
  memory : σ
  dataFunctionCode : BitVec 8
  rmc : Bool := false
  noAllocate : Bool := false
  rmcOperations : Nat := 0
  stopped : Bool := false
  accessFaulted : Bool := false
  fault : FaultNote := {}
  entryRegs : Regs
  refusedVector : Nat := 0
  pendingVector : Nat := 0
  interruptLevel : Nat := 0
  previousInterruptLevel : Nat := 0
  extensionWords : Nat := 0
  frameVariant : FrameVariant

/-- A computation of the core. -/
abbrev Exec (σ α : Type) : Type := Attempt (Cpu σ) α

namespace Cpu

variable {σ : Type}

/-- How the core's operands are accessed now. -/
def accessMode (cpu : Cpu σ) (functionCode : BitVec 8) : AccessMode :=
  { functionCode, rmc := cpu.rmc, noAllocate := cpu.noAllocate }

/-- A fault is noted. -/
def noteFault (cpu : Cpu σ) (fault : FaultNote) : Cpu σ :=
  { cpu with accessFaulted := true, fault }

/-- The registers changed. -/
def mapRegs (cpu : Cpu σ) (f : Regs → Regs) : Cpu σ := { cpu with regs := f cpu.regs }

end Cpu

section Step

variable {σ : Type} (ports : Ports σ)

/-- `step_operand_read`. -/
def stepOperandRead (target : Address) (size : Nat) (functionCode : BitVec 8) :
    Exec σ (BitVec 32) := fun cpu =>
  match operandRead ports (cpu.accessMode functionCode) cpu.regs target size cpu.memory with
  | (.ok value, memory) => .ok value { cpu with memory }
  | (.error fault, memory) =>
    .error () (({ cpu with memory } : Cpu σ).noteFault
      { address := fault.address, size, read := true, functionCode, instructionStream := false
        dataOutput := 0, translation := fault.translation })

/-- `step_operand_write`. -/
def stepOperandWrite (target : Address) (size : Nat) (value : BitVec 32)
    (functionCode : BitVec 8) : Exec σ Unit := fun cpu =>
  match operandWrite ports (cpu.accessMode functionCode) cpu.regs target size value
      cpu.memory with
  | (.ok regs, memory) => .ok () { cpu with regs, memory }
  | (.error fault, memory) =>
    .error () (({ cpu with memory } : Cpu σ).noteFault
      { address := fault.address, size, read := false, functionCode, instructionStream := false
        dataOutput := value, translation := fault.translation })

/-- One turn of the loop of `fill_to_decoded`. -/
def prefetchAndAdvance (cpu : Cpu σ) : Cpu σ :=
  match cpu.fetch.prefetch ports cpu.memory with
  | (fetch, memory) => { cpu with fetch := { fetch with pipe := fetch.pipe.advance }, memory }

/-- `fill_to_decoded`: at most four turns until there is a word to be executed. -/
def fillToDecoded : Nat → Exec σ (BitVec 16 × Bool)
  | 0, cpu =>
    match cpu.fetch.pipe.decoded with
    | some word => .ok word cpu
    | none => .error () cpu
  | turns + 1, cpu =>
    match cpu.fetch.pipe.decoded with
    | some word => .ok word cpu
    | none => fillToDecoded turns (prefetchAndAdvance ports cpu)

end Step

end Apollo.M68030
