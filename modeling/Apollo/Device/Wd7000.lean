import Mathlib
import Apollo.Device.Exb8200
import Apollo.Lib.CircularQueue
import Apollo.Time.Clock

/-!
# The WD7000 SCSI host adapter

`src/core/device/ap_wd7000.c` and `ap_scsi.c`: the host starts a command by a block in its memory, to
which a full outgoing mailbox points, and is told of the completion by an incoming mailbox and an
interrupt. The adapter keeps the interrupts that were not yet acknowledged in a queue of 32 and the
incoming mailboxes they name in a mask of 64 bits. It reads and writes the host's memory as a bus
master.
-/

namespace Apollo.Device

open Lib

/-! ## The bus -/

/-- `ap_scsi_target_t`: what a device on the bus does. -/
class ScsiTarget (δ : Type) where
  execute : δ → ScsiCommand → Option (δ × ScsiResult)
  reset : δ → δ
  present : δ → Bool

instance : ScsiTarget Exb8200 where
  execute := Exb8200.execute
  reset := Exb8200.reset
  present _ := true

/-- `ap_scsi_bus_t`: the targets that are fitted, and the silence after a reset. -/
structure ScsiBus (δ : Type) where
  target : Fin 8 → Option δ
  quietUntil : Nat
  now : Nat

/-- `AP_SCSI_T_RESET_SILENCE`. -/
def resetSilence : Nat := timeBaseHz.toNat * 3 / 10

namespace ScsiBus

variable {δ : Type} [ScsiTarget δ] (bus : ScsiBus δ)

/-- `ap_scsi_selectable`. -/
def selectable (id : Fin 8) : Bool :=
  match bus.target id with
  | none => false
  | some device => !decide (bus.now < bus.quietUntil) && ScsiTarget.present device

/-- `ap_scsi_reset`. -/
def reset : ScsiBus δ :=
  { bus with
    target := fun id => (bus.target id).map ScsiTarget.reset
    quietUntil := bus.now + resetSilence }

/-- `ap_scsi_command`: nothing when no target answers. -/
def command (id : Fin 8) (command : ScsiCommand) : Option (ScsiBus δ × ScsiResult) :=
  match bus.target id with
  | none => none
  | some device =>
    if !bus.selectable id then none
    else
      match ScsiTarget.execute device command with
      | none => some (bus, { ScsiResult.start with status := .checkCondition })
      | some (device, result) =>
        some ({ bus with target := Function.update bus.target id (some device) },
          { result with transferred := min result.transferred command.capacity })

end ScsiBus

/-! ## The adapter -/

/-- `ap_wd7000_sequence_t`. -/
inductive WdSequence
  | none
  | initialization
  | softReset
deriving DecidableEq

/-- `ap_wd7000_t`, and the host's memory as the adapter reaches it. -/
structure Wd7000 (δ : Type) where
  ready : Bool
  rejected : Bool
  initialized : Bool
  interrupt : Bool
  control : BitVec 8
  intStatus : BitVec 8
  now : Nat
  inReset : Bool
  holdDating : Bool
  holdDated : Bool
  heldSince : Nat
  poweredOn : Bool
  diagnosing : Bool
  diagnoseAt : Nat
  busy : Bool
  readyAt : Nat
  sequence : WdSequence
  taken : Nat
  parameter : Nat → BitVec 8
  mailBase : BitVec 32
  ogmbCount : Nat
  icmbCount : Nat
  userFlags : BitVec 8
  queue : CircularQueue (BitVec 8) 32
  awaitingAck : Bool
  icmbInUse : BitVec 64
  interruptOnFreeOgmb : Bool
  pseudoIdle : Bool
  scsiReset : Bool
  bus : Option (ScsiBus δ)
  memoryAttached : Bool
  memory : BitVec 32 → BitVec 8

namespace Wd7000

/-- `AP_WD7000_IRQ_QUEUE`. -/
def irqQueue : Nat := 32

/-- `AP_WD7000_INIT_BYTES`. -/
def initBytes : Nat := 10

/-- `AP_WD7000_SOFT_RESET_BYTES`. -/
def softResetBytes : Nat := 2

/-- `AP_WD7000_INT_ICMB_SERVICE`, `AP_WD7000_INT_OGMB_FREE` and `AP_WD7000_INT_BOX_MASK`. -/
def intIcmbService : BitVec 8 := 0xC0
def intOgmbFree : BitVec 8 := 0x80
def intBoxMask : BitVec 8 := 0x3F

/-- `AP_WD7000_DIAG_OK`. -/
def diagOk : BitVec 8 := 0x01

/-- The completion codes: `AP_WD7000_ICMB_COMPLETE` and those behind it. -/
def icmbComplete : BitVec 8 := 0x01
def icmbCompleteError : BitVec 8 := 0x02
def icmbScanComplete : BitVec 8 := 0x03
def icmbNoScsiStatus : BitVec 8 := 0x04

/-- `AP_WD7000_ICMB_NO_ADDRESS`. -/
def icmbNoAddress : BitVec 32 := 0xFFFFFF

/-- The vendor errors: `AP_WD7000_VUE_NO_ERROR` and those that are posted. -/
def vueNoError : BitVec 8 := 0x01
def vueIllegalParameter : BitVec 8 := 0x21
def vueShortTransfer : BitVec 8 := 0x40
def vueSelectionTimeout : BitVec 8 := 0x4D

/-- `AP_WD7000_US`. -/
def us (n : Nat) : Nat := timeBaseHz.toNat / 1000000 * n

/-- `AP_WD7000_T_COMMAND_PORT`, `AP_WD7000_T_RESET_MIN` and the two diagnostics. -/
def tCommandPort : Nat := us 70
def tResetMin : Nat := us 25
def tShortDiagnostic : Nat := us 250000
def tLongDiagnostic : Nat := us 2000000

variable {δ : Type}

/-- The adapter as `memset` leaves it, without memory and without a bus. -/
def zeroed (memory : BitVec 32 → BitVec 8) : Wd7000 δ :=
  { ready := false, rejected := false, initialized := false, interrupt := false, control := 0
    intStatus := 0, now := 0, inReset := false, holdDating := false, holdDated := false
    heldSince := 0, poweredOn := false, diagnosing := false, diagnoseAt := 0, busy := false
    readyAt := 0, sequence := .none, taken := 0, parameter := fun _ => 0, mailBase := 0
    ogmbCount := 0, icmbCount := 0, userFlags := 0, queue := ⟨fun _ => 0, 0, 0⟩
    awaitingAck := false, icmbInUse := 0, interruptOnFreeOgmb := false, pseudoIdle := false
    scsiReset := false, bus := none, memoryAttached := false, memory }

variable (asc : Wd7000 δ)

/-- `ap_wd7000_clear`. -/
def clear : Wd7000 δ :=
  { (zeroed asc.memory : Wd7000 δ) with
    poweredOn := asc.poweredOn
    now := asc.now
    memoryAttached := asc.memoryAttached
    bus := asc.bus
    diagnosing := true
    diagnoseAt := asc.now + if asc.poweredOn then tShortDiagnostic else tLongDiagnostic }

/-- `ap_wd7000_power_on`. -/
def powerOn (memory : BitVec 32 → BitVec 8) : Wd7000 δ := (zeroed memory).clear

/-! ## The host's memory -/

/-- `can_master`. -/
def canMaster : Bool := asc.memoryAttached && !asc.inReset && asc.control.getLsbD 2

/-- `ap_wd7000_memory_write`, of a master. -/
def writeMemory (address : BitVec 32) (value : BitVec 8) : Wd7000 δ :=
  { asc with memory := Function.update asc.memory address value }

/-- `ap_wd7000_memory_read24`, of a master. -/
def readMemory24 (address : BitVec 32) : BitVec 32 :=
  (asc.memory address ++ asc.memory (address + 1) ++ asc.memory (address + 2)).setWidth 32

/-- `ap_wd7000_memory_write24`, of a master. -/
def writeMemory24 (address value : BitVec 32) : Wd7000 δ :=
  ((asc.writeMemory address (byteOf value 2)).writeMemory (address + 1) (byteOf value 1)).writeMemory
    (address + 2) (byteOf value 0)

/-- Bytes that a target gives to the host, one behind the other. -/
def writeBytes (memory : BitVec 32 → BitVec 8) (address : BitVec 32) :
    List (BitVec 8) → BitVec 32 → BitVec 8
  | [] => memory
  | byte :: bytes => writeBytes (Function.update memory address byte) (address + 1) bytes

/-! ## The mailboxes -/

/-- `ap_wd7000_ogmb_address`, of a box that exists. -/
def ogmbAddress (n : Nat) : BitVec 32 := asc.mailBase + BitVec.ofNat 32 (n * 4)

/-- `ap_wd7000_icmb_address`, of a box that exists. -/
def icmbAddress (m : Nat) : BitVec 32 :=
  asc.mailBase + BitVec.ofNat 32 (m * 4) + BitVec.ofNat 32 (4 * asc.ogmbCount)

/-- The head of the queue is shown. -/
def showHead : Wd7000 δ :=
  { asc with intStatus := asc.queue.front, interrupt := true, awaitingAck := true }

/-- `ap_wd7000_post_interrupt`. -/
def postInterrupt (status : BitVec 8) : Bool × Wd7000 δ :=
  if irqQueue ≤ asc.queue.count then (false, asc)
  else
    let queued := { asc with queue := asc.queue.push status }
    (true, if !asc.awaitingAck then queued.showHead else queued)

/-- The mailbox that an interrupt names is freed, when it names one. -/
def freeIcmb (acknowledged : BitVec 8) : Wd7000 δ :=
  if acknowledged &&& intIcmbService = intIcmbService then
    { asc with icmbInUse := asc.icmbInUse &&& ~~~(1#64 <<< (acknowledged &&& intBoxMask).toNat) }
  else asc

/-- `ap_wd7000_acknowledge`. -/
def acknowledge : Wd7000 δ :=
  if !asc.awaitingAck then { asc with interrupt := false }
  else
    let retired := { asc.freeIcmb asc.queue.front with
      queue := asc.queue.pop, awaitingAck := false, interrupt := false }
    if 0 < retired.queue.count then retired.showHead else retired

/-- The first incoming mailbox that is free. -/
def freeBox : Option Nat :=
  (List.range asc.icmbCount).find? fun m => asc.initialized && !asc.icmbInUse.getLsbD m

/-- The interrupt that names an incoming mailbox. -/
def icmbService (m : Nat) : BitVec 8 := intIcmbService ||| (BitVec.ofNat 8 m &&& intBoxMask)

/-- A completion is put into this mailbox. -/
def writeIcmb (m : Nat) (code : BitVec 8) (cdbAddress : BitVec 32) : Wd7000 δ :=
  (asc.writeMemory (asc.icmbAddress m) code).writeMemory24 (asc.icmbAddress m + 1) cdbAddress

/-- This mailbox holds a completion that is not acknowledged. -/
def markIcmb (m : Nat) : Wd7000 δ := { asc with icmbInUse := asc.icmbInUse ||| 1#64 <<< m }

/-- `post_icmb`. -/
def postIcmb (code : BitVec 8) (cdbAddress : BitVec 32) : Bool × Wd7000 δ :=
  match asc.freeBox with
  | none => (false, asc)
  | some m =>
    if !asc.canMaster then (false, asc)
    else
      let posted := (asc.writeIcmb m code cdbAddress).postInterrupt (icmbService m)
      (posted.1, if posted.1 then posted.2.markIcmb m else posted.2)

/-! ## Commands -/

variable [ScsiTarget δ]

/-- Three bytes of a block, the most significant first. -/
def blockBe24 (block : Nat → BitVec 8) (i : Nat) : BitVec 32 :=
  (block i ++ block (i + 1) ++ block (i + 2)).setWidth 32

/-- The command that a block sends to its target. -/
def blockCommand (block : Nat → BitVec 8) : ScsiCommand :=
  { lun := block 1 &&& 0x07
    cdb := (List.range 12).map fun i => block (2 + i)
    memory := some asc.memory
    buffer := blockBe24 block 19
    capacity := (blockBe24 block 16).toNat }

/-- The target that a block addresses. -/
def blockTarget (block : Nat → BitVec 8) : Fin 8 := ((block 1 >>> 5).setWidth 3).toFin

/-- The status byte of a result. -/
def statusByte : ScsiStatus → BitVec 8
  | .good => 0x00
  | .checkCondition => 0x02

/-- What is told of a command that a target has run, or of one that none has: the status byte, the
vendor error and the completion code. -/
def outcome : Option ScsiResult → BitVec 8 × BitVec 8 × BitVec 8
  | none => (0, vueSelectionTimeout, icmbNoScsiStatus)
  | some result =>
    if result.status ≠ .good then (statusByte result.status, vueNoError, icmbCompleteError)
    else if result.shortTransfer then (0, vueShortTransfer, icmbCompleteError)
    else (0, vueNoError, icmbComplete)

/-- The block of `ap_wd7000_start_ogmb` is run: the completion code, and what it leaves in memory. -/
def runBlock (scb : BitVec 32) (block : Nat → BitVec 8) : BitVec 8 × Wd7000 δ :=
  if block 0 ≠ 0 then (icmbNoScsiStatus, asc.writeMemory (scb + 15) vueIllegalParameter)
  else
    let command := asc.blockCommand block
    let answer := asc.bus.bind (·.command (blockTarget block) command)
    let moved := match answer with
      | none => asc
      | some (bus, result) =>
        { asc with bus := some bus, memory := writeBytes asc.memory command.buffer result.moved }
    let (status, vue, completion) := outcome (answer.map Prod.snd)
    let told := (moved.writeMemory (scb + 14) status).writeMemory (scb + 15) vue
    let transferred := (answer.map fun answer => answer.2.transferred).getD 0
    (completion, if asc.userFlags.getLsbD 2 then
      told.writeMemory24 (scb + 16) (BitVec.ofNat 32 (command.capacity - transferred)) else told)

/-- The mail is taken: the box is emptied, and the interrupt that was asked for posted. -/
def takeMail (n : Nat) : Wd7000 δ :=
  let emptied := asc.writeMemory (asc.ogmbAddress n) 0
  if emptied.interruptOnFreeOgmb then
    ({ emptied with interruptOnFreeOgmb := false }.postInterrupt
      (intOgmbFree ||| (BitVec.ofNat 8 n &&& intBoxMask))).2
  else emptied

/-- `ap_wd7000_start_ogmb`. Every access of it is refused, or none is. -/
def startOgmb (n : Nat) : Bool × Wd7000 δ :=
  if !asc.initialized || asc.ogmbCount ≤ n || !asc.canMaster then (false, asc)
  else
    let box := asc.ogmbAddress n
    if asc.memory box = 0 then (false, (asc.postIcmb icmbCompleteError icmbNoAddress).2)
    else
      let scb := asc.readMemory24 (box + 1)
      let block := fun i => asc.memory (scb + BitVec.ofNat 32 i)
      let (completion, ran) := (asc.takeMail n).runBlock scb block
      (true, (ran.postIcmb completion scb).2)

/-- A box of a scan. -/
def scanBox (n : Nat) : Wd7000 δ :=
  if !asc.canMaster || asc.memory (asc.ogmbAddress n) = 0 then asc else (asc.startOgmb n).2

/-- The first boxes of a scan. -/
def scanBoxes (count : Nat) : Wd7000 δ := (List.range count).foldl (fun asc n => asc.scanBox n) asc

/-- `ap_wd7000_scan`. -/
def scan : Wd7000 δ :=
  if !asc.initialized then asc
  else ((asc.scanBoxes asc.ogmbCount).postIcmb icmbScanComplete icmbNoAddress).2

/-! ## The ports -/

/-- `ap_wd7000_take`. -/
def take (accepted : Bool) : Wd7000 δ :=
  { asc with rejected := !accepted, ready := false, busy := true, readyAt := asc.now + tCommandPort }

/-- `ap_wd7000_initialize`. -/
def initialization : Wd7000 δ :=
  let p := asc.parameter
  { asc with
    mailBase := (p 5 ++ p 6 ++ p 7).setWidth 32
    ogmbCount := if p 8 = 0 then 1 else (p 8).toNat
    icmbCount := if p 9 = 0 then 1 else (p 9).toNat
    initialized := true }

/-- `ap_wd7000_opcode_legal`. -/
def opcodeLegal (opcode : BitVec 8) : Bool :=
  if 0x80 ≤ opcode then asc.initialized
  else
    match opcode with
    | 0x00 => true
    | 0x01 => !asc.initialized
    | 0x02 | 0x03 | 0x04 => asc.initialized && !asc.pseudoIdle
    | 0x05 | 0x06 => asc.initialized
    | _ => false

/-- A byte of a sequence that is under way. -/
def parameterByte (value : BitVec 8) : Wd7000 δ :=
  let stored := { asc with
    parameter := Function.update asc.parameter asc.taken value, taken := asc.taken + 1 }
  let wanted := if asc.sequence = .initialization then initBytes else softResetBytes
  if wanted ≤ stored.taken then
    { (if asc.sequence = .initialization then stored.initialization else { stored with scsiReset := true }) with
      sequence := .none, taken := 0 }
  else stored

/-- A legal byte that starts something. -/
def execute (value : BitVec 8) : Wd7000 δ :=
  match value with
  | 0x00 => asc
  | 0x01 =>
    { asc with sequence := .initialization, taken := 1, parameter := Function.update asc.parameter 0 value }
  | 0x02 => { asc with userFlags := asc.userFlags &&& ~~~0x01 }
  | 0x03 => { asc with userFlags := asc.userFlags ||| 0x01 }
  | 0x04 => { asc with interruptOnFreeOgmb := true, userFlags := asc.userFlags ||| 0x02 }
  | 0x05 =>
    { asc with sequence := .softReset, taken := 1, parameter := Function.update asc.parameter 0 value }
  | 0x06 => { asc with pseudoIdle := !asc.pseudoIdle }
  | _ => if 0xC0 ≤ value then asc.scan else (asc.startOgmb (value &&& intBoxMask).toNat).2

/-- `ap_wd7000_command`. -/
def command (value : BitVec 8) : Wd7000 δ :=
  if asc.sequence ≠ .none then (asc.parameterByte value).take true
  else if !asc.opcodeLegal value then asc.take false
  else (asc.execute value).take true

/-- The reset of the bus that a write to the host control register asks for. -/
def controlBus (value : BitVec 8) : Wd7000 δ :=
  { asc with
    control := value
    bus := if value.getLsbD 1 && !asc.control.getLsbD 1 then asc.bus.map ScsiBus.reset else asc.bus
    scsiReset := value.getLsbD 1 }

/-- The reset was held long enough. -/
def longEnough : Bool := asc.holdDated && tResetMin ≤ asc.now - asc.heldSince

/-- `ap_wd7000_control`. -/
def writeControl (value : BitVec 8) : Wd7000 δ :=
  let held := value.getLsbD 0
  let wasHeld := asc.control.getLsbD 0
  let written := asc.controlBus value
  if held && !wasHeld then
    { written with
      inReset := true, holdDating := true, holdDated := false, ready := false, rejected := false
      interrupt := false, busy := false }
  else if !held && wasHeld then
    let released := { written with inReset := false, holdDating := false, holdDated := false }
    if asc.longEnough then { released.clear with control := value &&& ~~~0x01 } else released
  else written

/-- `ap_wd7000_write`. -/
def write (reg : Nat) (value : BitVec 8) : Wd7000 δ :=
  match reg with
  | 0 => if asc.inReset || asc.diagnosing || asc.busy then asc else asc.command value
  | 1 => asc.acknowledge
  | 2 => asc.writeControl value
  | _ => asc

/-- `ap_wd7000_advance`. -/
def advance (now : Nat) : Wd7000 δ :=
  let timed := { asc with now := max asc.now now }
  let dated := if timed.holdDating then
    { timed with holdDating := false, holdDated := true, heldSince := timed.now } else timed
  if dated.inReset then dated
  else
    let diagnosed := if dated.diagnosing && dated.diagnoseAt ≤ dated.now then
      { dated with diagnosing := false, intStatus := diagOk, poweredOn := true, ready := true }
      else dated
    if diagnosed.busy && diagnosed.readyAt ≤ diagnosed.now then
      { diagnosed with busy := false, ready := true }
    else diagnosed

/-! ## Runs -/

/-- What happens to the adapter: the host's accesses and the time, what others do to the host's memory
and to the bus, and what the board attaches. -/
inductive Event (δ : Type)
  | write (reg : Nat) (value : BitVec 8)
  | advance (now : Nat)
  | host (memory : BitVec 32 → BitVec 8)
  | bus (bus : Option (ScsiBus δ))
  | attach (attached : Bool)

/-- The adapter after an event. -/
def step (asc : Wd7000 δ) : Event δ → Wd7000 δ
  | .write reg value => asc.write reg value
  | .advance now => asc.advance now
  | .host memory => { asc with memory }
  | .bus bus => { asc with bus }
  | .attach attached => { asc with memoryAttached := attached }

/-- One event after another. -/
def run (asc : Wd7000 δ) (events : List (Event δ)) : Wd7000 δ := events.foldl step asc

end Wd7000

end Apollo.Device
