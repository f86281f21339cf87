import Apollo.Lib.Sizes
import Mathlib

/-!
# The 8 mm tape drive

`src/core/device/ap_exb8200.c`: a SCSI target with a tape that is a sequence of records, blocks of
data and filemarks, and with one buffer of sense data. A command that fails builds the sense data; a
pending unit attention is announced and the sense data left as it is; a command that succeeds clears
it, but for a request for the sense data itself and an inquiry.
-/

namespace Apollo.Device

/-! ## The medium -/

/-- `ap_exb8200_record_kind_t`. -/
inductive RecordKind
  | data
  | filemark
deriving DecidableEq

/-- `ap_exb8200_record_t`. -/
structure TapeRecord where
  kind : RecordKind
  offset : Nat
  length : Nat
  shortMark : Bool
deriving DecidableEq

/-- `ap_exb8200_media_t`: `record` is the records that are live. -/
structure TapeMedia where
  record : List TapeRecord
  capacity : Nat
  data : Nat → BitVec 8
  dataBytes : Nat
  dataUsed : Nat
  writable : Bool
  mediumType : BitVec 8
  blocksToLeot : BitVec 32

/-- `ap_exb8200_where_t`. -/
inductive TapeWhere
  | atLbot
  | inData
  | afterWrite
  | atPeot
deriving DecidableEq

/-- The parameters of MODE SELECT. -/
structure ModeParameters where
  buffered : Bool
  blockLength : BitVec 24
  vendorFlags : BitVec 8
  p5 : Bool
  motionThreshold : BitVec 8
  reconnectThreshold : BitVec 8
  gapThreshold : BitVec 8
deriving DecidableEq

/-- `ap_exb8200_t`. -/
structure Exb8200 where
  media : TapeMedia
  loaded : Bool
  present : Bool
  prevented : Bool
  position : TapeWhere
  index : Nat
  mode : ModeParameters
  reserved : Bool
  sense : List (BitVec 8)
  senseValid : Bool
  unitAttention : Bool
  trackingCounter : BitVec 8
  rereadCounter : BitVec 8
  writeRecoveryCounter : BitVec 8
  errorCounter : BitVec 32
  diagnosticReady : Bool

/-- A byte of a 32-bit value, the least significant first. -/
def byteOf (value : BitVec 32) (i : Nat) : BitVec 8 := value.extractLsb' (8 * i) 8

/-- The physical blocks that a record takes. -/
def TapeRecord.physicalBlocks (record : TapeRecord) : Nat :=
  match record.kind with
  | .filemark => (if record.shortMark then 60 else 270) * 8
  | .data => (record.length + 1023) % 2 ^ 32 / 1024

/-- `ap_exb8200_physical_blocks`. -/
def physicalBlocks (media : TapeMedia) : BitVec 32 :=
  BitVec.ofNat 32 (0x500 + (media.record.map TapeRecord.physicalBlocks).sum)

/-! ## SCSI -/

/-- `ap_scsi_dir_t`. -/
inductive ScsiDir
  | none
  | dataIn
  | dataOut
deriving DecidableEq

/-- `AP_SCSI_STATUS_GOOD` and `AP_SCSI_STATUS_CHECK_CONDITION`. -/
inductive ScsiStatus
  | good
  | checkCondition
deriving DecidableEq

/-- `ap_scsi_result_t`; `moved` is the bytes given to the host, from the buffer on, and `condition`
the sense key of the condition that the status reports. -/
structure ScsiResult where
  status : ScsiStatus
  direction : ScsiDir
  transferred : Nat
  shortTransfer : Bool
  moved : List (BitVec 8)
  condition : Option (BitVec 8)

/-- The result before a command. -/
def ScsiResult.start : ScsiResult := ⟨.good, .none, 0, false, [], none⟩

/-- A command as the initiator sends it: the logical unit, the descriptor block, the host's memory if
the command has one, the buffer in it and its capacity. -/
structure ScsiCommand where
  lun : BitVec 8
  cdb : List (BitVec 8)
  memory : Option (BitVec 32 → BitVec 8)
  buffer : BitVec 32
  capacity : Nat

namespace ScsiCommand

/-- A byte of the descriptor block. -/
def byte (command : ScsiCommand) (i : Nat) : BitVec 8 := command.cdb.getD i 0

def opcode (command : ScsiCommand) : BitVec 8 := command.byte 0

/-- `be24`, of the descriptor block. -/
def be24 (command : ScsiCommand) (i : Nat) : BitVec 24 :=
  command.byte i ++ command.byte (i + 1) ++ command.byte (i + 2)

/-- `give`: the bytes that go to the host. -/
def give (command : ScsiCommand) (bytes : List (BitVec 8)) (capacity : Nat) : List (BitVec 8) :=
  match command.memory with
  | none => []
  | some _ => bytes.take capacity

/-- A data-in phase of these bytes. -/
def dataIn (command : ScsiCommand) (result : ScsiResult) (bytes : List (BitVec 8)) : ScsiResult :=
  let moved := command.give bytes command.capacity
  { result with direction := .dataIn, transferred := moved.length, moved }

end ScsiCommand

namespace Exb8200

/-! ## Sense -/

/-- The sense keys that the drive raises. -/
def keyNoSense : BitVec 8 := 0x0
def keyNotReady : BitVec 8 := 0x2
def keyMediumError : BitVec 8 := 0x3
def keyIllegalRequest : BitVec 8 := 0x5
def keyUnitAttention : BitVec 8 := 0x6
def keyDataProtect : BitVec 8 := 0x7
def keyBlankCheck : BitVec 8 := 0x8
def keyVolumeOverflow : BitVec 8 := 0xD

/-- `AP_EXB8200_SENSE_FMK`, `AP_EXB8200_SENSE_EOM` and `AP_EXB8200_SENSE_ILI`. -/
def senseFmk : BitVec 8 := 0x80
def senseEom : BitVec 8 := 0x40
def senseIli : BitVec 8 := 0x20

/-- A condition as it is raised. -/
structure Condition where
  key : BitVec 8
  flags : BitVec 8 := 0
  information : Option (BitVec 32) := none
  asc : BitVec 8 := 0

/-- `sense_set`. -/
def senseSet (drive : Exb8200) (condition : Condition) : Exb8200 :=
  let value := condition.information.getD 0
  let used := physicalBlocks drive.media
  let remaining :=
    if used < drive.media.blocksToLeot then drive.media.blocksToLeot - used else 0
  { drive with
    sense :=
      [(if condition.information.isSome then 0xF0 else 0x70), 0,
        condition.flags ||| condition.key &&& 0x0F,
        byteOf value 3, byteOf value 2, byteOf value 1, byteOf value 0, 0x12, 0, 0, 0, 0,
        condition.asc, 0, 0, 0,
        byteOf drive.errorCounter 2, byteOf drive.errorCounter 1, byteOf drive.errorCounter 0,
        (if drive.present then 0 else 0x02) |||
          (if drive.loaded && drive.position = .atLbot then 0x01 else 0),
        (if drive.present && !drive.media.writable then 0x20 else 0),
        (if drive.position = .atPeot then 0x04 else 0), 0,
        byteOf remaining 2, byteOf remaining 1, byteOf remaining 0]
    senseValid := true }

/-- `fail`. -/
def fail (drive : Exb8200) (result : ScsiResult) (condition : Condition) : Exb8200 × ScsiResult :=
  (drive.senseSet condition,
    { result with status := .checkCondition, condition := some condition.key })

/-- A refusal as an illegal request. -/
def illegal (drive : Exb8200) (result : ScsiResult) : Exb8200 × ScsiResult :=
  drive.fail result { key := keyIllegalRequest }

/-- A refusal of a drive that is not ready, with `AP_EXB8200_ASC_NOT_READY`. -/
def notReady (drive : Exb8200) (result : ScsiResult) : Exb8200 × ScsiResult :=
  drive.fail result { key := keyNotReady, asc := 0x04 }

/-! ## Lifecycle -/

/-- `defaults`. -/
def defaults : ModeParameters :=
  { buffered := true, blockLength := 1024, vendorFlags := 0, p5 := false, motionThreshold := 0x80
    reconnectThreshold := 0xA0, gapThreshold := 0x07 }

/-- A unit attention pends, and its sense data is built. -/
def attend (drive : Exb8200) : Exb8200 :=
  { drive.senseSet { key := keyUnitAttention } with unitAttention := true }

/-- `AP_EXB8200_U19_PF` is set in the sense data. -/
def powerFailed (drive : Exb8200) : Exb8200 :=
  { drive with sense := drive.sense.modify 19 (· ||| 0x80) }

/-- A cleared drive. -/
def cleared (media : TapeMedia) : Exb8200 :=
  { media, loaded := false, present := false, prevented := false, position := .atLbot, index := 0
    mode := defaults, reserved := false, sense := List.replicate 26 0, senseValid := false
    unitAttention := false, trackingCounter := 0, rereadCounter := 0, writeRecoveryCounter := 0
    errorCounter := 0, diagnosticReady := false }

/-- A drive without a medium. -/
def noMedia : TapeMedia :=
  { record := [], capacity := 0, data := fun _ => 0, dataBytes := 0, dataUsed := 0
    writable := false, mediumType := 0, blocksToLeot := 0 }

/-- `ap_exb8200_power_on`. -/
def powerOn : Exb8200 := (cleared noMedia).attend.powerFailed

/-- `ap_exb8200_reset`: the medium stays. -/
def reset (drive : Exb8200) : Exb8200 :=
  { cleared drive.media with
    loaded := drive.loaded
    present := drive.present
    position := if drive.loaded then .atLbot else .inData }.attend.powerFailed

/-- `ap_exb8200_insert`. -/
def insert (drive : Exb8200) (media : TapeMedia) : Bool × Exb8200 :=
  if drive.present then (false, drive)
  else
    let loaded := !drive.mode.vendorFlags.getLsbD 0
    (true,
      { drive with
        media
        present := true
        loaded
        position := if loaded then .atLbot else .inData
        index := 0 }.attend)

/-! ## Commands -/

/-- `writable_here`. -/
def writableHere (drive : Exb8200) : Bool :=
  match drive.position with
  | .atLbot => true
  | .afterWrite => true
  | .atPeot => false
  | .inData =>
    match drive.media.record[drive.index]? with
    | none => true
    | some next => next.kind = .filemark && !next.shortMark

/-- `truncate_here`. -/
def truncateHere (drive : Exb8200) : Exb8200 :=
  let record := drive.media.record.take drive.index
  let used := record.foldl (fun used record =>
    if record.kind = .data && used < (record.offset + record.length) % 2 ^ 32 then
      (record.offset + record.length) % 2 ^ 32
    else used) 0
  { drive with media := { drive.media with record, dataUsed := used } }

/-- `medium_ready`: whether the drive can take a command of the medium. -/
def mediumReady (drive : Exb8200) : Bool := drive.present && drive.loaded

variable (drive : Exb8200) (command : ScsiCommand) (result : ScsiResult)

/-- `cmd_test_unit_ready`. -/
def cmdTestUnitReady : Exb8200 × ScsiResult :=
  if !drive.mediumReady then drive.notReady result else (drive, result)

/-- The ASCII bytes of a text. -/
def ascii (text : String) : List (BitVec 8) := text.toList.map fun c => BitVec.ofNat 8 c.toNat

/-- `cmd_inquiry`; a length past the 56 bytes of the answer is filled up. -/
def cmdInquiry : Exb8200 × ScsiResult :=
  let data : List (BitVec 8) :=
    [(if command.lun = 0 then 0x01 else 0x7F), 0x80, 0x01, 0, 0x33, 0, 0, 0] ++
      ascii "EXABYTE " ++ ascii "EXB-8200        " ++ ascii "4.25" ++ List.replicate 20 0x20
  let want := min (command.byte 4).toNat command.capacity
  (drive, command.dataIn result (data.takeD want 0))

/-- `cmd_request_sense`. -/
def cmdRequestSense : Exb8200 × ScsiResult :=
  let want := min (if command.byte 4 = 0 then 4 else (command.byte 4).toNat) 26
  let result := command.dataIn result (drive.sense.take want)
  if (command.byte 5).getLsbD 7 && 19 ≤ want then
    ({ drive with errorCounter := 0, trackingCounter := 0, rereadCounter := 0 }, result)
  else (drive, result)

/-- `AP_EXB8200_BLOCK_MAX`, or with `AP_EXB8200_VU_ND` set `AP_EXB8200_BLOCK_MAX_ND`. -/
def blockMax : Nat := if drive.mode.vendorFlags.getLsbD 5 then 0x028000 else 0x03C000

/-- `cmd_read_block_limits`. -/
def cmdReadBlockLimits : Exb8200 × ScsiResult :=
  let maximum := BitVec.ofNat 32 drive.blockMax
  (drive, command.dataIn result [0, byteOf maximum 2, byteOf maximum 1, byteOf maximum 0, 0, 1])

/-- The bytes of a block. -/
def blockBytes (media : TapeMedia) (record : TapeRecord) (count : Nat) : List (BitVec 8) :=
  (List.range count).map fun i => media.data (record.offset + i)

/-- The loop of `cmd_read`, by the blocks that are left: what a block is to hold, whether an illegal
length is suppressed, and the bytes that have been moved. -/
def readBlocks (command : ScsiCommand) (result : ScsiResult) (asked : Nat) (sili : Bool) :
    Nat → Exb8200 → List (BitVec 8) → Exb8200 × ScsiResult
  | 0, drive, moved => (drive, { result with transferred := moved.length, moved })
  | left + 1, drive, moved =>
    let stopped := { result with transferred := moved.length, moved }
    let information := some (BitVec.ofNat 32 (left + 1))
    if drive.position = .afterWrite then
      drive.fail stopped { key := keyIllegalRequest, information }
    else
      match drive.media.record[drive.index]? with
      | none =>
        let flags := if drive.position = .atLbot then senseEom else 0
        drive.fail stopped { key := keyBlankCheck, flags, information }
      | some record =>
        let passed := { drive with index := drive.index + 1, position := .inData }
        match record.kind with
        | .filemark => passed.fail stopped { key := keyNoSense, flags := senseFmk, information }
        | .data =>
          let take := min record.length asked
          let moved := moved ++ command.give (blockBytes drive.media record take)
            (command.capacity - moved.length)
          if record.length = asked then readBlocks command result asked sili left passed moved
          else
            let stopped := { result with transferred := moved.length, moved }
            if sili then (passed, { stopped with shortTransfer := record.length < asked })
            else
              passed.fail stopped
                { key := keyNoSense, flags := senseIli
                  information := some (BitVec.ofNat 32 asked - BitVec.ofNat 32 record.length) }

/-- `cmd_read`. -/
def cmdRead : Exb8200 × ScsiResult :=
  if !drive.mediumReady then drive.notReady result
  else
    let fixed := (command.byte 1).getLsbD 0
    let sili := (command.byte 1).getLsbD 1
    if fixed && sili then drive.illegal result
    else if fixed = decide (drive.mode.blockLength = 0) then drive.illegal result
    else
      let length := (command.be24 2).toNat
      let result := { result with direction := .dataIn }
      if length = 0 then (drive, result)
      else
        readBlocks command result (if fixed then drive.mode.blockLength.toNat else length) sili
          (if fixed then length else 1) drive []

/-- A block put into the data area, as many bytes of it as the transfer has. -/
def putBlock (media : TapeMedia) (block count : Nat) (read : BitVec 32 → BitVec 8)
    (address : BitVec 32) : TapeMedia :=
  { media with
    record := media.record ++ [⟨.data, media.dataUsed, block, false⟩]
    data := fun i =>
      if media.dataUsed ≤ i ∧ i < media.dataUsed + count then
        read (address + BitVec.ofNat 32 (i - media.dataUsed))
      else media.data i
    dataUsed := media.dataUsed + block }

/-- The loop of `cmd_write`, by the blocks that are left: the size of a block, where the host's bytes
are and how many have been moved. -/
def writeBlocks (command : ScsiCommand) (result : ScsiResult) (block : Nat) :
    Nat → Exb8200 → BitVec 32 → Nat → Exb8200 × ScsiResult
  | 0, drive, _, moved => ({ drive with position := .afterWrite }, { result with transferred := moved })
  | left + 1, drive, address, moved =>
    if drive.media.capacity ≤ drive.media.record.length ∨
        drive.media.dataBytes < (drive.media.dataUsed + block) % 2 ^ 32 then
      { drive with position := .atPeot }.fail { result with transferred := moved }
        { key := keyVolumeOverflow, flags := senseEom
          information := some (BitVec.ofNat 32 (left + 1)) }
    else
      let count := if command.memory.isSome then min block (command.capacity - moved) else 0
      let media := putBlock drive.media block count (command.memory.getD fun _ => 0) address
      writeBlocks command result block left
        { drive with media, index := media.record.length } (address + BitVec.ofNat 32 block)
        (moved + count)

/-- `cmd_write`. -/
def cmdWrite : Exb8200 × ScsiResult :=
  if !drive.mediumReady then drive.notReady result
  else if !drive.media.writable then drive.fail result { key := keyDataProtect }
  else
    let fixed := (command.byte 1).getLsbD 0
    if fixed = decide (drive.mode.blockLength = 0) then drive.illegal result
    else
      let length := (command.be24 2).toNat
      let result := { result with direction := .dataOut }
      let block := if fixed then drive.mode.blockLength.toNat else length
      if length = 0 then (drive, result)
      else if !drive.writableHere then drive.illegal result
      else if !fixed && (block < 1 || drive.blockMax < block) then drive.illegal result
      else
        writeBlocks command result block (if fixed then length else 1) drive.truncateHere
          command.buffer 0

/-- The loop of `cmd_write_filemarks`, by the marks that are left. -/
def writeMarks (result : ScsiResult) (shortMark : Bool) :
    Nat → Exb8200 → Exb8200 × ScsiResult
  | 0, drive => ({ drive with position := .inData }, result)
  | left + 1, drive =>
    if drive.media.capacity ≤ drive.media.record.length then
      { drive with position := .atPeot }.fail result
        { key := keyVolumeOverflow, flags := senseEom
          information := some (BitVec.ofNat 32 (left + 1)) }
    else
      let media :=
        { drive.media with record := drive.media.record ++ [⟨.filemark, 0, 0, shortMark⟩] }
      writeMarks result shortMark left { drive with media, index := media.record.length }

/-- `cmd_write_filemarks`. -/
def cmdWriteFilemarks : Exb8200 × ScsiResult :=
  if !drive.mediumReady then drive.notReady result
  else if !drive.media.writable then drive.fail result { key := keyDataProtect }
  else
    let count := (command.be24 2).toNat
    if count = 0 then
      ({ drive with position := if drive.index = 0 then .atLbot else .inData }, result)
    else if !drive.writableHere && decide (drive.position ≠ .afterWrite) then drive.illegal result
    else
      writeMarks result ((command.byte 5).getLsbD 7) count
        (if drive.position = .afterWrite then drive else drive.truncateHere)

/-- `cmd_space` forward, by the records that are ahead: what is left to pass. -/
def spaceForward (result : ScsiResult) (filemarks : Bool) :
    List TapeRecord → Nat → Exb8200 → Exb8200 × ScsiResult
  | _, 0, drive => (drive, result)
  | [], left + 1, drive =>
    let information := some (BitVec.ofNat 32 (left + 1))
    if filemarks then
      { drive with position := .atPeot }.fail result
        { key := keyMediumError, flags := senseEom, information }
    else drive.fail result { key := keyBlankCheck, information }
  | record :: ahead, left + 1, drive =>
    let passed := { drive with index := drive.index + 1, position := .inData }
    match record.kind, filemarks with
    | .filemark, true => spaceForward result filemarks ahead left passed
    | .filemark, false =>
      passed.fail result
        { key := keyNoSense, flags := senseFmk, information := some (BitVec.ofNat 32 (left + 1)) }
    | .data, true => spaceForward result filemarks ahead (left + 1) passed
    | .data, false => spaceForward result filemarks ahead left passed

/-- `cmd_space` backward, by the position: what is left to pass. -/
def spaceBackward (result : ScsiResult) (filemarks : Bool) :
    Nat → Nat → Exb8200 → Exb8200 × ScsiResult
  | _, 0, drive => (drive, result)
  | 0, left + 1, drive =>
    { drive with position := .atLbot }.fail result
      { key := keyNoSense, flags := senseEom
        information := some (-BitVec.ofNat 32 (left + 1)) }
  | index + 1, left + 1, drive =>
    let passed := { drive with index, position := if index = 0 then .atLbot else .inData }
    match (drive.media.record[index]?).map TapeRecord.kind, filemarks with
    | some .filemark, true => spaceBackward result filemarks index left passed
    | some .filemark, false =>
      passed.fail result
        { key := keyNoSense, flags := senseFmk
          information := some (-BitVec.ofNat 32 (left + 1)) }
    | _, true => spaceBackward result filemarks index (left + 1) passed
    | _, false => spaceBackward result filemarks index left passed

/-- `cmd_space`; the count is signed. -/
def cmdSpace : Exb8200 × ScsiResult :=
  if !drive.mediumReady then drive.notReady result
  else if (command.byte 1).getLsbD 1 then drive.illegal result
  else
    let filemarks := (command.byte 1).getLsbD 0
    let count := (command.be24 2).toInt
    if count = 0 then (drive, result)
    else
      let drive :=
        if drive.position = .afterWrite then { drive with position := .inData } else drive
      if 0 < count then
        spaceForward result filemarks (drive.media.record.drop drive.index) count.toNat drive
      else spaceBackward result filemarks drive.index (-count).toNat drive

/-- `cmd_rewind`. -/
def cmdRewind : Exb8200 × ScsiResult :=
  if !drive.mediumReady then drive.notReady result
  else ({ drive with index := 0, position := .atLbot }, result)

/-- `cmd_load_unload`. -/
def cmdLoadUnload : Exb8200 × ScsiResult :=
  if (command.byte 4).getLsbD 0 then
    if !drive.present then drive.notReady result
    else ({ drive with loaded := true, index := 0, position := .atLbot }, result)
  else
    ({ drive with
        loaded := false, index := 0, position := .inData
        present := drive.present && drive.prevented }, result)

/-- `cmd_erase`. -/
def cmdErase : Exb8200 × ScsiResult :=
  if !drive.mediumReady then drive.notReady result
  else if !drive.media.writable then drive.fail result { key := keyDataProtect }
  else if !(command.byte 1).getLsbD 0 then (drive, result)
  else if !drive.writableHere then drive.illegal result
  else ({ drive.truncateHere with index := 0, position := .atLbot }, result)

/-- `mode_bytes`. -/
def modeBytes : List (BitVec 8) :=
  let blocks := drive.media.blocksToLeot + 0x500
  let length := drive.mode.blockLength.setWidth 32
  [16, drive.media.mediumType,
    (if drive.media.writable then 0 else 0x80) ||| (if drive.mode.buffered then 0x10 else 0), 8,
    0, byteOf blocks 2, byteOf blocks 1, byteOf blocks 0, 0,
    byteOf length 2, byteOf length 1, byteOf length 0,
    drive.mode.vendorFlags, (if drive.mode.p5 then 0x01 else 0), drive.mode.motionThreshold,
    drive.mode.reconnectThreshold, drive.mode.gapThreshold]

/-- `cmd_mode_sense`. -/
def cmdModeSense : Exb8200 × ScsiResult :=
  (drive, command.dataIn result (drive.modeBytes.take (command.byte 4).toNat))

/-- A threshold outside `AP_EXB8200_THRESHOLD_MIN` and `AP_EXB8200_THRESHOLD_MAX`. -/
def outOfRange (threshold : BitVec 8) : Bool := threshold < 0x20 || 0xD0 < threshold

/-- The parameter list, which is read up to its length. -/
def parameterList (command : ScsiCommand) (read : BitVec 32 → BitVec 8) (i : Nat) : BitVec 8 :=
  if i < (command.byte 4).toNat then read (command.buffer + BitVec.ofNat 32 i) else 0

/-- The drive with other mode parameters. -/
def withMode (mode : ModeParameters) : Exb8200 := { drive with mode }

/-- The header and the block descriptor of a parameter list are refused. -/
def headerRefused (list : Nat → BitVec 8) : Bool :=
  decide (1 < (list 2 &&& 0x70) >>> 4) || decide (list 2 &&& 0x0F ≠ 0) ||
    decide (list 3 ≠ 0 ∧ list 3 ≠ 8) ||
    decide (list 3 = 8 ∧ (list 4 ≠ 0 ∨ list 5 ≠ 0 ∨ list 6 ≠ 0 ∨ list 7 ≠ 0))

/-- Where the vendor's bytes begin. -/
def vendorAt (list : Nat → BitVec 8) : Nat := if list 3 = 8 then 12 else 4

/-- The parameters as the list gives them before its thresholds. -/
def storedBefore (mode : ModeParameters) (list : Nat → BitVec 8) (length : Nat) : ModeParameters :=
  let mode :=
    if list 3 = 8 then { mode with blockLength := list 9 ++ list 10 ++ list 11 }
    else mode
  let mode := { mode with buffered := (list 2 &&& 0x70) >>> 4 = 1 }
  let vendor := length - vendorAt list
  let mode := if 1 ≤ vendor then { mode with vendorFlags := list (vendorAt list) } else mode
  if 2 ≤ vendor then { mode with p5 := (list (vendorAt list + 1)).getLsbD 0 } else mode

/-- `cmd_mode_select`. -/
def cmdModeSelect : Exb8200 × ScsiResult :=
  let length := (command.byte 4).toNat
  if ¬ (length = 0 ∨ 4 ≤ length ∧ length ≤ 9 ∨ 0x0C ≤ length ∧ length ≤ 0x11) then
    drive.illegal result
  else
    let result := { result with direction := .dataOut }
    match command.memory with
    | none => (drive, result)
    | some read =>
      if length = 0 then (drive, result)
      else
        let list := parameterList command read
        let result := { result with transferred := length }
        if headerRefused list then drive.illegal result
        else
          let drive := drive.withMode (storedBefore drive.mode list length)
          let vendor := length - vendorAt list
          let motion := list (vendorAt list + 2)
          let reconnect := list (vendorAt list + 3)
          let gap := list (vendorAt list + 4)
          if 3 ≤ vendor ∧ outOfRange motion then drive.illegal result
          else
            let drive :=
              if 3 ≤ vendor then drive.withMode { drive.mode with motionThreshold := motion }
              else drive
            if 4 ≤ vendor ∧ outOfRange reconnect then drive.illegal result
            else
              let drive :=
                if 4 ≤ vendor then drive.withMode { drive.mode with reconnectThreshold := reconnect }
                else drive
              if 5 ≤ vendor then
                (drive.withMode { drive.mode with gapThreshold := if 0x07 < gap then 0x07 else gap },
                  result)
              else (drive, result)

/-- `cmd_receive_diagnostic`. -/
def cmdReceiveDiagnostic : Exb8200 × ScsiResult :=
  let data : List (BitVec 8) :=
    [0, 4, 0, drive.trackingCounter, drive.rereadCounter, drive.writeRecoveryCounter]
  (drive, command.dataIn result (data.take (command.byte 3 ++ command.byte 4).toNat))

/-- `cmd_send_diagnostic`. -/
def cmdSendDiagnostic : Exb8200 × ScsiResult :=
  let test := command.byte 1 &&& 0x07
  let wantsTape := test = 6 ∨ test = 7
  let withoutTape := test = 4 ∨ test = 5
  if ¬ (test = 0 ∨ wantsTape ∨ withoutTape) then drive.illegal result
  else if wantsTape ∧ !drive.loaded then drive.illegal result
  else if withoutTape ∧ drive.present then drive.illegal result
  else if test = 7 ∧ !drive.media.writable then drive.fail result { key := keyDataProtect }
  else
    let drive := if wantsTape then { drive with index := 0, position := .atLbot } else drive
    ({ drive with diagnosticReady := true }, result)

/-- `cmd_prevent_allow`. -/
def cmdPreventAllow : Exb8200 × ScsiResult :=
  ({ drive with prevented := (command.byte 4).getLsbD 0 }, result)

/-! ## Dispatch -/

/-- `common_errors`: a group that is not 0, another unit, or a link or flag bit. -/
def commonError : Bool :=
  decide (command.opcode &&& 0xE0 ≠ 0) ||
    decide ((command.lun ≠ 0 ∨ command.byte 1 &&& 0xE0 ≠ 0) ∧ command.opcode ≠ 0x12) ||
    decide (command.byte 5 &&& 0x03 ≠ 0)

/-- `supported`. -/
def supported (opcode : BitVec 8) : Bool :=
  [0x00, 0x01, 0x03, 0x05, 0x08, 0x0A, 0x10, 0x11, 0x12, 0x15, 0x16, 0x17, 0x19, 0x1A, 0x1B, 0x1C,
    0x1D, 0x1E].contains opcode

/-- A command that neither reports a unit attention nor clears the sense data. -/
def exempt : Bool := command.opcode = 0x12 || command.opcode = 0x03

/-- The command of an opcode. -/
def dispatch : Exb8200 × ScsiResult :=
  match command.opcode with
  | 0x00 => drive.cmdTestUnitReady result
  | 0x01 => drive.cmdRewind result
  | 0x03 => drive.cmdRequestSense command result
  | 0x05 => drive.cmdReadBlockLimits command result
  | 0x08 => drive.cmdRead command result
  | 0x0A => drive.cmdWrite command result
  | 0x10 => drive.cmdWriteFilemarks command result
  | 0x11 => drive.cmdSpace command result
  | 0x12 => drive.cmdInquiry command result
  | 0x15 => drive.cmdModeSelect command result
  | 0x16 => ({ drive with reserved := true }, result)
  | 0x17 => ({ drive with reserved := false }, result)
  | 0x19 => drive.cmdErase command result
  | 0x1A => drive.cmdModeSense command result
  | 0x1B => drive.cmdLoadUnload command result
  | 0x1C => drive.cmdReceiveDiagnostic command result
  | 0x1D => drive.cmdSendDiagnostic command result
  | 0x1E => drive.cmdPreventAllow command result
  | _ => (drive, result)

/-- The sense data is cleared by a command that succeeds. -/
def settle (answer : Exb8200 × ScsiResult) : Exb8200 × ScsiResult :=
  if answer.2.status = .good then
    ({ answer.1 with senseValid := false, sense := List.replicate 26 0 }, answer.2)
  else answer

/-- `exb_execute`. -/
def execute : Option (Exb8200 × ScsiResult) :=
  if command.cdb.length < 6 then none
  else if commonError command || !supported command.opcode then some (drive.illegal .start)
  else if exempt command then some (drive.dispatch command .start)
  else if drive.unitAttention then
    some ({ drive with unitAttention := false },
      { ScsiResult.start with status := .checkCondition, condition := some keyUnitAttention })
  else some (settle (drive.dispatch command .start))

end Exb8200

end Apollo.Device
