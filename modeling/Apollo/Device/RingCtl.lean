import Apollo.Device.I8254
import Apollo.Ring.Station

/-!
# The ring controller card

`src/core/device/ap_ring_ctl.c`: two windows of sixteen register slots, a word buffer of 32K behind a
data port, two 8254s, and a station on the ring. The first window is the node ID PROM when it is read
and acknowledges when it is written; the second has the registers.

A word access reaches the slot at once. A byte access reaches it through one of four latches: the
address registers and the data port hold an even byte until the odd one comes, and the three command
registers merge a byte with the word that was last written.

The window type is shared, as in the source, and `window` picks one of the two. What only the
diagnostic logs and censuses hold is left out.
-/

namespace Apollo.Device

open Apollo.Ring

/-! ## The node ID PROM -/

/-- `ap_nodeid_t`. -/
structure NodeId where
  id : BitVec 32
deriving DecidableEq

namespace NodeId

/-- `ap_nodeid_init`: the identifier has 24 bits. -/
def init (id : BitVec 32) : NodeId := { id := id &&& 0x00FFFFFF }

/-- `AP_NODEID_ADDR`. -/
def addr : BitVec 32 := 0x011200

/-- `ap_nodeid_decode`: even bytes only. -/
def decode (address : BitVec 32) : Option Nat :=
  if address &&& ~~~(0x100 - 1) ≠ addr then none
  else if (address - addr) &&& 1 ≠ 0 then none
  else some (((address - addr) >>> 1).toNat % 16)

/-- `ap_nodeid_checksum`. -/
def checksum (prom : NodeId) : BitVec 8 :=
  BitVec.ofNat 8 ((prom.id >>> 16 &&& 0xFF).toNat + (prom.id >>> 8 &&& 0xFF).toNat +
    (prom.id &&& 0xFF).toNat)

/-- `ap_nodeid_read`. -/
def read (prom : NodeId) (address : BitVec 32) : BitVec 8 :=
  match decode address with
  | none => 0
  | some 0 => (prom.id >>> 24).setWidth 8
  | some 1 => (prom.id >>> 16).setWidth 8
  | some 2 => (prom.id >>> 8).setWidth 8
  | some 3 => prom.id.setWidth 8
  | some 15 => prom.checksum
  | some _ => 0

end NodeId

/-! ## The card's memory -/

/-- `AP_RING_CTL_BUFFER_WORDS`. -/
def bufferWords : Nat := 0x8000

/-- The buffer of a card. -/
abbrev CardBuffer := Fin bufferWords → BitVec 16

namespace CardBuffer

/-- A word of the buffer, if there is one. -/
def word (b : CardBuffer) (i : Nat) : Option (BitVec 16) :=
  if h : i < bufferWords then some (b ⟨i, h⟩) else none

/-- A word read where the source has checked the place. -/
def read (b : CardBuffer) (i : Nat) : BitVec 16 := (b.word i).getD 0

/-- A word written. -/
def store (b : CardBuffer) (i : Nat) (value : BitVec 16) : CardBuffer :=
  fun j => if j.val = i then value else b j

end CardBuffer

/-! ## The registers -/

/-- `AP_RING_CTL_STATUS_IDLE` and the other words of MISC_STAT. -/
def statusIdle : BitVec 16 := 0xF807
def statusPresent : BitVec 16 := 0x8000
def statusBit14 : BitVec 16 := 0x4000
def statusBit13 : BitVec 16 := 0x2000
def statusBit11 : BitVec 16 := 0x0800
def statusStickyErrors : BitVec 16 := 0x0700
def statusGps : BitVec 16 := 0x0008
def statusBit2 : BitVec 16 := 0x0004
def statusBit1 : BitVec 16 := 0x0002
def statusTmi : BitVec 16 := 0x0001

/-- XMIT_STAT: the bits a queued frame forgets, and three bits of its low byte. -/
def xmitOutcome : BitVec 16 := 0x8000 ||| 0x4000 ||| 0x2000 ||| 0x1000 ||| 0x0800
def xmitNct : BitVec 16 := 0x0080
def xmitXt1 : BitVec 16 := 0x0002
def xmitXt0 : BitVec 16 := 0x0001

/-- RCV_STAT: its counter outputs, and `ren`. -/
def rcvRc2 : BitVec 16 := 0x0004
def rcvRc1 : BitVec 16 := 0x0002
def rcvRc0 : BitVec 16 := 0x0001
def rcvRen : BitVec 16 := 0x0040

/-- The bits of MISC_CMD and RCV_CMD that do something. -/
def miscCmdNct : BitVec 16 := 0x0800
def miscCmdLpb : BitVec 16 := 0x0100
def rcvCmdRcv : BitVec 16 := 0x0800

/-- `AP_RING_CTL_ID_6`. -/
def ringCtlId6 : BitVec 8 := 0x36

/-- `AP_RING_CTL_EARLY_ACK_UNCOPIED`. -/
def earlyAckUncopied : BitVec 16 := 0x0002

/-- `AP_RING_CTL_XMIT_HEADER_WORDS`. -/
def xmitHeaderWords : Nat := 6

/-- `AP_RING_CTL_XMIT_HEADER_MAX_BYTES`. -/
def xmitHeaderMaxBytes : Nat := 1024

/-- `AP_RING_FRAME_START_CHARACTERS`. -/
def frameStartCharacters : Nat := 3

/-- The counters, by number: three of timer A and two of timer B. -/
def rcvHdrCnt : Fin 3 := 0
def rcvPktCnt : Fin 3 := 1
def rcvMaxCnt : Fin 3 := 2
def xmitHdrCnt : Fin 3 := 0
def xmitPktCnt : Fin 3 := 1

/-- `ap_ring_ctl_window_t`. -/
structure RingWindow where
  id : BitVec 8 := 0
  slot002 : BitVec 16 := 0
  slot004 : BitVec 16 := 0
  slot406 : BitVec 16 := 0
  pointer : BitVec 16 := 0
  pointerBase : BitVec 16 := 0
  byteLatch : BitVec 8 := 0
  status : BitVec 16 := 0
  command400 : BitVec 16 := 0
  command402 : BitVec 16 := 0
  command404 : BitVec 16 := 0
  lastWrite402 : BitVec 16 := 0
  lastWrite404 : BitVec 16 := 0
  command402Status : BitVec 16 := 0
  command404Status : BitVec 16 := 0
  xmitEnabled : Bool := false
  xmitStatus : BitVec 16 := 0
  rcvStatus : BitVec 16 := 0
  operationPending : Bool := false
  operationOnWire : Bool := false
  loopbackEnabled : Bool := false
  completionDeferred : Bool := false
  connected : Bool := false
  xmitIntendToCopy : Bool := false
  xmitPacket : Bool := false
  portLatch : BitVec 16 := 0
  portWriteHigh : BitVec 8 := 0
  readAhead : BitVec 16 := 0
  timerA : I8254 := .reset
  timerB : I8254 := .reset
deriving DecidableEq

/-- `ap_ring_ctl_t`. -/
structure RingCtl where
  nodeId : BitVec 32 := 0
  a1 : RingWindow := {}
  a2 : RingWindow := {}
  buffer : CardBuffer := fun _ => 0
  present : Bool := true
  station : Option Station := none
  medium : Option Medium := none
  txAckSeen : Bool := false

/-- `ring_ctl_addr`: the two bytes of an address register are swapped. -/
def ringCtlAddr (reg : BitVec 16) : BitVec 16 := (reg &&& 0x00FF) <<< 8 ||| reg >>> 8

/-- The bank of an offset: its bits 11 and 10. -/
def bankOf (offset : BitVec 32) : BitVec 2 := offset.extractLsb' 10 2

/-- The slot of an offset in its bank: its bits 2 and 1. -/
def slotOf (offset : BitVec 32) : BitVec 2 := offset.extractLsb' 1 2

/-- The odd half of a lane. -/
def isOdd (offset : BitVec 32) : Bool := offset.getLsbD 0

/-- `timer_reg`. -/
def timerReg (offset : BitVec 32) : PitRegister :=
  match slotOf offset with
  | 0 => .counter 0
  | 1 => .counter 1
  | 2 => .counter 2
  | _ => .control

/-- Two bytes, the high one first. -/
def wordOctets (word : BitVec 16) : List Byte := [(word >>> 8).setWidth 8, word.setWidth 8]

/-- A word of two bytes, as the odd byte's access assembles it. -/
def joinBytes (high low : BitVec 8) : BitVec 16 := high.setWidth 16 <<< 8 ||| low.setWidth 16

namespace RingWindow

/-- `ring_ctl_complete_operation`. -/
def completeOperation (w : RingWindow) : RingWindow :=
  let status := w.status &&& ~~~(statusBit13 ||| statusBit2 ||| statusBit1 ||| statusBit14)
  { w with
    status := if !w.xmitIntendToCopy then status ||| statusBit1 else status
    operationPending := true
    command402 := 0
    command402Status := w.command402Status &&& ~~~0x0040
    xmitEnabled := false
    command404 := 0
    command404Status :=
      if w.xmitIntendToCopy then w.command404Status &&& ~~~rcvRen else w.command404Status }

/-- The registers of a window behind a reset. -/
def resetRegisters (w : RingWindow) : RingWindow :=
  { w with
    timerA := .reset
    timerB := .reset
    slot002 := 0
    slot004 := 0
    slot406 := 0
    pointer := 0
    readAhead := 0
    portLatch := 0
    portWriteHigh := 0
    command402 := 0
    command404 := 0
    connected := false }

/-- What a fitted card's window answers with behind a reset. -/
def idle (w : RingWindow) : RingWindow :=
  { w with
    id := ringCtlId6
    status := statusIdle
    command402Status := 0x00F0
    command404Status := 0x00E0 }

end RingWindow

namespace RingCtl

/-- `window_of`. -/
def window (c : RingCtl) (second : Bool) : RingWindow := if second then c.a2 else c.a1

/-- One of the windows changed. -/
def onWindow (c : RingCtl) (second : Bool) (f : RingWindow → RingWindow) : RingCtl :=
  if second then { c with a2 := f c.a2 } else { c with a1 := f c.a1 }

/-! ## What a transmit does -/

/-- `ring_ctl_programmed_count`. -/
def programmedCount (pit : I8254) (index : Fin 3) : Nat :=
  let c := pit.counter.get index
  (if c.loadPending then c.latch else c.counter).toNat

/-- The words of the header and of the whole message that the two counters are programmed for. -/
def programmedExtent (pit : I8254) : Nat × Nat :=
  if (pit.counter.get xmitHdrCnt).countWritten then
    (programmedCount pit xmitHdrCnt + 1, programmedCount pit xmitPktCnt + 1)
  else (xmitHeaderWords, xmitHeaderWords)

/-- The bytes of a run of buffer words. -/
def bufferBytes (b : CardBuffer) (start words : Nat) : List Byte :=
  (List.range words).flatMap fun i => wordOctets (b.read (start + i))

/-- The message standing at XMIT_ADDR, if the counters and the buffer agree that there is one. -/
def messageAt (c : RingCtl) : Option FrameFields :=
  let base := (ringCtlAddr c.a2.slot002).toNat
  let (headerWords, totalWords) := programmedExtent c.a2.timerB
  let dataWords := totalWords - headerWords
  if base + xmitHeaderWords > bufferWords then none
  else if headerWords * 2 > xmitHeaderMaxBytes ∨ totalWords < headerWords then none
  else if dataWords * 2 > dataMaxBytes then none
  else if base + headerWords > bufferWords then none
  else if dataWords > 0 ∧ base + headerWords + dataWords > bufferWords then none
  else some {
    header := bufferBytes c.buffer base headerWords
    data := bufferBytes c.buffer (base + headerWords) dataWords
    lateAcknowledge := 0 }

/-- A counter clocked a number of times. -/
def clockTimes (pit : I8254) (index : Fin 3) (n : Nat) : I8254 :=
  (fun p => p.clockCounter index)^[n] pit

/-- What the card notes when the station has taken a message: the last one's outcome is forgotten,
and the transmit counters run out. -/
def messageQueued (c : RingCtl) : RingCtl :=
  let (headerWords, totalWords) := programmedExtent c.a2.timerB
  { c with
    txAckSeen := false
    a2 := { c.a2 with
      xmitStatus := c.a2.xmitStatus &&& ~~~xmitOutcome
      timerB := clockTimes (clockTimes c.a2.timerB xmitHdrCnt headerWords) xmitPktCnt totalWords } }

/-- `ring_ctl_queue_from_buffer`. Its callers have a station. -/
def queueFromBuffer (c : RingCtl) : Bool × RingCtl :=
  match c.messageAt, c.station with
  | some fields, some station =>
    let (queued, station) := station.queueFrame fields
    let c := { c with station := some station }
    if queued then (true, c.messageQueued) else (false, c)
  | _, _ => (false, c)

/-- `ring_ctl_loopback`: the six words of a received header, two of them the card's own. -/
def loopback (c : RingCtl) : RingCtl :=
  let source := (ringCtlAddr c.a2.slot002).toNat
  let dest := (ringCtlAddr c.a2.slot004).toNat
  if source + 3 > bufferWords ∨ dest + 6 > bufferWords then c
  else
    let destHi := c.buffer.read source
    let destLo := c.buffer.read (source + 1)
    let type := c.buffer.read (source + 2)
    { c with
      buffer := (((((c.buffer.store dest destHi).store (dest + 1) destLo).store (dest + 2)
        type).store (dest + 3) earlyAckUncopied).store (dest + 4) destHi).store (dest + 5) destLo }

/-- The words of a block moved up, the last one first. -/
def moveWords (b : CardBuffer) (source dest : Nat) : Nat → CardBuffer
  | 0 => b
  | count + 1 => moveWords (b.store (dest + count) (b.read (source + count))) source dest count

/-- `ring_ctl_block_move`. -/
def blockMove (c : RingCtl) : RingCtl :=
  let source := c.a2.pointerBase.toNat
  let dest := source + (ringCtlAddr c.a2.slot004).toNat
  let count := (c.a2.timerB.counter.get xmitPktCnt).latch.toNat
  if count = 0 ∨ dest + count > bufferWords then c
  else
    let c := { c with buffer := moveWords c.buffer source dest count }
    if c.a2.xmitPacket then
      let c := c.loopback
      { c with a2 := { c.a2 with xmitPacket := false } }
    else c

/-- `ring_ctl_defer_completion`. -/
def deferCompletion (c : RingCtl) (w : RingWindow) (queued : Bool) : Bool :=
  queued && c.medium.isSome && c.station.isSome && !w.loopbackEnabled

/-! ## Word accesses -/

/-- `ring_ctl_prom_word`. -/
def promWord (c : RingCtl) (offset : BitVec 32) : BitVec 16 :=
  if !c.present then 0xFFFF
  else
    let reg : BitVec 4 := bankOf offset ++ slotOf offset
    ((NodeId.init c.nodeId).read (NodeId.addr + (reg.setWidth 32 <<< 1))).setWidth 16 <<< 8

/-- The data port read: the word that was fetched last, and another is fetched. -/
def readPort (c : RingCtl) : BitVec 16 × RingCtl :=
  (c.a2.readAhead,
    { c with a2 := { c.a2 with
      readAhead := (c.buffer.word c.a2.pointer.toNat).getD 0xFFFF
      pointer := c.a2.pointer + 1 } })

/-- The data port written. -/
def writePort (c : RingCtl) (value : BitVec 16) : RingCtl :=
  { c with
    buffer := c.buffer.store c.a2.pointer.toNat value
    a2 := { c.a2 with pointer := c.a2.pointer + 1 } }

/-- XMIT_STAT. -/
def xmitStat (w : RingWindow) : BitVec 16 :=
  w.xmitStatus &&& 0xFF00 |||
    (w.command402Status &&& ~~~(xmitNct ||| xmitXt1 ||| xmitXt0) |||
      (if w.connected then 0 else xmitNct) |||
      (if w.timerB.out xmitHdrCnt then xmitXt1 else 0) |||
      (if w.timerB.out xmitPktCnt then xmitXt0 else 0))

/-- RCV_STAT. -/
def rcvStat (w : RingWindow) : BitVec 16 :=
  w.rcvStatus &&& 0xFF00 |||
    w.command404Status &&& ~~~(rcvRc2 ||| rcvRc1 ||| rcvRc0) |||
    (if w.timerA.out rcvMaxCnt then rcvRc2 else 0) |||
    (if w.timerA.out rcvPktCnt then rcvRc1 else 0) |||
    (if w.timerA.out rcvHdrCnt then rcvRc0 else 0)

/-- The word of a slot of the ID bank. -/
def readIdBank (c : RingCtl) (offset : BitVec 32) : BitVec 16 :=
  match slotOf offset with
  | 0 => (if c.present then c.a2.id else 0xFF).setWidth 16 <<< 8 ||| 0x00FF
  | 1 => c.a2.slot002
  | 2 => c.a2.slot004
  | _ => ringCtlAddr c.a2.pointer

/-- The word of a slot of the status bank. -/
def readStatusBank (c : RingCtl) (offset : BitVec 32) : BitVec 16 × RingCtl :=
  match slotOf offset with
  | 0 => (if c.present then c.a2.status else 0, c)
  | 1 => (xmitStat c.a2, c)
  | 2 => (rcvStat c.a2, c)
  | _ => c.readPort

/-- One byte of a timer: the odd half of its lane is not driven. -/
def readTimer (c : RingCtl) (bank : BitVec 2) (offset : BitVec 32) : BitVec 8 × RingCtl :=
  if isOdd offset then (0xFF, c)
  else if bank = 2 then
    let (value, timerA) := c.a2.timerA.read (timerReg offset)
    (value, { c with a2 := { c.a2 with timerA } })
  else
    let (value, timerB) := c.a2.timerB.read (timerReg offset)
    (value, { c with a2 := { c.a2 with timerB } })

/-- `ap_ring_ctl_read16`. A timer's word is its two bytes. -/
def read16 (c : RingCtl) (second : Bool) (offset : BitVec 32) : BitVec 16 × RingCtl :=
  if !second then (c.promWord offset, c)
  else
    match bankOf offset with
    | 0 => (c.readIdBank offset, c)
    | 1 => c.readStatusBank offset
    | bank =>
      let (high, c) := c.readTimer bank offset
      let (low, c) := c.readTimer bank (offset ||| 1)
      (joinBytes high low, c)

/-- `ap_ring_ctl_read8`. -/
def read8 (c : RingCtl) (second : Bool) (offset : BitVec 32) : BitVec 8 × RingCtl :=
  if !second then
    (if isOdd offset then if c.present then 0x00 else 0xFF
      else (c.promWord offset >>> 8).setWidth 8, c)
  else
    match bankOf offset with
    | 0 =>
      if slotOf offset = 0 then
        (if c.present then if isOdd offset then 0x00 else c.a2.id else 0xFF, c)
      else if isOdd offset then (0xFF, c)
      else
        let (value, c) := c.read16 second offset
        ((value >>> 8).setWidth 8, c)
    | 1 =>
      if slotOf offset = 3 then
        if isOdd offset then (c.a2.portLatch.setWidth 8, c)
        else
          let (value, c) := c.read16 second (offset &&& ~~~1)
          ((value >>> 8).setWidth 8, { c with a2 := { c.a2 with portLatch := value } })
      else
        let (value, c) := c.read16 second (offset &&& ~~~1)
        (if isOdd offset then value.setWidth 8 else (value >>> 8).setWidth 8, c)
    | bank => c.readTimer bank offset

/-! ## Writes -/

/-- `ring_ctl_reset_registers`. -/
def resetRegisters (c : RingCtl) : RingCtl :=
  let a1 := c.a1.resetRegisters
  let a2 := { c.a2.resetRegisters with operationPending := false }
  if !c.present then { c with a1 := { a1 with status := 0 }, a2 := { a2 with status := 0 } }
  else { c with a1 := a1.idle, a2 := a2.idle }

/-- `ap_ring_ctl_board_reset`. -/
def boardReset (c : RingCtl) : RingCtl := { c with buffer := fun _ => 0 }.resetRegisters

/-- One pulse of the transfer that an acknowledged internal loop has made. The receive header counter
misses the frame start sequence. -/
def loopPulse (w : RingWindow) (i : Nat) : RingWindow :=
  let timerA := (w.timerA.clockCounter rcvPktCnt).clockCounter rcvMaxCnt
  { w with
    timerA := if frameStartCharacters ≤ i then timerA.clockCounter rcvHdrCnt else timerA
    timerB := (w.timerB.clockCounter xmitHdrCnt).clockCounter xmitPktCnt }

/-- XMIT_ACK: what finishes an operation that has completed. -/
def xmitAck (c : RingCtl) : RingCtl :=
  let w := c.a2
  if w.operationPending then
    let w := { w with
      status := w.status ||| (statusBit2 ||| statusBit13 ||| statusGps)
      operationPending := false }
    let events := if w.operationOnWire then 0 else (w.timerB.counter.get xmitPktCnt).latch.toNat + 1
    { c with a2 := (List.range events).foldl loopPulse w }
  else { c with a2 := { w with status := w.status ||| statusBit2 } }

/-- A word written to the ID bank. -/
def writeIdBank (c : RingCtl) (second : Bool) (offset : BitVec 32) (value : BitVec 16) : RingCtl :=
  match slotOf offset with
  | 0 => if second then c.boardReset else c
  | 1 =>
    let c := c.onWindow second fun w => { w with slot002 := value }
    if second then c else c.xmitAck
  | 2 =>
    let c := if second then c else { c with a2 := { c.a2 with status := c.a2.status ||| statusBit1 } }
    c.onWindow second fun w => { w with slot004 := value }
  | _ =>
    if second then
      { c with a2 := { c.a2 with pointer := ringCtlAddr value, pointerBase := ringCtlAddr value } }
    else { c with a2 := { c.a2 with status := c.a2.status ||| statusTmi } }

/-- A word written to the first window's second bank: four clears and requests. -/
def writeClears (c : RingCtl) (offset : BitVec 32) (value : BitVec 16) : RingCtl :=
  match slotOf offset with
  | 0 => { c with a2 := { c.a2 with status := c.a2.status &&& ~~~statusStickyErrors } }
  | 1 => { c with a2 := { c.a2 with status := c.a2.status &&& ~~~statusGps } }
  | 2 => { c with a1 := { c.a1 with command404 := value } }
  | _ => { c with a1 := { c.a1 with slot406 := value } }

/-- MISC_CMD: the connection and the loopback, and the bypass relay with the connection. -/
def writeMiscCmd (c : RingCtl) (value : BitVec 16) : RingCtl :=
  let connected := value &&& miscCmdNct != 0
  let medium :=
    match c.station, c.medium with
    | some station, some medium => some (medium.setBypass station.slot !connected)
    | _, medium => medium
  { c with
    medium
    a2 := { c.a2 with
      command400 := value
      connected
      status := c.a2.status &&& ~~~(statusBit11 ||| statusPresent) |||
        (if c.present && !connected then statusPresent else 0)
      loopbackEnabled := value &&& miscCmdLpb != 0 } }

/-- The part of XMIT_CMD that works on the buffer: a packet transmit is armed, and a transmit enable
moves the block. -/
def xmitMoves (c : RingCtl) (value : BitVec 16) : RingCtl :=
  let c := { c with a2 := { c.a2 with command402 := value } }
  let c :=
    if value &&& 0x0100 != 0 then
      let src := (ringCtlAddr c.a2.slot002).toNat
      let intends := if src + 4 ≤ bufferWords then
          c.buffer.read (src + 3) &&& earlyIntendToCopy.setWidth 16 != 0
        else c.a2.xmitIntendToCopy
      { c with a2 := { c.a2 with xmitIntendToCopy := intends, xmitPacket := true } }
    else c
  if value &&& 0x0200 != 0 then c.blockMove else c

/-- Whether a command asks for a transmit: the high lane, whole. -/
def wantsTransmit (value : BitVec 16) : Bool :=
  value &&& 0xFF00 == 0x0200 || value &&& 0xFF00 == 0x0600

/-- The part of XMIT_CMD that hands the station a frame: the enable's rising edge, on a connected card
with its loopback off. -/
def xmitQueues (c : RingCtl) (value : BitVec 16) : Bool × RingCtl :=
  let rising := wantsTransmit value && !c.a2.xmitEnabled
  let c := { c with a2 := { c.a2 with lastWrite402 := value, xmitEnabled := wantsTransmit value } }
  if c.station.isSome && !c.a2.loopbackEnabled && c.a2.connected && rising then c.queueFromBuffer
  else (false, c)

/-- The part of XMIT_CMD that completes an operation, or leaves it to the ring. -/
def xmitCompletes (c : RingCtl) (value : BitVec 16) (queued : Bool) : RingCtl :=
  let w := c.a2
  if !w.completionDeferred &&
      (value &&& 0x0400 != 0 || (value &&& 0x0200 != 0 && !w.loopbackEnabled)) then
    if c.deferCompletion w queued then { c with a2 := { w with completionDeferred := true } }
    else { c with a2 := { w.completeOperation with operationOnWire := false } }
  else c

/-- XMIT_CMD. -/
def writeXmitCmd (c : RingCtl) (value : BitVec 16) : RingCtl :=
  let (queued, c) := (c.xmitMoves value).xmitQueues value
  c.xmitCompletes value queued

/-- RCV_CMD: the receive enable, and the station's. -/
def writeRcvCmd (c : RingCtl) (value : BitVec 16) : RingCtl :=
  let enable := value &&& rcvCmdRcv != 0
  { c with
    station := c.station.map fun s => s.setReceiveEnabled enable
    a2 := { c.a2 with
      lastWrite404 := value
      command404 := value
      command404Status :=
        if enable then c.a2.command404Status ||| rcvRen else c.a2.command404Status &&& ~~~rcvRen } }

/-- A word written to the second window's status bank. -/
def writeStatusBank (c : RingCtl) (offset : BitVec 32) (value : BitVec 16) : RingCtl :=
  match slotOf offset with
  | 0 => c.writeMiscCmd value
  | 1 => c.writeXmitCmd value
  | 2 => c.writeRcvCmd value
  | _ => c.writePort value

/-- One byte written to a timer: even bytes of the second window. -/
def writeTimer (c : RingCtl) (second : Bool) (bank : BitVec 2) (offset : BitVec 32)
    (value : BitVec 8) : RingCtl :=
  if isOdd offset || !second then c
  else if bank = 2 then
    { c with a2 := { c.a2 with timerA := c.a2.timerA.write (timerReg offset) value } }
  else { c with a2 := { c.a2 with timerB := c.a2.timerB.write (timerReg offset) value } }

/-- `ap_ring_ctl_write16`. -/
def write16 (c : RingCtl) (second : Bool) (offset : BitVec 32) (value : BitVec 16) : RingCtl :=
  match bankOf offset with
  | 0 => c.writeIdBank second offset value
  | 1 => if second then c.writeStatusBank offset value else c.writeClears offset value
  | bank =>
    (c.writeTimer second bank offset ((value >>> 8).setWidth 8)).writeTimer second bank (offset ||| 1)
      (value.setWidth 8)

/-- The word a byte of the status bank is merged with, and the card behind reading it. -/
def heldWord (c : RingCtl) (second : Bool) (offset : BitVec 32) : BitVec 16 × RingCtl :=
  match slotOf offset with
  | 0 => ((c.window second).command400, c)
  | 1 => ((c.window second).lastWrite402, c)
  | 2 => ((c.window second).lastWrite404, c)
  | _ => c.read16 second (offset &&& ~~~1)

/-- `ap_ring_ctl_write8`. -/
def write8 (c : RingCtl) (second : Bool) (offset : BitVec 32) (value : BitVec 8) : RingCtl :=
  match bankOf offset with
  | 0 =>
    if slotOf offset = 0 then c
    else if !isOdd offset then c.onWindow second fun w => { w with byteLatch := value }
    else c.write16 second (offset &&& ~~~1) (joinBytes (c.window second).byteLatch value)
  | 1 =>
    if second && slotOf offset == 3 then
      if !isOdd offset then { c with a2 := { c.a2 with portWriteHigh := value } }
      else c.write16 second (offset &&& ~~~1) (joinBytes c.a2.portWriteHigh value)
    else
      let (held, c) := c.heldWord second offset
      let merged := if isOdd offset then held &&& 0xFF00 ||| value.setWidth 16
        else held &&& 0x00FF ||| value.setWidth 16 <<< 8
      c.write16 second (offset &&& ~~~1) merged
  | bank => c.writeTimer second bank offset value

end RingCtl

end Apollo.Device
