import Apollo.Ring.Frame

/-!
# The receive half of a ring station

`src/core/ring/ap_ring_station.c`, the part of `ap_ring_station_receive` that follows
a passing frame: six states between the characters, stuffing undone one bit at a
time, the header and data captured, and the two acknowledge fields rewritten as they
go by.

`Receiver.step` takes one received bit with the character that ends on it, if one
does. It answers the bit to forward, and the late acknowledge byte when its last bit
has arrived. The counters that C keeps in an `unsigned` and that a stream can run
without bound wrap at 32 bits.
-/

namespace Apollo.Ring

open Apollo.Lib

/-- Where the capture of a frame has got to. -/
inductive RxState
  | idle
  | awaitSeparator
  | header
  | body
  | fcs
  | late
deriving DecidableEq, Repr

/-- The receive fields of `ap_ring_station_t`. `header` is `rx_header` up to
`rx_header_len`, and `buffer` the lent memory, which may be longer than the lent
`capacity`. -/
structure Receiver where
  address : BitVec 32 := 0
  receiveEnabled : Bool := true
  state : RxState := .idle
  onesRun : Nat := 0
  bitCount : Nat := 0
  byte : Byte := 0
  header : List Byte := []
  addressed : Bool := false
  buffer : Option (List Byte) := none
  capacity : Nat := 0
  bytes : Nat := 0
  headerBytes : Nat := 0
  overrun : Bool := false
  headerBits : Nat := 0
  flippedParity : Bool := false
  separators : Nat := 0
  fcsBits : Nat := 0
  lateBits : Nat := 0
  late : Byte := 0
  frameError : Bool := false
  framesCopied : Nat := 0
  framesWacked : Nat := 0
  framesSeen : Nat := 0
  framesAddressed : Nat := 0
deriving DecidableEq

/-- One more, in an `unsigned`. -/
def unsignedSucc (n : Nat) : Nat := (n + 1) % 2 ^ 32

/-- Shift a bit into a byte. -/
def Receiver.shiftBit (byte : Byte) (bit : Bool) : Byte := byte <<< 1 ||| (if bit then 1 else 0)

namespace Receiver

/-- A frame start character: whatever was going on, a frame begins. -/
def frameStart (r : Receiver) : Receiver :=
  { r with
    state := .awaitSeparator
    addressed := false
    flippedParity := false
    separators := 0
    frameError := false
    framesSeen := r.framesSeen + 1 }

/-- A separator character inside a frame: the three of them delimit the sequences. -/
def separator (r : Receiver) : Receiver :=
  let r := { r with separators := unsignedSucc r.separators }
  let r :=
    if r.separators = 2 then
      { r with headerBytes := r.bytes, onesRun := 0, bitCount := 0, byte := 0 }
    else r
  if r.separators = 3 then
    { r with state := .fcs, fcsBits := 0, onesRun := 0, lateBits := 0, late := 0 }
  else if r.separators = 1 then
    { r with
      state := .header
      onesRun := 0
      bitCount := 0
      byte := 0
      header := []
      headerBits := 0
      bytes := 0
      headerBytes := 0
      overrun := false }
  else { r with state := .body }

/-- A whole byte into the lent buffer; a full buffer is an overrun, and no buffer
at all is not. -/
def capture (r : Receiver) (byte : Byte) : Receiver :=
  if r.bytes < r.capacity then
    { r with buffer := r.buffer.map (·.set r.bytes byte), bytes := r.bytes + 1 }
  else if r.buffer.isSome then { r with overrun := true }
  else r

/-- The receive decision, taken from the first six header bytes: the broadcast bit
is looked at first. -/
def receiveDecision (r : Receiver) : Receiver :=
  let dest := readBe32 r.header hdrDestination
  let type := r.header.getD (hdrType + 1) 0 ++ r.header.getD hdrType 0
  let addressed := type &&& typeBroadcast != 0 || dest == r.address
  { r with
    addressed
    framesAddressed := if addressed then r.framesAddressed + 1 else r.framesAddressed }

/-- A destuffed bit of the frame check sequence: 32 bits and the null separator. -/
def fcsBit (r : Receiver) : Receiver :=
  let r := { r with fcsBits := r.fcsBits + 1 }
  if 40 ≤ r.fcsBits then { r with state := .late } else r

/-- The ones the loop over the six bits above the parity bit counts. -/
def lateOnes (late : Byte) : Nat :=
  (List.range 6).foldl (fun ones b => if late.getLsbD b then ones + 1 else ones) 0

/-- What a destuffed bit of the late acknowledge is sent on as. -/
def lateOut (r : Receiver) (bit : Bool) : Bool :=
  if r.addressed && r.lateBits == 1 && r.receiveEnabled then true
  else if r.addressed && r.lateBits == 2 && !r.receiveEnabled then true
  else if r.addressed && r.lateBits == 4 then true
  else if r.frameError && r.lateBits == 5 then true
  else if r.lateBits == 6 then lateOnes r.late % 2 == 0
  else bit

/-- A destuffed bit of the late acknowledge. The eighth completes the frame, and the
byte is what the station sent on. -/
def lateBit (r : Receiver) (stripping bit : Bool) : Receiver × Bool × Option Byte :=
  let out := r.lateOut bit
  let r := { r with late := shiftBit r.late out, lateBits := r.lateBits + 1 }
  if 8 ≤ r.lateBits then
    let r :=
      -- a station does not copy its own frame
      if r.addressed && !stripping then
        if r.receiveEnabled then { r with framesCopied := r.framesCopied + 1 }
        else { r with framesWacked := r.framesWacked + 1 }
      else r
    ({ r with state := .idle }, out, some r.late)
  else (r, out, none)

/-- The early acknowledge, header byte 7, in flight: an addressed station sets
intend-to-copy and keeps the parity odd. -/
def headerOut (r : Receiver) (bit : Bool) : Receiver × Bool :=
  let dataBit := r.headerBits
  let r := { r with headerBits := unsignedSucc r.headerBits }
  if r.addressed && 56 ≤ dataBit && dataBit < 64 then
    if dataBit - 56 = 4 then
      if !bit then ({ r with flippedParity := true }, true) else (r, bit)
    else if dataBit - 56 = 6 && r.flippedParity then (r, !bit)
    else (r, bit)
  else (r, bit)

/-- Shift a destuffed bit into the byte being assembled. A whole byte is handed to
`whole`. -/
def assemble (r : Receiver) (bit : Bool) (whole : Receiver → Byte → Receiver) : Receiver :=
  let r := { r with byte := shiftBit r.byte bit, bitCount := r.bitCount + 1 }
  if r.bitCount = 8 then whole { r with bitCount := 0, byte := 0 } r.byte else r

/-- A whole header byte. -/
def headerByte (r : Receiver) (byte : Byte) : Receiver :=
  let r := if r.header.length < 8 then { r with header := r.header ++ [byte] } else r
  let r := r.capture byte
  if r.header.length = 6 then r.receiveDecision else r

/-- A destuffed header bit. -/
def headerBit (r : Receiver) (bit : Bool) : Receiver × Bool :=
  let (r, out) := r.headerOut bit
  (r.assemble bit headerByte, out)

/-- A destuffed data bit. -/
def bodyBit (r : Receiver) (bit : Bool) : Receiver := r.assemble bit capture

/-- One bit of a sequence, by state. -/
def dataBit (r : Receiver) (stripping bit : Bool) : Receiver × Bool × Option Byte :=
  match r.state with
  | .fcs => (r.fcsBit, bit, none)
  | .late => r.lateBit stripping bit
  | .header => let (r, out) := r.headerBit bit; (r, out, none)
  | .body => (r.bodyBit bit, bit, none)
  | .idle | .awaitSeparator => (r, bit, none)

/-- The receive path of `ap_ring_station_receive` for one bit. -/
def step (r : Receiver) (stripping : Bool) (symbol : Option Symbol) (bit : Bool) :
    Receiver × Bool × Option Byte :=
  if symbol = some Oob.frameStart.symbol then (r.frameStart, bit, none)
  else if symbol = some Oob.separator.symbol ∧ r.state ≠ .idle then (r.separator, bit, none)
  else if r.state = .idle ∨ r.state = .awaitSeparator then (r, bit, none)
  else
    let stuffed := stuffAfterOnes ≤ r.onesRun && !bit
    let r := { r with onesRun := if bit then unsignedSucc r.onesRun else 0 }
    if stuffed then (r, bit, none) else r.dataBit stripping bit

end Receiver

end Apollo.Ring
