import Apollo.Ring.Frame
import Apollo.Ring.Medium
import Apollo.Ring.Receiver

/-!
# A ring station

`src/core/ring/ap_ring_station.c`: one bit out and one bit in per bit time. A station
forwards the bit it received one bit time ago, unless it is sourcing a character,
driving the bits of its own frame, or padding with zeros what it strips.

`driveBit` is the decision of `ap_ring_station_drive` without the line coding, and
`receiveBit` that of `ap_ring_station_receive` with the bit already decoded. Counters
that C keeps in 64 bits are natural numbers here: at one step per bit time none of
them comes round.
-/

namespace Apollo.Ring

open Apollo.Lib

/-- `AP_RING_STRIP_TIMEOUT_BITS`: 2^14 bytes. -/
def stripTimeoutBits : Nat := 16384 * 8

/-- `AP_RING_TOKEN_LOSS_TIMEOUT_BITS`. -/
def tokenLossTimeoutBits : Nat := stripTimeoutBits

/-- The transmit fields of `ap_ring_station_t`. The lent buffer's length is the
capacity. -/
structure Transmitter where
  bits : Option (List Byte) := none
  bitCount : Nat := 0
  bitPos : Nat := 0
  armed : Bool := false
  seenOwnFrameStart : Bool := false
  strippedOwn : Nat := 0
  ack : Byte := 0
  ackValid : Bool := false
deriving DecidableEq

/-- `ap_ring_station_t`. -/
structure Station where
  slot : Int
  tx : Transmitter := {}
  rx : Receiver := {}
  window : Symbol := 0
  bitsSeen : Nat := 0
  pendingBit : Bool := false
  pendingValid : Bool := false
  txLevel : Bool := false
  rxLevel : Bool := false
  rxLevelValid : Bool := false
  wantsRing : Bool := false
  holdsRing : Bool := false
  stripping : Bool := false
  sawBiphaseError : Bool := false
  bitsSinceToken : Nat := 0
  bitsStripping : Nat := 0
  stripTimeouts : Nat := 0
  forcedTokens : Nat := 0
  originateSymbol : Symbol := 0
  originateLeft : Nat := 0
  tokensSeen : Nat := 0
  claimsMade : Nat := 0
  bitsForwarded : Nat := 0
deriving DecidableEq

namespace Station

/-- `ap_ring_station_init`. -/
def init (slot : Int) : Station := { slot }

/-- `ap_ring_station_set_address`. -/
def setAddress (s : Station) (address : BitVec 32) : Station :=
  { s with rx := { s.rx with address } }

/-- `ap_ring_station_set_receive_enabled`. -/
def setReceiveEnabled (s : Station) (receiveEnabled : Bool) : Station :=
  { s with rx := { s.rx with receiveEnabled } }

/-- `ap_ring_station_attach_tx`. -/
def attachTx (s : Station) (bits : Option (List Byte)) : Station :=
  { s with tx := { s.tx with bits, bitCount := 0, bitPos := 0, armed := false } }

/-- `ap_ring_station_attach_rx`. -/
def attachRx (s : Station) (buffer : Option (List Byte)) (capacity : Nat) : Station :=
  { s with rx := { s.rx with buffer, capacity, bytes := 0, overrun := false } }

/-- `ap_ring_station_queue_frame`. A refused frame has already been written over
the lent buffer. -/
def queueFrame (s : Station) (fields : FrameFields) : Bool × Station :=
  match s.tx.bits with
  | none => (false, s)
  | some bytes =>
    match frameEmit (.init bytes) fields with
    | (false, w) => (false, { s with tx := { s.tx with bits := some w.bytes } })
    | (true, w) =>
      (true,
        { s with
          tx := {
            bits := some w.bytes
            bitCount := w.bitCount
            bitPos := 0
            armed := true
            seenOwnFrameStart := false
            strippedOwn := 0
            ack := 0
            ackValid := false }
          wantsRing := true })

/-- `ap_ring_station_transmit_ack`. -/
def transmitAck (s : Station) : Option Byte := if s.tx.ackValid then some s.tx.ack else none

/-- `ap_ring_station_originate_token`. -/
def originateToken (s : Station) (symbol : Symbol) : Station :=
  { s with originateSymbol := symbol, originateLeft := oobBits }

/-- `window_holds_free_token`. -/
def windowHoldsFreeToken (s : Station) : Bool :=
  oobBits ≤ s.bitsSeen && s.window == Oob.freeToken.symbol

/-- `ap_ring_station_at_symbol`. -/
def atSymbol (s : Station) : Option Symbol :=
  if s.bitsSeen < oobBits then none
  else if !oobWellFormed s.window then none
  else some s.window

/-! ## Driving -/

/-- Why a bit is driven, which decides whether stripping may write over it. -/
inductive Source
  | originated
  | claimed
  | forwarded
deriving DecidableEq, Repr

/-- The claim: the free token's last bit is the one being driven now. -/
def claim (s : Station) : Station :=
  { s with
    holdsRing := true
    wantsRing := false
    claimsMade := s.claimsMade + 1
    stripping := true
    bitsStripping := 0 }

/-- The first half of `ap_ring_station_drive`: a character's bit, or the received
one. -/
def sourceBit (s : Station) : Bool × Source × Station :=
  if 0 < s.originateLeft then
    (s.originateSymbol.getLsbD (s.originateLeft - 1), .originated,
      { s with originateLeft := s.originateLeft - 1 })
  else if s.pendingValid then
    if s.wantsRing && !s.holdsRing && s.windowHoldsFreeToken then
      (true, .claimed, { s.claim with bitsForwarded := s.bitsForwarded + 1 })
    else (s.pendingBit, .forwarded, { s with bitsForwarded := s.bitsForwarded + 1 })
  else (false, .forwarded, s)

/-- One bit time of stripping, and the timeout that ends it. -/
def countStripping (s : Station) : Station :=
  let s := { s with bitsStripping := s.bitsStripping + 1 }
  if stripTimeoutBits ≤ s.bitsStripping then
    { s with stripping := false, holdsRing := false, stripTimeouts := s.stripTimeouts + 1 }
  else s

/-- The next bit of the assembled frame. Behind the last one a new free token is
queued. -/
def frameBit (s : Station) : Bool × Station :=
  let bit := bitAt (s.tx.bits.getD []) s.tx.bitPos
  let s := { s with tx := { s.tx with bitPos := s.tx.bitPos + 1 } }
  if s.tx.bitCount ≤ s.tx.bitPos then
    (bit, { s with tx := { s.tx with armed := false } }.originateToken Oob.freeToken.symbol)
  else (bit, s)

/-- A frame is waiting to be driven, or partly driven. -/
def hasFrameBit (s : Station) : Bool := s.tx.armed && s.tx.bitPos < s.tx.bitCount

/-- A ring without a token: after the timeout a station that wants to transmit makes
a claimed one. -/
def forceToken (s : Station) : Station :=
  if s.wantsRing && !s.holdsRing && s.originateLeft == 0 && tokenLossTimeoutBits ≤ s.bitsSinceToken
  then
    { s.originateToken Oob.claimedToken.symbol with
      holdsRing := true
      wantsRing := false
      forcedTokens := s.forcedTokens + 1
      bitsSinceToken := 0
      stripping := true
      bitsStripping := 0 }
  else s

/-- The bit `ap_ring_station_drive` puts on the line, and the station behind it. -/
def driveBit (s : Station) : Bool × Station :=
  match s.sourceBit with
  | (bit, source, s) =>
    if s.stripping && source == .forwarded then
      if s.hasFrameBit then
        let (bit, s) := s.frameBit
        (bit, s.countStripping)
      else (false, s.countStripping.forceToken)
    else (bit, s.forceToken)

/-- The cell `ap_ring_station_drive` puts on the line. -/
def driveCell (s : Station) : Cell × Station :=
  let (bit, s) := s.driveBit
  let cell := biphaseEncode bit s.txLevel
  (cell, { s with txLevel := cell.trailingLevel })

/-! ## Receiving -/

/-- The bit enters the window. -/
def shiftWindow (s : Station) (bit : Bool) : Station :=
  { s with
    window := (s.window <<< 1 ||| (if bit then 1 else 0)) &&& 0x1FF
    bitsSeen := if s.bitsSeen < oobBits then s.bitsSeen + 1 else s.bitsSeen }

/-- A station that strips counts its own frame's bits from the frame start on, and
stops with the first bit behind them. -/
def watchOwnFrame (s : Station) : Station :=
  if s.stripping && 0 < s.tx.bitCount then
    if !s.tx.seenOwnFrameStart then
      if s.atSymbol = some Oob.frameStart.symbol then
        { s with tx := { s.tx with seenOwnFrameStart := true, strippedOwn := 0 } }
      else s
    else if s.tx.bitCount ≤ s.tx.strippedOwn + oobBits then
      { s with
        stripping := false
        holdsRing := false
        tx := { s.tx with seenOwnFrameStart := false } }
    else { s with tx := { s.tx with strippedOwn := s.tx.strippedOwn + 1 } }
  else s

/-- Any token resets the loss timer, and free ones are counted. -/
def watchTokens (s : Station) : Station :=
  let s := { s with bitsSinceToken := s.bitsSinceToken + 1 }
  if s.atSymbol = some Oob.freeToken.symbol then
    { s with bitsSinceToken := 0, tokensSeen := s.tokensSeen + 1 }
  else if s.atSymbol = some Oob.claimedToken.symbol then { s with bitsSinceToken := 0 }
  else s

/-- The receive path: what it forwards is driven next bit time, and a late
acknowledge that completes while the station strips its own frame is that frame's. -/
def followFrame (s : Station) (bit : Bool) : Station :=
  match s.rx.step s.stripping s.atSymbol bit with
  | (rx, forwardBit, completed) =>
    let s := { s with rx, pendingBit := forwardBit, pendingValid := true }
    match completed with
    | some late =>
      if s.stripping && s.tx.seenOwnFrameStart then
        { s with tx := { s.tx with ack := late, ackValid := true } }
      else s
    | none => s

/-- One received bit. -/
def receiveBit (s : Station) (bit : Bool) : Station :=
  (((s.shiftWindow bit).watchOwnFrame).watchTokens).followFrame bit

/-- A bi-phase error, which the frame's late acknowledge will report. -/
def noteError (s : Station) : Station :=
  { s with sawBiphaseError := true, rx := { s.rx with frameError := true } }

/-- `ap_ring_station_receive` on a given cell. The first cell is read as if the line
had been idle at the opposite level. -/
def receiveCell (s : Station) (cell : Cell) : Station :=
  let level := if s.rxLevelValid then s.rxLevel else !cell.clockWindow
  let (bit, error) := biphaseDecode cell level
  let s := if error then s.noteError else s
  { s with rxLevel := cell.trailingLevel, rxLevelValid := true }.receiveBit bit

end Station

end Apollo.Ring
