import Apollo.Ring.Mac

/-!
# The token ring's frame fields

`src/core/ring/ap_ring_frame.c`: the packet header's layout, the two acknowledge
fields with their odd parity, the 32-bit frame check and the length rules.

The frame check is MSB-first over the header, a separator, the data and a second
separator, and it counts the early acknowledge byte as zero whatever it holds.
`frameCrc_setEarlyAck` is that last clause as a theorem, and it is what lets a
receiver rewrite the byte in flight.
-/

namespace Apollo.Ring

open Apollo.Lib

/-! ## Layout -/

/-- `AP_RING_HDR_DESTINATION`, two words. -/
def hdrDestination : Nat := 0
/-- `AP_RING_HDR_TYPE`, one word. -/
def hdrType : Nat := 4
/-- `AP_RING_HDR_EARLY_ACK`, one byte. -/
def hdrEarlyAck : Nat := 7
def hdrFixedBytes : Nat := 12
def hdrMaxBytes : Nat := 1024
def dataMaxBytes : Nat := 4096

/-- `AP_RING_TYPE_BROADCAST`: receivers ignore the destination. -/
def typeBroadcast : BitVec 16 := 1 <<< 7

def earlyIntendToCopy : Byte := 1 <<< 3
def earlyParity : Byte := 1 <<< 1
/-- `AP_RING_EARLY_MUST_BE_ZERO`: bits 7, 4 and 0. -/
def earlyMustBeZero : Byte := 0x91

def lateCopied : Byte := 1 <<< 6
def lateWaitAck : Byte := 1 <<< 5
def lateIntendToCopy : Byte := 1 <<< 3
def lateError : Byte := 1 <<< 2
def lateParity : Byte := 1 <<< 1
/-- `AP_RING_LATE_MUST_BE_ZERO`: bits 7, 4 and 0. -/
def lateMustBeZero : Byte := 0x91

/-! ## Acknowledge parity -/

/-- The loop of `popcount8`, which a byte leaves within eight rounds. -/
def popcountFrom : Nat → Byte → Nat
  | 0, _ => 0
  | n + 1, v => if v = 0 then 0 else (v &&& 1).toNat + popcountFrom n (v >>> 1)

def popcount8 (v : Byte) : Nat := popcountFrom 8 v

/-- `ap_ring_ack_parity_ok`. -/
def ackParityOk (field : Byte) : Bool := popcount8 field % 2 == 1

/-- `ap_ring_ack_with_parity`: the parity bit is cleared before it is computed. -/
def ackWithParity (field : Byte) : Byte :=
  let without := field &&& ~~~earlyParity
  if popcount8 without % 2 == 0 then without ||| earlyParity else without

theorem ackParityOk_ackWithParity (field : Byte) : ackParityOk (ackWithParity field) = true := by
  have key : ∀ n < 256, ackParityOk (ackWithParity (BitVec.ofNat 8 n)) = true := by
    decide +kernel
  have h := key field.toNat field.isLt
  rwa [BitVec.ofNat_toNat, BitVec.setWidth_eq] at h

/-! ## The frame check -/

/-- `AP_RING_CRC_POLYNOMIAL`: `(X^21 + 1)(X^11 + X^2 + 1)` without its top term. -/
def crcPolynomial : BitVec 32 := 0x00A00805

def crcInit : BitVec 32 := 0

/-- One round of the loop of `ap_ring_crc_bits`. -/
def crcStep (crc : BitVec 32) (bit : Bool) : BitVec 32 :=
  let top := crc.getLsbD 31
  let crc := crc <<< 1
  if top ^^ bit then crc ^^^ crcPolynomial else crc

/-- `ap_ring_crc_bits`. -/
def crcBits (crc value : BitVec 32) (bits : Nat) : BitVec 32 :=
  (List.range bits).foldl (fun crc i => crcStep crc (value.getLsbD (bits - 1 - i))) crc

/-- `ap_ring_crc_bytes`. -/
def crcBytes (crc : BitVec 32) (bytes : List Byte) : BitVec 32 :=
  bytes.foldl (fun crc byte => crcBits crc (byte.setWidth 32) 8) crc

/-- `ap_ring_frame_crc`: the early acknowledge byte is contributed as zero. -/
def frameCrc (header data : List Byte) : BitVec 32 :=
  let crc := (List.range header.length).foldl
    (fun crc i =>
      let byte := if i = hdrEarlyAck then 0 else header.getD i 0
      crcBits crc (byte.setWidth 32) 8) crcInit
  let crc := crcBits crc (Oob.separator.symbol.setWidth 32) oobBits
  let crc := crcBytes crc data
  crcBits crc (Oob.separator.symbol.setWidth 32) oobBits

theorem frameCrc_setEarlyAck (header data : List Byte) (field : Byte) :
    frameCrc (header.set hdrEarlyAck field) data = frameCrc header data := by
  have hbyte : ∀ i, (if i = hdrEarlyAck then 0 else (header.set hdrEarlyAck field).getD i 0)
      = if i = hdrEarlyAck then 0 else header.getD i 0 := by
    intro i
    split
    · rfl
    · next hne =>
      rw [List.getD_eq_getElem?_getD, List.getElem?_set_ne (Ne.symm hne),
        ← List.getD_eq_getElem?_getD]
  simp only [frameCrc, List.length_set, hbyte]

/-! ## Lengths and header fields -/

/-- `ap_ring_header_length_valid`: an even number of bytes, 12 to 1024. -/
def headerLengthValid (bytes : Nat) : Bool :=
  hdrFixedBytes ≤ bytes && bytes ≤ hdrMaxBytes && bytes % 2 == 0

/-- `ap_ring_data_length_valid`: an even number of bytes, 0 to 4096. -/
def dataLengthValid (bytes : Nat) : Bool := bytes ≤ dataMaxBytes && bytes % 2 == 0

/-- `read_be32`. -/
def readBe32 (bytes : List Byte) (offset : Nat) : BitVec 32 :=
  bytes.getD offset 0 ++ bytes.getD (offset + 1) 0 ++ bytes.getD (offset + 2) 0
    ++ bytes.getD (offset + 3) 0

/-- `ap_ring_header_destination`. -/
def headerDestination (header : List Byte) : BitVec 32 := readBe32 header hdrDestination

/-- `ap_ring_header_type`: the type word is stored low byte first. -/
def headerType (header : List Byte) : BitVec 16 :=
  header.getD (hdrType + 1) 0 ++ header.getD hdrType 0

/-- `ap_ring_header_addresses`: the broadcast bit is looked at first, and a
broadcast's destination is not compared. -/
def headerAddresses (header : List Byte) (node : BitVec 32) : Bool :=
  if headerType header &&& typeBroadcast ≠ 0 then true else headerDestination header == node

/-!
## Whole frames over the bit stream

`src/core/ring/ap_ring_framer.c`: `ap_ring_frame_emit` writes the five sequences
of a frame and `ap_ring_frame_parse` reads them back. Neither variable-length
sequence carries its length, so the parser peeks for an out-of-band character
before every byte.

The parser is written over a state that holds the reader and the caller's two
buffers, with the error of a failed parse thrown: a C `return failed(status)` is
a `throw status`, and the state stays where the failure left it.
-/

/-- `ap_ring_frame_fields_t`: the lengths are those of the two lists. -/
structure FrameFields where
  header : List Byte
  data : List Byte
  lateAcknowledge : Byte
deriving DecidableEq, Repr

def nullSeparatorBits : Nat := 8

/-- A run of bytes written as data, which is both variable-length sequences. -/
def BitWriter.writeBytes (w : BitWriter) (bytes : List Byte) : BitWriter :=
  bytes.foldl (fun w byte => w.writeDataBits (byte.setWidth 32) 8) w

/-- The five sequences, as `ap_ring_frame_emit` writes them. -/
def BitWriter.writeFrame (w : BitWriter) (fields : FrameFields) : BitWriter :=
  -- 1. Frame start sequence.
  let w := w.writeOob Oob.frameStart.symbol
  let w := w.writeDataBits 0 nullSeparatorBits
  let w := w.writeOob Oob.separator.symbol
  -- 2. Packet header sequence.
  let w := w.writeBytes fields.header
  let w := w.writeOob Oob.separator.symbol
  -- 3. Packet data sequence.
  let w := w.writeBytes fields.data
  let w := w.writeOob Oob.separator.symbol
  -- 4. Frame check sequence.
  let w := w.writeDataBits (frameCrc fields.header fields.data) 32
  let w := w.writeDataBits 0 nullSeparatorBits
  -- 5. End-of-frame sequence.
  w.writeDataBits (fields.lateAcknowledge.setWidth 32) 8

/-- `ap_ring_frame_emit`: the lengths are checked before anything is written, and
the overflow once at the end. -/
def frameEmit (w : BitWriter) (fields : FrameFields) : Bool × BitWriter :=
  if !headerLengthValid fields.header.length || !dataLengthValid fields.data.length then (false, w)
  else
    let w := w.writeFrame fields
    (!w.overflow, w)

/-! ## Parsing -/

/-- `ap_ring_frame_status_t`. -/
inductive FrameStatus
  | ok
  | truncated
  | noFrameStart
  | badSeparator
  | badNull
  | headerLength
  | dataLength
  | checkFailed
deriving DecidableEq, Repr

/-- `ap_ring_frame_parse_t`. -/
structure FrameParse where
  status : FrameStatus
  headerBytes : Nat := 0
  dataBytes : Nat := 0
  lateAcknowledge : Byte := 0
  checkReceived : BitVec 32 := 0
  checkComputed : BitVec 32 := 0
deriving DecidableEq

/-- `failed`. -/
def FrameParse.failed (status : FrameStatus) : FrameParse := { status }

/-- What a parse works on: the reader and what it has stored in the caller's
header and data buffers. -/
structure ParseState where
  reader : BitReader
  header : List Byte := []
  data : List Byte := []

abbrev Parser := EStateM FrameStatus ParseState

/-- A reader call whose failure the parser reports as `status`. -/
def takeOr {α : Type} (status : FrameStatus) (read : BitReader → Option α × BitReader) : Parser α :=
  fun s =>
    match read s.reader with
    | (some a, r) => .ok a { s with reader := r }
    | (none, r) => .error status { s with reader := r }

/-- `read_byte`: a violation is a failure, since a byte is only asked for once a
peek has said no character stands next. -/
def readByte (r : BitReader) : Option Byte × BitReader :=
  match r.readDataBits 8 with
  | (some (value, false), r) => (some (value.setWidth 8), r)
  | (_, r) => (none, r)

/-- `read_separator`. -/
def readSeparator (r : BitReader) : Option Unit × BitReader :=
  match r.readOob with
  | (some symbol, r) => (if symbol = Oob.separator.symbol then some () else none, r)
  | (none, r) => (none, r)

/-- The check's 32 bits, violation folded into the failure. -/
def readCheck (r : BitReader) : Option (BitVec 32) × BitReader :=
  match r.readDataBits 32 with
  | (some (value, false), r) => (some value, r)
  | (_, r) => (none, r)

/-- One variable-length sequence, byte by byte until a character stands next.
`room` is what is left of the caller's capacity and `store` is its buffer. -/
def readSequence (tooLong : FrameStatus) (store : ParseState → Byte → ParseState) :
    Nat → Parser Unit
  | 0 => fun s => if s.reader.peekOob.isSome then .ok () s else .error tooLong s
  | room + 1 => fun s =>
    if s.reader.peekOob.isSome then .ok () s
    else
      match takeOr .truncated readByte s with
      | .ok byte s => readSequence tooLong store room (store s byte)
      | .error status s => .error status s

def ParseState.storeHeader (s : ParseState) (byte : Byte) : ParseState :=
  { s with header := s.header ++ [byte] }

def ParseState.storeData (s : ParseState) (byte : Byte) : ParseState :=
  { s with data := s.data ++ [byte] }

/-- A check whose failure the parser reports as `status`. -/
def ensure (status : FrameStatus) (holds : Bool) : Parser Unit :=
  if holds then pure () else throw status

/-- The body of `ap_ring_frame_parse`. -/
def parseFrame (headerCapacity dataCapacity : Nat) : Parser FrameParse := do
  -- 1. Frame start sequence.
  let symbol ← takeOr .truncated BitReader.readOob
  ensure .noFrameStart (symbol == Oob.frameStart.symbol)
  let nullSeparator ← takeOr .truncated readByte
  ensure .badNull (nullSeparator == 0)
  takeOr .badSeparator readSeparator
  -- 2. Packet header sequence.
  readSequence .headerLength ParseState.storeHeader headerCapacity
  let header ← ParseState.header <$> get
  ensure .headerLength (headerLengthValid header.length)
  takeOr .badSeparator readSeparator
  -- 3. Packet data sequence.
  readSequence .dataLength ParseState.storeData dataCapacity
  let data ← ParseState.data <$> get
  ensure .dataLength (dataLengthValid data.length)
  takeOr .badSeparator readSeparator
  -- 4. Frame check sequence.
  let checkReceived ← takeOr .truncated readCheck
  let nullSeparator ← takeOr .truncated readByte
  ensure .badNull (nullSeparator == 0)
  -- 5. End-of-frame sequence.
  let lateAcknowledge ← takeOr .truncated readByte
  let checkComputed := frameCrc header data
  return {
    status := if checkComputed = checkReceived then .ok else .checkFailed
    headerBytes := header.length
    dataBytes := data.length
    lateAcknowledge, checkReceived, checkComputed }

/-- `ap_ring_frame_parse`: the result, and the reader and buffers it leaves. -/
def frameParse (r : BitReader) (headerCapacity dataCapacity : Nat) : FrameParse × ParseState :=
  match parseFrame headerCapacity dataCapacity { reader := r } with
  | .ok parse s => (parse, s)
  | .error status s => (.failed status, s)

end Apollo.Ring
