import Mathlib
import Apollo.Device.Pcb

/-!
# The Ethernet card's adapter side

The firmware that `src/core/device/ap_3c505.c` stands in for: what each command of a PCB does to the
adapter and what it answers, a frame sent and a frame received. Whether a command is answered by a
response depends on the PCB alone.
-/

namespace Apollo.Device

/-- `AP_3C505_FRAME_MAX`. -/
def frameMax : Nat := 1514

/-- `AP_3C505_MULTICAST_MAX`. -/
def multicastMax : Nat := 10

/-- An Ethernet address of `AP_3C505_ADDRESS_BYTES` bytes. -/
abbrev EthernetAddress := Vector (BitVec 8) 6

/-- `ap_3c505_adapter_t`; `multicast` has the entries that `multicast_count` counts. -/
structure Adapter where
  address : EthernetAddress
  receiveMode : BitVec 16
  multicast : List EthernetAddress
  receivePackets : BitVec 32
  transmitPackets : BitVec 32
  crcErrors : BitVec 16
  alignmentErrors : BitVec 16
  noResourceErrors : BitVec 16
  overrunErrors : BitVec 16
  incoming : PcbRx
  pending : PcbTx
  pendingTotal : Bool
  transmitting : Bool
  transmitLength : Nat
  transmitReceived : Nat
  transmitOffset : BitVec 16
  transmitSegment : BitVec 16
  transmitBuffer : List (BitVec 8)
  receiveArmed : Bool
  receiveOffset : BitVec 16
  receiveSegment : BitVec 16
  receiveBufferLength : BitVec 16
  receiveTimeout : BitVec 16
  staged : List (BitVec 8)
  stagedRead : Nat

/-- `ap_3c505_adapter_init`. -/
def adapterInit (address : EthernetAddress) : Adapter :=
  { address, receiveMode := 0, multicast := [], receivePackets := 0, transmitPackets := 0
    crcErrors := 0, alignmentErrors := 0, noResourceErrors := 0, overrunErrors := 0
    incoming := pcbRxReset, pending := ⟨⟨0, [], Nat.zero_le _⟩, 0, false⟩, pendingTotal := false
    transmitting := false, transmitLength := 0, transmitReceived := 0, transmitOffset := 0
    transmitSegment := 0, transmitBuffer := [], receiveArmed := false, receiveOffset := 0
    receiveSegment := 0, receiveBufferLength := 0, receiveTimeout := 0, staged := []
    stagedRead := 0 }

/-! ## The data field -/

/-- A byte of the data field, which is zero behind its length. -/
def Pcb.byte (pcb : Pcb) (i : Nat) : BitVec 8 := pcb.data.getD i 0

/-- `read_word`, of the data field at a place. -/
def Pcb.word (pcb : Pcb) (i : Nat) : BitVec 16 := pcb.byte (i + 1) ++ pcb.byte i

/-- `AP_3C505_ADDRESS_BYTES` of the data field. -/
def Pcb.addressAt (pcb : Pcb) (i : Nat) : EthernetAddress := Vector.ofFn fun k => pcb.byte (i + k)

/-- `write_word`. -/
def wordBytes (value : BitVec 16) : List (BitVec 8) :=
  [value.extractLsb' 0 8, value.extractLsb' 8 8]

/-- `write_dword`. -/
def dwordBytes (value : BitVec 32) : List (BitVec 8) :=
  wordBytes (value.extractLsb' 0 16) ++ wordBytes (value.extractLsb' 16 16)

/-- `respond_status`. -/
def respondStatus (code : BitVec 8) (status : BitVec 16) : Pcb :=
  ⟨code, wordBytes status, by show 2 ≤ 62; decide⟩

/-! ## Commands -/

/-- `ap_3c505_pcb_result_t`, with the response of the one that has it. -/
inductive PcbResult
  | rejected
  | accepted
  | acceptedResponse (out : Pcb)

/-- The response to `AP_3C505_CMD_GET_ETHERNET_ADDRESS`. -/
def Adapter.addressResponse (adapter : Adapter) : Pcb :=
  ⟨0x33, adapter.address.toList, by rw [Vector.length_toList]; decide⟩

/-- The response to `AP_3C505_CMD_NETWORK_STATISTICS`. -/
def Adapter.statisticsResponse (adapter : Adapter) : Pcb :=
  ⟨0x3A, dwordBytes adapter.receivePackets ++ dwordBytes adapter.transmitPackets ++
    wordBytes adapter.crcErrors ++ wordBytes adapter.alignmentErrors ++
    wordBytes adapter.noResourceErrors ++ wordBytes adapter.overrunErrors,
    by show 16 ≤ 62; decide⟩

/-- `ap_3c505_execute`. -/
def execute (adapter : Adapter) (pcb : Pcb) : PcbResult × Adapter :=
  match pcb.command with
  | 0x01 => (.acceptedResponse (respondStatus 0x31 0), adapter)
  | 0x02 =>
    if pcb.data.length < 2 then (.rejected, adapter)
    else (.acceptedResponse (respondStatus 0x32 0), { adapter with receiveMode := pcb.word 0 })
  | 0x03 => (.acceptedResponse adapter.addressResponse, adapter)
  | 0x10 =>
    if pcb.data.length < 6 then (.rejected, adapter)
    else (.acceptedResponse (respondStatus 0x40 0), { adapter with address := pcb.addressAt 0 })
  | 0x0B =>
    let count := pcb.data.length / 6
    if pcb.data.length % 6 ≠ 0 ∨ multicastMax < count then (.rejected, adapter)
    else
      (.acceptedResponse (respondStatus 0x3B 0),
        { adapter with multicast := (List.range count).map fun entry => pcb.addressAt (entry * 6) })
  | 0x0A =>
    (.acceptedResponse adapter.statisticsResponse,
      { adapter with
        receivePackets := 0, transmitPackets := 0, crcErrors := 0, alignmentErrors := 0
        noResourceErrors := 0, overrunErrors := 0 })
  | 0x09 =>
    if pcb.data.length < 6 then (.rejected, adapter)
    else
      let length := (pcb.word 4).toNat
      if length = 0 ∨ frameMax < length then (.rejected, adapter)
      else
        (.accepted,
          { adapter with
            transmitOffset := pcb.word 0, transmitSegment := pcb.word 2, transmitLength := length
            transmitReceived := 0, transmitting := true })
  | 0x08 =>
    if pcb.data.length < 8 then (.rejected, adapter)
    else
      (.accepted,
        { adapter with
          receiveOffset := pcb.word 0, receiveSegment := pcb.word 2
          receiveBufferLength := pcb.word 4, receiveTimeout := pcb.word 6, receiveArmed := true })
  | 0x0F => (.acceptedResponse (respondStatus 0x3F 0), adapter)
  | _ => (.rejected, adapter)

/-- A command that has a response, and the data that it needs. -/
def Pcb.Answered (pcb : Pcb) : Prop :=
  pcb.command = 0x01 ∨ pcb.command = 0x02 ∧ 2 ≤ pcb.data.length ∨ pcb.command = 0x03 ∨
    pcb.command = 0x10 ∧ 6 ≤ pcb.data.length ∨
    pcb.command = 0x0B ∧ pcb.data.length % 6 = 0 ∧ pcb.data.length / 6 ≤ multicastMax ∨
    pcb.command = 0x0A ∨ pcb.command = 0x0F

instance (pcb : Pcb) : Decidable pcb.Answered := by
  unfold Pcb.Answered
  infer_instance

/-- The two directions of the command register, which no command touches. -/
def Adapter.transport (adapter : Adapter) : PcbRx × PcbTx × Bool :=
  (adapter.incoming, adapter.pending, adapter.pendingTotal)

theorem transport_execute (adapter : Adapter) (pcb : Pcb) :
    (execute adapter pcb).2.transport = adapter.transport := by
  unfold execute
  dsimp only
  split <;> (try split) <;> (try split) <;> rfl

/-- A COMMAND IS ANSWERED BY A RESPONSE according to the PCB alone. -/
theorem answered_of_execute {adapter : Adapter} {pcb out : Pcb}
    (h : (execute adapter pcb).1 = .acceptedResponse out) : pcb.Answered := by
  unfold execute at h
  unfold Pcb.Answered
  dsimp only at h
  split at h
  case h_1 hcommand => exact .inl hcommand
  case h_2 hcommand =>
    split at h
    · exact nomatch h
    · exact .inr (.inl ⟨hcommand, by omega⟩)
  case h_3 hcommand => exact .inr (.inr (.inl hcommand))
  case h_4 hcommand =>
    split at h
    · exact nomatch h
    · exact .inr (.inr (.inr (.inl ⟨hcommand, by omega⟩)))
  case h_5 hcommand =>
    split at h
    case isTrue => exact nomatch h
    case isFalse hlist =>
      rw [not_or, not_not, Nat.not_lt] at hlist
      exact .inr (.inr (.inr (.inr (.inl ⟨hcommand, hlist⟩))))
  case h_6 hcommand => exact .inr (.inr (.inr (.inr (.inr (.inl hcommand)))))
  case h_7 =>
    split at h
    · exact nomatch h
    · split at h <;> exact nomatch h
  case h_8 => split at h <;> exact nomatch h
  case h_9 hcommand => exact .inr (.inr (.inr (.inr (.inr (.inr hcommand)))))
  case h_10 => exact nomatch h

/-! ## The data phase -/

/-- `ap_3c505_transmit_byte`: the response when the frame is whole, and the wire's word on it. -/
def transmitByte (adapter : Adapter) (byte : BitVec 8) (transmit : List (BitVec 8) → Bool) :
    Option Pcb × Adapter :=
  if !adapter.transmitting then (none, adapter)
  else
    let adapter :=
      { adapter with
        transmitBuffer :=
          if adapter.transmitReceived < frameMax then
            adapter.transmitBuffer.take adapter.transmitReceived ++ byte ::
              adapter.transmitBuffer.drop (adapter.transmitReceived + 1)
          else adapter.transmitBuffer
        transmitReceived := adapter.transmitReceived + 1 }
    if adapter.transmitReceived < adapter.transmitLength then (none, adapter)
    else
      let sent := transmit (adapter.transmitBuffer.take adapter.transmitLength)
      (some ⟨0x39, wordBytes adapter.transmitOffset ++ wordBytes adapter.transmitSegment ++
          wordBytes (if sent then 0 else 1) ++ wordBytes 0, by show 8 ≤ 62; decide⟩,
        { adapter with
          transmitPackets :=
            if sent then adapter.transmitPackets + 1 else adapter.transmitPackets
          transmitting := false })

/-- `frame_is_for_us`. -/
def frameIsForUs (adapter : Adapter) (frame : List (BitVec 8)) : Bool :=
  let mode := adapter.receiveMode &&& 0x07
  if frame.length < 6 then false
  else if mode = 0x04 then true
  else if frame.take 6 = adapter.address.toList then true
  else if frame.take 6 = List.replicate 6 0xFF then decide (0x01 ≤ mode)
  else if (frame.getD 0 0).getLsbD 0 && mode == 0x02 then
    adapter.multicast.any fun entry => frame.take 6 == entry.toList
  else false

/-- `ap_3c505_deliver_frame`: the response, if the frame is received. -/
def deliverFrame (adapter : Adapter) (frame : List (BitVec 8)) : Option Pcb × Adapter :=
  if frame.length = 0 then (none, adapter)
  else if !frameIsForUs adapter frame then (none, adapter)
  else if !adapter.receiveArmed then
    (none, { adapter with noResourceErrors := adapter.noResourceErrors + 1 })
  else
    let length := min frame.length frameMax
    let staged := min length adapter.receiveBufferLength.toNat
    (some ⟨0x38, wordBytes adapter.receiveOffset ++ wordBytes adapter.receiveSegment ++
        wordBytes (BitVec.ofNat 16 staged) ++ wordBytes (BitVec.ofNat 16 length) ++
        wordBytes 0 ++ wordBytes 0 ++ dwordBytes 0, by show 16 ≤ 62; decide⟩,
      { adapter with
        staged := frame.take staged, stagedRead := 0, receiveArmed := false
        receivePackets := adapter.receivePackets + 1 })

/-- `ap_3c505_receive_byte`. -/
def receiveByte (adapter : Adapter) : Option (BitVec 8) × Adapter :=
  match adapter.staged[adapter.stagedRead]? with
  | none => (none, adapter)
  | some byte => (some byte, { adapter with stagedRead := adapter.stagedRead + 1 })

theorem transport_transmitByte (adapter : Adapter) (byte : BitVec 8)
    (transmit : List (BitVec 8) → Bool) :
    (transmitByte adapter byte transmit).2.transport = adapter.transport := by
  unfold transmitByte
  dsimp only
  split
  · rfl
  · split <;> rfl

theorem transport_deliverFrame (adapter : Adapter) (frame : List (BitVec 8)) :
    (deliverFrame adapter frame).2.transport = adapter.transport := by
  unfold deliverFrame
  dsimp only
  split_ifs <;> rfl

theorem transport_receiveByte (adapter : Adapter) :
    (receiveByte adapter).2.transport = adapter.transport := by
  unfold receiveByte
  split <;> rfl

end Apollo.Device
