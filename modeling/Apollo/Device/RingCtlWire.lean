import Apollo.Device.RingCtlPort

/-!
# The card's buffer and the wire

XMIT_CMD's transmit enable means two things. With no cable it is the internal loop, which moves a
block of the buffer from where RAM_ADDR was last set to as far above it as RCV_ADDR says; on a
connected card it hands the station the message at XMIT_ADDR. The move is made in both, so that a
message that goes on the wire leaves the buffer alone only when the block, taken from whatever the
registers hold, is none, does not fit, or is there already.
-/

namespace Apollo.Device

open Apollo.Ring

namespace RingCtl

/-! ## The block -/

/-- Where the block comes from, where it goes and how long it is. -/
def blockSource (c : RingCtl) : Nat := c.a2.pointerBase.toNat
def blockDest (c : RingCtl) : Nat := c.blockSource + (ringCtlAddr c.a2.slot004).toNat
def blockCount (c : RingCtl) : Nat := (c.a2.timerB.counter.get xmitPktCnt).latch.toNat

/-- The move of the block moves nothing: no words, no room for them, or the same words. -/
def BlockStands (c : RingCtl) : Prop :=
  c.blockCount = 0 ∨ bufferWords < c.blockDest + c.blockCount ∨
    ∀ i < c.blockCount, c.buffer.word (c.blockDest + i) = c.buffer.word (c.blockSource + i)

theorem moveWords_word (b : CardBuffer) {source dest : Nat} (hup : source ≤ dest) (count : Nat)
    (hfits : dest + count ≤ bufferWords) {j : Nat} (hj : j < bufferWords) :
    (moveWords b source dest count).word j =
      if dest ≤ j ∧ j < dest + count then b.word (source + (j - dest)) else b.word j := by
  induction count generalizing b with
  | zero => rw [moveWords, if_neg (by omega)]
  | succ count ih =>
    rw [moveWords, ih _ (by omega)]
    have hlast : some (b.read (source + count)) = b.word (source + count) := by
      rw [CardBuffer.read, CardBuffer.word, dif_pos (by omega), Option.getD_some]
    by_cases hin : dest ≤ j ∧ j < dest + count
    · rw [if_pos hin, if_pos (by omega), CardBuffer.word_store _ _ _ _ (by omega),
        if_neg (by omega)]
    · rw [if_neg hin, CardBuffer.word_store _ _ _ _ hj]
      by_cases heq : j = dest + count
      · rw [if_pos heq, if_pos (by omega), hlast, heq, Nat.add_sub_cancel_left]
      · rw [if_neg heq, if_neg (by omega)]

theorem CardBuffer.eq_of_word {b b' : CardBuffer} (h : ∀ i, b.word i = b'.word i) : b = b' := by
  funext i
  have hi := h i
  rw [CardBuffer.word, dif_pos i.isLt, CardBuffer.word, dif_pos i.isLt] at hi
  exact Option.some.inj hi

theorem moveWords_eq_iff (b : CardBuffer) {source dest : Nat} (hup : source ≤ dest) {count : Nat}
    (hfits : dest + count ≤ bufferWords) :
    moveWords b source dest count = b ↔
      ∀ i < count, b.word (dest + i) = b.word (source + i) := by
  constructor
  · intro heq i hi
    have hmoved := moveWords_word b hup count hfits (j := dest + i) (by omega)
    rw [heq, if_pos (by omega), Nat.add_sub_cancel_left] at hmoved
    exact hmoved
  · intro hsame
    apply CardBuffer.eq_of_word
    intro j
    by_cases hj : j < bufferWords
    · rw [moveWords_word b hup count hfits hj]
      split
      · next hin =>
        rw [← hsame (j - dest) (by omega), Nat.add_sub_cancel' hin.1]
      · rfl
    · rw [CardBuffer.word, dif_neg hj, CardBuffer.word, dif_neg hj]

theorem blockMove_buffer_iff {c : RingCtl} (hpacket : c.a2.xmitPacket = false) :
    c.blockMove.buffer = c.buffer ↔ c.BlockStands := by
  have hup : c.blockSource ≤ c.blockDest := Nat.le_add_right _ _
  unfold blockMove BlockStands
  change (if c.blockCount = 0 ∨ c.blockDest + c.blockCount > bufferWords then c else _).buffer =
    c.buffer ↔ _
  by_cases hnone : c.blockCount = 0 ∨ c.blockDest + c.blockCount > bufferWords
  · rw [if_pos hnone]
    rcases hnone with hzero | hover
    · exact ⟨fun _ => .inl hzero, fun _ => rfl⟩
    · exact ⟨fun _ => .inr (.inl hover), fun _ => rfl⟩
  · rw [if_neg hnone]
    dsimp only
    rw [hpacket, if_neg Bool.false_ne_true]
    rw [not_or] at hnone
    have hfits : c.blockDest + c.blockCount ≤ bufferWords := Nat.le_of_not_lt hnone.2
    refine (moveWords_eq_iff c.buffer hup hfits).trans ⟨fun h => .inr (.inr h), ?_⟩
    rintro (hzero | hover | hsame)
    · exact absurd hzero hnone.1
    · exact absurd hover (by omega)
    · exact hsame

/-! ## What the rest of the command leaves alone -/

theorem queueFromBuffer_buffer (c : RingCtl) : c.queueFromBuffer.2.buffer = c.buffer := by
  unfold queueFromBuffer
  split
  · dsimp only
    split <;> rfl
  · rfl

theorem xmitQueues_buffer (c : RingCtl) (value : BitVec 16) :
    (c.xmitQueues value).2.buffer = c.buffer := by
  unfold xmitQueues
  dsimp only
  split
  · exact queueFromBuffer_buffer _
  · rfl

theorem xmitCompletes_buffer (c : RingCtl) (value : BitVec 16) (queued : Bool) :
    (c.xmitCompletes value queued).buffer = c.buffer := by
  unfold xmitCompletes
  dsimp only
  split
  · split <;> rfl
  · rfl

theorem writeXmitCmd_buffer (c : RingCtl) (value : BitVec 16) :
    (c.writeXmitCmd value).buffer = (c.xmitMoves value).buffer :=
  (xmitCompletes_buffer _ value _).trans (xmitQueues_buffer _ value)

/-- Whether a command queues a frame on the station. -/
def queuesFrame (c : RingCtl) (value : BitVec 16) : Bool := ((c.xmitMoves value).xmitQueues value).1

theorem lane_of_queuesFrame {c : RingCtl} {value : BitVec 16} (h : c.queuesFrame value = true) :
    (value &&& 0x0200 != 0) = true ∧ (value &&& 0x0100 != 0) = false := by
  have hwants : wantsTransmit value = true := by
    by_contra hnot
    rw [Bool.not_eq_true] at hnot
    unfold queuesFrame xmitQueues at h
    dsimp only at h
    rw [hnot, Bool.false_and, Bool.and_false, if_neg Bool.false_ne_true] at h
    cases h
  have hbit (mask : BitVec 16) (hmask : 0xFF00 &&& mask = mask) :
      value &&& mask = (value &&& 0xFF00) &&& mask := by
    rw [BitVec.and_assoc, hmask]
  rw [wantsTransmit, Bool.or_eq_true, beq_iff_eq, beq_iff_eq] at hwants
  rw [hbit 0x0200 (by decide), hbit 0x0100 (by decide)]
  rcases hwants with hlane | hlane
  · rw [hlane]
    exact ⟨by decide, by decide⟩
  · rw [hlane]
    exact ⟨by decide, by decide⟩

/-- A MESSAGE ON THE WIRE leaves the buffer alone exactly when the move that the same command makes
has nothing to move. -/
theorem wire_buffer_iff (c : RingCtl) (offset : BitVec 32) (value : BitVec 16)
    (hbank : bankOf offset = 1) (hslot : slotOf offset = 1)
    (hpacket : c.a2.xmitPacket = false) (hqueues : c.queuesFrame value = true) :
    (c.write16 true offset value).buffer = c.buffer ↔ c.BlockStands := by
  obtain ⟨hten, hone⟩ := lane_of_queuesFrame hqueues
  have hwrite : c.write16 true offset value = c.writeXmitCmd value := by
    rw [write16, hbank]
    change c.writeStatusBank offset value = _
    rw [writeStatusBank, hslot]
    rfl
  have hmoves : (c.xmitMoves value).buffer =
      (blockMove { c with a2 := { c.a2 with command402 := value } }).buffer := by
    rw [xmitMoves, hone, hten]
    rfl
  rw [hwrite, writeXmitCmd_buffer, hmoves]
  exact blockMove_buffer_iff (c := { c with a2 := { c.a2 with command402 := value } }) hpacket

/-! ## On a card -/

/-- A connected card whose registers still hold a self-test's block: one word from `$100` to `$110`.
Its transmit counters have not been programmed for a message. -/
def wireCard (dest : BitVec 16) : RingCtl :=
  { station := some ((Station.init 0).attachTx (some (List.replicate 32 0)))
    medium := some Medium.init
    buffer := fun i => if i.val = 0x100 then 0xBEEF else 0
    a2 := {
      connected := true
      pointerBase := 0x100
      slot004 := dest
      timerB := (I8254.reset.write .control 0x50).write (.counter 1) 1 } }

theorem wire_buffer_iff_unmoved :
    ((wireCard 0).write16 true 0x402 0x0200).buffer = (wireCard 0).buffer ↔
      (wireCard 0).BlockStands :=
  wire_buffer_iff (wireCard 0) 0x402 0x0200 (by decide) (by decide) rfl (by decide +kernel)

/-- THE BLOCK MOVES under a message that goes on the wire. -/
theorem wireCard_moves :
    (wireCard 0x1000).present = true ∧ (wireCard 0x1000).station.isSome = true ∧
      (wireCard 0x1000).medium.isSome = true ∧ (wireCard 0x1000).a2.connected = true ∧
      (wireCard 0x1000).a2.loopbackEnabled = false ∧ (wireCard 0x1000).a2.xmitPacket = false ∧
      (wireCard 0x1000).queuesFrame 0x0200 = true ∧
      ((wireCard 0x1000).write16 true 0x402 0x0200).buffer ≠ (wireCard 0x1000).buffer := by
  refine ⟨rfl, rfl, rfl, rfl, rfl, rfl, by decide +kernel, fun heq => ?_⟩
  have hword := congrArg (fun b : CardBuffer => b.word 0x110) heq
  revert hword
  decide +kernel

end RingCtl

end Apollo.Device
