import Apollo.Ring.Forwarding
import Apollo.Ring.CopiedFrame

/-!
# The two sides of a station that strips

A station that claims a token drives its frame and then a free token, and all the while drops what
it receives, until its own frame has come back. Transmitting and receiving run at the distance of the
ring, and have one thing in common, the `stripping` flag. So a bit time `n` behind the claim is
described by two invariants that do not mention each other: `Transmitting` says what will be driven,
and `Awaiting` how much of the frame is back.

The count of what is back begins nine bits late, with the last bit of the frame start, and ends with
the first bit behind the frame, which is the first one to be sent on.
-/

namespace Apollo.Ring

open Apollo.Lib

namespace Receiver

/-! ## A frame behind anything -/

/-- BEHIND A FRAME a receiver is between frames, whatever came before it. -/
theorem resting_frameLine (stripping : Bool) (r : Receiver) (h : List Bool) {fields : FrameFields}
    (hlen : headerLengthValid fields.header.length = true) :
    Resting (transduce (follow stripping) (r, h) (frameLine fields)).1 := by
  obtain ⟨r', -, hstart⟩ := follow_frameStart stripping r h
  have hnull := follow_null stripping r' (quiet_symbolBits h .frameStart)
  obtain ⟨hquiet, hzero⟩ := quiet_separator (h ++ symbolBits Oob.frameStart.symbol)
    (dataLine (msbBits nullSeparatorBits 0))
  obtain ⟨run, headerBits, flippedParity, bits, hbits, hrest⟩ :=
    follow_behindStart stripping r' hquiet hzero hlen
  have hframe : Resting (transduce (follow stripping) (r, h) (frameBits fields)).1 := by
    have hline : frameBits fields = symbolBits Oob.frameStart.symbol ++
        (dataLine (msbBits nullSeparatorBits 0) ++ symbolBits Oob.separator.symbol ++ bits) := by
      rw [hbits, startLine, List.append_assoc]
    rw [hline, transduce_append, hstart, transduce_append_eq hnull hrest]
    refine ⟨rfl, ?_⟩
    have hquiet' := quiet_frameBits h fields
    rw [hline] at hquiet'
    simpa only [List.append_assoc] using hquiet'
  rcases frameLine_eq fields with hline | hline
  · rwa [hline]
  · rw [hline, transduce_append]
    exact (hframe.follow_zero stripping).1

theorem Resting.sent_symbol (stripping : Bool) {s : Receiver × List Bool} (hs : Resting s) {c : Oob}
    (hc : c = .freeToken ∨ c = .frameStart) :
    (transduce (follow stripping) s (symbolBits c.symbol)).2 = symbolBits c.symbol := by
  have hpass : ∀ bit, (s.1.hear stripping (some c.symbol) bit).2 = bit := by
    intro bit
    rcases hc with rfl | rfl
    · rw [hear_token stripping (.inl hs.idle) (.inl rfl)]
    · rw [hear_frameStart]
  obtain ⟨bit, hall⟩ := follow_symbolBits stripping hs.quiet c
    (listen_waiting stripping (.inl hs.idle) _) hpass
  change transduce (follow stripping) s _ = _ at hall
  rw [hall]

theorem Resting.sent_head (stripping : Bool) {s : Receiver × List Bool} (hs : Resting s) (bit : Bool) :
    (follow stripping s bit).2 = bit := by
  simp only [follow, hear, step]
  split
  · rfl
  · split
    · rfl
    · rw [if_pos (.inl hs.idle)]

theorem Resting.follow_zeros (stripping : Bool) {s : Receiver × List Bool} (hs : Resting s) (n : Nat) :
    Resting (transduce (follow stripping) s (List.replicate n false)).1 := by
  obtain ⟨hno, hquiet⟩ := noChar_zeros hs.quiet n
  have hall := follow_noChar stripping hno s.1
  rw [listen_waiting stripping (.inl hs.idle)] at hall
  change transduce (follow stripping) s _ = _ at hall
  rw [hall]
  exact ⟨hs.idle, hquiet⟩

theorem Resting.sent (stripping : Bool) {s : Receiver × List Bool} (hs : Resting s)
    (bits : List Bool) :
    (transduce (follow stripping) s bits).2.head? = bits.head? ∧
      (symbolBits Oob.freeToken.symbol <+: bits →
        symbolBits Oob.freeToken.symbol <+: (transduce (follow stripping) s bits).2) := by
  refine ⟨?_, ?_⟩
  · cases bits with
    | nil => rfl
    | cons b bits => exact congrArg some (hs.sent_head stripping b)
  · rintro ⟨rest, rfl⟩
    rw [transduce_append, hs.sent_symbol stripping (.inl rfl)]
    exact List.prefix_append _ _

end Receiver

namespace Station

/-! ## The transmit side -/

/-- A frame is armed and none of it has been driven, as `ap_ring_station_queue_frame` leaves it. -/
structure Waiting (s : Station) : Prop where
  armed : s.tx.armed = true
  bitPos : s.tx.bitPos = 0
  unseen : s.tx.seenOwnFrameStart = false
  long : oobBits ≤ s.tx.bitCount
  short : s.tx.bitCount < stripTimeoutBits

/-- The bits of the armed frame. -/
def frameToSend (s : Station) : List Bool := packed (s.tx.bits.getD []) s.tx.bitCount

/-- The next drive takes the free token off the ring. -/
def claims (s : Station) : Bool :=
  s.originateLeft == 0 && s.pendingValid && s.wantsRing && !s.holdsRing && s.windowHoldsFreeToken

/-- What a station drives at bit time `n` behind its claim: its frame, a free token, and zeros. -/
def sentBit (bytes : List Byte) (count n : Nat) : Bool :=
  if n ≤ count then bitAt bytes (n - 1)
  else if n ≤ count + oobBits then Oob.freeToken.symbol.getLsbD (count + oobBits - n)
  else false

/-- The transmit side before the drive of bit time `n`. -/
structure Transmitting (bytes : List Byte) (count n : Nat) (s : Station) : Prop where
  stripping : s.stripping = true
  wantsRing : s.wantsRing = false
  bytes : s.tx.bits.getD [] = bytes
  bitCount : s.tx.bitCount = count
  armed : s.tx.armed = decide (n ≤ count)
  bitPos : s.tx.bitPos = min (n - 1) count
  originateLeft : s.originateLeft = if n ≤ count then 0 else count + oobBits + 1 - n
  symbol : count < n → s.originateSymbol = Oob.freeToken.symbol
  bitsStripping : s.bitsStripping = if n ≤ count + oobBits + 1 then min (n - 1) count
    else n - oobBits - 1

/-- The receive side before the receive of bit time `n`, when the frame comes back behind `delay`
bits. -/
structure Awaiting (delay n : Nat) (s : Station) : Prop where
  seen : s.tx.seenOwnFrameStart = decide (delay + oobBits ≤ n)
  stripped : delay + oobBits ≤ n → s.tx.strippedOwn = n - delay - oobBits

section Drive

variable {bytes : List Byte} {count delay n : Nat} {s : Station}

theorem awaiting_congr {s' : Station} (h : s.Awaiting delay n)
    (hseen : s'.tx.seenOwnFrameStart = s.tx.seenOwnFrameStart)
    (hstripped : s'.tx.strippedOwn = s.tx.strippedOwn) : s'.Awaiting delay n :=
  ⟨hseen.trans h.seen, fun hn => hstripped.trans (h.stripped hn)⟩

theorem sourceBit_forwarded (horiginate : s.originateLeft = 0) (hwants : s.wantsRing = false) :
    ∃ bit forwarded, s.sourceBit = (bit, .forwarded, { s with bitsForwarded := forwarded }) := by
  unfold sourceBit
  rw [if_neg (by rw [horiginate]; exact Nat.lt_irrefl 0)]
  split
  · refine ⟨s.pendingBit, s.bitsForwarded + 1, ?_⟩
    rw [if_neg (by rw [hwants]; exact Bool.false_ne_true)]
  · exact ⟨false, s.bitsForwarded, rfl⟩

theorem forceToken_of_not_wants (h : s.wantsRing = false) : s.forceToken = s := by
  unfold forceToken
  rw [h]
  rfl

theorem Passive.forceToken (h : s.Passive) : s.forceToken.Passive := by
  rwa [forceToken_of_not_wants h.wantsRing]

theorem driveBit_of_frameBit {s₁ : Station} {bit : Bool} (hsource : s.sourceBit = (bit, .forwarded, s₁))
    (hstrip : s₁.stripping = true) (hframe : s₁.hasFrameBit = true) :
    s.driveBit = (s₁.frameBit.1, s₁.frameBit.2.countStripping) := by
  unfold driveBit
  rw [hsource]
  dsimp only
  rw [hstrip, hframe]
  rfl

theorem driveBit_of_drop {s₁ : Station} {bit : Bool} (hsource : s.sourceBit = (bit, .forwarded, s₁))
    (hstrip : s₁.stripping = true) (hframe : s₁.hasFrameBit = false) :
    s.driveBit = (false, s₁.countStripping.forceToken) := by
  unfold driveBit
  rw [hsource]
  dsimp only
  rw [hstrip, hframe]
  rfl

theorem driveBit_of_sourced {s₁ : Station} {bit : Bool} {source : Source}
    (hsource : s.sourceBit = (bit, source, s₁)) (hne : (source == .forwarded) = false) :
    s.driveBit = (bit, s₁.forceToken) := by
  unfold driveBit
  rw [hsource]
  dsimp only
  rw [hne, Bool.and_false]
  rfl

theorem countStripping_of_lt (h : s.bitsStripping + 1 < stripTimeoutBits) :
    s.countStripping = { s with bitsStripping := s.bitsStripping + 1 } := by
  unfold countStripping
  exact if_neg (Nat.not_le_of_lt h)

/-- A BIT OF THE FRAME. -/
theorem Transmitting.driveBit_frame (h : s.Transmitting bytes count n) (hn : 0 < n) (hle : n ≤ count)
    (htime : n < stripTimeoutBits) :
    s.driveBit.1 = sentBit bytes count n ∧ s.driveBit.2.Transmitting bytes count (n + 1) ∧
      (∀ delay, s.Awaiting delay n → s.driveBit.2.Awaiting delay n) := by
  have horiginate : s.originateLeft = 0 := h.originateLeft.trans (if_pos hle)
  obtain ⟨bit, forwarded, hsource⟩ := sourceBit_forwarded horiginate h.wantsRing
  have hpos : s.tx.bitPos = n - 1 := by rw [h.bitPos]; omega
  have hstripped : s.bitsStripping = n - 1 := by
    rw [h.bitsStripping, if_pos (by omega)]
    omega
  have hframe : (hasFrameBit { s with bitsForwarded := forwarded }) = true := by
    unfold hasFrameBit
    change (s.tx.armed && decide (s.tx.bitPos < s.tx.bitCount)) = true
    rw [h.armed, h.bitCount, hpos, decide_eq_true hle, decide_eq_true (by omega)]
    rfl
  have hdrive : s.driveBit = ((frameBit { s with bitsForwarded := forwarded }).1,
      (frameBit { s with bitsForwarded := forwarded }).2.countStripping) :=
    driveBit_of_frameBit hsource h.stripping hframe
  have hbit : (frameBit { s with bitsForwarded := forwarded }).1 = sentBit bytes count n := by
    rw [(frameBit_eq _).1, sentBit, if_pos hle]
    change bitAt (s.tx.bits.getD []) s.tx.bitPos = _
    rw [h.bytes, hpos]
  rw [hdrive]
  refine ⟨hbit, ?_⟩
  have hsucc : n - 1 + 1 = n := by omega
  by_cases hlast : n = count
  · have hnext : (frameBit { s with bitsForwarded := forwarded }).2 =
        { s with
          bitsForwarded := forwarded
          tx := { s.tx with bitPos := s.tx.bitPos + 1, armed := false }
          originateSymbol := Oob.freeToken.symbol
          originateLeft := oobBits } := by
      unfold frameBit
      change (if s.tx.bitCount ≤ s.tx.bitPos + 1 then _ else _ : Bool × Station).2 = _
      rw [if_pos (by rw [h.bitCount, hpos]; omega)]
      rfl
    rw [hnext, countStripping_of_lt (by change s.bitsStripping + 1 < _; rw [hstripped]; omega)]
    refine ⟨⟨h.stripping, h.wantsRing, h.bytes, h.bitCount, ?_, ?_, ?_, fun _ => rfl, ?_⟩,
      fun delay ha => awaiting_congr ha rfl rfl⟩
    · rw [decide_eq_false (by omega)]
    · change s.tx.bitPos + 1 = _
      rw [hpos]
      omega
    · change oobBits = _
      rw [if_neg (by omega)]
      omega
    · change s.bitsStripping + 1 = _
      rw [hstripped, if_pos (by simp only [oobBits]; omega)]
      omega
  · have hnext : (frameBit { s with bitsForwarded := forwarded }).2 =
        { s with
          bitsForwarded := forwarded
          tx := { s.tx with bitPos := s.tx.bitPos + 1 } } := by
      unfold frameBit
      change (if s.tx.bitCount ≤ s.tx.bitPos + 1 then _ else _ : Bool × Station).2 = _
      rw [if_neg (by rw [h.bitCount, hpos]; omega)]
    rw [hnext, countStripping_of_lt (by change s.bitsStripping + 1 < _; rw [hstripped]; omega)]
    refine ⟨⟨h.stripping, h.wantsRing, h.bytes, h.bitCount, ?_, ?_, ?_, fun hlt => ?_, ?_⟩,
      fun delay ha => awaiting_congr ha rfl rfl⟩
    · change s.tx.armed = _
      rw [h.armed, decide_eq_true hle, decide_eq_true (by omega)]
    · change s.tx.bitPos + 1 = _
      rw [hpos]
      omega
    · change s.originateLeft = _
      rw [horiginate, if_pos (by omega)]
    · omega
    · change s.bitsStripping + 1 = _
      rw [hstripped, if_pos (by omega)]
      omega

/-- A BIT OF THE FREE TOKEN behind it. -/
theorem Transmitting.driveBit_token (h : s.Transmitting bytes count n) (hlt : count < n)
    (hle : n ≤ count + oobBits) :
    s.driveBit.1 = sentBit bytes count n ∧ s.driveBit.2.Transmitting bytes count (n + 1) ∧
      (∀ delay, s.Awaiting delay n → s.driveBit.2.Awaiting delay n) := by
  have hleft : s.originateLeft = count + oobBits + 1 - n :=
    h.originateLeft.trans (if_neg (Nat.not_le_of_lt hlt))
  have hsource : s.sourceBit = (s.originateSymbol.getLsbD (s.originateLeft - 1), .originated,
      { s with originateLeft := s.originateLeft - 1 }) := by
    unfold sourceBit
    exact if_pos (by rw [hleft]; omega)
  have hdrive : s.driveBit = (s.originateSymbol.getLsbD (s.originateLeft - 1),
      { s with originateLeft := s.originateLeft - 1 }) :=
    (driveBit_of_sourced hsource rfl).trans
      (congrArg (_, ·) (forceToken_of_not_wants h.wantsRing))
  rw [hdrive]
  refine ⟨?_, ⟨h.stripping, h.wantsRing, h.bytes, h.bitCount, ?_, ?_, ?_, fun _ => h.symbol hlt, ?_⟩,
    fun delay ha => awaiting_congr ha rfl rfl⟩
  · rw [h.symbol hlt, hleft, sentBit, if_neg (by omega), if_pos hle]
    exact congrArg Oob.freeToken.symbol.getLsbD (by omega)
  · change s.tx.armed = _
    rw [h.armed, decide_eq_false (by omega), decide_eq_false (by omega)]
  · change s.tx.bitPos = _
    rw [h.bitPos]
    omega
  · change s.originateLeft - 1 = _
    rw [hleft, if_neg (by omega)]
    omega
  · change s.bitsStripping = _
    rw [h.bitsStripping, if_pos (by omega), if_pos (by omega)]
    omega

theorem Transmitting.driveBit_zero (h : s.Transmitting bytes count n) (hlt : count + oobBits < n)
    (htime : n < stripTimeoutBits + oobBits) :
    s.driveBit.1 = sentBit bytes count n ∧ s.driveBit.2.Transmitting bytes count (n + 1) ∧
      (∀ delay, s.Awaiting delay n → s.driveBit.2.Awaiting delay n) := by
  have horiginate : s.originateLeft = 0 := by
    rw [h.originateLeft, if_neg (by omega)]
    omega
  obtain ⟨bit, forwarded, hsource⟩ := sourceBit_forwarded horiginate h.wantsRing
  have hstripped : s.bitsStripping = n - oobBits - 1 := by
    rw [h.bitsStripping]
    split <;> omega
  have hframe : (hasFrameBit { s with bitsForwarded := forwarded }) = false := by
    unfold hasFrameBit
    change (s.tx.armed && _) = false
    rw [h.armed, decide_eq_false (by omega)]
    rfl
  have hcount : (countStripping { s with bitsForwarded := forwarded }) =
      { s with bitsForwarded := forwarded, bitsStripping := s.bitsStripping + 1 } :=
    countStripping_of_lt (by change s.bitsStripping + 1 < _; rw [hstripped]; omega)
  have hdrive : s.driveBit =
      (false, { s with bitsForwarded := forwarded, bitsStripping := s.bitsStripping + 1 }) := by
    rw [driveBit_of_drop hsource h.stripping hframe, hcount]
    exact congrArg (false, ·) (forceToken_of_not_wants h.wantsRing)
  rw [hdrive]
  refine ⟨?_, ⟨h.stripping, h.wantsRing, h.bytes, h.bitCount, ?_, ?_, ?_, fun _ => h.symbol (by omega),
    ?_⟩, fun delay ha => awaiting_congr ha rfl rfl⟩
  · rw [sentBit, if_neg (by omega), if_neg (by omega)]
  · change s.tx.armed = _
    rw [h.armed, decide_eq_false (by omega), decide_eq_false (by omega)]
  · change s.tx.bitPos = _
    rw [h.bitPos]
    omega
  · change s.originateLeft = _
    rw [horiginate, if_neg (by omega)]
    omega
  · change s.bitsStripping + 1 = _
    rw [hstripped, if_neg (by omega)]
    omega

/-- THE TIMEOUT drops one bit more, and ends the stripping. -/
theorem Transmitting.driveBit_timeout (h : s.Transmitting bytes count n)
    (hcount : count < stripTimeoutBits) (htime : n = stripTimeoutBits + oobBits) :
    s.driveBit.1 = false ∧ s.driveBit.2.Passive := by
  have horiginate : s.originateLeft = 0 := by
    rw [h.originateLeft, if_neg (by omega)]
    omega
  obtain ⟨bit, forwarded, hsource⟩ := sourceBit_forwarded horiginate h.wantsRing
  have hstripped : s.bitsStripping + 1 = stripTimeoutBits := by
    rw [h.bitsStripping]
    split <;> omega
  have hframe : (hasFrameBit { s with bitsForwarded := forwarded }) = false := by
    unfold hasFrameBit
    change (s.tx.armed && _) = false
    rw [h.armed, decide_eq_false (by omega)]
    rfl
  have hover : (countStripping { s with bitsForwarded := forwarded }) =
      { s with
        bitsForwarded := forwarded
        bitsStripping := s.bitsStripping + 1
        stripping := false
        holdsRing := false
        stripTimeouts := s.stripTimeouts + 1 } := by
    unfold countStripping
    exact if_pos hstripped.ge
  rw [driveBit_of_drop hsource h.stripping hframe, hover]
  exact ⟨rfl, Passive.forceToken ⟨rfl, h.wantsRing, horiginate⟩⟩

/-- ONE DRIVE of a station that strips. -/
theorem Transmitting.driveBit (h : s.Transmitting bytes count n) (hn : 0 < n)
    (htime : n < stripTimeoutBits + oobBits) (hcount : count < stripTimeoutBits) :
    s.driveBit.1 = sentBit bytes count n ∧ s.driveBit.2.Transmitting bytes count (n + 1) ∧
      (∀ delay, s.Awaiting delay n → s.driveBit.2.Awaiting delay n) := by
  by_cases hframe : n ≤ count
  · exact h.driveBit_frame hn hframe (by omega)
  · by_cases htoken : n ≤ count + oobBits
    · exact h.driveBit_token (Nat.lt_of_not_le hframe) htoken
    · exact h.driveBit_zero (Nat.lt_of_not_le htoken) htime

/-- THE CLAIM: the free token's last bit is driven as a one. -/
theorem driveBit_claims (hwaiting : s.Waiting) (hclaims : s.claims = true)
    (hcount : 0 < s.tx.bitCount) :
    s.driveBit.1 = true ∧ s.driveBit.2.Transmitting (s.tx.bits.getD []) s.tx.bitCount 1 ∧
      s.driveBit.2.tx = s.tx := by
  unfold claims at hclaims
  rw [Bool.and_eq_true, Bool.and_eq_true, Bool.and_eq_true, Bool.and_eq_true, beq_iff_eq]
    at hclaims
  obtain ⟨⟨⟨⟨horiginate, hvalid⟩, hwants⟩, hholds⟩, hwindow⟩ := hclaims
  have hsource : s.sourceBit =
      (true, .claimed, { s.claim with bitsForwarded := s.bitsForwarded + 1 }) := by
    unfold sourceBit
    rw [horiginate, if_neg (Nat.lt_irrefl 0), if_pos hvalid,
      if_pos (by rw [hwants, hholds, hwindow]; rfl)]
  have hdrive : s.driveBit = (true, { s.claim with bitsForwarded := s.bitsForwarded + 1 }) :=
    (driveBit_of_sourced hsource rfl).trans (congrArg (true, ·) (forceToken_of_not_wants rfl))
  rw [hdrive]
  refine ⟨rfl, ⟨rfl, rfl, rfl, rfl, ?_, ?_, ?_, fun hlt => ?_, ?_⟩, rfl⟩
  · change s.tx.armed = _
    exact hwaiting.armed.trans (decide_eq_true hcount).symm
  · change s.tx.bitPos = _
    rw [hwaiting.bitPos]
    omega
  · change s.originateLeft = _
    exact horiginate.trans (if_pos hcount).symm
  · omega
  · change 0 = _
    rw [if_pos (by omega)]
    omega

end Drive

/-! ## The receive side -/

/-- The fields that the transmit side runs on, and a receive leaves alone. -/
structure SameMouth (s s' : Station) : Prop where
  wantsRing : s'.wantsRing = s.wantsRing
  bits : s'.tx.bits = s.tx.bits
  bitCount : s'.tx.bitCount = s.tx.bitCount
  armed : s'.tx.armed = s.tx.armed
  bitPos : s'.tx.bitPos = s.tx.bitPos
  originateLeft : s'.originateLeft = s.originateLeft
  originateSymbol : s'.originateSymbol = s.originateSymbol
  bitsStripping : s'.bitsStripping = s.bitsStripping
  txLevel : s'.txLevel = s.txLevel

theorem Transmitting.sameMouth {bytes : List Byte} {count n : Nat} {s s' : Station}
    (h : s.Transmitting bytes count n) (hsame : SameMouth s s') (hstrip : s'.stripping = true) :
    s'.Transmitting bytes count n :=
  ⟨hstrip, hsame.wantsRing.trans h.wantsRing, (congrArg (·.getD []) hsame.bits).trans h.bytes,
    hsame.bitCount.trans h.bitCount, hsame.armed.trans h.armed, hsame.bitPos.trans h.bitPos,
    hsame.originateLeft.trans h.originateLeft, fun hlt => hsame.originateSymbol.trans (h.symbol hlt),
    hsame.bitsStripping.trans h.bitsStripping⟩

/-- Behind the watch for its own frame, a receive leaves the flag and the count of it alone. -/
structure SameWatch (s s' : Station) : Prop where
  stripping : s'.stripping = s.stripping
  seen : s'.tx.seenOwnFrameStart = s.tx.seenOwnFrameStart
  stripped : s'.tx.strippedOwn = s.tx.strippedOwn

theorem watched_receiveBit (s : Station) (bit : Bool) :
    SameWatch (s.shiftWindow bit).watchOwnFrame (s.receiveBit bit) ∧ SameMouth s (s.receiveBit bit) := by
  have hown : SameMouth s (s.shiftWindow bit).watchOwnFrame := by
    unfold watchOwnFrame
    split
    · split
      · split <;> exact ⟨rfl, rfl, rfl, rfl, rfl, rfl, rfl, rfl, rfl⟩
      · split <;> exact ⟨rfl, rfl, rfl, rfl, rfl, rfl, rfl, rfl, rfl⟩
    · exact ⟨rfl, rfl, rfl, rfl, rfl, rfl, rfl, rfl, rfl⟩
  have hrest : ∀ s : Station, SameWatch s (s.watchTokens.followFrame bit) ∧
      SameMouth s (s.watchTokens.followFrame bit) := by
    intro s
    have htokens : SameWatch s s.watchTokens ∧ SameMouth s s.watchTokens := by
      unfold watchTokens
      dsimp only
      split
      · exact ⟨⟨rfl, rfl, rfl⟩, ⟨rfl, rfl, rfl, rfl, rfl, rfl, rfl, rfl, rfl⟩⟩
      · split <;> exact ⟨⟨rfl, rfl, rfl⟩, ⟨rfl, rfl, rfl, rfl, rfl, rfl, rfl, rfl, rfl⟩⟩
    have hfollow : ∀ s : Station, SameWatch s (s.followFrame bit) ∧ SameMouth s (s.followFrame bit) := by
      intro s
      unfold followFrame
      rcases s.rx.step s.stripping s.atSymbol bit with ⟨rx, out, _ | late⟩
      · exact ⟨⟨rfl, rfl, rfl⟩, ⟨rfl, rfl, rfl, rfl, rfl, rfl, rfl, rfl, rfl⟩⟩
      · dsimp only
        split <;> exact ⟨⟨rfl, rfl, rfl⟩, ⟨rfl, rfl, rfl, rfl, rfl, rfl, rfl, rfl, rfl⟩⟩
    obtain ⟨hw, hm⟩ := htokens
    obtain ⟨hw', hm'⟩ := hfollow s.watchTokens
    exact ⟨⟨hw'.stripping.trans hw.stripping, hw'.seen.trans hw.seen, hw'.stripped.trans hw.stripped⟩,
      ⟨hm'.wantsRing.trans hm.wantsRing, hm'.bits.trans hm.bits, hm'.bitCount.trans hm.bitCount,
        hm'.armed.trans hm.armed, hm'.bitPos.trans hm.bitPos,
        hm'.originateLeft.trans hm.originateLeft, hm'.originateSymbol.trans hm.originateSymbol,
        hm'.bitsStripping.trans hm.bitsStripping, hm'.txLevel.trans hm.txLevel⟩⟩
  obtain ⟨hw, hm⟩ := hrest (s.shiftWindow bit).watchOwnFrame
  exact ⟨hw, ⟨hm.wantsRing.trans hown.wantsRing, hm.bits.trans hown.bits,
    hm.bitCount.trans hown.bitCount, hm.armed.trans hown.armed, hm.bitPos.trans hown.bitPos,
    hm.originateLeft.trans hown.originateLeft, hm.originateSymbol.trans hown.originateSymbol,
    hm.bitsStripping.trans hown.bitsStripping, hm.txLevel.trans hown.txLevel⟩⟩

theorem sameMouth_receiveCell {s : Station} {level : Bool} (hs : s.Tuned level) (bit : Bool) :
    SameMouth s (s.receiveCell (biphaseEncode bit level)) := by
  rw [hs.receiveCell]
  obtain ⟨-, hm⟩ := watched_receiveBit { s with
    rxLevel := (biphaseEncode bit level).trailingLevel, rxLevelValid := true } bit
  exact ⟨hm.wantsRing, hm.bits, hm.bitCount, hm.armed, hm.bitPos, hm.originateLeft,
    hm.originateSymbol, hm.bitsStripping, hm.txLevel⟩

/-- A BIT TIME OF WAITING: while the frame is not all back, stripping goes on. -/
theorem Awaiting.receiveBit {s : Station} {h : List Bool} {delay n : Nat} (ha : s.Awaiting delay n)
    (hs : s.Hears h) (hstrip : s.stripping = true) (hlong : oobBits ≤ s.tx.bitCount)
    (hn : n < delay + s.tx.bitCount) {bit : Bool}
    (hbefore : n + 1 < delay + oobBits → endingChar (h ++ [bit]) ≠ some .frameStart)
    (hstart : n + 1 = delay + oobBits → endingChar (h ++ [bit]) = some .frameStart) :
    (s.receiveBit bit).stripping = true ∧ (s.receiveBit bit).Awaiting delay (n + 1) := by
  obtain ⟨hw, -⟩ := watched_receiveBit s bit
  have hsymbol := (hs.shiftWindow bit).atSymbol
  have hgate : ((s.shiftWindow bit).stripping && decide (0 < (s.shiftWindow bit).tx.bitCount)) =
      true := by
    change (s.stripping && decide (0 < s.tx.bitCount)) = true
    rw [hstrip, decide_eq_true (Nat.lt_of_lt_of_le (by decide) hlong)]
    rfl
  by_cases hseen : delay + oobBits ≤ n
  · have hcount : s.tx.strippedOwn = n - delay - oobBits := ha.stripped hseen
    have hwatch : (s.shiftWindow bit).watchOwnFrame =
        { s.shiftWindow bit with tx := { s.tx with strippedOwn := s.tx.strippedOwn + 1 } } := by
      unfold watchOwnFrame
      rw [if_pos hgate, if_neg ?_, if_neg ?_]
      · rfl
      · change ¬ s.tx.bitCount ≤ s.tx.strippedOwn + oobBits
        rw [hcount]
        omega
      · change ¬ (!s.tx.seenOwnFrameStart) = true
        rw [ha.seen, decide_eq_true hseen]
        exact Bool.false_ne_true
    rw [hwatch] at hw
    refine ⟨hw.stripping.trans hstrip, ⟨hw.seen.trans ?_, fun _ => hw.stripped.trans ?_⟩⟩
    · change s.tx.seenOwnFrameStart = _
      rw [ha.seen, decide_eq_true hseen, decide_eq_true (by omega)]
    · change s.tx.strippedOwn + 1 = _
      rw [hcount]
      omega
  · have hunseen : (!(s.shiftWindow bit).tx.seenOwnFrameStart) = true := by
      change (!s.tx.seenOwnFrameStart) = true
      rw [ha.seen, decide_eq_false hseen]
      rfl
    by_cases hlast : n + 1 = delay + oobBits
    · have hwatch : (s.shiftWindow bit).watchOwnFrame =
          { s.shiftWindow bit with
            tx := { s.tx with seenOwnFrameStart := true, strippedOwn := 0 } } := by
        unfold watchOwnFrame
        rw [if_pos hgate, if_pos hunseen, if_pos (by rw [hsymbol, hstart hlast]; rfl)]
        rfl
      rw [hwatch] at hw
      refine ⟨hw.stripping.trans hstrip, ⟨hw.seen.trans ?_, fun _ => hw.stripped.trans ?_⟩⟩
      · exact (decide_eq_true (by omega)).symm
      · change 0 = _
        omega
    · have hother : (s.shiftWindow bit).atSymbol ≠ some Oob.frameStart.symbol := by
        rw [hsymbol]
        intro hsome
        obtain ⟨c, hc, hcsymbol⟩ := Option.map_eq_some_iff.mp hsome
        have hframe : c = .frameStart := by
          cases c <;> first | rfl | exact absurd hcsymbol (by decide)
        exact hbefore (by omega) (hframe ▸ hc)
      have hwatch : (s.shiftWindow bit).watchOwnFrame = s.shiftWindow bit := by
        unfold watchOwnFrame
        rw [if_pos hgate, if_pos hunseen, if_neg hother]
      rw [hwatch] at hw
      refine ⟨hw.stripping.trans hstrip, ⟨hw.seen.trans ?_, fun hle => ?_⟩⟩
      · change s.tx.seenOwnFrameStart = _
        rw [ha.seen, decide_eq_false hseen, decide_eq_false (by omega)]
      · omega

/-- THE FIRST BIT BEHIND THE FRAME ends the stripping. -/
theorem Awaiting.receiveBit_last {s : Station} {delay : Nat}
    (ha : s.Awaiting delay (delay + s.tx.bitCount)) (hlong : oobBits ≤ s.tx.bitCount) (bit : Bool) :
    s.stripsAt bit = false ∧ (s.receiveBit bit).stripping = false := by
  have hstrips : s.stripsAt bit = false := by
    unfold stripsAt
    rw [stripping_watchOwnFrame]
    change (s.stripping && !(decide (0 < s.tx.bitCount) && s.tx.seenOwnFrameStart &&
      decide (s.tx.bitCount ≤ s.tx.strippedOwn + oobBits))) = false
    have hpos : 0 < s.tx.bitCount := Nat.lt_of_lt_of_le (by decide) hlong
    rw [ha.seen, ha.stripped (by omega), decide_eq_true hpos, decide_eq_true (by omega),
      decide_eq_true (by omega)]
    exact Bool.and_false _
  exact ⟨hstrips, (watched_receiveBit s bit).1.stripping.trans hstrips⟩

end Station

end Apollo.Ring
