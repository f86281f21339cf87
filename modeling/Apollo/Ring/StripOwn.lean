import Apollo.Ring.StripSides

/-!
# Stripping one's own frame

What a station drives from its claim until its frame is back, and behind that. The two sides of
`StripSides` go together bit time by bit time (`Sending.run`), and end in one of two ways, with the
first bit behind the frame or with the strip timeout. Either way the station is passive again and
that bit is the first to be sent on (`Resuming`).

So exactly the own frame is stripped, whatever the length of the ring (`strips_own`), up to the
length at which the timeout comes first. There the frame itself goes round again
(`not_strips_own_timeout`).
-/

namespace Apollo.Ring

open Apollo.Lib

namespace Station

/-! ## Both sides together -/

/-- A station at bit time `n` behind its claim, on a line at `level` that brought `h`. -/
structure Sending (bytes : List Byte) (count delay n : Nat) (h : List Bool) (level : Bool)
    (s : Station) : Prop where
  transmitting : s.Transmitting bytes count n
  awaiting : s.Awaiting delay n
  listening : s.Listening h level

/-- From bit time `n` on, the first frame start that comes back is the own one: its last bit is the
ninth behind the delay. -/
def StartsAt (h : List Bool) (n delay : Nat) (bits : List Bool) : Prop :=
  ∀ q, q ≠ [] → q <+: bits →
    (n + q.length < delay + oobBits → endingChar (h ++ q) ≠ some .frameStart) ∧
      (n + q.length = delay + oobBits → endingChar (h ++ q) = some .frameStart)

theorem StartsAt.head {h : List Bool} {n delay : Nat} {b : Bool} {bits : List Bool}
    (hs : StartsAt h n delay (b :: bits)) :
    (n + 1 < delay + oobBits → endingChar (h ++ [b]) ≠ some .frameStart) ∧
      (n + 1 = delay + oobBits → endingChar (h ++ [b]) = some .frameStart) :=
  hs [b] (List.cons_ne_nil _ _) ⟨bits, rfl⟩

theorem StartsAt.tail {h : List Bool} {n delay : Nat} {b : Bool} {bits : List Bool}
    (hs : StartsAt h n delay (b :: bits)) : StartsAt (h ++ [b]) (n + 1) delay bits := by
  rintro q - ⟨t, rfl⟩
  obtain ⟨hbefore, hstart⟩ := hs (b :: q) (List.cons_ne_nil _ _) ⟨t, rfl⟩
  rw [List.append_assoc, List.singleton_append]
  rw [List.length_cons] at hbefore hstart
  exact ⟨fun hlt => hbefore (by omega), fun heq => hstart (by omega)⟩

theorem txLevel_driveBit (s : Station) : s.driveBit.2.txLevel = s.txLevel := by
  have hsource : s.sourceBit.2.2.txLevel = s.txLevel := by
    unfold sourceBit claim
    split
    · rfl
    · split
      · split <;> rfl
      · rfl
  have hcount : ∀ s : Station, s.countStripping.txLevel = s.txLevel := by
    intro s
    unfold countStripping
    dsimp only
    split <;> rfl
  have hforce : ∀ s : Station, s.forceToken.txLevel = s.txLevel := by
    intro s
    unfold forceToken originateToken
    split <;> rfl
  have hframe : ∀ s : Station, s.frameBit.2.txLevel = s.txLevel := by
    intro s
    unfold frameBit originateToken
    dsimp only
    split <;> rfl
  unfold driveBit
  rcases hs₁ : s.sourceBit with ⟨bit, source, s₁⟩
  rw [hs₁] at hsource
  dsimp only at hsource ⊢
  split
  · split
    · exact (hcount _).trans ((hframe _).trans hsource)
    · exact (hforce _).trans ((hcount _).trans hsource)
  · exact (hforce _).trans hsource

theorem driveCell_eq {s : Station} {bit : Bool} (hbit : s.driveBit.1 = bit) :
    s.driveCell = (biphaseEncode bit s.txLevel,
      { s.driveBit.2 with txLevel := (biphaseEncode bit s.txLevel).trailingLevel }) := by
  unfold driveCell
  rw [← hbit, ← txLevel_driveBit s]

theorem Listening.driveCell {s : Station} {h : List Bool} {level : Bool} (hs : s.Listening h level) :
    s.driveCell.2.Listening h level := by
  have hear := s.sameEar_driveCell
  refine ⟨hs.hears.sameEar hear, fun hvalid => ?_⟩
  rw [hear.rxLevel]
  exact hs.tuned (hear.rxLevelValid ▸ hvalid)

section Tick

variable {bytes : List Byte} {count delay n : Nat} {h : List Bool} {level : Bool} {s : Station}

theorem Sending.driveCell (hs : s.Sending bytes count delay n h level) (hn : 0 < n)
    (htime : n < stripTimeoutBits + oobBits) (hcount : count < stripTimeoutBits) :
    s.driveCell.1 = biphaseEncode (sentBit bytes count n) s.txLevel ∧
      s.driveCell.2.txLevel = s.driveCell.1.trailingLevel ∧
      s.driveCell.2.Transmitting bytes count (n + 1) ∧ s.driveCell.2.Awaiting delay n := by
  obtain ⟨hbit, ht, hawait⟩ := hs.transmitting.driveBit hn htime hcount
  have ha := hawait delay hs.awaiting
  rw [driveCell_eq hbit]
  exact ⟨rfl, rfl, ⟨ht.stripping, ht.wantsRing, ht.bytes, ht.bitCount, ht.armed, ht.bitPos,
    ht.originateLeft, ht.symbol, ht.bitsStripping⟩, ⟨ha.seen, ha.stripped⟩⟩

theorem Sending.receiveCell (ht : s.Transmitting bytes count (n + 1)) (ha : s.Awaiting delay n)
    (hs : s.Listening h level) (hlong : oobBits ≤ count) (hn : n < delay + count) {b : Bool}
    {bits : List Bool} (hstart : StartsAt h n delay (b :: bits)) :
    (s.receiveCell (biphaseEncode b level)).Sending bytes count delay (n + 1) (h ++ [b])
        (biphaseEncode b level).trailingLevel ∧
      (s.receiveCell (biphaseEncode b level)).txLevel = s.txLevel ∧
      ((s.receiveCell (biphaseEncode b level)).rx, h ++ [b]) =
        (Receiver.follow true (s.rx, h) b).1 := by
  obtain ⟨hlisten, hheard, -⟩ := hs.receiveCell b
  have hmouth := sameMouth_receiveCell hs.tuned b
  let s₁ : Station := { s with
    rxLevel := (biphaseEncode b level).trailingLevel, rxLevelValid := true }
  have hcell : s.receiveCell (biphaseEncode b level) = s₁.receiveBit b := hs.tuned.receiveCell b
  have ha₁ : s₁.Awaiting delay n := ⟨ha.seen, ha.stripped⟩
  have hears₁ : s₁.Hears h := ⟨hs.hears.bitsSeen, hs.hears.window⟩
  have hcount : s₁.tx.bitCount = count := ht.bitCount
  obtain ⟨hbefore, hown⟩ := hstart.head
  obtain ⟨hstrip, hawait⟩ := ha₁.receiveBit hears₁ ht.stripping (by rwa [hcount])
    (by rwa [hcount]) hbefore hown
  rw [← hcell] at hstrip hawait
  refine ⟨⟨ht.sameMouth hmouth hstrip, hawait, hlisten⟩, hmouth.txLevel, ?_⟩
  have hstrips : s.stripsAt b = true := by
    have hlater := (watched_receiveBit s₁ b).1.stripping
    rw [← hcell, hstrip] at hlater
    unfold stripsAt
    rw [stripping_watchOwnFrame]
    rw [stripping_watchOwnFrame] at hlater
    exact hlater.symm
  rw [hstrips] at hheard
  simp only [Receiver.follow, ← hheard]

/-- WHILE THE FRAME COMES BACK a station drives its frame, the token and zeros, and only listens. -/
theorem Sending.run {bits : List Bool} (hs : s.Sending bytes count delay n h level) (hn : 0 < n)
    (hlong : oobBits ≤ count) (hlength : n + bits.length ≤ delay + count)
    (htime : n + bits.length ≤ stripTimeoutBits + oobBits) (hcount : count < stripTimeoutBits)
    (hstart : StartsAt h n delay bits) :
    let sent := (List.range' n bits.length).map (sentBit bytes count)
    let s' := (transduce tick s (encodeLine level bits)).1
    (transduce tick s (encodeLine level bits)).2 = encodeLine s.txLevel sent ∧
      s'.Sending bytes count delay (n + bits.length) (h ++ bits) (trailing level bits) ∧
      s'.txLevel = trailing s.txLevel sent ∧
      s'.rx = (transduce (Receiver.follow true) (s.rx, h) bits).1.1 := by
  induction bits generalizing s n h level with
  | nil =>
    rw [List.append_nil]
    exact ⟨rfl, hs, rfl, rfl⟩
  | cons b bits ih =>
    intro sent s'
    rw [List.length_cons] at hlength htime
    obtain ⟨hcell, hlevel, htransmit, hawait⟩ := hs.driveCell hn (by omega) hcount
    have hlisten := hs.listening.driveCell
    obtain ⟨hnext, htx, hrx⟩ :=
      Sending.receiveCell htransmit hawait hlisten hlong (by omega) hstart
    obtain ⟨hcells, hsending, htrail, hfollow⟩ := ih hnext (by omega) (by omega) (by omega) hstart.tail
    rw [htx, hlevel, hcell] at hcells htrail
    rw [s.sameEar_driveCell.rx] at hrx
    refine ⟨?_, ?_, htrail, ?_⟩
    · change s.driveCell.1 :: _ = _
      rw [hcell]
      exact congrArg (_ :: ·) hcells
    · have hassoc : h ++ b :: bits = h ++ [b] ++ bits := by
        rw [List.append_assoc, List.singleton_append]
      rw [List.length_cons, hassoc, Nat.add_comm bits.length 1, ← Nat.add_assoc]
      exact hsending
    · rw [transduce_cons, ← hrx]
      exact hfollow

/-- A station whose next drive, of `bit`, is the last one to drop what came in. -/
structure Resuming (s : Station) (level bit : Bool) : Prop where
  cell : s.driveCell.1 = biphaseEncode bit s.txLevel
  txLevel : s.driveCell.2.txLevel = s.driveCell.1.trailingLevel
  strips : ∀ b, s.driveCell.2.stripsAt b = false
  passive : ∀ b, (s.driveCell.2.receiveCell (biphaseEncode b level)).Passive
  level : ∀ b, (s.driveCell.2.receiveCell (biphaseEncode b level)).txLevel = s.driveCell.2.txLevel

/-- THE RECIRCULATION: one bit late, what the receive path makes of the line. -/
theorem Resuming.driven {bit : Bool} (hs : s.Resuming level bit) (hlisten : s.Listening h level)
    (after : List Bool) :
    s.driven (encodeLine level after) =
      encodeLine s.txLevel (bit :: (transduce (Receiver.follow false) (s.rx, h) after).2) := by
  cases after with
  | nil => exact congrArg ([·]) hs.cell
  | cons b after =>
    obtain ⟨hlisten', hheard, hvalid⟩ := hlisten.driveCell.receiveCell b
    obtain ⟨hdriven, -⟩ := (hs.passive b).driven hlisten' after
    obtain ⟨hfirst, -, -⟩ := (hs.passive b).driveCell
    rw [hs.strips b, s.sameEar_driveCell.rx] at hheard
    have hfollow : Receiver.follow false (s.rx, h) b =
        (((s.driveCell.2.receiveCell (biphaseEncode b level)).rx, h ++ [b]),
          (s.driveCell.2.receiveCell (biphaseEncode b level)).pendingBit) := by
      simp only [Receiver.follow, ← hheard]
    change s.driveCell.1 ::
      (s.driveCell.2.receiveCell (biphaseEncode b level)).driven (encodeLine _ after) = _
    rw [hdriven, (hfirst hvalid).1, hs.level b, hs.txLevel, hs.cell, transduce_cons, hfollow]
    rfl

/-- THE FRAME IS BACK: the next bit is not its own any more. -/
theorem Sending.resuming_back (hs : s.Sending bytes count delay (delay + count) h level)
    (hlong : oobBits ≤ count) (hdelay : oobBits ≤ delay) (hcount : count < stripTimeoutBits)
    (htime : delay + count < stripTimeoutBits + oobBits) :
    s.Resuming level (sentBit bytes count (delay + count)) := by
  have hlisten := hs.listening.driveCell
  have hpos : 0 < delay + count := Nat.lt_of_lt_of_le (by decide) (Nat.le_add_right_of_le hdelay)
  obtain ⟨hcell, hlevel, ht, ha⟩ := hs.driveCell hpos htime hcount
  have hlast : ∀ b level, ({ s.driveCell.2 with rxLevel := level, rxLevelValid := true } :
        Station).stripsAt b = false ∧
      (receiveBit { s.driveCell.2 with rxLevel := level, rxLevelValid := true } b).stripping =
        false := by
    intro b level
    have hown : ({ s.driveCell.2 with rxLevel := level, rxLevelValid := true } :
        Station).tx.bitCount = count := ht.bitCount
    refine @Awaiting.receiveBit_last _ delay ?_ (by rwa [hown]) b
    rw [hown]
    exact ⟨ha.seen, ha.stripped⟩
  refine ⟨hcell, hlevel, fun b => ?_, fun b => ?_, fun b => ?_⟩
  · obtain ⟨hstrips, -⟩ := hlast b level
    unfold stripsAt at hstrips ⊢
    rw [stripping_watchOwnFrame] at hstrips ⊢
    exact hstrips
  · have hmouth := sameMouth_receiveCell hlisten.tuned b
    refine ⟨?_, hmouth.wantsRing.trans ht.wantsRing, hmouth.originateLeft.trans ?_⟩
    · rw [hlisten.tuned.receiveCell]
      exact (hlast b _).2
    · rw [ht.originateLeft, if_neg (by omega)]
      omega
  · exact (sameMouth_receiveCell hlisten.tuned b).txLevel

/-- THE TIMEOUT IS REACHED: the next bit is sent on, whether it is its own or not. -/
theorem Sending.resuming_timeout (hs : s.Sending bytes count delay n h level)
    (hcount : count < stripTimeoutBits) (htime : n = stripTimeoutBits + oobBits) :
    s.Resuming level false := by
  have hlisten := hs.listening.driveCell
  obtain ⟨hbit, hpassive⟩ := hs.transmitting.driveBit_timeout hcount htime
  have hcell := driveCell_eq hbit
  have hpassive' : s.driveCell.2.Passive := by
    rw [hcell]
    exact ⟨hpassive.stripping, hpassive.wantsRing, hpassive.originateLeft⟩
  exact ⟨by rw [hcell], by rw [hcell], fun b => (hpassive'.receiveBit b).2.1,
    fun b => (hpassive'.receiveCell hlisten b).1, fun b => (hpassive'.receiveCell hlisten b).2⟩

theorem Sending.resuming (hs : s.Sending bytes count delay (delay + count) h level)
    (hlong : oobBits ≤ count) (hdelay : oobBits ≤ delay) (hcount : count < stripTimeoutBits)
    (htime : delay + count ≤ stripTimeoutBits + oobBits) :
    s.Resuming level (sentBit bytes count (delay + count)) := by
  rcases Nat.lt_or_eq_of_le htime with hlt | heq
  · exact hs.resuming_back hlong hdelay hcount hlt
  · have hzero : sentBit bytes count (delay + count) = false := by
      rw [sentBit, if_neg (by omega), if_neg (by omega)]
    rw [hzero]
    exact hs.resuming_timeout hcount heq

end Tick

/-! ## The whole of it -/

theorem sentBits_eq (bytes : List Byte) (count zeros : Nat) :
    (List.range' 1 (count + oobBits + zeros)).map (sentBit bytes count) =
      packed bytes count ++ symbolBits Oob.freeToken.symbol ++ List.replicate zeros false := by
  have hframe : (List.range' 1 count).map (sentBit bytes count) = packed bytes count := by
    rw [List.range'_eq_map_range, List.map_map]
    refine List.map_congr_left fun i hi => ?_
    have hlt := List.mem_range.mp hi
    change sentBit bytes count (1 + i) = bitAt bytes i
    rw [sentBit, if_pos (by omega), Nat.add_sub_cancel_left]
  have htoken : (List.range' (1 + count) oobBits).map (sentBit bytes count) =
      symbolBits Oob.freeToken.symbol := by
    have hbits : symbolBits Oob.freeToken.symbol =
        (List.range oobBits).map fun i => Oob.freeToken.symbol.getLsbD (oobBits - (1 + i)) := by
      decide
    rw [List.range'_eq_map_range, List.map_map, hbits]
    refine List.map_congr_left fun i hi => ?_
    have hlt := List.mem_range.mp hi
    change sentBit bytes count (1 + count + i) = _
    rw [sentBit, if_neg (by omega), if_pos (by omega)]
    exact congrArg Oob.freeToken.symbol.getLsbD (by omega)
  have hzeros : (List.range' (1 + count + oobBits) zeros).map (sentBit bytes count) =
      List.replicate zeros false := by
    refine List.eq_replicate_iff.mpr ⟨by rw [List.length_map, List.length_range'], fun bit hbit => ?_⟩
    obtain ⟨n, hn, rfl⟩ := List.mem_map.mp hbit
    have hle := (List.mem_range'_1.mp hn).1
    rw [sentBit, if_neg (by omega), if_neg (by omega)]
  rw [← List.range'_append_1, List.map_append, ← List.range'_append_1, List.map_append, hframe,
    htoken, ← Nat.add_assoc, hzeros]

theorem driven_append (s : Station) (cells₁ cells₂ : List Cell) :
    s.driven (cells₁ ++ cells₂) =
      (transduce tick s cells₁).2 ++ (transduce tick s cells₁).1.driven cells₂ := by
  unfold driven
  rw [transduce_append, List.append_assoc]

/-- What comes back behind a claim: `own` has the length of the armed frame, and its frame start is
the first one. -/
structure Returns (s : Station) (h before own : List Bool) : Prop where
  length : own.length = s.tx.bitCount
  start : symbolBits Oob.frameStart.symbol <+: own
  first : ∀ q, q ≠ [] → q <+: before ++ own → endingChar (h ++ q) = some .frameStart →
    before.length + oobBits ≤ q.length

/-- The station strips `own` and nothing else: the claim's last bit, the frame, a free token, zeros
until the frame is back, and then one bit for each of `after`. Behind a whole frame these begin
with the first bit of `after`, and a free token in front of it is kept. -/
def StripsExactly (s : Station) (level : Bool) (before own after : List Bool) : Prop :=
  ∃ forwarded, s.driven (encodeLine level (before ++ own ++ after)) =
      encodeLine s.txLevel (true :: (s.frameToSend ++ symbolBits Oob.freeToken.symbol ++
        List.replicate (before.length - oobBits) false ++ forwarded)) ∧
    forwarded.length = after.length ∧
    ∀ fields, headerLengthValid fields.header.length = true → own = frameLine fields →
      forwarded.head? = after.head? ∧
        (symbolBits Oob.freeToken.symbol <+: after → symbolBits Oob.freeToken.symbol <+: forwarded)

theorem Returns.startsAt {s : Station} {h before own : List Bool} (hr : s.Returns h before own) :
    StartsAt h 0 before.length (before ++ own) := by
  intro q hne hq
  refine ⟨fun hlt hstart => ?_, fun heq => ?_⟩
  · have hle := hr.first q hne hq hstart
    omega
  · obtain ⟨rest, hown⟩ := hr.start
    rw [← hown, ← List.append_assoc] at hq
    have hlen : (before ++ symbolBits Oob.frameStart.symbol).length = q.length := by
      rw [List.length_append, ← Nat.zero_add q.length, heq]
      exact congrArg (before.length + ·) (length_msbBits _ _)
    have hq' : q = before ++ symbolBits Oob.frameStart.symbol :=
      List.IsPrefix.eq_of_length (List.prefix_of_prefix_length_le hq ⟨rest, rfl⟩ hlen.ge) hlen.symm
    rw [hq', ← List.append_assoc]
    exact endingChar_symbolBits _ _

/-- FROM THE CLAIM ON: what a station drives while `bits` arrive, and where it stands behind them. -/
theorem run_claimed {s : Station} {h : List Bool} {level : Bool} (hlisten : s.Listening h level)
    (hwaiting : s.Waiting) (hclaims : s.claims = true) {delay : Nat} {b : Bool} {bits : List Bool}
    (hdelay : 0 < delay) (hstart : StartsAt h 0 delay (b :: bits))
    (hlength : (b :: bits).length ≤ delay + s.tx.bitCount)
    (htime : (b :: bits).length ≤ stripTimeoutBits + oobBits) :
    let bytes := s.tx.bits.getD []
    let sent := true :: (List.range' 1 bits.length).map (sentBit bytes s.tx.bitCount)
    let s' := (transduce tick s (encodeLine level (b :: bits))).1
    (transduce tick s (encodeLine level (b :: bits))).2 = encodeLine s.txLevel sent ∧
      s'.Sending bytes s.tx.bitCount delay (b :: bits).length (h ++ b :: bits)
        (trailing level (b :: bits)) ∧
      s'.txLevel = trailing s.txLevel sent ∧
      s'.rx = (transduce (Receiver.follow true) (s.rx, h) (b :: bits)).1.1 := by
  intro bytes sent s'
  obtain ⟨hbit, hc, htx⟩ :=
    driveBit_claims hwaiting hclaims (Nat.lt_of_lt_of_le (by decide) hwaiting.long)
  have hcell := driveCell_eq hbit
  have htransmit : s.driveCell.2.Transmitting bytes s.tx.bitCount (0 + 1) := by
    rw [hcell]
    exact ⟨hc.stripping, hc.wantsRing, hc.bytes, hc.bitCount, hc.armed, hc.bitPos, hc.originateLeft,
      hc.symbol, hc.bitsStripping⟩
  have hawait : s.driveCell.2.Awaiting delay 0 := by
    rw [hcell]
    refine ⟨?_, fun hle => absurd hle (by omega)⟩
    change s.driveBit.2.tx.seenOwnFrameStart = _
    rw [htx, hwaiting.unseen, decide_eq_false (by omega)]
  obtain ⟨hnext, hlevel, hrx⟩ := Sending.receiveCell htransmit hawait hlisten.driveCell hwaiting.long
    (by omega) hstart
  rw [List.length_cons] at hlength htime
  obtain ⟨hcells, hsending, htrail, hfollow⟩ := hnext.run Nat.zero_lt_one hwaiting.long
    (by omega) (by omega) hwaiting.short hstart.tail
  have htxLevel : (s.driveCell.2.receiveCell (biphaseEncode b level)).txLevel =
      (biphaseEncode true s.txLevel).trailingLevel := hlevel.trans (by rw [hcell])
  rw [htxLevel] at hcells htrail
  rw [s.sameEar_driveCell.rx] at hrx
  refine ⟨?_, ?_, htrail, ?_⟩
  · change s.driveCell.1 :: _ = _
    rw [hcell]
    exact congrArg (_ :: ·) hcells
  · have hassoc : h ++ b :: bits = h ++ [b] ++ bits := by
      rw [List.append_assoc, List.singleton_append]
    rw [hassoc, List.length_cons, Nat.add_comm]
    exact hsending
  · rw [transduce_cons, ← hrx]
    exact hfollow

/-- THE OWN FRAME AND NOTHING ELSE IS STRIPPED, whatever the length of the ring, as long as the
frame is back within the strip timeout. -/
theorem strips_own {s : Station} {h : List Bool} {level : Bool} (hlisten : s.Listening h level)
    (hwaiting : s.Waiting) (hclaims : s.claims = true) {before own : List Bool}
    (hreturns : s.Returns h before own) (hdelay : oobBits ≤ before.length)
    (htime : before.length + own.length ≤ stripTimeoutBits + oobBits) (after : List Bool) :
    s.StripsExactly level before own after := by
  have hstart := hreturns.startsAt
  have htotal : (before ++ own).length = before.length + s.tx.bitCount := by
    rw [List.length_append, hreturns.length]
  have hpos : 0 < before.length := Nat.lt_of_lt_of_le (by decide) hdelay
  rw [← List.length_append, htotal] at htime
  obtain ⟨b, bits, hbits⟩ : ∃ b bits, before ++ own = b :: bits :=
    List.exists_cons_of_length_pos (by omega)
  rw [hbits] at hstart htotal
  obtain ⟨hcells, hsending, hlevel, hrx⟩ :=
    run_claimed hlisten hwaiting hclaims hpos hstart htotal.le (by omega)
  rw [htotal] at hsending
  have hresume :=
    (hsending.resuming hwaiting.long hdelay hwaiting.short htime).driven hsending.listening after
  refine ⟨(transduce (Receiver.follow false)
      ((transduce tick s (encodeLine level (b :: bits))).1.rx, h ++ b :: bits) after).2, ?_,
    length_transduce _ _ _, fun fields hheader hown => ?_⟩
  · have hsent := sentBits_eq (s.tx.bits.getD []) s.tx.bitCount (before.length - oobBits)
    have hsplit : s.tx.bitCount + oobBits + (before.length - oobBits) = bits.length + 1 := by
      rw [← List.length_cons (a := b), htotal]
      omega
    have hlast : 1 + bits.length = before.length + s.tx.bitCount := by
      rw [← htotal, List.length_cons, Nat.add_comm]
    rw [hsplit, List.range'_1_concat, List.map_append, hlast] at hsent
    rw [hbits, encodeLine_append, driven_append, hcells, hresume, hlevel, ← encodeLine_append]
    unfold frameToSend
    rw [← hsent]
    simp only [List.append_assoc, List.cons_append, List.map_cons, List.map_nil, List.nil_append]
  · have hend : ((transduce tick s (encodeLine level (b :: bits))).1.rx, h ++ b :: bits) =
        (transduce (Receiver.follow true) (s.rx, h) (b :: bits)).1 :=
      Prod.ext hrx (Receiver.history_follow true (s.rx, h) (b :: bits)).symm
    refine Receiver.Resting.sent false ?_ after
    rw [hend, ← hbits, hown, transduce_append]
    dsimp only
    rcases (transduce (Receiver.follow true) (s.rx, h) before).1 with ⟨rx, history⟩
    exact Receiver.resting_frameLine true rx history hheader

/-! ## A frame on an idle ring -/

theorem returns_zeros {s : Station} {h : List Bool} (hquiet : Quiet h) (delay : Nat)
    {fields : FrameFields} (hlength : (frameLine fields).length = s.tx.bitCount) :
    s.Returns h (List.replicate delay false) (frameLine fields) := by
  obtain ⟨hzeros, hbehind⟩ := noChar_zeros hquiet delay
  have hstart := noChar_symbolBits hbehind .frameStart
  refine ⟨hlength, List.prefix_append _ _, fun q hne hq hchar => ?_⟩
  by_contra hshort
  rw [List.length_replicate] at hshort
  have hnone : endingChar (h ++ q) = none := by
    rw [endingChar_eq_none_iff]
    by_cases hle : q.length ≤ delay
    · refine hzeros q hne (List.prefix_of_prefix_length_le hq (List.prefix_append _ _) ?_)
      rwa [List.length_replicate]
    · obtain ⟨q', rfl⟩ : List.replicate delay false <+: q :=
        List.prefix_of_prefix_length_le (List.prefix_append _ _) hq
          (by rw [List.length_replicate]; omega)
      rw [List.length_append, List.length_replicate] at hle hshort
      rw [← List.append_assoc]
      refine hstart q' (fun hnil => hle (by rw [hnil]; exact Nat.le_refl _)) ?_
      have hq' : q' <+: frameLine fields := (List.prefix_append_right_inj _).mp hq
      refine List.prefix_of_prefix_length_le hq'
        ((List.dropLast_prefix _).trans (List.prefix_append _ _)) ?_
      rw [List.length_dropLast, length_symbolBits]
      omega
  rw [hnone] at hchar
  cases hchar

/-- A station with the smallest frame armed, behind a free token. -/
def behindToken : Station :=
  (.queueFrame smallestFrame ::
    (encodeLine true (symbolBits Oob.freeToken.symbol)).map Call.receive).foldl call
    (attached 0 9 true (some (List.replicate 40 0)) none 0)

theorem listening_behindToken :
    behindToken.Listening (symbolBits Oob.freeToken.symbol)
        (trailing true (symbolBits Oob.freeToken.symbol)) ∧
      Receiver.Resting (behindToken.rx, symbolBits Oob.freeToken.symbol) :=
  have hlegal : ∀ item ∈ [Item.token .freeToken], item.Legal := by
    intro item hitem
    rw [List.mem_singleton.mp hitem]
    exact .inl rfl
  resting_attached 0 9 true (some (List.replicate 40 0)) none 0 true hlegal (by decide)

theorem waiting_behindToken : behindToken.Waiting ∧ behindToken.claims = true ∧
    (frameLine smallestFrame).length = behindToken.tx.bitCount := by
  refine ⟨⟨?_, ?_, ?_, ?_, ?_⟩, ?_, ?_⟩ <;> decide +kernel

/-- The smallest frame on the smallest ring, with its token behind it. -/
theorem strips_own_smallest :
    behindToken.StripsExactly (trailing true (symbolBits Oob.freeToken.symbol))
      (List.replicate oobBits false) (frameLine smallestFrame) (symbolBits Oob.freeToken.symbol) :=
  strips_own listening_behindToken.1 waiting_behindToken.1 waiting_behindToken.2.1
    (returns_zeros listening_behindToken.2.quiet oobBits waiting_behindToken.2.2)
    (by decide) (by decide +kernel) _

theorem encodeLine_injective {level : Bool} {as bs : List Bool}
    (heq : encodeLine level as = encodeLine level bs) : as = bs := by
  induction as generalizing level bs with
  | nil =>
    cases bs with
    | nil => rfl
    | cons b bs => cases heq
  | cons a as ih =>
    cases bs with
    | nil => cases heq
    | cons b bs =>
      obtain ⟨hcell, hrest⟩ := List.cons.inj heq
      have hbit : a = b := by
        have hdecode := congrArg (biphaseDecode · level) hcell
        rw [biphaseDecode_biphaseEncode, biphaseDecode_biphaseEncode] at hdecode
        exact congrArg Prod.fst hdecode
      subst hbit
      rw [ih hrest]

theorem sends_on_own {s : Station} {h : List Bool} {level : Bool} (hlisten : s.Listening h level)
    (hresting : Receiver.Resting (s.rx, h)) (hwaiting : s.Waiting) (hclaims : s.claims = true)
    {fields : FrameFields} (hlength : (frameLine fields).length = s.tx.bitCount) (delay : Nat)
    (hdelay : delay + 1 = stripTimeoutBits + oobBits) :
    ¬ s.StripsExactly level (List.replicate (delay + 1) false) (frameLine fields) [] := by
  rintro ⟨forwarded, hdriven, hnil, -⟩
  have hreturns := returns_zeros (s := s) hresting.quiet (delay + 1) hlength
  have hstart : StartsAt h 0 (delay + 1) (false :: List.replicate delay false) := by
    intro q hne hq
    have hall := hreturns.startsAt q hne (hq.trans (List.prefix_append _ _))
    rwa [List.length_replicate] at hall
  have hcount : (false :: List.replicate delay false).length = delay + 1 := by
    rw [List.length_cons, List.length_replicate]
  obtain ⟨hcells, hsending, hlevel, hrx⟩ := run_claimed hlisten hwaiting hclaims
    (Nat.succ_pos delay) hstart (by omega) (by omega)
  rw [hcount, hdelay] at hsending
  have hresume := (hsending.resuming_timeout hwaiting.short rfl).driven hsending.listening
    (frameLine fields)
  -- the receiver is still between frames when the frame start comes
  have hrest : Receiver.Resting ((transduce tick s (encodeLine level
      (false :: List.replicate delay false))).1.rx, h ++ false :: List.replicate delay false) := by
    have hzeros := hresting.follow_zeros true (delay + 1)
    have hhistory := Receiver.history_follow true (s.rx, h) (List.replicate (delay + 1) false)
    rw [hrx]
    refine ⟨hzeros.idle, ?_⟩
    have hquiet := hzeros.quiet
    rwa [hhistory] at hquiet
  have hsymbol := hrest.sent_symbol false (.inr rfl)
  -- the frame start in front of it has a one, and all that should be driven is zeros
  have hone : true ∈ (transduce (Receiver.follow false) ((transduce tick s (encodeLine level
      (false :: List.replicate delay false))).1.rx, h ++ false :: List.replicate delay false)
      (frameLine fields)).2 := by
    rw [frameLine, transduce_append, hsymbol]
    exact List.mem_append_left _ (by decide)
  generalize (transduce (Receiver.follow false) _ (frameLine fields)).2 = sent at hresume hone
  let dropped := (List.range' 1 (List.replicate delay false).length).map
    (sentBit (s.tx.bits.getD []) s.tx.bitCount)
  have hline : s.driven (encodeLine level (List.replicate (delay + 1) false ++ frameLine fields)) =
      encodeLine s.txLevel (true :: (dropped ++ false :: sent)) := by
    rw [List.replicate_succ, encodeLine_append, driven_append, hcells, hresume, hlevel,
      ← encodeLine_append]
    rfl
  rw [List.append_nil, hline] at hdriven
  have hbits : dropped ++ false :: sent = s.frameToSend ++ symbolBits Oob.freeToken.symbol ++
      List.replicate ((List.replicate (delay + 1) false).length - oobBits) false ++ forwarded :=
    List.tail_eq_of_cons_eq (encodeLine_injective hdriven)
  have hempty : forwarded = [] := List.eq_nil_of_length_eq_zero hnil
  have hfront : (s.frameToSend ++ symbolBits Oob.freeToken.symbol).length ≤ delay + 1 := by
    have hshort := hwaiting.short
    rw [List.length_append, length_symbolBits, frameToSend, length_packed]
    omega
  have hdropped : (dropped ++ [false]).length = delay + 1 := by
    rw [List.length_append, List.length_map, List.length_range', List.length_replicate,
      List.length_singleton]
  have hdrop := congrArg (List.drop (delay + 1)) hbits
  rw [List.append_cons, List.drop_left' hdropped, hempty, List.append_nil, List.drop_append,
    List.drop_eq_nil_of_le hfront, List.nil_append] at hdrop
  rw [hdrop] at hone
  exact Bool.noConfusion (List.eq_of_mem_replicate (List.mem_of_mem_drop hone))

/-- The strip timeout is the exception that the length of the ring makes. -/
theorem not_strips_own_timeout :
    ¬ ∀ (s : Station) (h : List Bool) (level : Bool) (before own after : List Bool),
      s.Listening h level → s.Waiting → s.claims = true → s.Returns h before own →
        oobBits ≤ before.length → s.StripsExactly level before own after := by
  intro hall
  refine sends_on_own listening_behindToken.1 listening_behindToken.2 waiting_behindToken.1
    waiting_behindToken.2.1 waiting_behindToken.2.2 (stripTimeoutBits + 8) rfl
    (hall _ _ _ _ _ _ listening_behindToken.1 waiting_behindToken.1 waiting_behindToken.2.1
      (returns_zeros listening_behindToken.2.quiet _ waiting_behindToken.2.2) ?_)
  rw [List.length_replicate]
  exact Nat.le_add_left 9 _

end Station

end Apollo.Ring
