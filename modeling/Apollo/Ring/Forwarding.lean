import Apollo.Ring.StationReceive

/-!
# What a station sends on

A station that neither strips nor wants the ring drives, one bit time later, what its
receive path made of the bit before. The acknowledges are the only
bytes it rewrites, and their format keeps three bits of each at zero. So no run of ones
reaches through one of them, the rewritten line is stuffed where the arriving one was,
and it is the line of a frame again: `sentBits_eq`.

`forward_frame` puts the two together.
-/

namespace Apollo.Ring

open Apollo.Lib

/-! ## A legal acknowledge stops every run -/

/-- The bits that both acknowledge fields keep at zero. -/
structure ZeroBits (field : Byte) : Prop where
  seven : field.getLsbD 7 = false
  four : field.getLsbD 4 = false
  zero : field.getLsbD 0 = false

theorem zeroBits_of_and {field : Byte} (h : field &&& lateMustBeZero = 0) : ZeroBits field := by
  have hbit : ∀ i, (field &&& lateMustBeZero).getLsbD i = false := fun i => by
    rw [h]
    exact BitVec.getLsbD_zero
  have hclear : ∀ i, lateMustBeZero.getLsbD i = true → field.getLsbD i = false := by
    intro i hi
    have := hbit i
    rwa [BitVec.getLsbD_and, hi, Bool.and_true] at this
  exact ⟨hclear 7 rfl, hclear 4 rfl, hclear 0 rfl⟩

theorem ZeroBits.msbBits {field : Byte} (h : ZeroBits field) : msbBits 8 field.toNat =
    [false, field.getLsbD 6, field.getLsbD 5, false, field.getLsbD 3, field.getLsbD 2,
      field.getLsbD 1, false] := by
  rw [Receiver.msbBits_byte, h.seven, h.four, h.zero]

theorem ZeroBits.stuff {field : Byte} (h : ZeroBits field) (run : Nat) :
    Lib.stuff stuffAfterOnes run (Lib.msbBits 8 field.toNat) = Lib.msbBits 8 field.toNat ∧
      runAfter stuffAfterOnes run (Lib.msbBits 8 field.toNat) = 0 := by
  rw [h.msbBits]
  cases field.getLsbD 6 <;> cases field.getLsbD 5 <;> cases field.getLsbD 3 <;>
    cases field.getLsbD 2 <;> cases field.getLsbD 1 <;> exact ⟨rfl, rfl⟩

theorem ZeroBits.stuff_front {field : Byte} (h : ZeroBits field) (run : Nat) :
    Lib.stuff stuffAfterOnes run (Receiver.frontBits field) = Receiver.frontBits field := by
  unfold Receiver.frontBits
  rw [h.msbBits]
  cases field.getLsbD 6 <;> cases field.getLsbD 5 <;> cases field.getLsbD 3 <;>
    cases field.getLsbD 2 <;> cases field.getLsbD 1 <;> rfl

theorem ZeroBits.earlySent {field : Byte} (h : ZeroBits field) :
    ZeroBits (Receiver.earlySent field) := by
  have hbits := Receiver.msbBits_earlySent field
  rw [Receiver.msbBits_byte] at hbits
  simp only [List.cons.injEq] at hbits
  exact ⟨hbits.1.trans h.seven, hbits.2.2.2.1.trans h.four, hbits.2.2.2.2.2.2.2.1.trans h.zero⟩

theorem ZeroBits.lateSent {field : Byte} (h : ZeroBits field) (addressed enabled error : Bool) :
    ZeroBits (Receiver.lateSent addressed enabled error field) := by
  have hbits := Receiver.msbBits_lateSent addressed enabled error field
  rw [Receiver.msbBits_byte] at hbits
  simp only [Receiver.lateBitsSent, List.cons.injEq] at hbits
  exact ⟨hbits.1.trans h.seven, hbits.2.2.2.1.trans h.four, hbits.2.2.2.2.2.2.2.1.trans h.zero⟩

namespace Receiver

/-! ## The line sent on is a frame's -/

theorem carry_set_early {header : List Byte} (hlen : hdrEarlyAck < header.length) {field : Byte}
    (hold : ZeroBits (header.getD hdrEarlyAck 0)) (hnew : ZeroBits field) :
    carry stuffAfterOnes 0 (bytesBits header) (bytesBits (header.set hdrEarlyAck field)) =
      dataLine (bytesBits (header.set hdrEarlyAck field)) := by
  have hsplit : header = header.take hdrEarlyAck ++
      (header.getD hdrEarlyAck 0 :: header.drop (hdrEarlyAck + 1)) := by
    rw [List.getD_eq_getElem _ _ hlen, ← List.drop_eq_getElem_cons hlen, List.take_append_drop]
  have hset : header.set hdrEarlyAck field = header.take hdrEarlyAck ++
      (field :: header.drop (hdrEarlyAck + 1)) := List.set_eq_take_append_cons_drop.trans (if_pos hlen)
  obtain ⟨hstuffOld, hrunOld⟩ :=
    hold.stuff (runAfter stuffAfterOnes 0 (bytesBits (header.take hdrEarlyAck)))
  obtain ⟨hstuffNew, hrunNew⟩ :=
    hnew.stuff (runAfter stuffAfterOnes 0 (bytesBits (header.take hdrEarlyAck)))
  have hsize : (msbBits 8 (header.getD hdrEarlyAck 0).toNat).length =
      (msbBits 8 field.toNat).length := by rw [length_msbBits, length_msbBits]
  have hbyte := carry_of_stuff_eq hsize hstuffOld
  rw [hset]
  nth_rewrite 1 [hsplit]
  simp only [dataLine, bytesBits_append, bytesBits_cons]
  rw [carry_append _ _ rfl, carry_self, carry_append _ _ (by rw [length_msbBits, length_msbBits]),
    hbyte, carry_self, stuff_append, stuff_append, hstuffNew, hrunOld, hrunNew]

theorem headerSent_eq (addressed : Bool) {header : List Byte} (hlen : hdrEarlyAck < header.length) :
    headerSent addressed header =
      if addressed && !(header.getD hdrEarlyAck 0).getLsbD 3 then
        header.set hdrEarlyAck
          ((header.getD hdrEarlyAck 0 ||| earlyIntendToCopy) ^^^ earlyParity)
      else header := by
  unfold headerSent
  cases addressed with
  | false => rfl
  | true =>
    rw [if_pos rfl, List.modify_eq_set_getElem? , Bool.true_and, List.getElem?_eq_getElem hlen,
      List.getD_eq_getElem _ _ hlen]
    simp only [Option.map_eq_map, Option.map_some, Option.getD_some, earlySent]
    cases header[hdrEarlyAck].getLsbD 3 with
    | false => rfl
    | true => simp only [if_true, List.set_getElem_self, Bool.not_true, Bool.false_eq_true, if_false]

theorem addressedBy_eq {header : List Byte} (hlen : headerLengthValid header.length = true)
    (address : BitVec 32) : addressedBy address header = headerAddresses header address := by
  obtain ⟨hlow, -⟩ := length_of_headerLengthValid hlen
  rw [addressedBy, decide_eq_true (by omega), Bool.true_and]

theorem counts_received (r : Receiver) {fields : FrameFields} (run headerBits : Nat)
    (flippedParity : Bool) (hlen : headerLengthValid fields.header.length = true) :
    (received false r fields run headerBits flippedParity).framesCopied = r.framesCopied +
        (if headerAddresses fields.header r.address && r.receiveEnabled then 1 else 0) ∧
      (received false r fields run headerBits flippedParity).framesWacked = r.framesWacked +
        (if headerAddresses fields.header r.address && !r.receiveEnabled then 1 else 0) := by
  obtain ⟨haddressed, henabled, -, -, hcopied, hwacked, -⟩ :=
    inCheck_inBody_same r fields.header fields.data headerBits flippedParity
  rw [addressedBy_eq hlen] at haddressed
  unfold received completed withRun
  dsimp only
  rw [haddressed, henabled, hcopied, hwacked, Bool.not_false, Bool.and_true]
  constructor
  · split <;> rfl
  · split <;> rfl

theorem lateSent_eq (addressed enabled : Bool) {field : Byte} (hfield : field &&& lateMustBeZero = 0) :
    lateSent addressed enabled false field =
      ackWithParity (if addressed then
        field ||| lateIntendToCopy ||| (if enabled then lateCopied else lateWaitAck) else field) := by
  have key : ∀ n < 256, ∀ addressed enabled : Bool, BitVec.ofNat 8 n &&& lateMustBeZero = 0 →
      lateSent addressed enabled false (BitVec.ofNat 8 n) =
        ackWithParity (if addressed then BitVec.ofNat 8 n ||| lateIntendToCopy |||
          (if enabled then lateCopied else lateWaitAck) else BitVec.ofNat 8 n) := by decide +kernel
  have h := key field.toNat field.isLt addressed enabled
  rw [BitVec.ofNat_toNat, BitVec.setWidth_eq] at h
  exact h hfield

/-- The frame a station sends on. -/
def sentFields (address : BitVec 32) (enabled : Bool) (fields : FrameFields) : FrameFields :=
  let addressed := headerAddresses fields.header address
  { header := headerSent addressed fields.header
    data := fields.data
    lateAcknowledge := lateSent addressed enabled false fields.lateAcknowledge }

theorem zeroBits_getD_headerSent {header : List Byte} (hlen : hdrEarlyAck < header.length)
    (addressed : Bool) (hearly : ZeroBits (header.getD hdrEarlyAck 0)) :
    ∃ field, ZeroBits field ∧ headerSent addressed header = header.set hdrEarlyAck field := by
  rw [List.getD_eq_getElem _ _ hlen] at hearly
  unfold headerSent
  cases addressed with
  | false => exact ⟨_, hearly, by simp only [Bool.false_eq_true, if_false, List.set_getElem_self]⟩
  | true =>
    refine ⟨_, hearly.earlySent, ?_⟩
    rw [if_pos rfl, List.modify_eq_set_getElem?, List.getElem?_eq_getElem hlen]
    rfl

/-- THE LINE SENT ON is the line of the frame with its acknowledges rewritten. -/
theorem sentBits_eq (r : Receiver) {fields : FrameFields}
    (hlen : headerLengthValid fields.header.length = true)
    (hearly : ZeroBits (fields.header.getD hdrEarlyAck 0))
    (hlate : ZeroBits fields.lateAcknowledge) :
    r.sentBits fields = frameBits (sentFields r.address r.receiveEnabled fields) := by
  obtain ⟨hlow, -⟩ := length_of_headerLengthValid hlen
  have hack : hdrEarlyAck < fields.header.length := by
    simp only [hdrEarlyAck]
    omega
  obtain ⟨field, hfield, hsent⟩ :=
    zeroBits_getD_headerSent hack (headerAddresses fields.header r.address) hearly
  have hcheck : checkBits (sentFields r.address r.receiveEnabled fields) = checkBits fields := by
    simp only [checkBits, sentFields, hsent, frameCrc_setEarlyAck]
  have hheader := carry_set_early hack hearly hfield
  have hlate' := hlate.lateSent (headerAddresses fields.header r.address) r.receiveEnabled false
  have hsize : (frontBits fields.lateAcknowledge).length =
      (frontBits (lateSent (headerAddresses fields.header r.address) r.receiveEnabled false
        fields.lateAcknowledge)).length := by rw [length_frontBits, length_frontBits]
  have hfront := carry_of_stuff_eq hsize
    (hlate.stuff_front (runAfter stuffAfterOnes 0 (checkBits fields)))
  unfold sentBits frameBits
  rw [addressedBy_eq hlen, hcheck]
  dsimp only [sentFields]
  rw [hsent, hheader, carry_append _ _ rfl, carry_self, hfront, stuff_append,
    hlate'.stuff_front]

theorem frameLine_eq_frameBits {fields : FrameFields} (hlate : ZeroBits fields.lateAcknowledge) :
    frameLine fields = frameBits fields := by
  have htail : stuff stuffAfterOnes 0 (tailBits fields) =
      stuff stuffAfterOnes 0 (checkBits fields ++ frontBits fields.lateAcknowledge) ++
        [fields.lateAcknowledge.getLsbD 0] := by
    have hbits : tailBits fields = checkBits fields ++ frontBits fields.lateAcknowledge ++
        [fields.lateAcknowledge.getLsbD 0] := by
      simp only [tailBits, checkBits, msbBits_front fields.lateAcknowledge, List.append_assoc]
    rw [hbits, stuff_append, hlate.zero]
    rfl
  unfold frameLine frameBits startLine
  simp only [dataLine]
  rw [htail]
  simp only [List.append_assoc]

end Receiver

namespace Station

/-! ## A station that passes the line on -/

/-- A station that neither strips, nor wants the ring, nor sources a character. -/
structure Passive (s : Station) : Prop where
  stripping : s.stripping = false
  wantsRing : s.wantsRing = false
  originateLeft : s.originateLeft = 0

/-- One bit time: a cell is driven, and one is received. -/
def tick (s : Station) (cell : Cell) : Station × Cell :=
  (s.driveCell.2.receiveCell cell, s.driveCell.1)

/-- The cells a station drives while `cells` arrive, and the one behind them. -/
def driven (s : Station) (cells : List Cell) : List Cell :=
  (transduce tick s cells).2 ++ [(transduce tick s cells).1.driveCell.1]

theorem Passive.driveCell {s : Station} (hs : s.Passive) :
    (s.pendingValid = true →
      s.driveCell.1 = biphaseEncode s.pendingBit s.txLevel ∧
        s.driveCell.2.txLevel = (biphaseEncode s.pendingBit s.txLevel).trailingLevel) ∧
      s.driveCell.2.txLevel = s.driveCell.1.trailingLevel ∧ s.driveCell.2.Passive := by
  obtain ⟨hstrip, hwants, horiginate⟩ := hs
  have hforce : ∀ s : Station, s.wantsRing = false → s.forceToken = s := by
    intro s h
    unfold forceToken
    rw [h]
    rfl
  have hpass : ∀ bit source s₁, s.sourceBit = (bit, source, s₁) → s₁.stripping = false →
      s₁.wantsRing = false → s.driveBit = (bit, s₁) := by
    intro bit source s₁ hsource hstrip₁ hwants₁
    unfold driveBit
    rw [hsource]
    dsimp only
    rw [hstrip₁, Bool.false_and, if_neg Bool.false_ne_true, hforce s₁ hwants₁]
  have hbit : s.driveBit = if s.pendingValid then
      (s.pendingBit, { s with bitsForwarded := s.bitsForwarded + 1 }) else (false, s) := by
    have hsource : s.sourceBit = if s.pendingValid then
        (s.pendingBit, .forwarded, { s with bitsForwarded := s.bitsForwarded + 1 })
        else (false, .forwarded, s) := by
      unfold sourceBit
      rw [horiginate, hwants]
      simp only [Nat.lt_irrefl, if_false, Bool.false_and, Bool.false_eq_true]
    by_cases hvalid : s.pendingValid = true
    · rw [if_pos hvalid] at hsource ⊢
      exact hpass _ _ _ hsource hstrip hwants
    · rw [if_neg hvalid] at hsource ⊢
      exact hpass _ _ _ hsource hstrip hwants
  unfold Station.driveCell
  rw [hbit]
  refine ⟨fun hvalid => ?_, ?_, ?_⟩
  · rw [hvalid]
    exact ⟨rfl, rfl⟩
  · cases s.pendingValid <;> rfl
  · cases s.pendingValid <;> exact ⟨hstrip, hwants, horiginate⟩

theorem Passive.receiveBit {s : Station} (hs : s.Passive) (bit : Bool) :
    (s.receiveBit bit).Passive ∧ s.stripsAt bit = false ∧
      (s.receiveBit bit).txLevel = s.txLevel := by
  have hstrips : s.stripsAt bit = false := by
    unfold stripsAt
    rw [stripping_watchOwnFrame]
    change (s.stripping && _) = false
    rw [hs.stripping, Bool.false_and]
  have howns : (s.shiftWindow bit).watchOwnFrame = s.shiftWindow bit := by
    unfold watchOwnFrame
    change (if (s.stripping && _) = true then _ else _) = _
    rw [hs.stripping, Bool.false_and, if_neg Bool.false_ne_true]
  have htokens : (s.shiftWindow bit).watchTokens.Passive ∧
      (s.shiftWindow bit).watchTokens.txLevel = s.txLevel := by
    unfold watchTokens
    dsimp only
    split
    · exact ⟨⟨hs.stripping, hs.wantsRing, hs.originateLeft⟩, rfl⟩
    · split <;> exact ⟨⟨hs.stripping, hs.wantsRing, hs.originateLeft⟩, rfl⟩
  have hfollow : ∀ s₁ : Station, s₁.Passive →
      (s₁.followFrame bit).Passive ∧ (s₁.followFrame bit).txLevel = s₁.txLevel := by
    intro s₁ hs₁
    unfold followFrame
    rcases s₁.rx.step s₁.stripping s₁.atSymbol bit with ⟨rx, out, _ | late⟩
    · exact ⟨⟨hs₁.stripping, hs₁.wantsRing, hs₁.originateLeft⟩, rfl⟩
    · dsimp only
      split <;> exact ⟨⟨hs₁.stripping, hs₁.wantsRing, hs₁.originateLeft⟩, rfl⟩
  obtain ⟨hnext, hlevel⟩ := hfollow _ htokens.1
  refine ⟨?_, hstrips, ?_⟩
  · unfold Station.receiveBit
    rw [howns]
    exact hnext
  · unfold Station.receiveBit
    rw [howns]
    exact hlevel.trans htokens.2

theorem Passive.receiveCell {s : Station} {h : List Bool} {level : Bool} (hs : s.Passive)
    (hlisten : s.Listening h level) (bit : Bool) :
    (s.receiveCell (biphaseEncode bit level)).Passive ∧
      (s.receiveCell (biphaseEncode bit level)).txLevel = s.txLevel := by
  rw [hlisten.tuned.receiveCell]
  have hs' : Passive { s with
      rxLevel := (biphaseEncode bit level).trailingLevel, rxLevelValid := true } :=
    ⟨hs.stripping, hs.wantsRing, hs.originateLeft⟩
  exact ⟨(hs'.receiveBit bit).1, (hs'.receiveBit bit).2.2⟩

/-- A PASSIVE STATION drives what its receive path sent on, one bit time later. -/
theorem Passive.driven {s : Station} {h : List Bool} {level : Bool} (hs : s.Passive)
    (hlisten : s.Listening h level) (bits : List Bool) :
    s.driven (encodeLine level bits) = s.driveCell.1 ::
        encodeLine s.driveCell.1.trailingLevel
          (transduce (Receiver.follow false) (s.rx, h) bits).2 ∧
      (transduce tick s (encodeLine level bits)).1.rx =
        (transduce (Receiver.follow false) (s.rx, h) bits).1.1 := by
  induction bits generalizing s h level with
  | nil => exact ⟨rfl, rfl⟩
  | cons b bits ih =>
    obtain ⟨-, hlevel, hpassive⟩ := hs.driveCell
    have hear := s.sameEar_driveCell
    have hlisten' : s.driveCell.2.Listening h level :=
      ⟨hlisten.hears.sameEar hear, fun hvalid => by
        rw [hear.rxLevel]
        exact hlisten.tuned (hear.rxLevelValid ▸ hvalid)⟩
    obtain ⟨hnext, hheard, hvalid⟩ := hlisten'.receiveCell b
    obtain ⟨hpassive', htx⟩ := hpassive.receiveCell hlisten' b
    obtain ⟨hcells, hrx⟩ := ih hpassive' hnext
    obtain ⟨hdrives, -, -⟩ := hpassive'.driveCell
    rw [(hpassive.receiveBit b).2.1, hear.rx] at hheard
    have hfollow : Receiver.follow false (s.rx, h) b =
        (((s.driveCell.2.receiveCell (biphaseEncode b level)).rx, h ++ [b]),
          (s.driveCell.2.receiveCell (biphaseEncode b level)).pendingBit) := by
      simp only [Receiver.follow, ← hheard]
    rw [transduce_cons, hfollow]
    refine ⟨?_, hrx⟩
    change s.driveCell.1 ::
      (s.driveCell.2.receiveCell (biphaseEncode b level)).driven (encodeLine _ bits) = _
    rw [hcells, encodeLine, (hdrives hvalid).1, htx, hlevel]

/-- FORWARDING PRESERVES FRAMES. A station that neither strips nor sources anything, behind
any traffic, drives one bit later a line that the parser accepts: the same data, the same
header up to intend-to-copy in byte 7, and the late acknowledge with what the station added
to it. -/
theorem forward_frame (slot : Int) (address : BitVec 32) (enabled : Bool)
    (txBits buffer : Option (List Byte)) (capacity : Nat) (out : List Byte) (fields : FrameFields)
    (hemit : (frameEmit (.init out) fields).1 = true)
    (hearly : fields.header.getD hdrEarlyAck 0 &&& earlyMustBeZero = 0)
    (hlate : fields.lateAcknowledge &&& lateMustBeZero = 0) (traffic : List Item)
    (hlegal : ∀ item ∈ traffic, item.Legal) (level : Bool) (calls : List Call)
    (harrive : arrivals calls = encodeLine level (trafficLine traffic))
    (hpassive : (calls.foldl call (attached slot address enabled txBits buffer capacity)).Passive) :
    let s := calls.foldl call (attached slot address enabled txBits buffer capacity)
    let arriving := (frameEmit (.init out) fields).2.line
    let cells := encodeLine (trailing level (trafficLine traffic)) arriving
    let addressed := headerAddresses fields.header address
    let early := fields.header.getD hdrEarlyAck 0
    (∃ first line, s.driven cells = first :: encodeLine first.trailingLevel line ∧
      line.length = arriving.length ∧
      ∀ (r : BitReader) (t : List Bool) (headerCapacity dataCapacity : Nat), r.rest = line ++ t →
        fields.header.length ≤ headerCapacity → fields.data.length ≤ dataCapacity →
        let parse := frameParse r headerCapacity dataCapacity
        parse.1.status = .ok ∧ parse.2.data = fields.data ∧
          parse.2.header =
            (if addressed && !early.getLsbD 3 then
              fields.header.set hdrEarlyAck ((early ||| earlyIntendToCopy) ^^^ earlyParity)
            else fields.header) ∧
          parse.1.lateAcknowledge =
            ackWithParity (if addressed then fields.lateAcknowledge ||| lateIntendToCopy |||
              (if enabled then lateCopied else lateWaitAck) else fields.lateAcknowledge) ∧
          ackParityOk parse.1.lateAcknowledge = true) ∧
      (transduce tick s cells).1.rx.framesCopied =
        s.rx.framesCopied + (if addressed && enabled then 1 else 0) ∧
      (transduce tick s cells).1.rx.framesWacked =
        s.rx.framesWacked + (if addressed && !enabled then 1 else 0) := by
  intro s arriving cells addressed early
  obtain ⟨hheader, hdata, -⟩ := (frameEmit_init out fields).mp hemit
  obtain ⟨hlow, -⟩ := Receiver.length_of_headerLengthValid hheader
  have hack : hdrEarlyAck < fields.header.length := by
    simp only [hdrEarlyAck]
    omega
  have hzeroEarly : ZeroBits (fields.header.getD hdrEarlyAck 0) := zeroBits_of_and hearly
  have hzeroLate := zeroBits_of_and hlate
  have harriving : arriving = Receiver.frameBits fields :=
    (frameEmit_init_line hemit).trans (Receiver.frameLine_eq_frameBits hzeroLate)
  obtain ⟨hlisten, hresting⟩ := resting_attached slot address enabled txBits buffer capacity level
    hlegal harrive
  have hsetup := sameSetup_run calls (attached slot address enabled txBits buffer capacity)
  have haddress : s.rx.address = address := hsetup.address
  have henabled : s.rx.receiveEnabled = enabled := hsetup.receiveEnabled
  obtain ⟨run, headerBits, flippedParity, hfollow⟩ :=
    Receiver.follow_frame false hresting.idle hresting.quiet hheader
  obtain ⟨hdriven, hrx⟩ := hpassive.driven hlisten (Receiver.frameBits fields)
  change s.driven _ = _ at hdriven
  change (transduce tick s _).1.rx = (transduce (Receiver.follow false) (s.rx, _) _).1.1 at hrx
  change transduce (Receiver.follow false) (s.rx, trafficLine traffic) _ = _ at hfollow
  rw [hfollow] at hdriven hrx
  obtain ⟨hcopied, hwacked⟩ := s.rx.counts_received run headerBits flippedParity hheader
  rw [haddress, henabled] at hcopied hwacked
  -- the line sent on is that of the frame with its acknowledges rewritten
  let sent := Receiver.sentFields address enabled fields
  have hline : s.rx.sentBits fields = Receiver.frameBits sent := by
    rw [Receiver.sentBits_eq s.rx hheader hzeroEarly hzeroLate, haddress, henabled]
  have hsent : frameLine sent = Receiver.frameBits sent :=
    Receiver.frameLine_eq_frameBits (hzeroLate.lateSent addressed enabled false)
  have hsize : (s.rx.sentBits fields).length = (Receiver.frameBits fields).length := by
    have hlong := congrArg (fun o : _ × List Bool => o.2.length) hfollow
    rw [length_transduce] at hlong
    exact hlong.symm
  obtain ⟨field, -, hset⟩ := Receiver.zeroBits_getD_headerSent hack addressed hzeroEarly
  have hheaderLen : sent.header.length = fields.header.length := by
    change (Receiver.headerSent addressed fields.header).length = _
    rw [hset, List.length_set]
  refine ⟨⟨s.driveCell.1, s.rx.sentBits fields, ?_, ?_, ?_⟩, ?_, ?_⟩
  · change s.driven (encodeLine _ arriving) = _
    rw [harriving]
    exact hdriven
  · rw [hsize, harriving]
  · intro r t headerCapacity dataCapacity hr hhcap hdcap parse
    rw [hline, ← hsent] at hr
    have hvalid : headerLengthValid sent.header.length = true := by rwa [hheaderLen]
    have hroom : sent.header.length ≤ headerCapacity := by rwa [hheaderLen]
    obtain ⟨r', run', hparse, -⟩ := @parseFrame_frameLine sent headerCapacity dataCapacity hvalid
      hdata hroom hdcap r t hr
    have hresult : parse = (.accepted sent,
        { reader := r', header := sent.header, data := sent.data }) := by
      change frameParse r headerCapacity dataCapacity = _
      rw [frameParse, hparse]
    have hfield := Receiver.lateSent_eq addressed enabled hlate
    rw [hresult]
    refine ⟨rfl, rfl, Receiver.headerSent_eq addressed hack, hfield, ?_⟩
    exact (congrArg ackParityOk hfield).trans (ackParityOk_ackWithParity _)
  · change (transduce tick s (encodeLine _ arriving)).1.rx.framesCopied = _
    rw [harriving, hrx]
    exact hcopied
  · change (transduce tick s (encodeLine _ arriving)).1.rx.framesWacked = _
    rw [harriving, hrx]
    exact hwacked

/-- A broadcast frame with legal acknowledges, at a station that has heard nothing yet. -/
theorem forward_frame_broadcast :
    let fields := { smallestFrame with lateAcknowledge := lateParity }
    let arriving := (frameEmit (.init (List.replicate 40 0)) fields).2.line
    let s := attached 0 9 true none none 0
    (transduce tick s (encodeLine true arriving)).1.rx.framesCopied = 1 ∧
      ∃ first line, s.driven (encodeLine true arriving) =
        first :: encodeLine first.trailingLevel line ∧ line.length = arriving.length := by
  intro fields arriving s
  obtain ⟨⟨first, line, hdriven, hlength, -⟩, hcopied, -⟩ := forward_frame 0 9 true none none 0
    (List.replicate 40 0) fields (by decide +kernel) (by decide) (by decide) [] (by
      intro item hitem
      cases hitem) true [] rfl ⟨rfl, rfl, rfl⟩
  have hcount : s.rx.framesCopied +
      (if headerAddresses fields.header 9 && true then 1 else 0) = 1 := by decide
  exact ⟨Eq.trans hcopied hcount, first, line, hdriven, hlength⟩

end Station

end Apollo.Ring
