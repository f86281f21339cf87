import Apollo.Ring.Traffic
import Apollo.Ring.StationTransmit

/-!
# What a station captures

The receive path of a station in any run of calls: what arrives is a line of error-free
cells, and the host and the transmit side may do what they like in between, since only
`ap_ring_station_receive` touches the receive fields (`Station.SameEar`). Whether the
station strips shows in two counters and nowhere else (`Receiver.uncounted`), so the
capture can be followed with `Receiver.follow` alone.

`capture_frame` is the result: after any traffic of whole frames, tokens and idle bits,
the lent buffer holds what a frame brought, up to its capacity, and not a byte more.
-/

namespace Apollo.Ring

open Apollo.Lib

namespace Receiver

/-- The receiver without the counters of what it copied. -/
def uncounted (r : Receiver) : Receiver := { r with framesCopied := 0, framesWacked := 0 }

section Uncounted

variable (r : Receiver) (bit : Bool)

theorem lateBit_uncounted (stripping : Bool) :
    r.uncounted.lateBit true bit =
      ((r.lateBit stripping bit).1.uncounted, (r.lateBit stripping bit).2) := by
  have hout : r.uncounted.lateOut bit = r.lateOut bit := rfl
  unfold lateBit
  rw [hout]
  dsimp only
  by_cases hlast : 8 ≤ r.lateBits + 1
  · rw [if_pos (show 8 ≤ r.uncounted.lateBits + 1 from hlast), if_pos hlast,
      if_neg (by rw [Bool.not_true, Bool.and_false]; exact Bool.false_ne_true)]
    split
    · split <;> rfl
    · rfl
  · rw [if_neg (show ¬ 8 ≤ r.uncounted.lateBits + 1 from hlast), if_neg hlast]
    rfl

theorem dataBit_uncounted (stripping : Bool) :
    r.uncounted.dataBit true bit =
      ((r.dataBit stripping bit).1.uncounted, (r.dataBit stripping bit).2) := by
  by_cases hlate : r.state = .late
  · have hlate' : r.uncounted.state = .late := hlate
    unfold dataBit
    rw [hlate', hlate]
    exact lateBit_uncounted r bit stripping
  · exact dataBit_masked { copied := fun _ => 0, wacked := fun _ => 0 } r bit stripping true hlate

theorem separator_uncounted : r.uncounted.separator = r.separator.uncounted := by
  unfold separator uncounted
  dsimp only
  split
  · split
    · rfl
    · split <;> rfl
  · split
    · rfl
    · split <;> rfl

theorem step_uncounted (stripping : Bool) (symbol : Option Symbol) :
    r.uncounted.step true symbol bit =
      ((r.step stripping symbol bit).1.uncounted, (r.step stripping symbol bit).2) := by
  have hstate : r.uncounted.state = r.state := rfl
  have hrun : r.uncounted.onesRun = r.onesRun := rfl
  unfold step
  rw [hstate, hrun]
  dsimp only
  split
  · rfl
  · split
    · rw [separator_uncounted]
    · split
      · rfl
      · split
        · rfl
        · exact dataBit_uncounted
            { r with onesRun := if bit then unsignedSucc r.onesRun else 0 } bit stripping

end Uncounted

end Receiver

namespace Station

/-! ## What the other calls leave alone -/

/-- The fields that only a receive writes. -/
structure SameEar (s s' : Station) : Prop where
  rx : s'.rx = s.rx
  window : s'.window = s.window
  bitsSeen : s'.bitsSeen = s.bitsSeen
  rxLevel : s'.rxLevel = s.rxLevel
  rxLevelValid : s'.rxLevelValid = s.rxLevelValid

theorem SameEar.trans {s s₁ s₂ : Station} (h₁ : SameEar s s₁) (h₂ : SameEar s₁ s₂) :
    SameEar s s₂ :=
  ⟨h₂.rx.trans h₁.rx, h₂.window.trans h₁.window, h₂.bitsSeen.trans h₁.bitsSeen,
    h₂.rxLevel.trans h₁.rxLevel, h₂.rxLevelValid.trans h₁.rxLevelValid⟩

section SameEar

variable (s : Station)

theorem sameEar_queueFrame (fields : FrameFields) : SameEar s (s.queueFrame fields).2 := by
  unfold queueFrame
  split
  · exact ⟨rfl, rfl, rfl, rfl, rfl⟩
  · split <;> exact ⟨rfl, rfl, rfl, rfl, rfl⟩

theorem sameEar_sourceBit : SameEar s s.sourceBit.2.2 := by
  unfold sourceBit claim
  split
  · exact ⟨rfl, rfl, rfl, rfl, rfl⟩
  · split
    · split <;> exact ⟨rfl, rfl, rfl, rfl, rfl⟩
    · exact ⟨rfl, rfl, rfl, rfl, rfl⟩

theorem sameEar_countStripping : SameEar s s.countStripping := by
  unfold countStripping
  dsimp only
  split <;> exact ⟨rfl, rfl, rfl, rfl, rfl⟩

theorem sameEar_frameBit : SameEar s s.frameBit.2 := by
  unfold frameBit originateToken
  dsimp only
  split <;> exact ⟨rfl, rfl, rfl, rfl, rfl⟩

theorem sameEar_forceToken : SameEar s s.forceToken := by
  unfold forceToken originateToken
  split <;> exact ⟨rfl, rfl, rfl, rfl, rfl⟩

theorem sameEar_driveCell : SameEar s s.driveCell.2 := by
  have hbit : SameEar s s.driveBit.2 := by
    have hsource := s.sameEar_sourceBit
    unfold driveBit
    rcases hs₁ : s.sourceBit with ⟨bit, source, s₁⟩
    rw [hs₁] at hsource
    dsimp only at hsource ⊢
    split
    · split
      · exact hsource.trans (s₁.sameEar_frameBit.trans (sameEar_countStripping _))
      · exact hsource.trans (s₁.sameEar_countStripping.trans (sameEar_forceToken _))
    · exact hsource.trans s₁.sameEar_forceToken
  exact ⟨hbit.rx, hbit.window, hbit.bitsSeen, hbit.rxLevel, hbit.rxLevelValid⟩

theorem sameEar_watchOwnFrame : SameEar s s.watchOwnFrame := by
  unfold watchOwnFrame
  split
  · split
    · split <;> exact ⟨rfl, rfl, rfl, rfl, rfl⟩
    · split <;> exact ⟨rfl, rfl, rfl, rfl, rfl⟩
  · exact ⟨rfl, rfl, rfl, rfl, rfl⟩

theorem sameEar_watchTokens : SameEar s s.watchTokens ∧ s.watchTokens.stripping = s.stripping := by
  unfold watchTokens
  dsimp only
  split
  · exact ⟨⟨rfl, rfl, rfl, rfl, rfl⟩, rfl⟩
  · split <;> exact ⟨⟨rfl, rfl, rfl, rfl, rfl⟩, rfl⟩

end SameEar

/-! ## What a receive hears -/

/-- Whether the station strips when it follows the next bit. -/
def stripsAt (s : Station) (bit : Bool) : Bool := (s.shiftWindow bit).watchOwnFrame.stripping

theorem stripping_watchOwnFrame (s : Station) : s.watchOwnFrame.stripping =
    (s.stripping && !(decide (0 < s.tx.bitCount) && s.tx.seenOwnFrameStart &&
      decide (s.tx.bitCount ≤ s.tx.strippedOwn + oobBits))) := by
  unfold watchOwnFrame
  cases hstrip : s.stripping with
  | false => simp only [Bool.false_and, Bool.false_eq_true, if_false, hstrip]
  | true =>
    by_cases hcount : 0 < s.tx.bitCount
    · cases hseen : s.tx.seenOwnFrameStart with
      | false =>
        simp only [hcount, decide_true, Bool.true_and, Bool.not_false, if_true, Bool.false_and]
        split
        · rfl
        · exact hstrip
      | true =>
        by_cases hlast : s.tx.bitCount ≤ s.tx.strippedOwn + oobBits
        · simp only [hcount, hlast, decide_true, Bool.true_and, Bool.not_true, Bool.false_eq_true,
            if_true, if_false]
        · simp only [hcount, hlast, decide_true, decide_false, Bool.true_and, Bool.not_true,
            Bool.false_eq_true, if_true, if_false, Bool.not_false]
    · simp only [hcount, decide_false, Bool.and_false, Bool.false_and, Bool.false_eq_true, if_false,
        Bool.not_false, Bool.and_true, hstrip]

theorem Hears.sameEar {s s' : Station} {h : List Bool} (hs : s.Hears h) (hear : SameEar s s') :
    s'.Hears h :=
  ⟨hear.bitsSeen.trans hs.bitsSeen, hear.window.trans hs.window⟩

theorem rx_followFrame (s : Station) (bit : Bool) :
    (s.followFrame bit).rx = (s.rx.step s.stripping s.atSymbol bit).1 := by
  unfold followFrame
  rcases s.rx.step s.stripping s.atSymbol bit with ⟨rx, out, _ | late⟩
  · rfl
  · dsimp only
    split <;> rfl

theorem Hears.receiveBit {s : Station} {h : List Bool} (hs : s.Hears h) (bit : Bool) :
    (s.receiveBit bit).Hears (h ++ [bit]) ∧
      ((s.receiveBit bit).rx, (s.receiveBit bit).pendingBit) =
        s.rx.hear (s.stripsAt bit) ((endingChar (h ++ [bit])).map Oob.symbol) bit ∧
      (s.receiveBit bit).pendingValid = true ∧ (s.receiveBit bit).rxLevel = s.rxLevel ∧
      (s.receiveBit bit).rxLevelValid = s.rxLevelValid := by
  obtain ⟨htokens, hstrips⟩ := (s.shiftWindow bit).watchOwnFrame.sameEar_watchTokens
  have hear := (sameEar_watchOwnFrame (s.shiftWindow bit)).trans htokens
  have hhears := (hs.shiftWindow bit).sameEar hear
  have hrx : (s.shiftWindow bit).watchOwnFrame.watchTokens.rx = s.rx := hear.rx
  have hfollow : ∀ s₁ : Station, s₁.Hears (h ++ [bit]) →
      (s₁.followFrame bit).Hears (h ++ [bit]) ∧
        ((s₁.followFrame bit).rx, (s₁.followFrame bit).pendingBit) =
          s₁.rx.hear s₁.stripping ((endingChar (h ++ [bit])).map Oob.symbol) bit ∧
        (s₁.followFrame bit).pendingValid = true ∧ (s₁.followFrame bit).rxLevel = s₁.rxLevel ∧
        (s₁.followFrame bit).rxLevelValid = s₁.rxLevelValid := by
    intro s₁ hs₁
    unfold followFrame Receiver.hear
    rw [hs₁.atSymbol]
    rcases s₁.rx.step s₁.stripping ((endingChar (h ++ [bit])).map Oob.symbol) bit with
      ⟨rx, out, _ | late⟩
    · exact ⟨⟨hs₁.bitsSeen, hs₁.window⟩, rfl, rfl, rfl, rfl⟩
    · dsimp only
      split <;> exact ⟨⟨hs₁.bitsSeen, hs₁.window⟩, rfl, rfl, rfl, rfl⟩
  have hall := hfollow _ hhears
  rw [hrx, hstrips, hear.rxLevel, hear.rxLevelValid] at hall
  exact hall

/-- The station reads the line against the right level, or has not read it yet. -/
def Tuned (s : Station) (level : Bool) : Prop := s.rxLevelValid = true → s.rxLevel = level

theorem Tuned.receiveCell {s : Station} {level : Bool} (hs : s.Tuned level) (bit : Bool) :
    s.receiveCell (biphaseEncode bit level) =
      Station.receiveBit { s with
        rxLevel := (biphaseEncode bit level).trailingLevel
        rxLevelValid := true } bit := by
  have hlevel : (if s.rxLevelValid then s.rxLevel else !(biphaseEncode bit level).clockWindow) =
      level := by
    by_cases hvalid : s.rxLevelValid = true
    · rw [if_pos hvalid, hs hvalid]
    · rw [if_neg hvalid]
      exact Bool.not_not level
  unfold Station.receiveCell
  dsimp only
  rw [hlevel, biphaseDecode_biphaseEncode]
  rfl

/-- The level behind a line. -/
def trailing (level : Bool) (bits : List Bool) : Bool :=
  bits.foldl (fun level bit => (biphaseEncode bit level).trailingLevel) level

/-- A station that has heard `h` on a line at `level`. -/
structure Listening (s : Station) (h : List Bool) (level : Bool) : Prop where
  hears : s.Hears h
  tuned : s.Tuned level

theorem Listening.receiveCell {s : Station} {h : List Bool} {level : Bool}
    (hs : s.Listening h level) (bit : Bool) :
    (s.receiveCell (biphaseEncode bit level)).Listening (h ++ [bit])
        (biphaseEncode bit level).trailingLevel ∧
      ((s.receiveCell (biphaseEncode bit level)).rx,
        (s.receiveCell (biphaseEncode bit level)).pendingBit) =
        s.rx.hear (s.stripsAt bit) ((endingChar (h ++ [bit])).map Oob.symbol) bit ∧
      (s.receiveCell (biphaseEncode bit level)).pendingValid = true := by
  have hhears : Hears { s with
      rxLevel := (biphaseEncode bit level).trailingLevel, rxLevelValid := true } h :=
    ⟨hs.hears.bitsSeen, hs.hears.window⟩
  obtain ⟨hnext, hheard, hvalid, hlevel, -⟩ := hhears.receiveBit bit
  rw [hs.tuned.receiveCell]
  have hstrips : stripsAt { s with
      rxLevel := (biphaseEncode bit level).trailingLevel, rxLevelValid := true } bit =
      s.stripsAt bit := by
    unfold stripsAt
    rw [stripping_watchOwnFrame, stripping_watchOwnFrame]
    rfl
  rw [hstrips] at hheard
  exact ⟨⟨hnext, fun _ => hlevel⟩, hheard, hvalid⟩

/-! ## Runs -/

/-- The cells that arrive in a run of calls. -/
def arrivals (calls : List Call) : List Cell :=
  calls.filterMap fun
    | .receive cell => some cell
    | _ => none

theorem Listening.call_other {s : Station} {h : List Bool} {level : Bool} (hs : s.Listening h level)
    {c : Call} (hc : ∀ cell, c ≠ .receive cell) :
    (s.call c).Listening h level ∧ (s.call c).rx = s.rx := by
  have hear : SameEar s (s.call c) := by
    cases c with
    | queueFrame fields => exact s.sameEar_queueFrame fields
    | originateToken symbol => exact ⟨rfl, rfl, rfl, rfl, rfl⟩
    | drive => exact s.sameEar_driveCell
    | receive cell => exact absurd rfl (hc cell)
  refine ⟨⟨hs.hears.sameEar hear, fun hvalid => ?_⟩, hear.rx⟩
  rw [hear.rxLevel]
  exact hs.tuned (hear.rxLevelValid ▸ hvalid)

theorem Listening.run {calls : List Call} {s : Station} {h bits : List Bool} {level : Bool}
    (hs : s.Listening h level) (harrive : arrivals calls = encodeLine level bits) :
    (calls.foldl call s).Listening (h ++ bits) (trailing level bits) ∧
      (calls.foldl call s).rx.uncounted =
        (transduce (Receiver.follow true) (s.rx.uncounted, h) bits).1.1 := by
  induction calls generalizing s h bits level with
  | nil =>
    cases bits with
    | nil => exact ⟨(List.append_nil h).symm ▸ hs, rfl⟩
    | cons b bits => cases harrive
  | cons c calls ih =>
    by_cases hc : ∃ cell, c = .receive cell
    · obtain ⟨cell, rfl⟩ := hc
      cases bits with
      | nil => cases harrive
      | cons b bits =>
        obtain ⟨rfl, hrest⟩ := List.cons.inj harrive
        obtain ⟨hnext, hheard, -⟩ := hs.receiveCell b
        obtain ⟨hend, hrx⟩ := ih (s := s.receiveCell (biphaseEncode b level)) hnext hrest
        rw [List.append_assoc, List.singleton_append] at hend
        refine ⟨hend, ?_⟩
        have hfollow : (Receiver.follow true (s.rx.uncounted, h) b).1 =
            ((s.receiveCell (biphaseEncode b level)).rx.uncounted, h ++ [b]) := by
          have huncounted := s.rx.step_uncounted b (s.stripsAt b)
            ((endingChar (h ++ [b])).map Oob.symbol)
          simp only [Receiver.follow, Receiver.hear, huncounted, (Prod.mk.inj hheard).1]
        rw [transduce_cons, hfollow]
        exact hrx
    · have hother : ∀ cell, c ≠ .receive cell := fun cell heq => hc ⟨cell, heq⟩
      obtain ⟨hnext, hsame⟩ := hs.call_other hother
      have hrest : arrivals calls = encodeLine level bits := by
        rw [← harrive]
        cases c with
        | receive cell => exact absurd rfl (hother cell)
        | _ => rfl
      obtain ⟨hend, hrx⟩ := ih hnext hrest
      rw [hsame] at hrx
      exact ⟨hend, hrx⟩

/-- Whatever is called, the setup of the receiver stays, and so does the memory behind the
lent capacity. -/
theorem sameSetup_run (calls : List Call) (s : Station) :
    Receiver.SameSetup s.rx (calls.foldl call s).rx := by
  have hreceive : ∀ (s : Station) (bit : Bool), Receiver.SameSetup s.rx (s.receiveBit bit).rx := by
    intro s bit
    have hear := (sameEar_watchOwnFrame (s.shiftWindow bit)).trans (sameEar_watchTokens _).1
    have hrx : (s.shiftWindow bit).watchOwnFrame.watchTokens.rx = s.rx := hear.rx
    rw [← hrx, receiveBit, rx_followFrame]
    exact Receiver.sameSetup_step _ bit _ _
  induction calls generalizing s with
  | nil => exact .refl _
  | cons c calls ih =>
    refine Receiver.SameSetup.trans ?_ (ih (s.call c))
    cases c with
    | queueFrame fields => exact (s.sameEar_queueFrame fields).rx ▸ .refl _
    | originateToken symbol => exact .refl _
    | drive => exact s.sameEar_driveCell.rx ▸ .refl _
    | receive cell =>
      have hbit : ∀ (s₁ : Station) (bit : Bool), Receiver.SameSetup s.rx s₁.rx →
          Receiver.SameSetup s.rx ({ s₁ with
            rxLevel := cell.trailingLevel, rxLevelValid := true }.receiveBit bit).rx :=
        fun s₁ bit h => h.trans (hreceive { s₁ with
          rxLevel := cell.trailingLevel, rxLevelValid := true } bit)
      change Receiver.SameSetup s.rx (s.receiveCell cell).rx
      unfold receiveCell
      dsimp only
      cases (biphaseDecode cell (if s.rxLevelValid then s.rxLevel else !cell.clockWindow)).2 with
      | false => exact hbit s _ (.refl _)
      | true => exact hbit s.noteError _ ⟨rfl, rfl, rfl, rfl, rfl⟩

/-! ## The capture -/

/-- A station with its address and its receive switch set and its buffers lent, as a node
attaches it. -/
def attached (slot : Int) (address : BitVec 32) (enabled : Bool) (bits : Option (List Byte))
    (buffer : Option (List Byte)) (capacity : Nat) : Station :=
  ((((init slot).setAddress address).setReceiveEnabled enabled).attachTx bits).attachRx buffer
    capacity

theorem listening_attached (slot : Int) (address : BitVec 32) (enabled : Bool)
    (bits buffer : Option (List Byte)) (capacity : Nat) (level : Bool) :
    (attached slot address enabled bits buffer capacity).Listening [] level :=
  ⟨⟨rfl, rfl⟩, fun h => nomatch h⟩

theorem resting_attached (slot : Int) (address : BitVec 32) (enabled : Bool)
    (bits buffer : Option (List Byte)) (capacity : Nat) (level : Bool) {traffic : List Item}
    (hlegal : ∀ item ∈ traffic, item.Legal) {calls : List Call}
    (harrive : arrivals calls = encodeLine level (trafficLine traffic)) :
    let s := calls.foldl call (attached slot address enabled bits buffer capacity)
    s.Listening (trafficLine traffic) (trailing level (trafficLine traffic)) ∧
      Receiver.Resting (s.rx, trafficLine traffic) := by
  intro s
  obtain ⟨hlisten, hrx⟩ :=
    (listening_attached slot address enabled bits buffer capacity level).run harrive
  have hrest := Receiver.Resting.follow_traffic true
    (s := ((attached slot address enabled bits buffer capacity).rx.uncounted, [])) ⟨rfl, quiet_nil⟩
    hlegal
  have hidle : s.rx.uncounted.state = .idle := by
    rw [hrx]
    exact hrest.idle
  rw [List.nil_append] at hlisten
  have hquiet := hrest.quiet
  rw [Receiver.history_follow, List.nil_append] at hquiet
  exact ⟨hlisten, hidle, hquiet⟩

theorem encodeLine_append (level : Bool) (as bs : List Bool) :
    encodeLine level (as ++ bs) = encodeLine level as ++ encodeLine (trailing level as) bs := by
  induction as generalizing level with
  | nil => rfl
  | cons a as ih => rw [List.cons_append, encodeLine, ih, encodeLine, List.cons_append]; rfl

/-- THE CAPTURE OF A FRAME. In any run of calls in which a frame arrives behind some traffic,
the lent buffer holds the frame's header and data up to its capacity once the last bit of
the late acknowledge is in, and no memory behind the capacity was ever written. -/
theorem capture_frame (slot : Int) (address : BitVec 32) (enabled : Bool)
    (txBits : Option (List Byte)) (memory : List Byte) (capacity : Nat)
    (hmemory : capacity ≤ memory.length) (out : List Byte) (fields : FrameFields)
    (hemit : (frameEmit (.init out) fields).1 = true) (bits : List Bool)
    (hbits : (frameEmit (.init out) fields).2.line = bits ∨
      (frameEmit (.init out) fields).2.line = bits ++ [false] ∧
        List.replicate stuffAfterOnes true <:+ bits)
    (traffic : List Item) (hlegal : ∀ item ∈ traffic, item.Legal) (level : Bool)
    (calls : List Call)
    (harrive : arrivals calls = encodeLine level (trafficLine traffic ++ bits)) :
    let s := calls.foldl call (attached slot address enabled txBits (some memory) capacity)
    let frame := fields.header ++ fields.data
    s.rx.state = .idle ∧ s.rx.bytes = min capacity frame.length ∧
      s.rx.buffer.map (List.take s.rx.bytes) = some (frame.take capacity) ∧
      s.rx.headerBytes = min capacity fields.header.length ∧
      (s.rx.overrun = true ↔ capacity < frame.length) ∧
      ∀ before, before <+: calls →
        (before.foldl call (attached slot address enabled txBits (some memory) capacity)).rx.buffer.map
          (List.drop capacity) = some (memory.drop capacity) := by
  intro s frame
  obtain ⟨hheader, -, -⟩ := (frameEmit_init out fields).mp hemit
  rw [frameEmit_init_line hemit] at hbits
  -- the receiver behind the traffic, and behind the frame
  let r₀ := (attached slot address enabled txBits (some memory) capacity).rx.uncounted
  have hrest := Receiver.Resting.follow_traffic true (s := (r₀, [])) ⟨rfl, quiet_nil⟩ hlegal
  have hsetup := Receiver.sameSetup_follow true r₀ [] (trafficLine traffic)
  have hlent : r₀.Lent := by
    intro memory' heq
    cases heq
    exact hmemory
  obtain ⟨hlast, -⟩ := hrest.captured true (hsetup.lent hlent) hheader
  have hend := hrest.follow_frameBits true hheader
  obtain ⟨-, hrun⟩ :=
    (listening_attached slot address enabled txBits (some memory) capacity level).run harrive
  have hrx : s.rx.uncounted = (transduce (Receiver.follow true)
      (transduce (Receiver.follow true) (r₀, []) (trafficLine traffic)).1
      (Receiver.frameBits fields)).1.1 := by
    rw [hrun, transduce_append]
    rcases Receiver.frameBits_of_lastBit hbits with rfl | rfl
    · rfl
    · rw [transduce_append]
      exact (hend.follow_zero true).2
  rw [← hrx] at hlast
  obtain ⟨buffer₀, hbuffer₀⟩ := Option.isSome_iff_exists.mp (hsetup.isSome.trans rfl)
  have hcapacity : (transduce (Receiver.follow true) (r₀, []) (trafficLine traffic)).1.1.capacity =
      capacity := hsetup.capacity
  have hbuffer := hlast.buffer
  have hbytes := hlast.bytes
  have hheaderBytes := hlast.headerBytes
  have hoverrun := hlast.overrun
  rw [hbuffer₀, hcapacity] at hbuffer hoverrun
  rw [hcapacity] at hbytes hheaderBytes
  refine ⟨hlast.state, hbytes, ?_, hheaderBytes, ?_, fun before _ => ?_⟩
  · change s.rx.buffer = _ at hbuffer
    change s.rx.bytes = _ at hbytes
    rw [hbuffer, hbytes, Option.map_some, Option.map_some]
    congr 1
    unfold Receiver.stored
    rw [List.take_append_of_le_length (by rw [List.length_take]), List.take_take,
      List.take_eq_take_iff]
    omega
  · change s.rx.overrun = _ at hoverrun
    rw [hoverrun, Option.isSome_some, Bool.true_and]
    exact decide_eq_true_iff
  · exact (sameSetup_run before (attached slot address enabled txBits (some memory) capacity)).beyond

theorem arrivals_map_receive (cells : List Cell) : arrivals (cells.map .receive) = cells := by
  induction cells with
  | nil => rfl
  | cons cell cells ih => exact congrArg (cell :: ·) ih

/-- Ten bytes are lent, and a frame of twelve comes in behind an idle bit and a token. -/
theorem capture_frame_overrun :
    let line := trafficLine [.idle, .token .freeToken] ++
      (frameEmit (.init (List.replicate 40 0)) smallestFrame).2.line
    let s := ((encodeLine true line).map Call.receive).foldl call
      (attached 0 1 true none (some (List.replicate 20 0)) 10)
    s.rx.bytes = 10 ∧ s.rx.buffer.map (List.take s.rx.bytes) = some (smallestFrame.header.take 10) ∧
      s.rx.overrun = true := by
  intro line s
  obtain ⟨-, hbytes, hbuffer, -, hoverrun, -⟩ := capture_frame 0 1 true none (List.replicate 20 0) 10
    (by decide) (List.replicate 40 0) smallestFrame (by decide +kernel) _ (.inl rfl)
    [.idle, .token .freeToken] (by
      intro item hitem
      rcases List.mem_pair.mp hitem with rfl | rfl
      · trivial
      · exact .inl rfl) true ((encodeLine true line).map Call.receive) (arrivals_map_receive _)
  have hlong : 10 < (smallestFrame.header ++ smallestFrame.data).length := by decide
  refine ⟨?_, ?_, ?_⟩
  · rw [hbytes]
    decide
  · rw [hbuffer]
    decide
  · rw [hoverrun]
    exact hlong

end Station

end Apollo.Ring
