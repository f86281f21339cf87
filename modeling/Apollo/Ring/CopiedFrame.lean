import Apollo.Ring.Acknowledge

/-!
# What copied stands for

An addressed station that is enabled sets copied in every late acknowledge that passes
it, and counts a copied frame, with no look at the frame check or at its own capture
(`not_truthful_overrun`). So copied means that the node has the frame only as long as
every frame that comes to its late acknowledge is intact and fits the lent buffer.
`copied_truthful` is that, over runs of calls with any cells whatever: noise before the
frame, errors noted inside it and stripping in between do not reach the capture
(`Receiver.captureOnly`).
-/

namespace Apollo.Ring

open Apollo.Lib

namespace Receiver

/-! ## The capture alone -/

/-- The receiver without what the late acknowledge is made of, and the counters. -/
def captureOnly (r : Receiver) : Receiver :=
  { r with frameError := false, late := 0, framesCopied := 0, framesWacked := 0 }

section CaptureOnly

variable (r : Receiver) (bit : Bool)

theorem captureOnly_lateBit (stripping : Bool) : (r.lateBit stripping bit).1.captureOnly =
    captureOnly { r with
      state := if 8 ≤ r.lateBits + 1 then .idle else r.state
      lateBits := r.lateBits + 1 } := by
  unfold lateBit
  dsimp only
  by_cases hlast : 8 ≤ r.lateBits + 1
  · rw [if_pos hlast, if_pos hlast]
    split
    · split <;> rfl
    · rfl
  · rw [if_neg hlast, if_neg hlast]
    rfl

theorem dataBit_captureOnly (stripping stripping' : Bool) :
    (r.captureOnly.dataBit stripping' bit).1.captureOnly =
      (r.dataBit stripping bit).1.captureOnly := by
  by_cases hlate : r.state = .late
  · have hlate' : r.captureOnly.state = .late := hlate
    unfold dataBit
    rw [hlate', hlate]
    exact (captureOnly_lateBit _ bit stripping').trans (captureOnly_lateBit r bit stripping).symm
  · let mask : Mask :=
      { error := fun _ => false, late := fun _ => 0, copied := fun _ => 0, wacked := fun _ => 0 }
    have h := dataBit_masked mask r bit stripping stripping' hlate
    change r.captureOnly.dataBit stripping' bit = ((r.dataBit stripping bit).1.captureOnly, _) at h
    rw [h]
    rfl

theorem separator_captureOnly :
    r.captureOnly.separator.captureOnly = r.separator.captureOnly := by
  unfold separator captureOnly
  dsimp only
  split
  · split
    · rfl
    · split <;> rfl
  · split
    · rfl
    · split <;> rfl

theorem step_captureOnly (stripping stripping' : Bool) (symbol : Option Symbol) :
    (r.captureOnly.step stripping' symbol bit).1.captureOnly =
      (r.step stripping symbol bit).1.captureOnly := by
  have hstate : r.captureOnly.state = r.state := rfl
  have hrun : r.captureOnly.onesRun = r.onesRun := rfl
  unfold step
  rw [hstate, hrun]
  dsimp only
  split
  · rfl
  · split
    · exact separator_captureOnly r
    · split
      · rfl
      · split
        · rfl
        · exact dataBit_captureOnly
            { r with onesRun := if bit then unsignedSucc r.onesRun else 0 } bit stripping stripping'

end CaptureOnly

theorem step_congr_captureOnly {r r' : Receiver} (h : r.captureOnly = r'.captureOnly)
    (stripping stripping' : Bool) (symbol : Option Symbol) (bit : Bool) :
    (r.step stripping symbol bit).1.captureOnly = (r'.step stripping' symbol bit).1.captureOnly := by
  rw [← step_captureOnly r bit stripping false, h, step_captureOnly r' bit stripping' false]

theorem framesCopied_step_other {r : Receiver} {symbol : Option Symbol} {bit : Bool}
    (htakes : r.takesLate symbol bit = false) (stripping : Bool) :
    (r.step stripping symbol bit).1.framesCopied = r.framesCopied := by
  rcases step_cases htakes stripping with heq | heq | ⟨run, heq⟩ | ⟨run, -, hlate, heq⟩
  · rw [heq]
    rfl
  · rw [heq]
    unfold separator
    dsimp only
    split
    · split
      · rfl
      · split <;> rfl
    · split
      · rfl
      · split <;> rfl
  · rw [heq]
  · rw [heq]
    -- a bit that does not look at the count cannot have changed it
    have h := dataBit_masked { copied := fun _ => r.framesCopied } { r with onesRun := run } bit
      stripping stripping hlate
    change ({ r with onesRun := run } : Receiver).dataBit stripping bit = _ at h
    rw [h]
    rfl

/-- The count of copied frames rises with the last bit of a late acknowledge, in an addressed
station that is enabled and does not strip, and with nothing else. -/
theorem framesCopied_step {r : Receiver} {stripping : Bool} {symbol : Option Symbol} {bit : Bool}
    (h : (r.step stripping symbol bit).1.framesCopied ≠ r.framesCopied) :
    r.takesLate symbol bit = true ∧ 7 ≤ r.lateBits ∧ r.addressed = true ∧
      r.receiveEnabled = true ∧ stripping = false := by
  by_cases htakes : r.takesLate symbol bit = true
  · obtain ⟨run, hstep⟩ := step_takesLate htakes stripping
    rw [hstep] at h
    unfold lateBit at h
    dsimp only at h
    by_cases hlast : 8 ≤ r.lateBits + 1
    · rw [if_pos hlast] at h
      cases haddressed : r.addressed with
      | false => simp [haddressed] at h
      | true =>
        cases henabled : r.receiveEnabled with
        | false => cases stripping <;> simp [haddressed, henabled] at h
        | true =>
          cases stripping with
          | false => exact ⟨htakes, by omega, rfl, rfl, rfl⟩
          | true => simp [haddressed] at h
    · rw [if_neg hlast] at h
      exact absurd rfl h
  · exact absurd (framesCopied_step_other (Bool.eq_false_iff.mpr htakes) stripping) h

/-! ## A frame behind anything -/

variable (stripping : Bool)

theorem follow_frameStart (r : Receiver) (h : List Bool) :
    ∃ r' : Receiver, SameSetup r r' ∧
      (transduce (follow stripping) (r, h) (symbolBits Oob.frameStart.symbol)).1 =
        (r'.frameStart, h ++ symbolBits Oob.frameStart.symbol) := by
  have hne : symbolBits Oob.frameStart.symbol ≠ [] := by decide
  have hsplit := List.dropLast_append_getLast hne
  have hhistory := history_follow stripping (r, h) (symbolBits Oob.frameStart.symbol).dropLast
  rcases hfirst : transduce (follow stripping) (r, h) (symbolBits Oob.frameStart.symbol).dropLast
    with ⟨⟨r', h'⟩, out⟩
  have hsetup := sameSetup_follow stripping r h (symbolBits Oob.frameStart.symbol).dropLast
  rw [hfirst] at hhistory hsetup
  refine ⟨r', hsetup, ?_⟩
  change h' = h ++ _ at hhistory
  have hlast : (follow stripping (r', h')
      ((symbolBits Oob.frameStart.symbol).getLast hne)).1 =
      (r'.frameStart, h ++ symbolBits Oob.frameStart.symbol) := by
    rw [follow, hhistory, List.append_assoc, hsplit, endingChar_symbolBits, Option.map_some,
      hear_frameStart]
  rw [← hsplit, transduce_append, hfirst, transduce_cons, transduce_nil, hsplit]
  exact hlast

/-- The line of a frame up to bit `n` of its late acknowledge. -/
def lateLine (fields : FrameFields) (n : Nat) : List Bool :=
  startLine ++ (dataLine (bytesBits fields.header) ++ symbolBits Oob.separator.symbol ++
    (dataLine (bytesBits fields.data) ++ symbolBits Oob.separator.symbol ++
      stuff stuffAfterOnes 0 (checkBits fields ++
        (msbBits 8 fields.lateAcknowledge.toNat).take n)))

/-- The header in the lent buffer, and the data behind it. -/
def capturedHeader (r : Receiver) : List Byte := (r.buffer.getD []).take r.headerBytes

def capturedData (r : Receiver) : List Byte := ((r.buffer.getD []).take r.bytes).drop r.headerBytes

/-- A receiver has the whole of a frame's header and data. -/
structure Holds (r : Receiver) (fields : FrameFields) : Prop where
  header : r.capturedHeader = fields.header
  data : r.capturedData = fields.data
  overrun : r.overrun = false

/-- A frame that fits is in the buffer when its late acknowledge comes, whatever the line
carried before it. -/
theorem holds_follow_lateLine {r : Receiver} (hlent : r.Lent) (hbuffer : r.buffer.isSome = true)
    (h : List Bool) {fields : FrameFields}
    (hlen : headerLengthValid fields.header.length = true)
    (hfits : fields.header.length + fields.data.length ≤ r.capacity) {n : Nat} (hn : n < 8) :
    (transduce (follow stripping) (r, h) (lateLine fields n)).1.1.Holds fields := by
  obtain ⟨r', hsetup, hstart⟩ := follow_frameStart stripping r h
  have hnull := follow_null stripping r' (quiet_symbolBits h .frameStart)
  have hseparator : ∀ p bits : List Bool, Quiet (p ++ (bits ++ symbolBits Oob.separator.symbol)) ∧
      Lib.onesRun 0 (p ++ (bits ++ symbolBits Oob.separator.symbol)) = 0 := by
    intro p bits
    rw [← List.append_assoc]
    exact ⟨quiet_symbolBits _ .separator, onesRun_separator 0 _⟩
  obtain ⟨hquiet₁, hzero₁⟩ := hseparator (h ++ symbolBits Oob.frameStart.symbol)
    (dataLine (msbBits nullSeparatorBits 0))
  obtain ⟨headerBits, flippedParity, hheader⟩ :=
    follow_header stripping (atHeader_start r') hquiet₁ hzero₁ hlen
  obtain ⟨hquiet₂, hzero₂⟩ := hseparator (h ++ symbolBits Oob.frameStart.symbol ++
    (dataLine (msbBits nullSeparatorBits 0) ++ symbolBits Oob.separator.symbol))
    (dataLine (bytesBits fields.header))
  have hbody := follow_body stripping
    (r := r'.frameStart.separator.inBody fields.header headerBits flippedParity)
    ⟨rfl, rfl, rfl, rfl, rfl⟩ hquiet₂ hzero₂ fields.data
  obtain ⟨hquiet₃, hzero₃⟩ := hseparator (h ++ symbolBits Oob.frameStart.symbol ++
    (dataLine (msbBits nullSeparatorBits 0) ++ symbolBits Oob.separator.symbol) ++
    (dataLine (bytesBits fields.header) ++ symbolBits Oob.separator.symbol))
    (dataLine (bytesBits fields.data))
  have hbits : ((msbBits 8 fields.lateAcknowledge.toNat).take n).length < 8 := by
    rw [List.length_take, length_msbBits]
    omega
  have htail := listen_tail stripping
    (r := (r'.frameStart.separator.inBody fields.header headerBits flippedParity).inCheck fields.data)
    ⟨rfl, rfl, rfl, rfl, rfl⟩ (length_checkBits fields) hbits
  have hline := follow_noChar stripping (noChar_stuff hquiet₃ hzero₃ stuffAfterOnes_pos
    (checkBits fields ++ (msbBits 8 fields.lateAcknowledge.toNat).take n)).1
    ((r'.frameStart.separator.inBody fields.header headerBits flippedParity).inCheck fields.data)
  rw [htail] at hline
  -- the five pieces of the line, one behind the other
  obtain ⟨late, count, run, hall⟩ : ∃ late count run,
      (transduce (follow stripping) (r, h) (lateLine fields n)).1.1 =
        (((r'.frameStart.separator.inBody fields.header headerBits flippedParity).inCheck
          fields.data).insideLate late count).withRun run := by
    have hrest := transduce_append_eq hnull (transduce_append_eq hheader
      (transduce_append_eq hbody hline))
    have hsplit : lateLine fields n = symbolBits Oob.frameStart.symbol ++
        (dataLine (msbBits nullSeparatorBits 0) ++ symbolBits Oob.separator.symbol ++
          (dataLine (bytesBits fields.header) ++ symbolBits Oob.separator.symbol ++
            (dataLine (bytesBits fields.data) ++ symbolBits Oob.separator.symbol ++
              stuff stuffAfterOnes 0 (checkBits fields ++
                (msbBits 8 fields.lateAcknowledge.toNat).take n)))) := by
      simp only [lateLine, startLine, List.append_assoc]
    rw [hsplit, transduce_append, hstart, hrest]
    exact ⟨_, _, _, rfl⟩
  rw [hall]
  have hcaptured := captured_received stripping (hsetup.lent hlent) fields 0 headerBits flippedParity
  obtain ⟨memory, hmemory⟩ := Option.isSome_iff_exists.mp (hsetup.isSome.trans hbuffer)
  have hcapacity := hsetup.capacity
  have hroom : (fields.header ++ fields.data).length ≤ r'.capacity := by
    rw [List.length_append, hcapacity]
    exact hfits
  have hshort : fields.header.length ≤ r'.capacity := by
    rw [List.length_append] at hroom
    omega
  have hbytes := hcaptured.bytes
  have hheaderBytes := hcaptured.headerBytes
  have hstored := hcaptured.buffer
  have hover := hcaptured.overrun
  rw [Nat.min_eq_right hroom] at hbytes
  rw [Nat.min_eq_right hshort] at hheaderBytes
  rw [hmemory, Option.map_some, stored, List.take_of_length_le hroom, Nat.min_eq_right hroom]
    at hstored
  rw [hmemory, Option.isSome_some, Bool.true_and, decide_eq_false (Nat.not_lt.mpr hroom)] at hover
  refine ⟨?_, ?_, hover⟩
  · change List.take (r'.received stripping fields 0 headerBits flippedParity).headerBytes
      ((r'.received stripping fields 0 headerBits flippedParity).buffer.getD []) = _
    rw [hheaderBytes, hstored, Option.getD_some, List.append_assoc, List.take_left]
  · change List.drop (r'.received stripping fields 0 headerBits flippedParity).headerBytes
      (List.take (r'.received stripping fields 0 headerBits flippedParity).bytes
        ((r'.received stripping fields 0 headerBits flippedParity).buffer.getD [])) = _
    rw [hheaderBytes, hbytes, hstored, Option.getD_some, List.take_left, List.drop_left]

theorem Holds.congr {r r' : Receiver} {fields : FrameFields} (hr : r.Holds fields)
    (h : r.captureOnly = r'.captureOnly) : r'.Holds fields := by
  have hheader : ∀ r : Receiver, r.captureOnly.capturedHeader = r.capturedHeader := fun _ => rfl
  have hdata : ∀ r : Receiver, r.captureOnly.capturedData = r.capturedData := fun _ => rfl
  have hoverrun : ∀ r : Receiver, r.captureOnly.overrun = r.overrun := fun _ => rfl
  refine ⟨?_, ?_, ?_⟩
  · rw [← hheader, ← h, hheader]
    exact hr.header
  · rw [← hdata, ← h, hdata]
    exact hr.data
  · rw [← hoverrun, ← h, hoverrun]
    exact hr.overrun

end Receiver

namespace Station

/-! ## Runs with noise -/

/-- A run of calls with the bits that were heard in it. -/
structure Hearing where
  station : Station
  heard : List Bool := []

/-- The bits heard in one call. -/
def Hearing.call (w : Hearing) (c : Call) : Hearing :=
  { station := w.station.call c
    heard :=
      match c with
      | .receive cell => w.heard ++ [(w.station.listening cell).2]
      | _ => w.heard }

/-- A station fresh from its initialisation, with what it hears in a run. -/
def hearing (slot : Int) (address : BitVec 32) (enabled : Bool) (bits buffer : Option (List Byte))
    (capacity : Nat) (calls : List Call) : Hearing :=
  calls.foldl Hearing.call { station := attached slot address enabled bits buffer capacity }

/-- The receiver a station is compared with: one that follows the bits alone. -/
structure Hearing.Agrees (w : Hearing) (r₀ : Receiver) : Prop where
  hears : w.station.Hears w.heard
  capture : w.station.rx.captureOnly =
    (transduce (Receiver.follow false) (r₀, []) w.heard).1.1.captureOnly

theorem Hearing.agrees_call {w : Hearing} {r₀ : Receiver} (h : w.Agrees r₀) (c : Call) :
    (w.call c).Agrees r₀ := by
  have hother : ∀ s : Station, SameEar w.station s → Hearing.Agrees { w with station := s } r₀ := by
    intro s hear
    refine ⟨h.hears.sameEar hear, ?_⟩
    change s.rx.captureOnly = _
    rw [hear.rx]
    exact h.capture
  cases c with
  | queueFrame fields => exact hother _ (w.station.sameEar_queueFrame fields)
  | originateToken symbol => exact hother _ ⟨rfl, rfl, rfl, rfl, rfl⟩
  | drive => exact hother _ w.station.sameEar_driveCell
  | receive cell =>
    obtain ⟨s₀, hs₀, hhears₀, hcell⟩ : ∃ s₀ : Station,
        s₀.rx.captureOnly = w.station.rx.captureOnly ∧ s₀.Hears w.heard ∧
          w.station.receiveCell cell = s₀.receiveBit (w.station.listening cell).2 := by
      let error := (biphaseDecode cell
        (if w.station.rxLevelValid then w.station.rxLevel else !cell.clockWindow)).2
      refine ⟨{ (if error then w.station.noteError else w.station) with
        rxLevel := cell.trailingLevel, rxLevelValid := true }, ?_, ?_, rfl⟩
      · cases error <;> rfl
      · cases error <;> exact ⟨h.hears.bitsSeen, h.hears.window⟩
    obtain ⟨hnext, hheard, -⟩ := hhears₀.receiveBit (w.station.listening cell).2
    have hcall : w.call (.receive cell) =
        { station := s₀.receiveBit (w.station.listening cell).2
          heard := w.heard ++ [(w.station.listening cell).2] } := by
      rw [← hcell]
      rfl
    rw [hcall]
    refine ⟨hnext, ?_⟩
    have hhistory := Receiver.history_follow false (r₀, []) w.heard
    rw [List.nil_append] at hhistory
    rw [transduce_append, transduce_cons, transduce_nil]
    change _ = (Receiver.follow false (transduce (Receiver.follow false) (r₀, []) w.heard).1
      (w.station.listening cell).2).1.1.captureOnly
    rw [Receiver.follow, hhistory]
    rw [show (s₀.receiveBit (w.station.listening cell).2).rx = _ from congrArg Prod.fst hheard]
    exact Receiver.step_congr_captureOnly (hs₀.trans h.capture) _ _ _ _

theorem agrees_hearing (slot : Int) (address : BitVec 32) (enabled : Bool)
    (bits buffer : Option (List Byte)) (capacity : Nat) (calls : List Call) :
    (hearing slot address enabled bits buffer capacity calls).Agrees
      (attached slot address enabled bits buffer capacity).rx := by
  have hrun : ∀ (calls : List Call) (w : Hearing),
      w.Agrees (attached slot address enabled bits buffer capacity).rx →
      (calls.foldl Hearing.call w).Agrees (attached slot address enabled bits buffer capacity).rx := by
    intro calls
    induction calls with
    | nil => exact fun w h => h
    | cons c calls ih => exact fun w h => ih (w.call c) (w.agrees_call h c)
  exact hrun calls _ ⟨⟨rfl, rfl⟩, rfl⟩

/-! ## Copied -/

/-- A received cell brings the bit in which an enabled station that does not strip sets
copied, or the last bit of the late acknowledge, with which it counts the frame. -/
def marksCopied (s : Station) (cell : Cell) : Bool :=
  s.bringsLate cell && s.rx.addressed && s.rx.receiveEnabled && !(s.listening cell).1.stripping &&
    (s.rx.lateBits == 1 || s.rx.lateBits == 7)

/-- The line heard up to the coming bit ends with a frame that is at that bit of its late
acknowledge. -/
def Hearing.EndsWith (w : Hearing) (cell : Cell) (fields : FrameFields) : Prop :=
  ∃ p, w.heard ++ [(w.station.listening cell).2] =
    p ++ (Receiver.lateLine fields w.station.rx.lateBits ++
      [fields.lateAcknowledge.getLsbD (7 - w.station.rx.lateBits)])

/-- Where copied is set, the frame that passes is intact and fits the lent buffer. -/
def Hearing.Intact (w : Hearing) (c : Call) : Prop :=
  ∀ cell, c = .receive cell → w.station.marksCopied cell = true →
    ∃ fields : FrameFields, headerLengthValid fields.header.length = true ∧
      dataLengthValid fields.data.length = true ∧
      fields.header.length + fields.data.length ≤ w.station.rx.capacity ∧ w.EndsWith cell fields

/-- Copied is set, and a frame is counted, only where the frame's header and data were
captured, the line that passes is theirs with their own frame check, and the parser accepts
it. -/
structure Hearing.Truthful (w : Hearing) (c : Call) : Prop where
  counted : (w.station.call c).rx.framesCopied ≠ w.station.rx.framesCopied →
    ∃ cell, c = .receive cell ∧ w.station.marksCopied cell = true ∧ w.station.rx.lateBits = 7
  whole : ∀ cell, c = .receive cell → w.station.marksCopied cell = true →
    w.station.rx.overrun = false ∧ ∃ late,
      let frame : FrameFields :=
        { header := w.station.rx.capturedHeader
          data := w.station.rx.capturedData
          lateAcknowledge := late }
      w.EndsWith cell frame ∧
        ∀ (r : BitReader) (t : List Bool) (headerCapacity dataCapacity : Nat),
          r.rest = frameLine frame ++ t → frame.header.length ≤ headerCapacity →
            frame.data.length ≤ dataCapacity →
              (frameParse r headerCapacity dataCapacity).1.status = .ok

theorem Overheard.station_call (v : Overheard) (c : Call) :
    (v.call c).station = v.station.call c := by
  cases c with
  | receive cell =>
    unfold Overheard.call
    dsimp only
    split <;> rfl
  | _ => rfl

theorem station_hearing (slot : Int) (address : BitVec 32) (enabled : Bool)
    (bits buffer : Option (List Byte)) (capacity : Nat) (calls : List Call) :
    (hearing slot address enabled bits buffer capacity calls).station =
      (overhear slot address enabled bits buffer capacity calls).station := by
  have hrun : ∀ (calls : List Call) (w : Hearing) (v : Overheard), w.station = v.station →
      (calls.foldl Hearing.call w).station = (calls.foldl Overheard.call v).station := by
    intro calls
    induction calls with
    | nil => exact fun w v h => h
    | cons c calls ih =>
      intro w v h
      apply ih
      rw [v.station_call, ← h]
      rfl
  exact hrun calls _ _ rfl

theorem follows_hearing (slot : Int) (address : BitVec 32) (enabled : Bool)
    (bits buffer : Option (List Byte)) (capacity : Nat) (calls : List Call) :
    ∃ arrived error,
      (hearing slot address enabled bits buffer capacity calls).station.rx.Follows arrived error := by
  rw [station_hearing]
  exact ⟨_, _, Overheard.follows_run
    (w := { station := attached slot address enabled bits buffer capacity }) ⟨nofun, nofun⟩ calls⟩

theorem counted_call {s : Station} {arrived : Byte} {error : Bool} (h : s.rx.Follows arrived error)
    {c : Call} (hrises : (s.call c).rx.framesCopied ≠ s.rx.framesCopied) :
    ∃ cell, c = .receive cell ∧ s.marksCopied cell = true ∧ s.rx.lateBits = 7 := by
  cases c with
  | queueFrame fields =>
    exact absurd (congrArg Receiver.framesCopied (s.sameEar_queueFrame fields).rx) hrises
  | originateToken symbol => exact absurd rfl hrises
  | drive => exact absurd (congrArg Receiver.framesCopied s.sameEar_driveCell.rx) hrises
  | receive cell =>
    refine ⟨cell, rfl, ?_⟩
    have hsame : (s.listening cell).1.rx.framesCopied = s.rx.framesCopied ∧
        (s.listening cell).1.rx.addressed = s.rx.addressed ∧
        (s.listening cell).1.rx.receiveEnabled = s.rx.receiveEnabled ∧
        (s.listening cell).1.rx.lateBits = s.rx.lateBits ∧
        (s.listening cell).1.rx.state = s.rx.state := by
      rcases s.rx_listening cell with hrx | hrx <;> rw [hrx] <;> exact ⟨rfl, rfl, rfl, rfl, rfl⟩
    obtain ⟨hcopied, haddressed, henabled, hlateBits, hstate⟩ := hsame
    change (s.receiveCell cell).rx.framesCopied ≠ _ at hrises
    rw [receiveCell_eq, rx_followFrame, ← hcopied] at hrises
    obtain ⟨htakes, hlast, haddr, hen, hstrip⟩ := Receiver.framesCopied_step hrises
    have hlate : s.rx.state = .late := by
      have htakes' := htakes
      simp only [Receiver.takesLate, Bool.and_eq_true, beq_iff_eq] at htakes'
      rw [← hstate]
      exact htakes'.1.1.1
    have hroom := (h.late hlate).room
    rw [length_msbBits] at hroom
    rw [hlateBits] at hlast
    have hseven : s.rx.lateBits = 7 := by omega
    refine ⟨?_, hseven⟩
    rw [haddressed] at haddr
    rw [henabled] at hen
    unfold marksCopied bringsLate
    rw [htakes, haddr, hen, hstrip, hseven]
    rfl

/-- COPIED IS TRUTHFUL in every run of calls in which each frame that is marked copied is
intact and fits. -/
theorem copied_truthful (slot : Int) (address : BitVec 32) (enabled : Bool)
    (bits : Option (List Byte)) (memory : List Byte) (capacity : Nat)
    (hmemory : capacity ≤ memory.length) (calls : List Call)
    (hintact : ∀ before c, before ++ [c] <+: calls →
      (hearing slot address enabled bits (some memory) capacity before).Intact c) :
    ∀ before c, before ++ [c] <+: calls →
      (hearing slot address enabled bits (some memory) capacity before).Truthful c := by
  intro before c hpre
  obtain ⟨arrived, error, hfollows⟩ :=
    follows_hearing slot address enabled bits (some memory) capacity before
  refine ⟨counted_call hfollows, fun cell hc hmarks => ?_⟩
  let w := hearing slot address enabled bits (some memory) capacity before
  obtain ⟨fields, hheader, hdata, hfits, p, hp⟩ := hintact before c hpre cell hc hmarks
  change w.heard ++ _ = p ++ (Receiver.lateLine fields w.station.rx.lateBits ++ _) at hp
  change fields.header.length + fields.data.length ≤ w.station.rx.capacity at hfits
  change w.station.marksCopied cell = true at hmarks
  rw [← List.append_assoc] at hp
  obtain ⟨hheard, -⟩ := List.append_inj' hp rfl
  obtain ⟨-, hcapture⟩ := agrees_hearing slot address enabled bits (some memory) capacity before
  change w.station.rx.captureOnly = _ at hcapture
  change (w.station.rx).captureOnly =
    (transduce (Receiver.follow false) (_, []) w.heard).1.1.captureOnly at hcapture
  -- the receiver in front of the frame, and what it makes of the frame
  let r₀ := (attached slot address enabled bits (some memory) capacity).rx
  have hsetup := Receiver.sameSetup_follow false r₀ [] p
  have hsetupAll := Receiver.sameSetup_follow false r₀ [] w.heard
  have hlent : r₀.Lent := by
    intro memory' heq
    cases heq
    exact hmemory
  have hcapacity : w.station.rx.capacity = capacity :=
    (congrArg Receiver.capacity hcapture).trans hsetupAll.capacity
  have hn : w.station.rx.lateBits < 8 := by
    simp only [marksCopied, Bool.and_eq_true, Bool.or_eq_true, beq_iff_eq] at hmarks
    omega
  have hholds := Receiver.holds_follow_lateLine false (hsetup.lent hlent)
    (hsetup.isSome.trans rfl) (transduce (Receiver.follow false) (r₀, []) p).1.2 hheader
    (hfits.trans (by rw [hcapacity, hsetup.capacity]; exact le_rfl)) hn
  rw [hheard, transduce_append] at hcapture
  obtain ⟨hheld, hheldData, hno⟩ := hholds.congr hcapture.symm
  refine ⟨hno, fields.lateAcknowledge, ?_⟩
  have hframe : ({ header := w.station.rx.capturedHeader
                   data := w.station.rx.capturedData
                   lateAcknowledge := fields.lateAcknowledge } : FrameFields) = fields := by
    rw [hheld, hheldData]
  change w.EndsWith cell { header := w.station.rx.capturedHeader
                           data := w.station.rx.capturedData
                           lateAcknowledge := fields.lateAcknowledge } ∧ _
  rw [hframe]
  refine ⟨⟨p, by rw [← List.append_assoc]; exact hp⟩, fun r t headerCapacity dataCapacity hr hhcap
    hdcap => ?_⟩
  obtain ⟨r', run, hparse, -⟩ :=
    @parseFrame_frameLine fields headerCapacity dataCapacity hheader hdata hhcap hdcap r t hr
  rw [frameParse, hparse]
  rfl

/-- A frame for the station, received behind its initialisation. -/
def unicastRun (fields : FrameFields) : List Call :=
  (encodeLine true (frameLine fields)).map Call.receive

/-- Along a run of receives, copied is marked only at the two bits of a frame that is all the
line has carried. -/
def marksOnly (fields : FrameFields) : Hearing → List Cell → Bool
  | _, [] => true
  | w, cell :: cells =>
    (!w.station.marksCopied cell ||
      w.heard ++ [(w.station.listening cell).2] ==
        Receiver.lateLine fields w.station.rx.lateBits ++
          [fields.lateAcknowledge.getLsbD (7 - w.station.rx.lateBits)]) &&
      marksOnly fields (w.call (.receive cell)) cells

theorem intact_of_marksOnly {fields : FrameFields}
    (hheader : headerLengthValid fields.header.length = true)
    (hdata : dataLengthValid fields.data.length = true) {w : Hearing} {cells : List Cell}
    (hfits : fields.header.length + fields.data.length ≤ w.station.rx.capacity)
    (hmarks : marksOnly fields w cells = true) :
    ∀ before c, before ++ [c] <+: cells.map Call.receive →
      (before.foldl Hearing.call w).Intact c := by
  intro before c hpre
  induction cells generalizing w before with
  | nil => simp only [List.map_nil, List.prefix_nil, List.append_eq_nil_iff, List.cons_ne_self,
      and_false] at hpre
  | cons cell cells ih =>
    unfold marksOnly at hmarks
    obtain ⟨hfirst, hrest⟩ := Bool.and_eq_true_iff.mp hmarks
    cases before with
    | nil =>
      obtain ⟨rfl, -⟩ := List.cons_prefix_cons.mp hpre
      rintro cell' hc hmark
      cases hc
      change w.station.marksCopied cell = true at hmark
      rw [hmark, Bool.not_true, Bool.false_or, beq_iff_eq] at hfirst
      exact ⟨fields, hheader, hdata, hfits, [], hfirst⟩
    | cons first before =>
      obtain ⟨rfl, hpre'⟩ := List.cons_prefix_cons.mp hpre
      refine ih ?_ hrest before hpre'
      exact hfits.trans (Nat.le_of_eq (sameSetup_run [.receive cell] w.station).capacity.symm)

set_option maxRecDepth 8000 in
/-- A frame that fits comes in whole, up to the last bit of its late acknowledge. -/
theorem copied_truthful_unicast :
    (hearing 0 2 true none (some (List.replicate 64 0)) 64
      ((encodeLine true (frameLine unicastFrame)).dropLast.map Call.receive)).Truthful
        (.receive ⟨false, false⟩) := by
  have hsplit : (encodeLine true (frameLine unicastFrame)).dropLast.map Call.receive ++
      [.receive ⟨false, false⟩] = (encodeLine true (frameLine unicastFrame)).map Call.receive := by
    decide +kernel
  refine copied_truthful 0 2 true none (List.replicate 64 0) 64 (by decide)
    (unicastRun unicastFrame) ?_ _ _ ⟨[], by rw [List.append_nil, hsplit]; rfl⟩
  refine @intact_of_marksOnly unicastFrame rfl rfl _ (encodeLine true (frameLine unicastFrame)) ?_ ?_
  · decide
  · decide +kernel

/-- The line of a frame to the station, with a bit of its frame check flipped. -/
def damagedBytes : List Byte :=
  (frameEmit (.init (List.replicate 24 0)) unicastFrame).2.bytes.modify 19 fun byte => byte ^^^ 1

def damagedReader : BitReader :=
  .init damagedBytes (frameEmit (.init (List.replicate 24 0)) unicastFrame).2.bitCount

set_option maxRecDepth 8000 in
/-- A frame longer than the lent buffer is marked copied, and so is one whose frame check the
parser refuses. -/
theorem not_truthful_overrun :
    ¬ (hearing 0 2 true none (some (List.replicate 8 0)) 8 (unicastRun unicastFrame).dropLast).Truthful
        (.receive ⟨false, false⟩) ∧
      (frameParse damagedReader 64 64).1.status = .checkFailed ∧
      (hearing 0 2 true none (some (List.replicate 64 0)) 64
        ((encodeLine true damagedReader.rest).map Call.receive)).station.rx.framesCopied = 1 := by
  have hmarks : (hearing 0 2 true none (some (List.replicate 8 0)) 8
      (unicastRun unicastFrame).dropLast).station.marksCopied ⟨false, false⟩ = true ∧
      (hearing 0 2 true none (some (List.replicate 8 0)) 8
        (unicastRun unicastFrame).dropLast).station.rx.overrun = true := by decide +kernel
  refine ⟨fun h => ?_, by decide +kernel, by decide +kernel⟩
  have hno := (h.whole _ rfl hmarks.1).1
  rw [hmarks.2] at hno
  cases hno

end Station

end Apollo.Ring
