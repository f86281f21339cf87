import Apollo.Ring.FollowFrame

/-!
# The traffic before a frame

What a ring carries between the frames a test looks at: idle bits, tokens and other
whole frames, in any order. `follow_traffic` is that none of it matters to what comes
next: behind it a receiver is between frames again, and the line is quiet.

What it may have changed is bounded by `SameSetup`, which holds of every bit whatever it
is: the station's address, its receive switch and its lent buffer stay what they were,
and no memory behind the lent capacity is written.
-/

namespace Apollo.Ring

open Apollo.Lib

/-! ## Traffic -/

/-- What may pass on a ring without being damaged. -/
inductive Item
  | idle
  | token (c : Oob)
  | frame (fields : FrameFields)

/-- Tokens are the two token characters, and frames have the lengths `ap_ring_frame_emit`
takes. -/
def Item.Legal : Item → Prop
  | .idle => True
  | .token c => c = .freeToken ∨ c = .claimedToken
  | .frame fields =>
    headerLengthValid fields.header.length = true ∧ dataLengthValid fields.data.length = true

/-- An item on the line. -/
def Item.line : Item → List Bool
  | .idle => [false]
  | .token c => symbolBits c.symbol
  | .frame fields => frameLine fields

/-- The line of some traffic. -/
def trafficLine (traffic : List Item) : List Bool := traffic.flatMap Item.line

namespace Receiver

/-! ## What no bit changes -/

/-- The setup of a receiver, and the memory behind its capacity. -/
structure SameSetup (r r' : Receiver) : Prop where
  address : r'.address = r.address
  receiveEnabled : r'.receiveEnabled = r.receiveEnabled
  capacity : r'.capacity = r.capacity
  length : r'.buffer.map List.length = r.buffer.map List.length
  beyond : r'.buffer.map (List.drop r.capacity) = r.buffer.map (List.drop r.capacity)

theorem SameSetup.refl (r : Receiver) : SameSetup r r := ⟨rfl, rfl, rfl, rfl, rfl⟩

theorem SameSetup.trans {r r₁ r₂ : Receiver} (h₁ : SameSetup r r₁) (h₂ : SameSetup r₁ r₂) :
    SameSetup r r₂ where
  address := h₂.address.trans h₁.address
  receiveEnabled := h₂.receiveEnabled.trans h₁.receiveEnabled
  capacity := h₂.capacity.trans h₁.capacity
  length := h₂.length.trans h₁.length
  beyond := by
    have h := h₂.beyond
    rw [h₁.capacity] at h
    exact h.trans h₁.beyond

theorem SameSetup.lent {r r' : Receiver} (h : SameSetup r r') (hr : r.Lent) : r'.Lent := by
  intro memory hmemory
  have hlength := h.length
  rw [hmemory, Option.map_some] at hlength
  obtain ⟨memory₀, hmemory₀, hlen⟩ := Option.map_eq_some_iff.mp hlength.symm
  rw [h.capacity, ← hlen]
  exact hr memory₀ hmemory₀

theorem SameSetup.isSome {r r' : Receiver} (h : SameSetup r r') :
    r'.buffer.isSome = r.buffer.isSome := by
  have hlength := congrArg Option.isSome h.length
  rwa [Option.isSome_map, Option.isSome_map] at hlength

section SameSetup

variable (r : Receiver) (bit : Bool)

theorem sameSetup_capture (byte : Byte) : SameSetup r (r.capture byte) := by
  unfold capture
  by_cases hroom : r.bytes < r.capacity
  · rw [if_pos hroom]
    refine ⟨rfl, rfl, rfl, ?_, ?_⟩
    · rw [Option.map_map]
      congr 1
      funext memory
      exact List.length_set
    · rw [Option.map_map]
      congr 1
      funext memory
      exact List.drop_set_of_lt hroom
  · rw [if_neg hroom]
    split <;> exact ⟨rfl, rfl, rfl, rfl, rfl⟩

theorem sameSetup_headerByte (byte : Byte) : SameSetup r (r.headerByte byte) := by
  have hpush : SameSetup r
      (if r.header.length < 8 then { r with header := r.header ++ [byte] } else r) := by
    split <;> exact ⟨rfl, rfl, rfl, rfl, rfl⟩
  have hdecision : ∀ r : Receiver,
      SameSetup r (if r.header.length = 6 then r.receiveDecision else r) := fun r => by
    split
    · rw [receiveDecision_eq]
      exact ⟨rfl, rfl, rfl, rfl, rfl⟩
    · exact .refl r
  exact (hpush.trans (sameSetup_capture _ byte)).trans (hdecision _)

theorem sameSetup_assemble {whole : Receiver → Byte → Receiver}
    (hwhole : ∀ r byte, SameSetup r (whole r byte)) : SameSetup r (r.assemble bit whole) := by
  by_cases h : r.bitCount = 7
  · rw [assemble_whole h]
    have hclean : SameSetup r { r with byte := 0, bitCount := 0 } := ⟨rfl, rfl, rfl, rfl, rfl⟩
    exact hclean.trans (hwhole _ _)
  · rw [assemble_part h]
    exact ⟨rfl, rfl, rfl, rfl, rfl⟩

theorem sameSetup_headerOut : SameSetup r (r.headerOut bit).1 := by
  unfold headerOut
  dsimp only
  split
  · split
    · split <;> exact ⟨rfl, rfl, rfl, rfl, rfl⟩
    · split <;> exact ⟨rfl, rfl, rfl, rfl, rfl⟩
  · exact ⟨rfl, rfl, rfl, rfl, rfl⟩

theorem sameSetup_lateBit (stripping : Bool) : SameSetup r (r.lateBit stripping bit).1 := by
  unfold lateBit
  dsimp only
  split
  · split
    · split <;> exact ⟨rfl, rfl, rfl, rfl, rfl⟩
    · exact ⟨rfl, rfl, rfl, rfl, rfl⟩
  · exact ⟨rfl, rfl, rfl, rfl, rfl⟩

theorem sameSetup_dataBit (stripping : Bool) : SameSetup r (r.dataBit stripping bit).1 := by
  unfold dataBit
  cases r.state with
  | idle => exact .refl r
  | awaitSeparator => exact .refl r
  | header => exact (sameSetup_headerOut r bit).trans (sameSetup_assemble _ bit sameSetup_headerByte)
  | body => exact sameSetup_assemble r bit sameSetup_capture
  | fcs =>
    dsimp only [fcsBit]
    split <;> exact ⟨rfl, rfl, rfl, rfl, rfl⟩
  | late => exact sameSetup_lateBit r bit stripping

theorem sameSetup_separator : SameSetup r r.separator := by
  unfold separator
  dsimp only
  split
  · split
    · exact ⟨rfl, rfl, rfl, rfl, rfl⟩
    · split <;> exact ⟨rfl, rfl, rfl, rfl, rfl⟩
  · split
    · exact ⟨rfl, rfl, rfl, rfl, rfl⟩
    · split <;> exact ⟨rfl, rfl, rfl, rfl, rfl⟩

theorem sameSetup_step (stripping : Bool) (symbol : Option Symbol) :
    SameSetup r (r.step stripping symbol bit).1 := by
  have hrun : ∀ run, SameSetup r { r with onesRun := run } := fun _ => ⟨rfl, rfl, rfl, rfl, rfl⟩
  unfold step
  dsimp only
  split
  · exact ⟨rfl, rfl, rfl, rfl, rfl⟩
  · split
    · exact sameSetup_separator r
    · split
      · exact .refl r
      · split
        · exact hrun _
        · exact (hrun _).trans (sameSetup_dataBit _ bit stripping)

end SameSetup

theorem sameSetup_follow (stripping : Bool) (r : Receiver) (h bits : List Bool) :
    SameSetup r (transduce (follow stripping) (r, h) bits).1.1 :=
  transduce_invariant (P := fun s : Receiver × List Bool => SameSetup r s.1)
    (fun s bit hs => hs.trans (sameSetup_step s.1 bit stripping _)) (.refl r) bits

/-! ## Behind traffic -/

/-- A receiver between frames, on a quiet line. -/
structure Resting (s : Receiver × List Bool) : Prop where
  idle : s.1.state = .idle
  quiet : Quiet s.2

variable (stripping : Bool)

theorem history_follow (s : Receiver × List Bool) (bits : List Bool) :
    (transduce (follow stripping) s bits).1.2 = s.2 ++ bits := by
  induction bits generalizing s with
  | nil => exact (List.append_nil _).symm
  | cons b bits ih =>
    rw [transduce_cons, ih]
    simp only [follow, List.append_assoc, List.singleton_append]

theorem Resting.follow_zero {s : Receiver × List Bool} (hs : Resting s) :
    Resting (transduce (follow stripping) s [false]).1 ∧
      (transduce (follow stripping) s [false]).1.1 = s.1 := by
  obtain ⟨hno, hquiet⟩ := noChar_zeros hs.quiet 1
  have hone := follow_noChar stripping hno s.1
  rw [listen_waiting stripping (.inl hs.idle)] at hone
  change transduce (follow stripping) s [false] = _ at hone
  rw [hone]
  exact ⟨⟨hs.idle, hquiet⟩, rfl⟩

theorem Resting.follow_token {s : Receiver × List Bool} (hs : Resting s) {c : Oob}
    (hc : c = .freeToken ∨ c = .claimedToken) :
    Resting (transduce (follow stripping) s (symbolBits c.symbol)).1 ∧
      (transduce (follow stripping) s (symbolBits c.symbol)).1.1 = s.1 := by
  obtain ⟨bit, hall⟩ := follow_symbolBits stripping hs.quiet c
    (listen_waiting stripping (.inl hs.idle) _)
    fun bit => by rw [hear_token stripping (.inl hs.idle) hc]
  rw [hear_token stripping (.inl hs.idle) hc] at hall
  change transduce (follow stripping) s (symbolBits c.symbol) = _ at hall
  rw [hall]
  exact ⟨⟨hs.idle, quiet_symbolBits _ c⟩, rfl⟩

theorem quiet_frameBits (h : List Bool) (fields : FrameFields) : Quiet (h ++ frameBits fields) := by
  have hsplit : frameBits fields = startLine ++
      (dataLine (bytesBits fields.header) ++ symbolBits Oob.separator.symbol ++
        dataLine (bytesBits fields.data)) ++ symbolBits Oob.separator.symbol ++
      (stuff stuffAfterOnes 0 (checkBits fields ++ frontBits fields.lateAcknowledge) ++
        [fields.lateAcknowledge.getLsbD 0]) := by
    simp only [frameBits, List.append_assoc]
  rw [hsplit, ← List.append_assoc]
  have hquiet : Quiet (h ++ (startLine ++ (dataLine (bytesBits fields.header) ++
      symbolBits Oob.separator.symbol ++ dataLine (bytesBits fields.data)) ++
        symbolBits Oob.separator.symbol)) := by
    rw [← List.append_assoc]
    exact quiet_symbolBits _ .separator
  have hzero : Lib.onesRun 0 (h ++ (startLine ++ (dataLine (bytesBits fields.header) ++
      symbolBits Oob.separator.symbol ++ dataLine (bytesBits fields.data)) ++
        symbolBits Oob.separator.symbol)) = 0 := by
    rw [← List.append_assoc]
    exact onesRun_separator 0 _
  exact (noChar_prefix_stuff hquiet hzero stuffAfterOnes_pos (prefix_stuff_concat 0 _ _)).2

theorem Resting.follow_frameBits {s : Receiver × List Bool} (hs : Resting s) {fields : FrameFields}
    (hlen : headerLengthValid fields.header.length = true) :
    Resting (transduce (follow stripping) s (frameBits fields)).1 := by
  obtain ⟨run, headerBits, flippedParity, hall⟩ := follow_frame stripping hs.idle hs.quiet hlen
  change transduce (follow stripping) s (frameBits fields) = _ at hall
  rw [hall]
  exact ⟨rfl, quiet_frameBits _ fields⟩

theorem Resting.follow_item {s : Receiver × List Bool} (hs : Resting s) {item : Item}
    (hitem : item.Legal) : Resting (transduce (follow stripping) s item.line).1 := by
  cases item with
  | idle => exact (hs.follow_zero stripping).1
  | token c => exact (hs.follow_token stripping hitem).1
  | frame fields =>
    have hbits := hs.follow_frameBits stripping hitem.1
    change Resting (transduce (follow stripping) s (frameLine fields)).1
    rcases frameLine_eq fields with hline | hline
    · rw [hline]
      exact hbits
    · rw [hline, transduce_append]
      exact (hbits.follow_zero stripping).1

/-- BEHIND ANY TRAFFIC a receiver is between frames. -/
theorem Resting.follow_traffic {s : Receiver × List Bool} (hs : Resting s) {traffic : List Item}
    (hlegal : ∀ item ∈ traffic, item.Legal) :
    Resting (transduce (follow stripping) s (trafficLine traffic)).1 := by
  induction traffic generalizing s with
  | nil => exact hs
  | cons item traffic ih =>
    have hline : trafficLine (item :: traffic) = item.line ++ trafficLine traffic :=
      List.flatMap_cons
    rw [hline, transduce_append]
    exact ih (hs.follow_item stripping (hlegal item List.mem_cons_self))
      fun other hother => hlegal other (List.mem_cons_of_mem item hother)

/-! ## What a frame leaves behind it -/

theorem foldl_capture_congr {r r' : Receiver} (hbuffer : r'.buffer = r.buffer)
    (hcapacity : r'.capacity = r.capacity) (hbytes : r'.bytes = r.bytes)
    (hoverrun : r'.overrun = r.overrun) (bytes : List Byte) :
    (bytes.foldl capture r').buffer = (bytes.foldl capture r).buffer ∧
      (bytes.foldl capture r').bytes = (bytes.foldl capture r).bytes ∧
      (bytes.foldl capture r').overrun = (bytes.foldl capture r).overrun := by
  induction bytes generalizing r r' with
  | nil => exact ⟨hbuffer, hbytes, hoverrun⟩
  | cons byte bytes ih =>
    rw [List.foldl_cons, List.foldl_cons]
    have hone : (r'.capture byte).buffer = (r.capture byte).buffer ∧
        (r'.capture byte).bytes = (r.capture byte).bytes ∧
        (r'.capture byte).overrun = (r.capture byte).overrun := by
      unfold capture
      rw [hbuffer, hcapacity, hbytes]
      split
      · exact ⟨rfl, rfl, hoverrun⟩
      · split
        · exact ⟨rfl, rfl, rfl⟩
        · exact ⟨hbuffer, hbytes, hoverrun⟩
    obtain ⟨h₁, h₂, h₃⟩ := hone
    refine ih h₁ ?_ h₂ h₃
    rw [capture_eq r', capture_eq r]
    exact hcapacity

/-- What a frame that has come in leaves in the receive fields. -/
structure Captured (r r' : Receiver) (fields : FrameFields) : Prop where
  state : r'.state = .idle
  buffer : r'.buffer = r.buffer.map (stored r.capacity (fields.header ++ fields.data))
  bytes : r'.bytes = min r.capacity (fields.header ++ fields.data).length
  headerBytes : r'.headerBytes = min r.capacity fields.header.length
  overrun : r'.overrun =
    (r.buffer.isSome && decide (r.capacity < (fields.header ++ fields.data).length))
  addressed : r'.addressed = addressedBy r.address fields.header
  late : r'.late =
    lateSent (addressedBy r.address fields.header) r.receiveEnabled false fields.lateAcknowledge
  framesCopied : r'.framesCopied =
    if addressedBy r.address fields.header && !stripping && r.receiveEnabled then
      r.framesCopied + 1 else r.framesCopied
  framesWacked : r'.framesWacked =
    if addressedBy r.address fields.header && !stripping && !r.receiveEnabled then
      r.framesWacked + 1 else r.framesWacked

theorem captured_received {r : Receiver} (hlent : r.Lent) (fields : FrameFields)
    (run headerBits : Nat) (flippedParity : Bool) :
    Captured stripping r (r.received stripping fields run headerBits flippedParity) fields := by
  obtain ⟨haddressed, henabled, herror, -, hcopied, hwacked, -⟩ :=
    inCheck_inBody_same r fields.header fields.data headerBits flippedParity
  have hheader := foldl_headerByte (r := r.frameStart.separator) rfl rfl fields.header
  have hlent' : r.frameStart.separator.Lent := hlent
  have hfirst := foldl_capture hlent' rfl rfl fields.header
  have hboth := foldl_capture hlent' rfl rfl (fields.header ++ fields.data)
  rw [List.foldl_append] at hboth
  have hbody : r.frameStart.separator.inBody fields.header headerBits flippedParity =
      { fields.header.foldl capture r.frameStart.separator with
        header := fields.header.take 8
        addressed := addressedBy r.address fields.header
        framesAddressed := if addressedBy r.address fields.header then r.framesAddressed + 1
          else r.framesAddressed
        separators := 2
        state := .body
        headerBytes := (fields.header.foldl capture r.frameStart.separator).bytes
        onesRun := 0
        bitCount := 0
        byte := 0
        headerBits, flippedParity } := by
    rw [inBody, hheader]
    rfl
  obtain ⟨hbuffer, hbytes, hoverrun⟩ := @foldl_capture_congr
    (fields.header.foldl capture r.frameStart.separator)
    (r.frameStart.separator.inBody fields.header headerBits flippedParity)
    (by rw [hbody]) (by rw [hbody]) (by rw [hbody]) (by rw [hbody]) fields.data
  refine ⟨rfl, ?_, ?_, ?_, ?_, haddressed, ?_, ?_, ?_⟩
  · change (fields.data.foldl capture _).buffer = _
    rw [hbuffer, hboth]
    rfl
  · change (fields.data.foldl capture _).bytes = _
    rw [hbytes, hboth]
    rfl
  · change (fields.data.foldl capture _).headerBytes = _
    rw [foldl_capture_eq]
    change (fields.header.foldl headerByte r.frameStart.separator).bytes = _
    rw [hheader, hfirst]
    rfl
  · change (fields.data.foldl capture _).overrun = _
    rw [hoverrun, hboth]
    rfl
  · change lateSent _ _ _ _ = _
    rw [haddressed, henabled, herror]
  · change (if _ then _ else _) = _
    rw [haddressed, henabled, hcopied]
  · change (if _ then _ else _) = _
    rw [haddressed, henabled, hwacked]

/-- A FRAME BEHIND TRAFFIC, received. -/
theorem Resting.captured {s : Receiver × List Bool} (hs : Resting s) (hlent : s.1.Lent)
    {fields : FrameFields} (hlen : headerLengthValid fields.header.length = true) :
    Captured stripping s.1 (transduce (follow stripping) s (frameBits fields)).1.1 fields ∧
      (transduce (follow stripping) s (frameBits fields)).2 = s.1.sentBits fields := by
  obtain ⟨run, headerBits, flippedParity, hall⟩ := follow_frame stripping hs.idle hs.quiet hlen
  change transduce (follow stripping) s (frameBits fields) = _ at hall
  rw [hall]
  exact ⟨captured_received stripping hlent fields run headerBits flippedParity, rfl⟩

/-! ## Where the line of a frame ends -/

/-- Data that is stuffed leaves no five ones at the end of the line, unless the stuffed zero
is still to come. -/
theorem not_suffix_ones_stuff {h : List Bool} (hzero : Lib.onesRun 0 h = 0) (bits : List Bool) :
    ¬ List.replicate stuffAfterOnes true <:+ h ++ stuff stuffAfterOnes 0 bits := by
  rintro ⟨p, hp⟩
  have hrun : Lib.onesRun 0 (h ++ stuff stuffAfterOnes 0 bits) = runAfter stuffAfterOnes 0 bits := by
    rw [onesRun_append, hzero, onesRun_stuff stuffAfterOnes_pos stuffAfterOnes_pos]
  have hlt := runAfter_lt stuffAfterOnes_pos stuffAfterOnes_pos bits
  rw [← hrun, ← hp, onesRun_append, onesRun_replicate] at hlt
  omega

/-- A line cut behind the last bit of the late acknowledge, or behind the zero stuffed
after that: what is cut off can only be a zero on five ones. -/
theorem frameBits_of_lastBit {fields : FrameFields} {bits : List Bool}
    (h : frameLine fields = bits ∨
      frameLine fields = bits ++ [false] ∧ List.replicate stuffAfterOnes true <:+ bits) :
    bits = frameBits fields ∨ bits = frameBits fields ++ [false] := by
  rcases h with hall | ⟨hcut, hones⟩
  · rw [← hall]
    exact frameLine_eq fields
  · rcases frameLine_eq fields with hline | hline
    · exfalso
      rw [hcut] at hline
      have hsplit : frameBits fields = (startLine ++
          (dataLine (bytesBits fields.header) ++ symbolBits Oob.separator.symbol ++
            dataLine (bytesBits fields.data)) ++ symbolBits Oob.separator.symbol ++
          stuff stuffAfterOnes 0 (checkBits fields ++ frontBits fields.lateAcknowledge)) ++
            [fields.lateAcknowledge.getLsbD 0] := by
        simp only [frameBits, List.append_assoc]
      rw [hsplit] at hline
      rw [(List.append_inj' hline rfl).1] at hones
      exact not_suffix_ones_stuff (onesRun_separator 0 _) _ hones
    · rw [hcut] at hline
      exact .inl (List.append_inj' hline rfl).1

end Receiver

end Apollo.Ring
