import Apollo.Ring.ReceiveFrame

/-!
# A whole frame, followed

The sequences of a frame one after the other: `follow_start`, `follow_header`,
`follow_body` and `follow_tail`, put together in `follow_frame`. Each says which receiver
a sequence leaves and which line it sends on, so the whole is their composition and no
bit of the frame is looked at twice.
-/

namespace Apollo.Ring

open Apollo.Lib

namespace Receiver

variable (stripping : Bool)

/-! ## Machines that stay in one state -/

/-- The state is left alone. -/
def KeepsState (out : Receiver → Bool → Receiver × Bool) (whole : Receiver → Byte → Receiver) :
    Prop :=
  (∀ r bit, (out r bit).1.state = r.state) ∧ ∀ r byte, (whole r byte).state = r.state

theorem KeepsState.assembling {out : Receiver → Bool → Receiver × Bool}
    {whole : Receiver → Byte → Receiver} (h : KeepsState out whole) (r : Receiver) (bit : Bool) :
    (assembling out whole r bit).1.state = r.state := by
  unfold Receiver.assembling
  by_cases hfull : (out r bit).1.bitCount = 7
  · rw [assemble_whole hfull, h.2]
    exact h.1 r bit
  · rw [assemble_part hfull]
    exact h.1 r bit

theorem keepsState_header : KeepsState headerOut headerByte := by
  constructor
  · intro r bit
    unfold headerOut
    dsimp only
    split
    · split
      · split <;> rfl
      · split <;> rfl
    · rfl
  · intro r byte
    unfold headerByte
    dsimp only
    rw [capture_eq]
    split
    · rw [receiveDecision_eq]
      dsimp only
      split <;> rfl
    · dsimp only
      split <;> rfl

/-- Nothing of the data is rewritten. -/
def passOn (r : Receiver) (bit : Bool) : Receiver × Bool := (r, bit)

theorem keepsByte_passOn : KeepsByte passOn := fun _ _ _ _ => ⟨rfl, rfl, rfl⟩

theorem transduce_passOn (r : Receiver) (bits : List Bool) : transduce passOn r bits = (r, bits) :=
  transduce_still fun _ _ => rfl

theorem keepsState_body : KeepsState passOn capture :=
  ⟨fun _ _ => rfl, fun r byte => by rw [capture_eq]⟩

/-- A state in which every data bit goes through one machine. -/
structure Phase (state : RxState) (out : Receiver → Bool → Receiver × Bool)
    (whole : Receiver → Byte → Receiver) : Prop where
  whenIn : ∀ r bit, r.state = state → r.data stripping bit = assembling out whole r bit
  keepsState : KeepsState out whole
  keepsByte : KeepsByte out
  takesData : state ≠ .idle ∧ state ≠ .awaitSeparator

theorem phase_header : Phase stripping .header headerOut headerByte where
  whenIn r bit hstate := by
    unfold Receiver.data dataBit
    rw [hstate]
    rfl
  keepsState := keepsState_header
  keepsByte := keepsByte_headerOut
  takesData := ⟨nofun, nofun⟩

theorem phase_body : Phase stripping .body passOn capture where
  whenIn r bit hstate := by
    unfold Receiver.data dataBit
    rw [hstate]
    rfl
  keepsState := keepsState_body
  keepsByte := keepsByte_passOn
  takesData := ⟨nofun, nofun⟩

section Phase

variable {stripping} {state : RxState} {out : Receiver → Bool → Receiver × Bool}
  {whole : Receiver → Byte → Receiver} (hphase : Phase stripping state out whole)
  {r : Receiver} (hstate : r.state = state)
include hphase hstate

theorem Phase.transduce_data (bits : List Bool) :
    transduce (data stripping) r bits = transduce (assembling out whole) r bits :=
  transduce_congr (fun r bit => hphase.whenIn r bit)
    (fun r bit h => (hphase.keepsState.assembling r bit).trans h) hstate bits

theorem Phase.state_data (bits : List Bool) :
    (transduce (data stripping) r bits).1.state = state := by
  rw [hphase.transduce_data hstate]
  exact transduce_invariant (fun r bit h => (hphase.keepsState.assembling r bit).trans h) hstate bits

theorem Phase.ready (bits : List Bool) : (transduce (data stripping) r bits).1.TakesData := by
  unfold TakesData
  rw [hphase.state_data hstate]
  exact hphase.takesData

theorem Phase.follow_stuff {h : List Bool} (hquiet : Quiet h) (hzero : Lib.onesRun 0 h = 0)
    (bits : List Bool) :
    transduce (follow stripping) (r.withRun 0, h) (dataLine bits) =
      (((transduce (assembling out whole) r bits).1.withRun (runAfter stuffAfterOnes 0 bits),
        h ++ dataLine bits),
        carry stuffAfterOnes 0 bits (transduce (assembling out whole) r bits).2) := by
  have hready : ∀ p, p <+: bits →
      (destuffer stripping).Ready (transduce (destuffer stripping).data r p).1 :=
    fun p _ => hphase.ready hstate p
  have hline := (destuffer stripping).transduce_stuff stuffAfterOnes_pos stuffAfterOnes_pos hready
  unfold dataLine
  rw [follow_noChar stripping (noChar_stuff hquiet hzero stuffAfterOnes_pos bits).1]
  change transduce (listen stripping) (r.withRun 0) _ = _ at hline
  rw [hline, ← hphase.transduce_data hstate]
  rfl

theorem Phase.follow_separator {h : List Bool} (hquiet : Quiet h) {run : Nat}
    (hrun : run < stuffAfterOnes) {r' : Receiver}
    (hpart : transduce (assembling out whole) r (markOpening stuffAfterOnes) =
      (r', markOpening stuffAfterOnes)) :
    transduce (follow stripping) (r.withRun run, h) (symbolBits Oob.separator.symbol) =
      (((r'.withRun 0).separator, h ++ symbolBits Oob.separator.symbol),
        symbolBits Oob.separator.symbol) := by
  have hopen := (destuffer stripping).transduce_opening (r := run) (s := r) hrun
    fun p _ => hphase.ready hstate p
  change transduce (listen stripping) (r.withRun run) (symbolBits Oob.separator.symbol).dropLast
    = ((transduce (data stripping) r (markOpening stuffAfterOnes)).1.withRun 0,
      (transduce (data stripping) r (markOpening stuffAfterOnes)).2 ++ [false]) at hopen
  rw [hphase.transduce_data hstate, hpart] at hopen
  have hstate' : (r'.withRun 0).state ≠ .idle := by
    have hkept := hphase.state_data hstate (markOpening stuffAfterOnes)
    rw [hphase.transduce_data hstate, hpart] at hkept
    change r'.state ≠ .idle
    rw [hkept]
    exact hphase.takesData.1
  obtain ⟨bit, hsep⟩ := follow_symbolBits stripping hquiet .separator hopen
    fun bit => by rw [hear_separator stripping hstate']
  rw [hsep, hear_separator stripping hstate']

end Phase

/-! ## The frame start sequence -/

/-- The frame start sequence, with the separator that ends it. -/
def startLine : List Bool :=
  symbolBits Oob.frameStart.symbol ++
    (dataLine (msbBits nullSeparatorBits 0) ++ symbolBits Oob.separator.symbol)

theorem onesRun_separator (r : Nat) (h : List Bool) :
    Lib.onesRun r (h ++ symbolBits Oob.separator.symbol) = 0 := by
  rw [onesRun_append]
  rfl

theorem follow_null (r : Receiver) {h : List Bool} (hquiet : Quiet h) :
    transduce (follow stripping) (r.frameStart, h)
        (dataLine (msbBits nullSeparatorBits 0) ++ symbolBits Oob.separator.symbol) =
      ((r.frameStart.separator,
        h ++ (dataLine (msbBits nullSeparatorBits 0) ++ symbolBits Oob.separator.symbol)),
        dataLine (msbBits nullSeparatorBits 0) ++ symbolBits Oob.separator.symbol) := by
  have hwait : r.frameStart.state = .idle ∨ r.frameStart.state = .awaitSeparator := .inr rfl
  have hzeros := noChar_zeros hquiet nullSeparatorBits
  have hnull := follow_noChar stripping hzeros.1 r.frameStart
  rw [listen_waiting stripping hwait] at hnull
  have hbusy : r.frameStart.state ≠ .idle := fun h =>
    nomatch (h : RxState.awaitSeparator = .idle)
  obtain ⟨bit', hsep⟩ := follow_symbolBits stripping hzeros.2 .separator
    (listen_waiting stripping hwait _) fun bit => by rw [hear_separator stripping hbusy]
  rw [hear_separator stripping hbusy] at hsep
  have hall := transduce_append_eq hnull hsep
  rw [List.append_assoc] at hall
  exact hall

theorem follow_start {r : Receiver} {h : List Bool} (hidle : r.state = .idle) (hquiet : Quiet h) :
    transduce (follow stripping) (r, h) startLine =
      ((r.frameStart.separator, h ++ startLine), startLine) := by
  obtain ⟨bit, hstart⟩ := follow_symbolBits stripping hquiet .frameStart
    (listen_waiting stripping (.inl hidle) _) fun bit => by rw [hear_frameStart]
  rw [hear_frameStart] at hstart
  have hall := transduce_append_eq hstart
    (follow_null stripping r (quiet_symbolBits h .frameStart))
  rw [List.append_assoc] at hall
  exact hall

/-! ## The packet header sequence -/

theorem length_of_headerLengthValid {n : Nat} (h : headerLengthValid n = true) :
    12 ≤ n ∧ n ≤ 1024 := by
  unfold headerLengthValid at h
  obtain ⟨hrange, -⟩ := Bool.and_eq_true_iff.mp h
  obtain ⟨hlow, hhigh⟩ := Bool.and_eq_true_iff.mp hrange
  exact ⟨of_decide_eq_true hlow, of_decide_eq_true hhigh⟩

/-- A receiver at the first bit of a header. -/
structure AtHeader (r : Receiver) : Prop where
  state : r.state = .header
  onesRun : r.onesRun = 0
  bitCount : r.bitCount = 0
  byte : r.byte = 0
  header : r.header = []
  headerBits : r.headerBits = 0
  addressed : r.addressed = false
  flippedParity : r.flippedParity = false
  separators : r.separators = 1

theorem atHeader_start (r : Receiver) : r.frameStart.separator.AtHeader :=
  ⟨rfl, rfl, rfl, rfl, rfl, rfl, rfl, rfl, rfl⟩

theorem separator_second {r : Receiver} (h : r.separators = 1) : r.separator =
    { r with
      separators := 2
      state := .body
      headerBytes := r.bytes
      onesRun := 0
      bitCount := 0
      byte := 0 } := by
  unfold separator
  rw [h]
  rfl

/-- A receiver behind the header and its separator. -/
def inBody (r : Receiver) (header : List Byte) (headerBits : Nat) (flippedParity : Bool) :
    Receiver :=
  { header.foldl headerByte r with
    separators := 2
    state := .body
    headerBytes := (header.foldl headerByte r).bytes
    onesRun := 0
    bitCount := 0
    byte := 0
    headerBits, flippedParity }

theorem follow_header {r : Receiver} {h : List Bool} (hr : r.AtHeader) (hquiet : Quiet h)
    (hzero : Lib.onesRun 0 h = 0) {header : List Byte}
    (hlen : headerLengthValid header.length = true) :
    ∃ headerBits flippedParity,
      transduce (follow stripping) (r, h)
          (dataLine (bytesBits header) ++ symbolBits Oob.separator.symbol) =
        ((r.inBody header headerBits flippedParity,
          h ++ (dataLine (bytesBits header) ++ symbolBits Oob.separator.symbol)),
          carry stuffAfterOnes 0 (bytesBits header)
            (bytesBits (headerSent (addressedBy r.address header) header)) ++
            symbolBits Oob.separator.symbol) := by
  obtain ⟨hlow, hhigh⟩ := length_of_headerLengthValid hlen
  have hphase := phase_header stripping
  obtain ⟨flipped, -, hstate, hout⟩ := transduce_header hr.header hr.addressed hr.flippedParity
    hr.headerBits hr.byte hr.bitCount header (by omega)
  have hbytes := transduce_assembling_bytes keepsByte_headerOut headerByte
    (fun r byte => by
      obtain ⟨hbyte, hcount⟩ : (r.headerByte byte).byte = r.byte ∧
          (r.headerByte byte).bitCount = r.bitCount := by
        unfold headerByte
        dsimp only
        rw [capture_eq]
        split
        · rw [receiveDecision_eq]
          dsimp only
          split <;> exact ⟨rfl, rfl⟩
        · dsimp only
          split <;> exact ⟨rfl, rfl⟩
      exact ⟨hbyte, hcount⟩) hr.byte hr.bitCount header
  rw [hstate, hout] at hbytes
  have hself : r.withRun 0 = r := by rw [← hr.onesRun]; rfl
  have hline := hphase.follow_stuff hr.state hquiet hzero (bytesBits header)
  rw [hbytes, hself] at hline
  -- the separator's bits come behind the early acknowledge
  have hfold := foldl_headerByte_withEarly hr.header hr.addressed (8 * header.length) flipped header
  obtain ⟨hbyte, hcount, -, -, -⟩ := foldl_headerByte_same hr.header hr.addressed header
  have hstate' : (header.foldl headerByte (r.withEarly (8 * header.length) flipped)).state =
      .header := by
    have hkept := hphase.state_data hr.state (bytesBits header)
    rwa [hphase.transduce_data hr.state, hbytes] at hkept
  have hpass := transduce_headerOut_pass
    (r := header.foldl headerByte (r.withEarly (8 * header.length) flipped))
    (markOpening stuffAfterOnes)
    (by rw [hfold, length_markOpening]; simp only [withEarly, stuffAfterOnes]; omega)
    (by rw [hfold]; simp only [withEarly]; omega)
  have hpart := transduce_assembling_part keepsByte_headerOut headerByte
    (r := header.foldl headerByte (r.withEarly (8 * header.length) flipped))
    (markOpening stuffAfterOnes)
    (by rw [hfold, length_markOpening]; simp only [withEarly, hcount, hr.bitCount]; decide)
  rw [hpass] at hpart
  have hquiet' := (noChar_stuff hquiet hzero stuffAfterOnes_pos (bytesBits header)).2
  have hsep := hphase.follow_separator hstate' hquiet'
    (runAfter_lt stuffAfterOnes_pos stuffAfterOnes_pos (bytesBits header)) hpart
  have hall := transduce_append_eq hline hsep
  rw [List.append_assoc] at hall
  refine ⟨8 * header.length + 7, flipped, hall.trans ?_⟩
  have hsecond : (header.foldl headerByte r).separators = 1 := by
    rw [foldl_headerByte hr.header hr.addressed, foldl_capture_eq]
    exact hr.separators
  rw [separator_second (by rw [hfold]; exact hsecond), hfold]
  rfl

/-! ## The packet data sequence -/

/-- A receiver at the first bit of the data. -/
structure AtBody (r : Receiver) : Prop where
  state : r.state = .body
  onesRun : r.onesRun = 0
  bitCount : r.bitCount = 0
  byte : r.byte = 0
  separators : r.separators = 2

theorem separator_third {r : Receiver} (h : r.separators = 2) : r.separator =
    { r with
      separators := 3
      state := .fcs
      fcsBits := 0
      onesRun := 0
      lateBits := 0
      late := 0 } := by
  unfold separator
  rw [h]
  rfl

theorem transduce_body {r : Receiver} (hbyte : r.byte = 0) (hcount : r.bitCount = 0)
    (bytes : List Byte) : transduce (byteStep passOn capture) r bytes =
      (bytes.foldl capture r, bytes.map fun byte => msbBits 8 byte.toNat) := by
  induction bytes generalizing r with
  | nil => rfl
  | cons byte bytes ih =>
    have hclean : r.withByte 0 0 = r := by rw [← hbyte, ← hcount]; rfl
    have hstep : byteStep passOn capture r byte = (r.capture byte, msbBits 8 byte.toNat) := by
      rw [byteStep, transduce_passOn, hclean]
    have hbyte' : (r.capture byte).byte = 0 := by rw [capture_eq]; exact hbyte
    have hcount' : (r.capture byte).bitCount = 0 := by rw [capture_eq]; exact hcount
    rw [transduce_cons, hstep, ih hbyte' hcount', List.foldl_cons, List.map_cons]

/-- A receiver behind the data and its separator. -/
def inCheck (r : Receiver) (bytes : List Byte) : Receiver :=
  { bytes.foldl capture r with
    separators := 3
    state := .fcs
    fcsBits := 0
    onesRun := 0
    lateBits := 0
    late := 0
    byte := 0x3F
    bitCount := 7 }

theorem follow_body {r : Receiver} {h : List Bool} (hr : r.AtBody) (hquiet : Quiet h)
    (hzero : Lib.onesRun 0 h = 0) (bytes : List Byte) :
    transduce (follow stripping) (r, h)
        (dataLine (bytesBits bytes) ++ symbolBits Oob.separator.symbol) =
      ((r.inCheck bytes,
        h ++ (dataLine (bytesBits bytes) ++ symbolBits Oob.separator.symbol)),
        dataLine (bytesBits bytes) ++ symbolBits Oob.separator.symbol) := by
  have hphase := phase_body stripping
  have hbytes := transduce_assembling_bytes keepsByte_passOn capture
    (fun r byte => by rw [capture_eq]; exact ⟨rfl, rfl⟩) hr.byte hr.bitCount bytes
  rw [transduce_body hr.byte hr.bitCount] at hbytes
  have hself : r.withRun 0 = r := by rw [← hr.onesRun]; rfl
  have hline := hphase.follow_stuff hr.state hquiet hzero (bytesBits bytes)
  rw [hbytes, hself] at hline
  have hfold := foldl_capture_eq r bytes
  have hstate' : (bytes.foldl capture r).state = .body := by rw [hfold]; exact hr.state
  have hcount : (bytes.foldl capture r).bitCount = 0 := by rw [hfold]; exact hr.bitCount
  have hbyte : (bytes.foldl capture r).byte = 0 := by rw [hfold]; exact hr.byte
  have hpart := transduce_assembling_part keepsByte_passOn capture
    (r := bytes.foldl capture r) (markOpening stuffAfterOnes)
    (by rw [hcount, length_markOpening]; decide)
  rw [transduce_passOn, hcount, hbyte] at hpart
  dsimp only at hpart hbytes hline
  have hquiet' := (noChar_stuff hquiet hzero stuffAfterOnes_pos (bytesBits bytes)).2
  have hsep := hphase.follow_separator hstate' hquiet'
    (runAfter_lt stuffAfterOnes_pos stuffAfterOnes_pos (bytesBits bytes)) hpart
  have hsecond : (bytes.foldl capture r).separators = 2 := by rw [hfold]; exact hr.separators
  have hflat : (bytes.map fun byte => msbBits 8 byte.toNat).flatten = bytesBits bytes :=
    (List.flatMap_def ..).symm
  have hall := transduce_append_eq hline hsep
  have hthird := separator_third (r := ((bytes.foldl capture r).withByte
    (shiftIn 0 (markOpening stuffAfterOnes)) (0 + (markOpening stuffAfterOnes).length)).withRun 0)
    hsecond
  rw [List.append_assoc, hflat, carry_self, hthird] at hall
  exact hall

/-! ## The frame check and the late acknowledge -/

/-- What a station makes of a late acknowledge. -/
def lateSent (addressed enabled error : Bool) (field : Byte) : Byte :=
  let field :=
    if addressed then field ||| lateIntendToCopy ||| (if enabled then lateCopied else lateWaitAck)
    else field
  let field := if error then field ||| lateError else field
  if popcount8 (field &&& 0xFC) % 2 == 0 then field ||| lateParity else field &&& ~~~lateParity

/-- A bit of the late acknowledge, as far as it depends on the bits before it. -/
def lateStep (addressed enabled error : Bool) (s : Byte × Nat) (bit : Bool) :
    (Byte × Nat) × Bool :=
  let out := lateOut
    { addressed, receiveEnabled := enabled, frameError := error, late := s.1, lateBits := s.2 } bit
  ((shiftBit s.1 out, s.2 + 1), out)

/-- The bits of what is sent on: three are added to an addressed station's field, one to
a damaged frame's, and the parity bit makes the six above it odd. -/
def lateBitsSent (addressed enabled error : Bool) (field : Byte) : List Bool :=
  let copied := field.getLsbD 6 || addressed && enabled
  let waitAck := field.getLsbD 5 || addressed && !enabled
  let intend := field.getLsbD 3 || addressed
  let error := field.getLsbD 2 || error
  let odd := field.getLsbD 7 ^^ copied ^^ waitAck ^^ field.getLsbD 4 ^^ intend ^^ error
  [field.getLsbD 7, copied, waitAck, field.getLsbD 4, intend, error, !odd, field.getLsbD 0]

theorem popcount8_high (field : Byte) : (popcount8 (field &&& 0xFC) % 2 == 0) =
    !(field.getLsbD 7 ^^ field.getLsbD 6 ^^ field.getLsbD 5 ^^ field.getLsbD 4 ^^
      field.getLsbD 3 ^^ field.getLsbD 2) := by
  have key : ∀ n < 256, (popcount8 (BitVec.ofNat 8 n &&& 0xFC) % 2 == 0) =
      !((BitVec.ofNat 8 n).getLsbD 7 ^^ (BitVec.ofNat 8 n).getLsbD 6 ^^
        (BitVec.ofNat 8 n).getLsbD 5 ^^ (BitVec.ofNat 8 n).getLsbD 4 ^^
        (BitVec.ofNat 8 n).getLsbD 3 ^^ (BitVec.ofNat 8 n).getLsbD 2) := by decide +kernel
  have h := key field.toNat field.isLt
  rwa [BitVec.ofNat_toNat, BitVec.setWidth_eq] at h

theorem msbBits_lateSent (addressed enabled error : Bool) (field : Byte) :
    msbBits 8 (lateSent addressed enabled error field).toNat =
      lateBitsSent addressed enabled error field := by
  have hparity : ∀ v : Byte, msbBits 8
      (if popcount8 (v &&& 0xFC) % 2 == 0 then v ||| lateParity else v &&& ~~~lateParity).toNat =
      [v.getLsbD 7, v.getLsbD 6, v.getLsbD 5, v.getLsbD 4, v.getLsbD 3, v.getLsbD 2,
        !(v.getLsbD 7 ^^ v.getLsbD 6 ^^ v.getLsbD 5 ^^ v.getLsbD 4 ^^ v.getLsbD 3 ^^ v.getLsbD 2),
        v.getLsbD 0] := by
    intro v
    rw [popcount8_high, msbBits_byte]
    cases (v.getLsbD 7 ^^ v.getLsbD 6 ^^ v.getLsbD 5 ^^ v.getLsbD 4 ^^ v.getLsbD 3 ^^
      v.getLsbD 2) <;> simp [lateParity]
  unfold lateSent
  rw [hparity]
  cases addressed <;> cases enabled <;> cases error <;>
    simp [lateBitsSent, lateIntendToCopy, lateCopied, lateWaitAck, lateError]

theorem lateOnes_shiftIn (b₇ b₆ b₅ b₄ b₃ b₂ : Bool) :
    (lateOnes (shiftIn 0 [b₇, b₆, b₅, b₄, b₃, b₂]) % 2 == 0) =
      !(b₇ ^^ b₆ ^^ b₅ ^^ b₄ ^^ b₃ ^^ b₂) := by
  revert b₇ b₆ b₅ b₄ b₃ b₂
  decide +kernel

section LateStep

variable (addressed enabled error : Bool)

theorem transduce_lateStep_high (b₇ b₆ b₅ b₄ b₃ b₂ : Bool) :
    transduce (lateStep addressed enabled error) (0, 0) [b₇, b₆, b₅, b₄, b₃, b₂] =
      ((shiftIn 0 [b₇, b₆ || addressed && enabled, b₅ || addressed && !enabled, b₄,
          b₃ || addressed, b₂ || error], 6),
        [b₇, b₆ || addressed && enabled, b₅ || addressed && !enabled, b₄, b₃ || addressed,
          b₂ || error]) := by
  cases addressed <;> cases enabled <;> cases error <;> simp [lateStep, lateOut, shiftIn, shiftBit]

theorem lateStep_parity (late : Byte) (bit : Bool) :
    lateStep addressed enabled error (late, 6) bit =
      ((shiftBit late (lateOnes late % 2 == 0), 7), lateOnes late % 2 == 0) := by
  cases addressed <;> cases enabled <;> cases error <;> rfl

theorem lateStep_last (late : Byte) (bit : Bool) :
    lateStep addressed enabled error (late, 7) bit = ((shiftBit late bit, 8), bit) := by
  cases addressed <;> cases enabled <;> cases error <;> rfl

theorem transduce_lateStep (field : Byte) :
    transduce (lateStep addressed enabled error) (0, 0) (msbBits 8 field.toNat) =
      ((lateSent addressed enabled error field, 8),
        msbBits 8 (lateSent addressed enabled error field).toNat) := by
  have hvalue : lateSent addressed enabled error field =
      shiftIn 0 (lateBitsSent addressed enabled error field) := by
    rw [← msbBits_lateSent, shiftIn_zero, ofMsbBits_msbBits_of_lt (BitVec.isLt _),
      BitVec.ofNat_toNat, BitVec.setWidth_eq]
  have hsplit : msbBits 8 field.toNat =
      [field.getLsbD 7, field.getLsbD 6, field.getLsbD 5, field.getLsbD 4, field.getLsbD 3,
        field.getLsbD 2] ++ [field.getLsbD 1, field.getLsbD 0] := rfl
  rw [msbBits_lateSent, hvalue, hsplit]
  refine transduce_append_eq (transduce_lateStep_high ..) ?_
  rw [transduce_cons, transduce_cons, transduce_nil, lateStep_parity, lateStep_last,
    lateOnes_shiftIn]
  rfl

end LateStep

/-! ### The bits of the tail -/

theorem data_fcs {r : Receiver} (hstate : r.state = .fcs) (bit : Bool) :
    r.data stripping bit = (r.fcsBit, bit) := by
  unfold data dataBit
  rw [hstate]

theorem data_late {r : Receiver} (hstate : r.state = .late) (bit : Bool) :
    r.data stripping bit =
      ((r.lateBit stripping bit).1, (r.lateBit stripping bit).2.1) := by
  unfold data dataBit
  rw [hstate]

theorem transduce_fcs_part {r : Receiver} (bits : List Bool) (hstate : r.state = .fcs)
    (hlen : r.fcsBits + bits.length < 40) :
    transduce (data stripping) r bits =
      ({ r with fcsBits := r.fcsBits + bits.length }, bits) := by
  induction bits generalizing r with
  | nil => rfl
  | cons b bits ih =>
    rw [List.length_cons] at hlen
    have hstep : r.data stripping b = ({ r with fcsBits := r.fcsBits + 1 }, b) := by
      rw [data_fcs stripping hstate]
      unfold fcsBit
      dsimp only
      rw [if_neg (by omega)]
    rw [transduce_cons, hstep, ih (r := { r with fcsBits := r.fcsBits + 1 }) hstate
      (by dsimp only; omega), List.length_cons]
    dsimp only
    rw [Nat.add_right_comm, Nat.add_assoc]

theorem transduce_fcs {r : Receiver} {bits : List Bool} (hstate : r.state = .fcs)
    (hzero : r.fcsBits = 0) (hlen : bits.length = 40) :
    transduce (data stripping) r bits = ({ r with fcsBits := 40, state := .late }, bits) := by
  obtain ⟨front, b, rfl⟩ : ∃ front b, bits = front ++ [b] :=
    ⟨_, _, (List.dropLast_append_getLast (fun hnil => by
      rw [hnil] at hlen
      cases hlen)).symm⟩
  rw [List.length_append, List.length_singleton] at hlen
  refine transduce_append_eq (transduce_fcs_part stripping front hstate (by omega)) ?_
  rw [transduce_cons, transduce_nil,
    data_fcs stripping (r := { r with fcsBits := r.fcsBits + front.length }) hstate]
  unfold fcsBit
  dsimp only
  rw [if_pos (by omega), show r.fcsBits + front.length + 1 = 40 by omega]

theorem transduce_late_part {r : Receiver} (bits : List Bool) (hstate : r.state = .late)
    (hlen : r.lateBits + bits.length < 8) :
    transduce (data stripping) r bits =
      ({ r with
          late := (transduce (lateStep r.addressed r.receiveEnabled r.frameError)
            (r.late, r.lateBits) bits).1.1
          lateBits := r.lateBits + bits.length },
        (transduce (lateStep r.addressed r.receiveEnabled r.frameError)
          (r.late, r.lateBits) bits).2) := by
  induction bits generalizing r with
  | nil => rfl
  | cons b bits ih =>
    rw [List.length_cons] at hlen
    have hstep : r.data stripping b =
        ({ r with late := shiftBit r.late (r.lateOut b), lateBits := r.lateBits + 1 },
          r.lateOut b) := by
      rw [data_late stripping hstate]
      unfold lateBit
      dsimp only
      rw [if_neg (by omega)]
    rw [transduce_cons, hstep, ih (r := { r with
      late := shiftBit r.late (r.lateOut b), lateBits := r.lateBits + 1 }) hstate
      (by dsimp only; omega), List.length_cons, Nat.add_right_comm, Nat.add_assoc]
    rfl

/-- A field's bits but the last. -/
def frontBits (field : Byte) : List Bool := (msbBits 8 field.toNat).take 7

theorem msbBits_front (field : Byte) :
    msbBits 8 field.toNat = frontBits field ++ [field.getLsbD 0] := rfl

theorem length_frontBits (field : Byte) : (frontBits field).length = 7 := rfl

theorem stuff_concat (run : Nat) (bits : List Bool) (b : Bool) :
    stuff stuffAfterOnes run (bits ++ [b]) = stuff stuffAfterOnes run bits ++ [b] ∨
      stuff stuffAfterOnes run (bits ++ [b]) = stuff stuffAfterOnes run bits ++ [b] ++ [false] := by
  rw [stuff_append]
  cases b with
  | false => exact .inl rfl
  | true =>
    simp only [stuff]
    split
    · exact .inr (by rw [List.append_assoc]; rfl)
    · exact .inl rfl

theorem prefix_stuff_concat (run : Nat) (bits : List Bool) (b : Bool) :
    stuff stuffAfterOnes run bits ++ [b] <+: stuff stuffAfterOnes run (bits ++ [b]) := by
  rcases stuff_concat run bits b with h | h
  · rw [h]
  · rw [h]
    exact List.prefix_append _ _

/-- A receiver at the first bit of the frame check. -/
structure AtCheck (r : Receiver) : Prop where
  state : r.state = .fcs
  onesRun : r.onesRun = 0
  fcsBits : r.fcsBits = 0
  lateBits : r.lateBits = 0
  late : r.late = 0

/-- The receiver a late acknowledge completes in. -/
def completed (r : Receiver) (field : Byte) : Receiver :=
  { r with
    state := .idle
    fcsBits := 40
    lateBits := 8
    late := lateSent r.addressed r.receiveEnabled r.frameError field
    framesCopied :=
      if r.addressed && !stripping && r.receiveEnabled then r.framesCopied + 1 else r.framesCopied
    framesWacked :=
      if r.addressed && !stripping && !r.receiveEnabled then r.framesWacked + 1
      else r.framesWacked }

theorem data_late_last {r : Receiver} (hstate : r.state = .late) (hbits : r.lateBits = 7)
    (bit : Bool) : r.data stripping bit =
      ({ r with
          state := .idle
          late := shiftBit r.late (r.lateOut bit)
          lateBits := 8
          framesCopied :=
            if r.addressed && !stripping && r.receiveEnabled then r.framesCopied + 1
            else r.framesCopied
          framesWacked :=
            if r.addressed && !stripping && !r.receiveEnabled then r.framesWacked + 1
            else r.framesWacked }, r.lateOut bit) := by
  rw [data_late stripping hstate]
  unfold lateBit
  dsimp only
  rw [if_pos (by omega), hbits]
  cases haddr : r.addressed <;> cases henabled : r.receiveEnabled <;> cases stripping <;> rfl

/-- The receiver inside a late acknowledge, `n` bits into it. -/
def insideLate (r : Receiver) (late : Byte) (n : Nat) : Receiver :=
  { r with state := .late, fcsBits := 40, late, lateBits := n }

theorem transduce_tail {r : Receiver} (hr : r.AtCheck) {check : List Bool}
    (hcheck : check.length = 40) {bits : List Bool} (hbits : bits.length < 8) :
    transduce (data stripping) r (check ++ bits) =
      (r.insideLate (transduce (lateStep r.addressed r.receiveEnabled r.frameError) (0, 0)
          bits).1.1 bits.length,
        check ++ (transduce (lateStep r.addressed r.receiveEnabled r.frameError) (0, 0) bits).2) := by
  have hfirst := transduce_fcs stripping hr.state hr.fcsBits hcheck
  refine transduce_append_eq hfirst ?_
  rw [transduce_late_part stripping (r := { r with fcsBits := 40, state := .late }) bits rfl
    (by simp only [hr.lateBits]; omega)]
  simp only [hr.lateBits, hr.late, Nat.zero_add, insideLate]

theorem takesData_of_fcs {r : Receiver} (h : r.state = .fcs) : r.TakesData := by
  unfold TakesData
  rw [h]
  exact ⟨nofun, nofun⟩

theorem takesData_of_late {r : Receiver} (h : r.state = .late) : r.TakesData := by
  unfold TakesData
  rw [h]
  exact ⟨nofun, nofun⟩

theorem takesData_tail {r : Receiver} (hr : r.AtCheck) {check bits p : List Bool}
    (hcheck : check.length = 40) (hbits : bits.length < 8) (hp : p <+: check ++ bits) :
    (transduce (data stripping) r p).1.TakesData := by
  obtain ⟨t, ht⟩ := hp
  rcases List.append_eq_append_iff.mp ht with ⟨a, hsplit, -⟩ | ⟨q, rfl, hq⟩
  · by_cases hall : a = []
    · rw [hall, List.append_nil] at hsplit
      rw [← hsplit, transduce_fcs stripping hr.state hr.fcsBits hcheck]
      exact takesData_of_late rfl
    · have hpos := List.length_pos_iff.mpr hall
      have hlen := congrArg List.length hsplit
      rw [List.length_append, hcheck] at hlen
      rw [transduce_fcs_part stripping p hr.state (by rw [hr.fcsBits]; omega)]
      exact takesData_of_fcs hr.state
  · have hlen := congrArg List.length hq
    rw [List.length_append] at hlen
    rw [transduce_tail stripping hr hcheck (by omega)]
    exact takesData_of_late rfl

theorem listen_tail {r : Receiver} (hr : r.AtCheck) {check bits : List Bool}
    (hcheck : check.length = 40) (hbits : bits.length < 8) :
    transduce (listen stripping) r (stuff stuffAfterOnes 0 (check ++ bits)) =
      ((r.insideLate (transduce (lateStep r.addressed r.receiveEnabled r.frameError) (0, 0)
          bits).1.1 bits.length).withRun (runAfter stuffAfterOnes 0 (check ++ bits)),
        carry stuffAfterOnes 0 (check ++ bits) (check ++
          (transduce (lateStep r.addressed r.receiveEnabled r.frameError) (0, 0) bits).2)) := by
  have hself : r.withRun 0 = r := by rw [← hr.onesRun]; rfl
  have hready : ∀ p, p <+: check ++ bits →
      (destuffer stripping).Ready (transduce (destuffer stripping).data r p).1 :=
    fun p hp => takesData_tail stripping hr hcheck hbits hp
  have hline := (destuffer stripping).transduce_stuff stuffAfterOnes_pos stuffAfterOnes_pos hready
  change transduce (listen stripping) (r.withRun 0) _ =
    ((transduce (data stripping) r (check ++ bits)).1.withRun _,
      carry _ _ _ (transduce (data stripping) r (check ++ bits)).2) at hline
  rwa [hself, transduce_tail stripping hr hcheck hbits] at hline

/-- The frame check sequence, its null separator and the late acknowledge. The check's own
value is not looked at. -/
theorem follow_tail {r : Receiver} {h : List Bool} (hr : r.AtCheck) (hquiet : Quiet h)
    (hzero : Lib.onesRun 0 h = 0) {check : List Bool} (hcheck : check.length = 40) (field : Byte) :
    ∃ run, transduce (follow stripping) (r, h)
        (stuff stuffAfterOnes 0 (check ++ frontBits field) ++ [field.getLsbD 0]) =
      (((r.completed stripping field).withRun run,
        h ++ (stuff stuffAfterOnes 0 (check ++ frontBits field) ++ [field.getLsbD 0])),
        carry stuffAfterOnes 0 (check ++ frontBits field)
          (check ++ frontBits (lateSent r.addressed r.receiveEnabled r.frameError field)) ++
          [(lateSent r.addressed r.receiveEnabled r.frameError field).getLsbD 0]) := by
  -- the eighth bit of the field, behind the seven before it
  have hall := transduce_lateStep r.addressed r.receiveEnabled r.frameError field
  rw [msbBits_front, msbBits_front, transduce_append] at hall
  have hseven : (frontBits field).length < 8 := by
    rw [length_frontBits]
    decide
  have hline := listen_tail stripping hr hcheck hseven
  rcases hlate : transduce (lateStep r.addressed r.receiveEnabled r.frameError) (0, 0)
    (frontBits field) with ⟨⟨late, n⟩, outs⟩
  rw [hlate, transduce_cons, transduce_nil] at hall
  rw [hlate, length_frontBits] at hline
  obtain ⟨hstate, houts⟩ := Prod.mk.inj hall
  obtain ⟨hvalue, hn⟩ := Prod.mk.inj hstate
  obtain ⟨hfront, hlast⟩ := List.append_inj' houts rfl
  have hn7 : n = 7 := Nat.succ.inj hn
  subst hn7
  have hrun := runAfter_lt stuffAfterOnes_pos stuffAfterOnes_pos (check ++ frontBits field)
  -- and the last bit, which is never a stuffed one
  have hbit : ∃ run, transduce (listen stripping) ((r.insideLate late 7).withRun
      (runAfter stuffAfterOnes 0 (check ++ frontBits field))) [field.getLsbD 0] =
      ((r.completed stripping field).withRun run,
        [(lateSent r.addressed r.receiveEnabled r.frameError field).getLsbD 0]) := by
    have hdue : ∀ bit, ¬ (stuffAfterOnes ≤ ((r.insideLate late 7).withRun
        (runAfter stuffAfterOnes 0 (check ++ frontBits field))).onesRun && !bit) = true := by
      intro bit hdue
      exact absurd (of_decide_eq_true (Bool.and_eq_true_iff.mp hdue).1) (Nat.not_le_of_lt hrun)
    have hsame : (lateStep r.addressed r.receiveEnabled r.frameError (late, 7)
        (field.getLsbD 0)).2 = (r.insideLate late 7).lateOut (field.getLsbD 0) := rfl
    have hsent : shiftBit late ((r.insideLate late 7).lateOut (field.getLsbD 0)) =
        lateSent r.addressed r.receiveEnabled r.frameError field := hvalue
    have hout : (r.insideLate late 7).lateOut (field.getLsbD 0) =
        (lateSent r.addressed r.receiveEnabled r.frameError field).getLsbD 0 :=
      hsame.symm.trans (List.cons.inj hlast).1
    refine ⟨if field.getLsbD 0 then unsignedSucc
      (runAfter stuffAfterOnes 0 (check ++ frontBits field)) else 0, ?_⟩
    rw [transduce_cons, transduce_nil, listen_of_takesData stripping (takesData_of_late rfl),
      if_neg (hdue _)]
    change ((((r.insideLate late 7).withRun _).data stripping (field.getLsbD 0)).1,
      [(((r.insideLate late 7).withRun _).data stripping (field.getLsbD 0)).2]) = _
    rw [data_withRun, data_late_last stripping (r := r.insideLate late 7) rfl rfl, hout]
    rw [hout] at hsent
    simp only [completed, withRun, insideLate, hsent]
    rfl
  obtain ⟨run, hbit⟩ := hbit
  have hline' := prefix_stuff_concat 0 (check ++ frontBits field) (field.getLsbD 0)
  have hquiet' := noChar_prefix_stuff hquiet hzero stuffAfterOnes_pos hline'
  refine ⟨run, ?_⟩
  rw [follow_noChar stripping hquiet'.1, transduce_append_eq hline hbit, hfront]

/-! ## The frame -/

/-- The data of the frame check and the null separator behind it. -/
def checkBits (fields : FrameFields) : List Bool :=
  msbBits 32 (frameCrc fields.header fields.data).toNat ++ msbBits nullSeparatorBits 0

theorem length_checkBits (fields : FrameFields) : (checkBits fields).length = 40 := rfl

/-- A frame's line up to the last bit of its late acknowledge. -/
def frameBits (fields : FrameFields) : List Bool :=
  startLine ++ (dataLine (bytesBits fields.header) ++ symbolBits Oob.separator.symbol ++
    (dataLine (bytesBits fields.data) ++ symbolBits Oob.separator.symbol ++
      (stuff stuffAfterOnes 0 (checkBits fields ++ frontBits fields.lateAcknowledge) ++
        [fields.lateAcknowledge.getLsbD 0])))

theorem frameLine_eq (fields : FrameFields) : frameLine fields = frameBits fields ∨
    frameLine fields = frameBits fields ++ [false] := by
  have htail : tailBits fields =
      checkBits fields ++ frontBits fields.lateAcknowledge ++ [fields.lateAcknowledge.getLsbD 0] := by
    simp only [tailBits, checkBits, msbBits_front fields.lateAcknowledge, List.append_assoc]
  unfold frameLine frameBits startLine
  rw [htail]
  rcases stuff_concat 0 (checkBits fields ++ frontBits fields.lateAcknowledge)
    (fields.lateAcknowledge.getLsbD 0) with h | h
  · left
    simp only [dataLine]
    rw [h]
    simp only [List.append_assoc]
  · right
    simp only [dataLine]
    rw [h]
    simp only [List.append_assoc]

/-- The receiver a frame leaves. -/
def received (r : Receiver) (fields : FrameFields) (run headerBits : Nat) (flippedParity : Bool) :
    Receiver :=
  (completed stripping
    ((r.frameStart.separator.inBody fields.header headerBits flippedParity).inCheck fields.data)
    fields.lateAcknowledge).withRun run

/-- The line a station sends on for a frame. -/
def sentBits (r : Receiver) (fields : FrameFields) : List Bool :=
  let addressed := addressedBy r.address fields.header
  let late := lateSent addressed r.receiveEnabled false fields.lateAcknowledge
  startLine ++ (carry stuffAfterOnes 0 (bytesBits fields.header)
      (bytesBits (headerSent addressed fields.header)) ++ symbolBits Oob.separator.symbol ++
    (dataLine (bytesBits fields.data) ++ symbolBits Oob.separator.symbol ++
      (carry stuffAfterOnes 0 (checkBits fields ++ frontBits fields.lateAcknowledge)
        (checkBits fields ++ frontBits late) ++ [late.getLsbD 0])))

theorem inCheck_inBody_same (r : Receiver) (header data : List Byte) (headerBits : Nat)
    (flippedParity : Bool) :
    let r' := (r.frameStart.separator.inBody header headerBits flippedParity).inCheck data
    r'.addressed = addressedBy r.address header ∧ r'.receiveEnabled = r.receiveEnabled ∧
      r'.frameError = false ∧ r'.address = r.address ∧ r'.framesCopied = r.framesCopied ∧
      r'.framesWacked = r.framesWacked ∧ r'.capacity = r.capacity := by
  intro r'
  have hcheck := foldl_capture_eq (r.frameStart.separator.inBody header headerBits flippedParity) data
  have hbody := foldl_headerByte (r := r.frameStart.separator) rfl rfl header
  have hfold := foldl_capture_eq r.frameStart.separator header
  simp only [r', inCheck]
  rw [hcheck]
  simp only [inBody]
  rw [hbody, hfold]
  exact ⟨rfl, rfl, rfl, rfl, rfl, rfl, rfl⟩

theorem quiet_separator (p bits : List Bool) :
    Quiet (p ++ (bits ++ symbolBits Oob.separator.symbol)) ∧
      Lib.onesRun 0 (p ++ (bits ++ symbolBits Oob.separator.symbol)) = 0 := by
  rw [← List.append_assoc]
  exact ⟨quiet_symbolBits _ .separator, onesRun_separator 0 _⟩

theorem follow_behindStart (r : Receiver) {h : List Bool} (hquiet : Quiet h)
    (hzero : Lib.onesRun 0 h = 0) {fields : FrameFields}
    (hlen : headerLengthValid fields.header.length = true) :
    ∃ run headerBits flippedParity bits,
      frameBits fields = startLine ++ bits ∧
        transduce (follow stripping) (r.frameStart.separator, h) bits =
          ((r.received stripping fields run headerBits flippedParity, h ++ bits),
            (r.sentBits fields).drop startLine.length) := by
  obtain ⟨headerBits, flippedParity, hheader⟩ :=
    follow_header stripping (atHeader_start r) hquiet hzero hlen
  obtain ⟨hquiet₂, hzero₂⟩ := quiet_separator h (dataLine (bytesBits fields.header))
  have hbody := follow_body stripping
    (r := r.frameStart.separator.inBody fields.header headerBits flippedParity)
    ⟨rfl, rfl, rfl, rfl, rfl⟩ hquiet₂ hzero₂ fields.data
  obtain ⟨hquiet₃, hzero₃⟩ := quiet_separator
    (h ++ (dataLine (bytesBits fields.header) ++ symbolBits Oob.separator.symbol))
    (dataLine (bytesBits fields.data))
  obtain ⟨haddressed, henabled, herror, -⟩ :=
    inCheck_inBody_same r fields.header fields.data headerBits flippedParity
  obtain ⟨run, htail⟩ := follow_tail stripping
    (r := (r.frameStart.separator.inBody fields.header headerBits flippedParity).inCheck fields.data)
    ⟨rfl, rfl, rfl, rfl, rfl⟩ hquiet₃ hzero₃ (length_checkBits fields) fields.lateAcknowledge
  refine ⟨run, headerBits, flippedParity, _, rfl, ?_⟩
  have hall := transduce_append_eq hheader (transduce_append_eq hbody htail)
  rw [haddressed, henabled, herror] at hall
  refine hall.trans ?_
  simp only [sentBits, List.append_assoc, List.drop_left]
  rfl

/-- A WHOLE FRAME, from between frames to between frames. -/
theorem follow_frame {r : Receiver} {h : List Bool} (hidle : r.state = .idle) (hquiet : Quiet h)
    {fields : FrameFields} (hlen : headerLengthValid fields.header.length = true) :
    ∃ run headerBits flippedParity, transduce (follow stripping) (r, h) (frameBits fields) =
      ((r.received stripping fields run headerBits flippedParity, h ++ frameBits fields),
        r.sentBits fields) := by
  have hstart := follow_start stripping hidle hquiet
  obtain ⟨hquiet₁, hzero₁⟩ : Quiet (h ++ startLine) ∧ Lib.onesRun 0 (h ++ startLine) = 0 := by
    unfold startLine
    rw [← List.append_assoc (symbolBits _)]
    exact quiet_separator _ _
  obtain ⟨run, headerBits, flippedParity, bits, hbits, hrest⟩ :=
    follow_behindStart stripping r hquiet₁ hzero₁ hlen
  refine ⟨run, headerBits, flippedParity, ?_⟩
  have hall := transduce_append_eq hstart hrest
  rw [hbits, hall, List.append_assoc]
  have hsent : r.sentBits fields = startLine ++ (r.sentBits fields).drop startLine.length := by
    simp only [sentBits, List.drop_left]
  rw [← hsent]

end Receiver

end Apollo.Ring
