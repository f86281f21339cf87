import Apollo.Ring.FrameLine

/-!
# The frame codec: the round trip, and that parsed frames are canonical

`frameParse_frameEmit` is the round trip through the two C functions: what
`ap_ring_frame_emit` wrote, `ap_ring_frame_parse` reads back whole, with the
check agreeing and no bit left over.

`frameEmit_frameParse` is the converse, over every bit string: a frame the parser
accepts is the line the emitter would write for the fields it answered. So a
frame has one encoding. The one exception is stated, not excused: a string that
ends on the fifth one of the late acknowledge byte lacks the final stuffed zero,
and the parser has no more bits to miss it in.
-/

namespace Apollo.Ring

open Apollo.Lib

/-! ## Variable-length sequences -/

section Sequence

variable {tooLong : FrameStatus} {store : ParseState → Byte → ParseState}

/-- Storing a byte leaves the reader alone, and does not look at it. -/
def StoresOnly (store : ParseState → Byte → ParseState) : Prop :=
  ∀ (s : ParseState) (r : BitReader) (byte : Byte),
    store { s with reader := r } byte = { store s byte with reader := r }

theorem storesOnly_storeHeader : StoresOnly ParseState.storeHeader := fun _ _ _ => rfl

theorem storesOnly_storeData : StoresOnly ParseState.storeData := fun _ _ _ => rfl

theorem StoresOnly.foldl (hstore : StoresOnly store) (bytes : List Byte) (s : ParseState)
    (r : BitReader) :
    bytes.foldl store { s with reader := r } = { bytes.foldl store s with reader := r } := by
  induction bytes generalizing s with
  | nil => rfl
  | cons byte bytes ih => rw [List.foldl_cons, hstore, ih, List.foldl_cons]

theorem StoresOnly.reader (hstore : StoresOnly store) (s : ParseState) (byte : Byte) :
    (store s byte).reader = s.reader := by
  calc (store s byte).reader
      = ({ store s byte with reader := s.reader } : ParseState).reader :=
        congrArg ParseState.reader (hstore s s.reader byte)
    _ = s.reader := rfl

@[simp] theorem foldl_storeHeader (bytes : List Byte) (s : ParseState) :
    bytes.foldl ParseState.storeHeader s = { s with header := s.header ++ bytes } := by
  induction bytes generalizing s with
  | nil => simp only [List.foldl_nil, List.append_nil]
  | cons byte bytes ih => simp only [List.foldl_cons, ih, ParseState.storeHeader,
      List.append_assoc, List.singleton_append]

@[simp] theorem foldl_storeData (bytes : List Byte) (s : ParseState) :
    bytes.foldl ParseState.storeData s = { s with data := s.data ++ bytes } := by
  induction bytes generalizing s with
  | nil => simp only [List.foldl_nil, List.append_nil]
  | cons byte bytes ih => simp only [List.foldl_cons, ih, ParseState.storeData,
      List.append_assoc, List.singleton_append]

theorem readSequence_done {room : Nat} {s : ParseState} (h : s.reader.peekOob.isSome = true) :
    readSequence tooLong store room s = .ok () s := by
  cases room <;> simp only [readSequence, h, if_true]

theorem readSequence_byte {room : Nat} {s : ParseState} {byte : Byte} {r : BitReader}
    (h : s.reader.peekOob = none) (hbyte : readByte s.reader = (some byte, r)) :
    readSequence tooLong store (room + 1) s
      = readSequence tooLong store room (store { s with reader := r } byte) := by
  simp only [readSequence, h, takeOr, hbyte, Option.isSome_none, Bool.false_eq_true, if_false]

variable (tooLong) in
theorem readSequence_stuffed (hstore : StoresOnly store) {bytes : List Byte} {room : Nat}
    {s : ParseState} {run : Nat} {c : Oob} {t : List Bool} (hroom : bytes.length ≤ room)
    (hrun : s.reader.onesRun = run)
    (hrest : s.reader.rest = stuff stuffAfterOnes run (bytesBits bytes) ++
      (symbolBits c.symbol ++ t)) :
    ∃ r', readSequence tooLong store room s = .ok () { bytes.foldl store s with reader := r' } ∧
      s.reader.ReadTo r' (symbolBits c.symbol ++ t)
        (runAfter stuffAfterOnes run (bytesBits bytes)) := by
  induction bytes generalizing s room run with
  | nil =>
    have hpeek := (s.reader.peekOob_eq_some_iff c.symbol).mpr ⟨c, t, rfl, hrest⟩
    exact ⟨s.reader, readSequence_done (by rw [hpeek, Option.isSome_some]), hrest, hrun, rfl, rfl⟩
  | cons byte bytes ih =>
    obtain ⟨room, rfl⟩ : ∃ n, room = n + 1 := Nat.exists_eq_add_of_le' (by
      rw [List.length_cons] at hroom
      omega)
    have hpeek : s.reader.peekOob = none :=
      BitReader.peekOob_stuffed (by rw [length_bytesBits, List.length_cons]; omega) hrest
    rw [bytesBits_cons, stuff_append, List.append_assoc] at hrest
    obtain ⟨r₁, hbyte, hto⟩ := readByte_stuffed byte hrun hrest
    have hreader := hstore.reader { s with reader := r₁ } byte
    obtain ⟨r', hseq, hto'⟩ := ih (s := store { s with reader := r₁ } byte)
      (Nat.le_of_succ_le_succ hroom) (by rw [hreader, hto.run])
      (by rw [hreader, hto.rest])
    rw [hreader] at hto'
    refine ⟨r', ?_, hto'.rest, ?_, hto.stream.trans hto'.stream⟩
    · rw [readSequence_byte hpeek hbyte, hseq, hstore, hstore.foldl, List.foldl_cons]
    · rw [hto'.run, bytesBits_cons, runAfter_append]

/-- And a sequence that ended well took a stuffed byte string up to a
character. A byte read off a truncated ending leaves nothing to peek at, so no
truncation hides in the middle of a sequence. -/
theorem took_of_readSequence (hstore : StoresOnly store) {room : Nat} {s s' : ParseState} {u : Unit}
    (h : readSequence tooLong store room s = .ok u s') :
    ∃ bytes r', bytes.length ≤ room ∧ s' = { bytes.foldl store s with reader := r' } ∧
      s.reader.rest = stuff stuffAfterOnes s.reader.onesRun (bytesBits bytes) ++ r'.rest ∧
      s.reader.SameStream r' ∧ r'.rest ≠ [] := by
  cases hpeek : s.reader.peekOob with
  | some symbol =>
    rw [readSequence_done (by rw [hpeek, Option.isSome_some])] at h
    cases h
    obtain ⟨c, t, -, hrest⟩ := (s.reader.peekOob_eq_some_iff symbol).mp hpeek
    refine ⟨[], s.reader, Nat.zero_le _, rfl, rfl, ⟨rfl, rfl⟩, fun hnil => ?_⟩
    rw [hnil] at hrest
    cases c <;> cases hrest
  | none =>
    cases room with
    | zero => simp only [readSequence, hpeek, Option.isSome_none, Bool.false_eq_true, if_false,
        reduceCtorEq] at h
    | succ room =>
      rcases hread : readByte s.reader with ⟨_ | byte, r₁⟩
      · simp only [readSequence, hpeek, takeOr, hread, Option.isSome_none, Bool.false_eq_true,
          if_false, reduceCtorEq] at h
      · rw [readSequence_byte hpeek hread] at h
        obtain ⟨bytes, r', hlen, hs', hrest, hstream, hmore⟩ := took_of_readSequence hstore h
        rw [hstore.reader] at hrest hstream
        obtain ⟨hstream₁, htook⟩ := took_of_readByte hread
        rcases htook with ⟨hrest₁, hrun⟩ | ⟨hnil, -⟩
        · refine ⟨byte :: bytes, r', by rw [List.length_cons]; omega, ?_, ?_,
            hstream₁.trans hstream, hmore⟩
          · rw [hs', hstore, hstore.foldl, List.foldl_cons]
          · rw [hrest₁, hrest, hrun, bytesBits_cons, stuff_append, List.append_assoc]
        · rw [show ({ s with reader := r₁ } : ParseState).reader = r₁ from rfl, hnil] at hrest
          exact absurd (List.append_eq_nil_iff.mp hrest.symm).2 hmore

end Sequence

/-! ## The parser accepts the line -/

/-- The result of a parse that succeeded on `fields`. -/
def FrameParse.accepted (fields : FrameFields) : FrameParse :=
  { status := .ok
    headerBytes := fields.header.length
    dataBytes := fields.data.length
    lateAcknowledge := fields.lateAcknowledge
    checkReceived := frameCrc fields.header fields.data
    checkComputed := frameCrc fields.header fields.data }

theorem readCheck_stuffed {r : BitReader} {run : Nat} (check : BitVec 32) {t : List Bool}
    (hrun : r.onesRun = run) (h : r.rest = stuff stuffAfterOnes run (msbBits 32 check.toNat) ++ t) :
    ∃ r', readCheck r = (some check, r') ∧
      r.ReadTo r' t (runAfter stuffAfterOnes run (msbBits 32 check.toNat)) := by
  obtain ⟨r', hread, hto⟩ := BitReader.readDataBits_stuffed hrun h
  rw [length_msbBits, ofMsbBits_msbBits_of_lt check.isLt, BitVec.ofNat_toNat,
    BitVec.setWidth_eq] at hread
  exact ⟨r', by simp only [readCheck, hread], hto⟩

theorem took_of_readCheck {r r' : BitReader} {check : BitVec 32}
    (h : readCheck r = (some check, r')) : r.Took r' (msbBits 32 check.toNat) := by
  unfold readCheck at h
  split at h
  · next value r'' hbits =>
    cases h
    obtain ⟨bits, hlen, rfl, htook⟩ := BitReader.took_of_readDataBits hbits
    have hlt := ofMsbBits_lt bits
    rw [hlen] at hlt
    have hval : (BitVec.ofNat 32 (ofMsbBits bits)).toNat = ofMsbBits bits := by
      rw [BitVec.toNat_ofNat]
      omega
    rwa [hval, ← hlen, msbBits_ofMsbBits]
  · cases h

theorem parseFrame_frameLine {fields : FrameFields} {headerCapacity dataCapacity : Nat}
    (hheader : headerLengthValid fields.header.length = true)
    (hdata : dataLengthValid fields.data.length = true)
    (hhcap : fields.header.length ≤ headerCapacity) (hdcap : fields.data.length ≤ dataCapacity)
    {r : BitReader} {t : List Bool} (hrest : r.rest = frameLine fields ++ t) :
    ∃ r' run, parseFrame headerCapacity dataCapacity { reader := r } =
        .ok (.accepted fields) { reader := r', header := fields.header, data := fields.data } ∧
      r.ReadTo r' t run := by
  have hfs : lineSymbol (symbolBits Oob.frameStart.symbol) = Oob.frameStart.symbol :=
    (lineSymbol_eq_iff (length_symbolBits _) _).mpr rfl
  simp only [frameLine, dataLine, tailBits, stuff_append, List.append_assoc] at hrest
  obtain ⟨r₁, hread₁, hto₁⟩ := BitReader.readOob_eq (length_symbolBits _) hrest
  rw [hfs] at hread₁
  obtain ⟨r₂, hread₂, hto₂⟩ := readByte_stuffed 0 hto₁.run hto₁.rest
  obtain ⟨r₃, hread₃, hto₃⟩ := readSeparator_eq_some hto₂.rest
  obtain ⟨r₄, hread₄, hto₄⟩ := readSequence_stuffed .headerLength
    (s := { reader := r₃ }) storesOnly_storeHeader hhcap hto₃.run hto₃.rest
  obtain ⟨r₅, hread₅, hto₅⟩ := readSeparator_eq_some hto₄.rest
  obtain ⟨r₆, hread₆, hto₆⟩ := readSequence_stuffed .dataLength
    (s := { reader := r₅, header := fields.header }) storesOnly_storeData hdcap hto₅.run hto₅.rest
  obtain ⟨r₇, hread₇, hto₇⟩ := readSeparator_eq_some hto₆.rest
  obtain ⟨r₈, hread₈, hto₈⟩ := readCheck_stuffed _ hto₇.run hto₇.rest
  obtain ⟨r₉, hread₉, hto₉⟩ := readByte_stuffed 0 hto₈.run hto₈.rest
  obtain ⟨r', hread, hto⟩ := readByte_stuffed fields.lateAcknowledge hto₉.run hto₉.rest
  rw [foldl_storeHeader] at hread₄
  rw [foldl_storeData] at hread₆
  refine ⟨r', _, ?_, hto.rest, hto.run, ?_⟩
  · refine takeOr_bind_eq_ok.mpr ⟨_, r₁, hread₁, ensure_bind_eq_ok.mpr ⟨rfl, ?_⟩⟩
    refine takeOr_bind_eq_ok.mpr ⟨_, r₂, hread₂, ensure_bind_eq_ok.mpr ⟨rfl, ?_⟩⟩
    refine takeOr_bind_eq_ok.mpr ⟨_, r₃, hread₃, bind_eq_ok.mpr ⟨_, _, hread₄, ?_⟩⟩
    refine bind_eq_ok.mpr ⟨_, _, rfl, ensure_bind_eq_ok.mpr ⟨hheader, ?_⟩⟩
    refine takeOr_bind_eq_ok.mpr ⟨_, r₅, hread₅, bind_eq_ok.mpr ⟨_, _, hread₆, ?_⟩⟩
    refine bind_eq_ok.mpr ⟨_, _, rfl, ensure_bind_eq_ok.mpr ⟨hdata, ?_⟩⟩
    refine takeOr_bind_eq_ok.mpr ⟨_, r₇, hread₇, takeOr_bind_eq_ok.mpr ⟨_, r₈, hread₈, ?_⟩⟩
    refine takeOr_bind_eq_ok.mpr ⟨_, r₉, hread₉, ensure_bind_eq_ok.mpr ⟨rfl, ?_⟩⟩
    refine takeOr_bind_eq_ok.mpr ⟨_, r', hread, ?_⟩
    simp only [FrameParse.accepted, List.nil_append, if_true]
    rfl
  · exact hto₁.stream.trans (hto₂.stream.trans (hto₃.stream.trans (hto₄.stream.trans
      (hto₅.stream.trans (hto₆.stream.trans (hto₇.stream.trans (hto₈.stream.trans
        (hto₉.stream.trans hto.stream))))))))

/-- The bits a call consumed. -/
def BitReader.consumed (r r' : BitReader) : List Bool := r.rest.take (r'.bitPos - r.bitPos)

theorem BitReader.SameStream.consumed_append {r r' : BitReader} {bits : List Bool}
    (h : r.SameStream r') (hrest : r.rest = bits ++ r'.rest) : r.consumed r' = bits := by
  have hlen := congrArg List.length hrest
  have hr := r.inStream
  have hr' := r'.inStream
  rw [List.length_append, length_rest, length_rest, h.2] at hlen
  rw [h.2] at hr'
  have hbits : r'.bitPos - r.bitPos = bits.length := by omega
  rw [BitReader.consumed, hbits, hrest, List.take_left]

/-- THE ROUND TRIP, through both C functions: what the emitter wrote is parsed
back whole, with the check agreeing and no bit left over. -/
theorem frameParse_frameEmit {bytes : List Byte} {fields : FrameFields}
    {headerCapacity dataCapacity : Nat} (hemit : (frameEmit (.init bytes) fields).1 = true)
    (hhcap : fields.header.length ≤ headerCapacity) (hdcap : fields.data.length ≤ dataCapacity) :
    let w := (frameEmit (.init bytes) fields).2
    let out := frameParse (.init w.bytes w.bitCount) headerCapacity dataCapacity
    out.1.status = .ok ∧ out.2.header = fields.header ∧ out.2.data = fields.data ∧
      out.1.headerBytes = fields.header.length ∧ out.1.dataBytes = fields.data.length ∧
      out.1.lateAcknowledge = fields.lateAcknowledge ∧
      out.1.checkReceived = out.1.checkComputed ∧ out.2.reader.bitPos = w.bitCount := by
  intro w out
  obtain ⟨hheader, hdata, -⟩ := (frameEmit_init bytes fields).mp hemit
  have hrest : (BitReader.init w.bytes w.bitCount).rest = frameLine fields ++ [] := by
    rw [BitReader.rest_init, List.append_nil]
    exact frameEmit_init_line hemit
  obtain ⟨r', run, hparse, hto⟩ := parseFrame_frameLine hheader hdata hhcap hdcap hrest
  have hout : out = (.accepted fields,
      { reader := r', header := fields.header, data := fields.data }) := by
    simp only [out, frameParse, hparse]
  have hpos : r'.bitPos = w.bitCount := (r'.rest_eq_nil_iff.mp hto.rest).trans hto.stream.2
  rw [hout]
  exact ⟨rfl, rfl, rfl, rfl, rfl, rfl, rfl, hpos⟩

/-- A smallest frame: twelve header bytes, and runs of ones to stuff. -/
def smallestFrame : FrameFields :=
  { header := [0, 0, 0, 2, 0xFF, 0, 0, 0, 0, 0, 0, 1], data := [], lateAcknowledge := 0x1F }

theorem frameParse_frameEmit_smallest :
    let w := (frameEmit (.init (List.replicate 40 0)) smallestFrame).2
    let out := frameParse (.init w.bytes w.bitCount) 12 0
    out.1.status = .ok ∧ out.2.header = smallestFrame.header ∧ out.2.data = smallestFrame.data ∧
      out.1.headerBytes = smallestFrame.header.length ∧
      out.1.dataBytes = smallestFrame.data.length ∧
      out.1.lateAcknowledge = smallestFrame.lateAcknowledge ∧
      out.1.checkReceived = out.1.checkComputed ∧ out.2.reader.bitPos = w.bitCount :=
  @frameParse_frameEmit (List.replicate 40 0) smallestFrame 12 0 (by decide +kernel) (by decide)
    (by decide)

/-! ## And nothing else -/

/-- A parse that ended well consumed the line of the fields it answers, or that
line without its last stuffed zero. -/
theorem frameLine_of_parseFrame {headerCapacity dataCapacity : Nat} {r : BitReader}
    {parse : FrameParse} {s : ParseState}
    (h : parseFrame headerCapacity dataCapacity { reader := r } = .ok parse s)
    (hok : parse.status = .ok) :
    ∃ fields : FrameFields, parse = .accepted fields ∧ s.header = fields.header ∧
      s.data = fields.data ∧ headerLengthValid fields.header.length = true ∧
      dataLengthValid fields.data.length = true ∧ r.SameStream s.reader ∧
      (r.rest = frameLine fields ++ s.reader.rest ∨
        (s.reader.rest = [] ∧ r.rest ++ [false] = frameLine fields ∧
          List.replicate stuffAfterOnes true <:+ msbBits 8 fields.lateAcknowledge.toNat)) := by
  obtain ⟨symbol, r₁, hread₁, h⟩ := takeOr_bind_eq_ok.mp h
  obtain ⟨hstart, h⟩ := ensure_bind_eq_ok.mp h
  obtain ⟨null₁, r₂, hread₂, h⟩ := takeOr_bind_eq_ok.mp h
  obtain ⟨hnull₁, h⟩ := ensure_bind_eq_ok.mp h
  obtain ⟨_, r₃, hread₃, h⟩ := takeOr_bind_eq_ok.mp h
  obtain ⟨_, s₄, hread₄, h⟩ := bind_eq_ok.mp h
  obtain ⟨header, _, hget, h⟩ := bind_eq_ok.mp h
  cases hget
  obtain ⟨hheader, h⟩ := ensure_bind_eq_ok.mp h
  obtain ⟨bytes, r₄, -, rfl, hrest₄, hstream₄, -⟩ := took_of_readSequence storesOnly_storeHeader hread₄
  rw [foldl_storeHeader] at h hheader
  obtain ⟨_, r₅, hread₅, h⟩ := takeOr_bind_eq_ok.mp h
  obtain ⟨_, s₆, hread₆, h⟩ := bind_eq_ok.mp h
  obtain ⟨data, _, hget, h⟩ := bind_eq_ok.mp h
  cases hget
  obtain ⟨hdata, h⟩ := ensure_bind_eq_ok.mp h
  obtain ⟨data, r₆, -, rfl, hrest₆, hstream₆, -⟩ := took_of_readSequence storesOnly_storeData hread₆
  rw [foldl_storeData] at h hdata
  obtain ⟨_, r₇, hread₇, h⟩ := takeOr_bind_eq_ok.mp h
  obtain ⟨check, r₈, hread₈, h⟩ := takeOr_bind_eq_ok.mp h
  obtain ⟨null₂, r₉, hread₉, h⟩ := takeOr_bind_eq_ok.mp h
  obtain ⟨hnull₂, h⟩ := ensure_bind_eq_ok.mp h
  obtain ⟨late, r', hread, h⟩ := takeOr_bind_eq_ok.mp h
  cases h
  -- The first three sequences end in a separator, so none of them was cut short.
  obtain ⟨bits, hlen, rfl, hrest₁, hrun₁, hstream₁⟩ := BitReader.rest_of_readOob hread₁
  rw [(lineSymbol_eq_iff hlen _).mp (eq_of_beq hstart)] at hrest₁
  obtain ⟨hrest₃, hrun₃, hstream₃⟩ := rest_of_readSeparator hread₃
  obtain ⟨hrest₅, hrun₅, hstream₅⟩ := rest_of_readSeparator hread₅
  obtain ⟨hrest₇, hrun₇, hstream₇⟩ := rest_of_readSeparator hread₇
  have htook₂ := took_of_readByte hread₂
  obtain ⟨hrest₂, -⟩ := htook₂.rest (by
    rw [hrest₃]
    exact List.cons_ne_nil _ _)
  -- The check and the null separator are followed by a byte.
  have htook₈ := took_of_readCheck hread₈
  have htook₉ := took_of_readByte hread₉
  have htook := took_of_readByte hread
  obtain ⟨hrest₉, hrun₉⟩ := htook₉.rest fun hnil => by
    have hnone := readByte_nil hnil
    rw [hread] at hnone
    cases hnone
  obtain ⟨hrest₈, hrun₈⟩ := htook₈.rest fun hnil => by
    have hnone := readByte_nil hnil
    rw [hread₉] at hnone
    cases hnone
  have hcheck : frameCrc bytes data = check := by
    by_contra hne
    cases (if_neg hne).symm.trans hok
  rw [eq_of_beq hnull₁, hrun₁] at hrest₂
  rw [hrun₃] at hrest₄
  rw [hrun₅] at hrest₆
  rw [hrun₇] at hrest₈ hrun₈
  rw [hrun₈, eq_of_beq hnull₂] at hrest₉ hrun₉
  subst hcheck
  refine ⟨⟨bytes, data, late⟩, ?_, rfl, rfl, hheader, hdata, ?_, ?_⟩
  · simp only [FrameParse.accepted, List.nil_append, if_true]
  · exact hstream₁.trans (htook₂.1.trans (hstream₃.trans (hstream₄.trans (hstream₅.trans
      (hstream₆.trans (hstream₇.trans (htook₈.1.trans (htook₉.1.trans htook.1))))))))
  · have hzero : runAfter stuffAfterOnes
        (runAfter stuffAfterOnes 0 (msbBits 32 (frameCrc bytes data).toNat))
        (msbBits 8 (0 : Byte).toNat) = 0 := rfl
    change r₃.rest = _ at hrest₄
    change r₅.rest = _ at hrest₆
    rw [hrest₂, hrest₃, hrest₄, hrest₅, hrest₆, hrest₇, hrest₈, hrest₉] at hrest₁
    simp only [frameLine, dataLine, tailBits, stuff_append, List.append_assoc]
    rcases htook.2 with ⟨hrest, -⟩ | ⟨hnil, hcut⟩
    · left
      rw [hrest₁, hrest, hrun₉]
      rfl
    · right
      have hlast := hcut.concat
      rw [hrun₉] at hcut hlast
      refine ⟨hnil, ?_, ?_⟩
      · simp only [hrest₁, List.append_assoc, hlast]
        rfl
      · rw [hzero] at hcut
        exact hcut.ones

/-! ### A failure is never reported as success -/

/-- A parser step whose errors all name a failure. -/
def Fails {α : Type} (x : Parser α) : Prop := ∀ s s', x s ≠ .error .ok s'

theorem Fails.bind {α β : Type} {x : Parser α} {f : α → Parser β} (hx : Fails x)
    (hf : ∀ a, Fails (f a)) : Fails (x >>= f) := by
  intro s s' h
  change EStateM.bind x f s = _ at h
  unfold EStateM.bind at h
  cases hxs : x s with
  | ok a s₁ =>
    rw [hxs] at h
    exact hf a s₁ s' h
  | error status s₁ =>
    rw [hxs] at h
    cases h
    exact hx s s' hxs

theorem fails_takeOr {α : Type} {status : FrameStatus} (hstatus : status ≠ .ok)
    (read : BitReader → Option α × BitReader) : Fails (takeOr status read) := by
  intro s s' h
  unfold takeOr at h
  split at h
  · cases h
  · cases h
    exact hstatus rfl

theorem fails_ensure {status : FrameStatus} (hstatus : status ≠ .ok) (holds : Bool) :
    Fails (ensure status holds) := by
  intro s s' h
  cases holds with
  | false =>
    cases h
    exact hstatus rfl
  | true => cases h

theorem fails_readSequence {tooLong : FrameStatus} (htooLong : tooLong ≠ .ok)
    (store : ParseState → Byte → ParseState) (room : Nat) :
    Fails (readSequence tooLong store room) := by
  intro s s' h
  induction room generalizing s with
  | zero =>
    simp only [readSequence] at h
    split at h
    · cases h
    · cases h
      exact htooLong rfl
  | succ room ih =>
    simp only [readSequence] at h
    split at h
    · cases h
    · split at h
      · exact ih _ h
      · next htake =>
        cases h
        exact fails_takeOr (by decide) _ _ _ htake

theorem fails_parseFrame (headerCapacity dataCapacity : Nat) :
    Fails (parseFrame headerCapacity dataCapacity) := by
  refine (fails_takeOr (by decide) _).bind fun _ => (fails_ensure (by decide) _).bind fun _ => ?_
  refine (fails_takeOr (by decide) _).bind fun _ => (fails_ensure (by decide) _).bind fun _ => ?_
  refine (fails_takeOr (by decide) _).bind fun _ => ?_
  refine (fails_readSequence (by decide) _ _).bind fun _ => ?_
  refine Fails.bind (fun _ _ h => nomatch h) fun _ => (fails_ensure (by decide) _).bind fun _ => ?_
  refine (fails_takeOr (by decide) _).bind fun _ => ?_
  refine (fails_readSequence (by decide) _ _).bind fun _ => ?_
  refine Fails.bind (fun _ _ h => nomatch h) fun _ => (fails_ensure (by decide) _).bind fun _ => ?_
  refine (fails_takeOr (by decide) _).bind fun _ => (fails_takeOr (by decide) _).bind fun _ => ?_
  refine (fails_takeOr (by decide) _).bind fun _ => (fails_ensure (by decide) _).bind fun _ => ?_
  exact (fails_takeOr (by decide) _).bind fun _ _ _ h => nomatch h

theorem parseFrame_of_status_ok {headerCapacity dataCapacity : Nat} {r : BitReader}
    (hok : (frameParse r headerCapacity dataCapacity).1.status = .ok) :
    parseFrame headerCapacity dataCapacity { reader := r } =
      .ok (frameParse r headerCapacity dataCapacity).1
        (frameParse r headerCapacity dataCapacity).2 := by
  unfold frameParse at hok ⊢
  cases hparse : parseFrame headerCapacity dataCapacity { reader := r } with
  | ok parse s => rfl
  | error status s =>
    rw [hparse] at hok
    change status = .ok at hok
    subst hok
    exact absurd hparse (fails_parseFrame _ _ _ _)

/-- PARSED FRAMES ARE CANONICAL: what the parser consumed is what the emitter
writes for the fields it answered, into any buffer that has the room. Where the
stream ended on the fifth one of the late acknowledge byte, the emitter's last
stuffed zero is the one bit the parser did not get to see. -/
theorem frameEmit_frameParse {r : BitReader} {headerCapacity dataCapacity : Nat}
    (hok : (frameParse r headerCapacity dataCapacity).1.status = .ok) {bytes : List Byte}
    (hroom : (r.consumed (frameParse r headerCapacity dataCapacity).2.reader).length
      < 8 * bytes.length) :
    let out := frameParse r headerCapacity dataCapacity
    let fields : FrameFields := ⟨out.2.header, out.2.data, out.1.lateAcknowledge⟩
    let consumed := r.consumed out.2.reader
    (frameEmit (.init bytes) fields).1 = true ∧
      ((frameEmit (.init bytes) fields).2.line = consumed ∨
        (out.2.reader.bitPos = r.bitCount ∧
          List.replicate stuffAfterOnes true <:+ msbBits 8 fields.lateAcknowledge.toNat ∧
          (frameEmit (.init bytes) fields).2.line = consumed ++ [false])) := by
  intro out fields consumed
  obtain ⟨f, hparse, hheader, hdata, hheaderValid, hdataValid, hstream, hline⟩ :=
    frameLine_of_parseFrame (parseFrame_of_status_ok hok) hok
  have hfields : fields = f := by
    simp only [fields, out, hheader, hdata, hparse, FrameParse.accepted]
  rw [hfields]
  have hemit : consumed = frameLine f ∨ consumed ++ [false] = frameLine f →
      (frameEmit (.init bytes) f).1 = true := by
    intro h
    refine (frameEmit_init bytes f).mpr ⟨hheaderValid, hdataValid, ?_⟩
    rcases h with h | h
    · rw [← h]
      exact Nat.le_of_lt hroom
    · rw [← h, List.length_append]
      exact hroom
  rcases hline with hrest | ⟨hnil, hrest, hones⟩
  · have hcons : consumed = frameLine f := hstream.consumed_append hrest
    refine ⟨hemit (.inl hcons), .inl ?_⟩
    rw [frameEmit_init_line (hemit (.inl hcons)), hcons]
  · have hcons : consumed = r.rest := hstream.consumed_append (by rw [hnil, List.append_nil])
    have hshort : consumed ++ [false] = frameLine f := by rw [hcons, hrest]
    refine ⟨hemit (.inr hshort), .inr ⟨?_, hones, ?_⟩⟩
    · exact (BitReader.rest_eq_nil_iff _).mp hnil |>.trans hstream.2
    · rw [frameEmit_init_line (hemit (.inr hshort)), hshort]

/-- The smallest frame's stream without its last bit, which is the stuffed zero. -/
def cutReader : BitReader :=
  let w := (frameEmit (.init (List.replicate 40 0)) smallestFrame).2
  .init w.bytes (w.bitCount - 1)

theorem frameEmit_frameParse_cut :
    let out := frameParse cutReader 12 0
    let fields : FrameFields := ⟨out.2.header, out.2.data, out.1.lateAcknowledge⟩
    let consumed := cutReader.consumed out.2.reader
    (frameEmit (.init (List.replicate 40 0)) fields).1 = true ∧
      ((frameEmit (.init (List.replicate 40 0)) fields).2.line = consumed ∨
        (out.2.reader.bitPos = cutReader.bitCount ∧
          List.replicate stuffAfterOnes true <:+ msbBits 8 fields.lateAcknowledge.toNat ∧
          (frameEmit (.init (List.replicate 40 0)) fields).2.line = consumed ++ [false])) :=
  @frameEmit_frameParse cutReader 12 0 (by decide +kernel) (List.replicate 40 0) (by decide +kernel)

end Apollo.Ring
