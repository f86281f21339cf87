import Apollo.Ring.Frame

/-!
# The line a frame occupies

`frameLine` is the frame format with the buffers, readers and writers taken
away: three separators and a frame start between four stuffed runs of data. The
emitter writes exactly this line (`frameEmit_init_line`), and the parser accepts
exactly this line (`parseFrame_frameLine` and `frameLine_of_parseFrame`), so the two agree
with one another because each agrees with it.

The length of a sequence is nowhere on the line. What ends a sequence is a
character, and what keeps data from being taken for one is
`BitReader.peekOob_stuffed`.
-/

namespace Apollo.Ring

open Apollo.Lib

/-- The bits of a byte string, in line order. -/
def bytesBits (bytes : List Byte) : List Bool := bytes.flatMap fun byte => msbBits 8 byte.toNat

/-- A run of data bits as the line carries it behind a character. -/
def dataLine (bits : List Bool) : List Bool := stuff stuffAfterOnes 0 bits

/-- The data of the frame check and end-of-frame sequences. -/
def tailBits (fields : FrameFields) : List Bool :=
  msbBits 32 (frameCrc fields.header fields.data).toNat ++
    (msbBits nullSeparatorBits 0 ++ msbBits 8 fields.lateAcknowledge.toNat)

/-- The line of a frame, sequence by sequence. -/
def frameLine (fields : FrameFields) : List Bool :=
  symbolBits Oob.frameStart.symbol ++ (dataLine (msbBits nullSeparatorBits 0) ++
    (symbolBits Oob.separator.symbol ++ (dataLine (bytesBits fields.header) ++
      (symbolBits Oob.separator.symbol ++ (dataLine (bytesBits fields.data) ++
        (symbolBits Oob.separator.symbol ++ dataLine (tailBits fields)))))))

@[simp] theorem bytesBits_nil : bytesBits [] = [] := rfl

@[simp] theorem bytesBits_cons (byte : Byte) (bytes : List Byte) :
    bytesBits (byte :: bytes) = msbBits 8 byte.toNat ++ bytesBits bytes := rfl

theorem bytesBits_append (as bs : List Byte) :
    bytesBits (as ++ bs) = bytesBits as ++ bytesBits bs :=
  List.flatMap_append

@[simp] theorem length_bytesBits (bytes : List Byte) :
    (bytesBits bytes).length = 8 * bytes.length := by
  induction bytes with
  | nil => rfl
  | cons byte bytes ih =>
    rw [bytesBits_cons, List.length_append, length_msbBits, ih, List.length_cons]
    ring

/-! ## The emitter writes it -/

theorem BitWriter.writeBytes_cons (w : BitWriter) (byte : Byte) (bytes : List Byte) :
    w.writeBytes (byte :: bytes) = (w.writeDataBits (byte.setWidth 32) 8).writeBytes bytes :=
  List.foldl_cons ..

section Emit

variable {w w' : BitWriter} {bits : List Bool} {run : Nat}

theorem BitWriter.Wrote.writeOob (h : w.Wrote w' bits run) (hw : w.Clean) (symbol : Symbol) :
    w.Wrote (w'.writeOob symbol) (bits ++ symbolBits symbol) 0 :=
  h.trans hw (wrote_writeOob (h.clean hw) (h.inside hw) symbol)

theorem BitWriter.Wrote.writeDataBits (h : w.Wrote w' bits run) (hw : w.Clean)
    (value : BitVec 32) (n : Nat) :
    w.Wrote (w'.writeDataBits value n) (bits ++ stuff stuffAfterOnes run (msbBits n value.toNat))
      (runAfter stuffAfterOnes run (msbBits n value.toNat)) :=
  h.trans hw (wrote_writeDataBits (h.clean hw) h.run (h.inside hw) value n)

theorem BitWriter.Wrote.writeByte (h : w.Wrote w' bits run) (hw : w.Clean) (byte : Byte) :
    w.Wrote (w'.writeDataBits (byte.setWidth 32) 8)
      (bits ++ stuff stuffAfterOnes run (msbBits 8 byte.toNat))
      (runAfter stuffAfterOnes run (msbBits 8 byte.toNat)) := by
  have hbyte := h.writeDataBits hw (byte.setWidth 32) 8
  rwa [BitVec.toNat_setWidth_of_le (by decide)] at hbyte

theorem BitWriter.Wrote.writeBytes (h : w.Wrote w' bits run) (hw : w.Clean) (bytes : List Byte) :
    w.Wrote (w'.writeBytes bytes) (bits ++ stuff stuffAfterOnes run (bytesBits bytes))
      (runAfter stuffAfterOnes run (bytesBits bytes)) := by
  induction bytes generalizing w' bits run with
  | nil =>
    rw [bytesBits_nil, stuff, List.append_nil, runAfter]
    exact h
  | cons byte bytes ih =>
    have hrest := ih (h.writeByte hw byte)
    rw [List.append_assoc, ← stuff_append, ← runAfter_append, ← bytesBits_cons] at hrest
    rw [BitWriter.writeBytes_cons]
    exact hrest

end Emit

theorem BitWriter.wrote_writeFrame {w : BitWriter} (hw : w.Clean)
    (hfit : w.bitCount ≤ 8 * w.capacity) (fields : FrameFields) :
    ∃ run, w.Wrote (w.writeFrame fields) (frameLine fields) run := by
  have h₀ : w.Wrote w [] w.onesRun := .refl (fun _ => rfl) (fun _ => hfit)
  have h₁ := ((h₀.writeOob hw Oob.frameStart.symbol).writeDataBits hw 0 nullSeparatorBits).writeOob
    hw Oob.separator.symbol
  have h₂ := (h₁.writeBytes hw fields.header).writeOob hw Oob.separator.symbol
  have h₃ := (h₂.writeBytes hw fields.data).writeOob hw Oob.separator.symbol
  have h₄ := ((h₃.writeDataBits hw (frameCrc fields.header fields.data) 32).writeDataBits hw 0
    nullSeparatorBits).writeByte hw fields.lateAcknowledge
  have hzero : (0 : BitVec 32).toNat = 0 := rfl
  simp only [List.nil_append, List.append_assoc, hzero] at h₄
  exact ⟨_, by simpa only [BitWriter.writeFrame, frameLine, tailBits, dataLine,
    stuff_append] using h₄⟩

/-- `ap_ring_frame_emit` on a fresh writer succeeds exactly when the lengths are
legal and the line fits, and then the line is what it wrote. -/
theorem frameEmit_init (bytes : List Byte) (fields : FrameFields) :
    (frameEmit (.init bytes) fields).1 = true ↔
      headerLengthValid fields.header.length = true ∧ dataLengthValid fields.data.length = true ∧
        (frameLine fields).length ≤ 8 * bytes.length := by
  have hw := BitWriter.clean_init bytes
  obtain ⟨run, hwrote⟩ := BitWriter.wrote_writeFrame hw (Nat.zero_le _) fields
  have hcap : (BitWriter.init bytes).capacity = bytes.length := List.length_map ..
  have hcount : (BitWriter.init bytes).bitCount = 0 := rfl
  have hfits : ((BitWriter.init bytes).writeFrame fields).overflow = false ↔
      (frameLine fields).length ≤ 8 * bytes.length := by
    rw [hwrote.fits, hcap, hcount, Nat.zero_add]
    exact and_iff_right rfl
  unfold frameEmit
  cases headerLengthValid fields.header.length <;> cases dataLengthValid fields.data.length <;>
    simp [hfits]

theorem frameEmit_init_line {bytes : List Byte} {fields : FrameFields}
    (h : (frameEmit (.init bytes) fields).1 = true) :
    (frameEmit (.init bytes) fields).2.line = frameLine fields := by
  have hw := BitWriter.clean_init bytes
  obtain ⟨run, hwrote⟩ := BitWriter.wrote_writeFrame hw (Nat.zero_le _) fields
  unfold frameEmit at h ⊢
  split at h
  · cases h
  · next hvalid =>
    rw [if_neg hvalid]
    have ho : ((BitWriter.init bytes).writeFrame fields).overflow = false := by
      simpa only [Bool.not_eq_true'] using h
    rw [hwrote.line hw ho, BitWriter.line_init, List.nil_append]

/-! ## The parser's steps -/

theorem bind_eq_ok {α β : Type} {x : Parser α} {f : α → Parser β} {s s' : ParseState} {b : β} :
    (x >>= f) s = .ok b s' ↔ ∃ a s₁, x s = .ok a s₁ ∧ f a s₁ = .ok b s' := by
  change EStateM.bind x f s = _ ↔ _
  unfold EStateM.bind
  cases x s with
  | ok a s₁ =>
    refine ⟨fun h => ⟨a, s₁, rfl, h⟩, ?_⟩
    rintro ⟨a', s₁', heq, h⟩
    cases heq
    exact h
  | error e s₁ =>
    refine ⟨fun h => (nomatch h), ?_⟩
    rintro ⟨a', s₁', heq, h⟩
    cases heq

theorem takeOr_bind_eq_ok {α β : Type} {status : FrameStatus}
    {read : BitReader → Option α × BitReader} {f : α → Parser β} {r : BitReader}
    {header data : List Byte} {s' : ParseState} {b : β} :
    (takeOr status read >>= f) ⟨r, header, data⟩ = .ok b s' ↔
      ∃ a r₁, read r = (some a, r₁) ∧ f a ⟨r₁, header, data⟩ = .ok b s' := by
  rw [bind_eq_ok]
  unfold takeOr
  rcases hread : read r with ⟨_ | a, r₁⟩
  · refine ⟨fun ⟨a, s₁, h, _⟩ => ?_, fun ⟨a, r₁, h, _⟩ => ?_⟩
    · simp only [reduceCtorEq] at h
    · cases h
  · constructor
    · rintro ⟨a', s₁, heq, h⟩
      cases heq
      exact ⟨a, r₁, rfl, h⟩
    · rintro ⟨a', r', heq, h⟩
      cases heq
      exact ⟨a, _, rfl, h⟩

theorem ensure_bind_eq_ok {β : Type} {status : FrameStatus} {holds : Bool} {f : Unit → Parser β}
    {s s' : ParseState} {b : β} :
    (ensure status holds >>= f) s = .ok b s' ↔ holds = true ∧ f () s = .ok b s' := by
  cases holds with
  | false => exact ⟨fun h => (nomatch h), fun h => (nomatch h.1)⟩
  | true => exact ⟨fun h => ⟨rfl, h⟩, fun h => h.2⟩

/-! ### What the calls take -/

/-- `bits` were taken off the line as data, or the line was cut short on the fifth
one of a run. -/
def BitReader.Took (r r' : BitReader) (bits : List Bool) : Prop :=
  r.SameStream r' ∧
    ((r.rest = stuff stuffAfterOnes r.onesRun bits ++ r'.rest ∧
        r'.onesRun = runAfter stuffAfterOnes r.onesRun bits) ∨
      (r'.rest = [] ∧ CutShort stuffAfterOnes r.onesRun r.rest bits))

theorem BitReader.Took.rest {r r' : BitReader} {bits : List Bool} (h : r.Took r' bits)
    (hmore : r'.rest ≠ []) :
    r.rest = stuff stuffAfterOnes r.onesRun bits ++ r'.rest ∧
      r'.onesRun = runAfter stuffAfterOnes r.onesRun bits := by
  rcases h.2 with hrest | ⟨hnil, -⟩
  · exact hrest
  · exact absurd hnil hmore

theorem BitReader.readDataBits_stuffed {r : BitReader} {run : Nat} {bits t : List Bool}
    (hrun : r.onesRun = run) (h : r.rest = stuff stuffAfterOnes run bits ++ t) :
    ∃ r', r.readDataBits bits.length = (some (BitVec.ofNat 32 (ofMsbBits bits), false), r') ∧
      r.ReadTo r' t (runAfter stuffAfterOnes run bits) := by
  subst hrun
  have hun := unstuff_stuff stuffAfterOnes r.onesRun bits t
  rw [← h] at hun
  obtain ⟨r', hread, hto⟩ := readDataBitsFrom_eq 0 hun
  exact ⟨r', by rw [readDataBits, hread, shiftIn_zero], hto⟩

theorem BitReader.took_of_readDataBits {r r' : BitReader} {n : Nat} {value : BitVec 32}
    (h : r.readDataBits n = (some (value, false), r')) :
    ∃ bits, bits.length = n ∧ value = BitVec.ofNat 32 (ofMsbBits bits) ∧ r.Took r' bits := by
  cases hun : unstuff stuffAfterOnes n r.onesRun r.rest with
  | none =>
    have hfail := readDataBitsFrom_none (r := r) 0 hun
    rw [← readDataBits, h] at hfail
    rcases hfail with hfail | ⟨v, hfail⟩ <;> cases hfail
  | some out =>
    obtain ⟨bits, t, run⟩ := out
    obtain ⟨r'', hread, hto⟩ := readDataBitsFrom_eq 0 hun
    rw [← readDataBits, h, shiftIn_zero] at hread
    cases hread
    obtain ⟨hlen, hcan⟩ := unstuff_eq_some hun
    refine ⟨bits, hlen, rfl, hto.stream, ?_⟩
    rcases hcan with ⟨hrest, hrun⟩ | ⟨ht, hcut⟩
    · exact .inl ⟨by rw [hrest, hto.rest], by rw [hto.run, hrun]⟩
    · exact .inr ⟨by rw [hto.rest, ht], hcut⟩

theorem readByte_nil {r : BitReader} (h : r.rest = []) : (readByte r).1 = none := by
  rcases hread : readByte r with ⟨_ | byte, r'⟩
  · rfl
  · unfold readByte at hread
    split at hread
    · next hbits =>
      obtain ⟨bits, hlen, -, -, htook⟩ := BitReader.took_of_readDataBits hbits
      rw [h] at htook
      have hlong := length_le_length_stuff stuffAfterOnes r.onesRun bits
      rcases htook with ⟨hnil, -⟩ | ⟨-, cs, -, -, hcut⟩
      · rw [(List.append_eq_nil_iff.mp hnil.symm).1, List.length_nil, hlen] at hlong
        omega
      · exact absurd hcut.symm (List.append_ne_nil_of_right_ne_nil _ (List.cons_ne_nil _ _))
    · cases hread

theorem readByte_stuffed {r : BitReader} {run : Nat} (byte : Byte) {t : List Bool}
    (hrun : r.onesRun = run) (h : r.rest = stuff stuffAfterOnes run (msbBits 8 byte.toNat) ++ t) :
    ∃ r', readByte r = (some byte, r') ∧
      r.ReadTo r' t (runAfter stuffAfterOnes run (msbBits 8 byte.toNat)) := by
  obtain ⟨r', hread, hto⟩ := BitReader.readDataBits_stuffed hrun h
  rw [length_msbBits, ofMsbBits_msbBits_of_lt byte.isLt] at hread
  refine ⟨r', ?_, hto⟩
  simp only [readByte, hread]
  congr 2
  apply BitVec.eq_of_toNat_eq
  have := byte.isLt
  rw [BitVec.toNat_setWidth, BitVec.toNat_ofNat]
  omega

theorem took_of_readByte {r r' : BitReader} {byte : Byte} (h : readByte r = (some byte, r')) :
    r.Took r' (msbBits 8 byte.toNat) := by
  unfold readByte at h
  split at h
  · next value r'' hbits =>
    cases h
    obtain ⟨bits, hlen, rfl, htook⟩ := BitReader.took_of_readDataBits hbits
    have hlt := ofMsbBits_lt bits
    rw [hlen] at hlt
    have hval : (BitVec.setWidth 8 (BitVec.ofNat 32 (ofMsbBits bits))).toNat = ofMsbBits bits := by
      rw [BitVec.toNat_setWidth, BitVec.toNat_ofNat]
      omega
    rwa [hval, ← hlen, msbBits_ofMsbBits]
  · cases h

theorem readSeparator_eq_some {r : BitReader} {t : List Bool}
    (h : r.rest = symbolBits Oob.separator.symbol ++ t) :
    ∃ r', readSeparator r = (some (), r') ∧ r.ReadTo r' t 0 := by
  obtain ⟨r', hread, hto⟩ := BitReader.readOob_eq (length_symbolBits _) h
  refine ⟨r', ?_, hto⟩
  have hsym : lineSymbol (symbolBits Oob.separator.symbol) = Oob.separator.symbol :=
    (lineSymbol_eq_iff (length_symbolBits _) _).mpr rfl
  simp only [readSeparator, hread, hsym, if_true]

theorem BitReader.rest_of_readOob {r r' : BitReader} {symbol : Symbol}
    (h : r.readOob = (some symbol, r')) :
    ∃ bits, bits.length = oobBits ∧ symbol = lineSymbol bits ∧ r.rest = bits ++ r'.rest ∧
      r'.onesRun = 0 ∧ r.SameStream r' := by
  by_cases hlen : r.rest.length < oobBits
  · rw [readOob_none hlen] at h
    cases h
  · have htake : (r.rest.take oobBits).length = oobBits := by
      rw [List.length_take]
      omega
    obtain ⟨r'', hread, hto⟩ := readOob_eq htake (List.take_append_drop _ _).symm
    rw [h] at hread
    cases hread
    exact ⟨_, htake, rfl, by rw [hto.rest, List.take_append_drop], hto.run, hto.stream⟩

theorem rest_of_readSeparator {r r' : BitReader} {u : Unit} (h : readSeparator r = (some u, r')) :
    r.rest = symbolBits Oob.separator.symbol ++ r'.rest ∧ r'.onesRun = 0 ∧ r.SameStream r' := by
  unfold readSeparator at h
  split at h
  · next symbol r'' hread =>
    obtain ⟨bits, hlen, rfl, hrest, hrun, hstream⟩ := BitReader.rest_of_readOob hread
    split at h
    · next hsep =>
      cases h
      rw [(lineSymbol_eq_iff hlen _).mp hsep] at hrest
      exact ⟨hrest, hrun, hstream⟩
    · cases h
  · cases h

end Apollo.Ring
