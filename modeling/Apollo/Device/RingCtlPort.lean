import Apollo.Device.RingCtl

/-!
# The data port of the ring card

RAM_ADDR names a word of the buffer, and RAM_DATA reads or writes the word the pointer stands at and
moves it on. The two directions share the pointer and are not alike: a write stores at once, and a
read answers with the word that was fetched before it and fetches another, so that the first read
behind RAM_ADDR is stale. `Primed` is that offset of one word, which every read keeps.

`read_back_written` is the round trip, with each access made as a word or as a pair of bytes.
-/

namespace Apollo.Device

/-! ## Lanes and halves -/

theorem joinBytes_halves (v : BitVec 16) :
    joinBytes ((v >>> 8).setWidth 8) (v.setWidth 8) = v := by
  apply BitVec.eq_of_getLsbD_eq
  intro i hi
  rw [joinBytes, BitVec.getLsbD_or, BitVec.getLsbD_shiftLeft, BitVec.getLsbD_setWidth,
    BitVec.getLsbD_setWidth, BitVec.getLsbD_setWidth, BitVec.getLsbD_ushiftRight,
    BitVec.getLsbD_setWidth]
  by_cases hlow : i < 8
  · simp [hlow, hi]
  · have hback : 8 + (i - 8) = i := by omega
    have hsmall : i - 8 < 8 := by omega
    have hsmall' : i - 8 < 16 := by omega
    simp [hlow, hi, hback, hsmall, hsmall']

theorem ringCtlAddr_ringCtlAddr (reg : BitVec 16) : ringCtlAddr (ringCtlAddr reg) = reg := by
  have hmask : ∀ i, (0x00FF : BitVec 16).getLsbD i = decide (i < 8) := by
    intro i
    by_cases hi : i < 16
    · interval_cases i <;> rfl
    · rw [BitVec.getLsbD_of_ge _ _ (by omega), decide_eq_false (by omega)]
  have hbit : ∀ (v : BitVec 16) (i : Nat), i < 16 →
      (ringCtlAddr v).getLsbD i = v.getLsbD (if i < 8 then i + 8 else i - 8) := by
    intro v i hi
    rw [ringCtlAddr, BitVec.getLsbD_or, BitVec.getLsbD_shiftLeft, BitVec.getLsbD_and, hmask,
      BitVec.getLsbD_ushiftRight]
    by_cases hlow : i < 8
    · simp [hlow, hi, Nat.add_comm]
    · have hsmall : i - 8 < 8 := by omega
      have hhigh : v.getLsbD (8 + i) = false := BitVec.getLsbD_of_ge _ _ (by omega)
      simp [hlow, hi, hsmall, hhigh]
  apply BitVec.eq_of_getLsbD_eq
  intro i hi
  by_cases hlow : i < 8
  · rw [hbit _ i hi, if_pos hlow, hbit _ (i + 8) (by omega), if_neg (by omega)]
    congr 1
  · rw [hbit _ i hi, if_neg hlow, hbit _ (i - 8) (by omega), if_pos (by omega)]
    congr 1
    omega

/-! ## The buffer -/

namespace CardBuffer

theorem word_store (b : CardBuffer) (i j : Nat) (value : BitVec 16) (h : j < bufferWords) :
    (b.store i value).word j = if j = i then some value else b.word j := by
  rw [word, dif_pos h, store]
  dsimp only
  by_cases hj : j = i
  · rw [if_pos hj, if_pos hj]
  · rw [if_neg hj, if_neg hj, word, dif_pos h]

/-- What the data port fetches at a place. -/
def fetch (b : CardBuffer) (i : Nat) : BitVec 16 := (b.word i).getD 0xFFFF

end CardBuffer

namespace RingCtl

/-! ## An access of either width -/

/-- A word written to the second window, at once or a byte at a time. -/
def writeWord (c : RingCtl) (wide : Bool) (offset : BitVec 32) (value : BitVec 16) : RingCtl :=
  if wide then c.write16 true offset value
  else (c.write8 true offset ((value >>> 8).setWidth 8)).write8 true (offset ||| 1)
    (value.setWidth 8)

/-- A word read from it. -/
def readWord (c : RingCtl) (wide : Bool) (offset : BitVec 32) : BitVec 16 × RingCtl :=
  if wide then c.read16 true offset
  else
    let (high, c) := c.read8 true offset
    let (low, c) := c.read8 true (offset ||| 1)
    (joinBytes high low, c)

/-- RAM_ADDR and RAM_DATA. -/
def ramAddr : BitVec 32 := 0x006
def ramData : BitVec 32 := 0x406

/-- Words written through the data port, each in its width. -/
def writeWords (c : RingCtl) (words : List (Bool × BitVec 16)) : RingCtl :=
  words.foldl (fun c word => c.writeWord word.1 ramData word.2) c

/-- As many reads through it as there are widths. -/
def readWords (c : RingCtl) : List Bool → List (BitVec 16) × RingCtl
  | [] => ([], c)
  | wide :: widths =>
    let (value, c) := c.readWord wide ramData
    let (values, c) := c.readWords widths
    (value :: values, c)

/-- RAM_ADDR written with the encoding of a word's address. -/
def pointAt (c : RingCtl) (wide : Bool) (start : Nat) : RingCtl :=
  c.writeWord wide ramAddr (ringCtlAddr (BitVec.ofNat 16 start))

/-! ## What each access does -/

theorem pointAt_spec (c : RingCtl) (wide : Bool) (start : Nat) :
    (c.pointAt wide start).a2.pointer = BitVec.ofNat 16 start ∧
      (c.pointAt wide start).buffer = c.buffer := by
  cases wide with
  | true => exact ⟨ringCtlAddr_ringCtlAddr _, rfl⟩
  | false =>
    have hjoin := joinBytes_halves (ringCtlAddr (BitVec.ofNat 16 start))
    exact ⟨(congrArg ringCtlAddr hjoin).trans (ringCtlAddr_ringCtlAddr _), rfl⟩

theorem writeWord_ramData (c : RingCtl) (wide : Bool) (value : BitVec 16) :
    (c.writeWord wide ramData value).buffer = c.buffer.store c.a2.pointer.toNat value ∧
      (c.writeWord wide ramData value).a2.pointer = c.a2.pointer + 1 := by
  cases wide with
  | true => exact ⟨rfl, rfl⟩
  | false =>
    have hjoin := joinBytes_halves value
    exact ⟨congrArg (c.buffer.store c.a2.pointer.toNat) hjoin, rfl⟩

theorem readWord_ramData (c : RingCtl) (wide : Bool) :
    (c.readWord wide ramData).1 = c.a2.readAhead ∧
      (c.readWord wide ramData).2.buffer = c.buffer ∧
      (c.readWord wide ramData).2.a2.readAhead = c.buffer.fetch c.a2.pointer.toNat ∧
      (c.readWord wide ramData).2.a2.pointer = c.a2.pointer + 1 := by
  cases wide with
  | true => exact ⟨rfl, rfl, rfl, rfl⟩
  | false => exact ⟨joinBytes_halves c.a2.readAhead, rfl, rfl, rfl⟩

/-! ## Runs -/

theorem toNat_ofNat_pointer {n : Nat} (h : n ≤ bufferWords) : (BitVec.ofNat 16 n).toNat = n := by
  have hwords : bufferWords = 32768 := rfl
  rw [BitVec.toNat_ofNat]
  exact Nat.mod_eq_of_lt (by omega)

theorem ofNat_pointer_succ (n : Nat) : BitVec.ofNat 16 n + 1 = BitVec.ofNat 16 (n + 1) := by
  rw [show (1 : BitVec 16) = BitVec.ofNat 16 1 from rfl, ← BitVec.ofNat_add]

/-- A RUN OF WRITES stores its words from the pointer on, in order, and nothing else. -/
theorem writeWords_spec {c : RingCtl} {start : Nat} (words : List (Bool × BitVec 16))
    (hpointer : c.a2.pointer = BitVec.ofNat 16 start)
    (hfits : start + words.length ≤ bufferWords) :
    (∀ k, ∀ h : k < words.length,
      (c.writeWords words).buffer.word (start + k) = some words[k].2) ∧
    ∀ i, i < start ∨ start + words.length ≤ i →
      (c.writeWords words).buffer.word i = c.buffer.word i := by
  induction words generalizing c start with
  | nil => exact ⟨fun k h => absurd h (Nat.not_lt_zero k), fun i _ => rfl⟩
  | cons word words ih =>
    rw [List.length_cons] at hfits
    obtain ⟨hbuffer, hnext⟩ := c.writeWord_ramData word.1 word.2
    rw [hpointer, toNat_ofNat_pointer (by omega)] at hbuffer
    rw [hpointer, ofNat_pointer_succ] at hnext
    obtain ⟨hstored, hkept⟩ := ih hnext (by omega)
    constructor
    · intro k h
      cases k with
      | zero =>
        refine (hkept start (.inl (Nat.lt_succ_self start))).trans ?_
        rw [hbuffer, CardBuffer.word_store _ _ _ _ (by omega), if_pos rfl]
        rfl
      | succ k =>
        rw [List.length_cons] at h
        have hk := hstored k (by omega)
        rwa [Nat.succ_add_eq_add_succ] at hk
    · intro i hi
      rw [List.length_cons] at hi
      refine (hkept i (by omega)).trans ?_
      rw [hbuffer]
      by_cases hlt : i < bufferWords
      · rw [CardBuffer.word_store _ _ _ _ hlt, if_neg (by omega)]
      · rw [CardBuffer.word, dif_neg hlt, CardBuffer.word, dif_neg hlt]

/-- One read behind RAM_ADDR: a word is fetched, and the pointer stands behind it. -/
structure Primed (c : RingCtl) (start : Nat) : Prop where
  readAhead : c.a2.readAhead = c.buffer.fetch start
  pointer : c.a2.pointer = BitVec.ofNat 16 (start + 1)

/-- A RUN OF READS of a primed port returns the words from the one it is primed with, in order. -/
theorem readWords_spec {c : RingCtl} {start : Nat} (widths : List Bool) (hprimed : c.Primed start)
    (hfits : start + widths.length ≤ bufferWords) :
    (c.readWords widths).1 = (List.range' start widths.length).map c.buffer.fetch ∧
      (c.readWords widths).2.buffer = c.buffer := by
  induction widths generalizing c start with
  | nil => exact ⟨rfl, rfl⟩
  | cons wide widths ih =>
    rw [List.length_cons] at hfits
    obtain ⟨hvalue, hbuffer, hahead, hpointer⟩ := c.readWord_ramData wide
    have hnext : (c.readWord wide ramData).2.Primed (start + 1) := by
      refine ⟨?_, ?_⟩
      · rw [hahead, hbuffer, hprimed.pointer, toNat_ofNat_pointer (by omega)]
      · rw [hpointer, hprimed.pointer, ofNat_pointer_succ]
    obtain ⟨hvalues, hkept⟩ := ih hnext (by omega)
    rw [hbuffer] at hvalues hkept
    refine ⟨?_, hkept⟩
    change (c.readWord wide ramData).1 :: ((c.readWord wide ramData).2.readWords widths).1 = _
    rw [hvalue, hvalues, hprimed.readAhead, List.length_cons, List.range'_succ, List.map_cons]

/-- THE ROUND TRIP: words written from a place on are read back from it in order, behind one read
that is thrown away, and the rest of the buffer is as it was. -/
theorem read_back_written (c : RingCtl) (start : Nat) (words : List (Bool × BitVec 16))
    (widths : List Bool) (addressed addressedAgain discarded : Bool)
    (hfits : start + words.length ≤ bufferWords) (hwidths : widths.length = words.length) :
    let written := (c.pointAt addressed start).writeWords words
    let primed := ((written.pointAt addressedAgain start).readWord discarded ramData).2
    (primed.readWords widths).1 = words.map Prod.snd ∧
      ∀ i : Fin bufferWords, i.val < start ∨ start + words.length ≤ i.val →
        (primed.readWords widths).2.buffer i = c.buffer i := by
  intro written primed
  obtain ⟨hpointer, hbuffer⟩ := c.pointAt_spec addressed start
  obtain ⟨hstored, hkept⟩ := writeWords_spec words hpointer hfits
  obtain ⟨hpointer', hbuffer'⟩ := written.pointAt_spec addressedAgain start
  obtain ⟨-, hsame, hahead, hnext⟩ :=
    (written.pointAt addressedAgain start).readWord_ramData discarded
  have hprimed : primed.Primed start := by
    refine ⟨?_, ?_⟩
    · rw [hahead, hsame, hpointer', toNat_ofNat_pointer (by omega)]
    · rw [hnext, hpointer', ofNat_pointer_succ]
  have hprimedBuffer : primed.buffer = written.buffer := hsame.trans hbuffer'
  obtain ⟨hvalues, hread⟩ := readWords_spec widths hprimed (by omega)
  constructor
  · rw [hvalues, hprimedBuffer]
    apply List.ext_getElem
    · rw [List.length_map, List.length_map, List.length_range', hwidths]
    · intro k hk hk'
      rw [List.length_map, List.length_range', hwidths] at hk
      rw [List.getElem_map, List.getElem_range', Nat.one_mul, List.getElem_map, CardBuffer.fetch,
        hstored k hk, Option.getD_some]
  · intro i hi
    have hword : written.buffer.word i = c.buffer.word i := by rw [hkept i hi, hbuffer]
    rw [CardBuffer.word, dif_pos i.isLt, CardBuffer.word, dif_pos i.isLt] at hword
    rw [hread, hprimedBuffer]
    exact Option.some.inj hword

/-- The last two words of the buffer. -/
theorem read_back_written_two :
    let written := ((({} : RingCtl).pointAt true 0x7FFE).writeWords [(true, 0x1234), (false, 0xABCD)])
    let primed := ((written.pointAt false 0x7FFE).readWord true ramData).2
    (primed.readWords [false, true]).1 = [0x1234, 0xABCD] :=
  (read_back_written {} 0x7FFE [(true, 0x1234), (false, 0xABCD)] [false, true] true false true
    (by decide) rfl).1

end RingCtl

end Apollo.Device
