import Apollo.Lib.Bits
import Apollo.Lib.BitStuffing

/-!
# The token ring's symbol level

`src/core/ring/ap_ring_mac.c`: the nine-bit out-of-band characters, the bit
writer that performs the stuffing and the bit reader that undoes it. A zero is
inserted after five successive ones, so a run of six is a deliberate violation
and opens an out-of-band character.

The definitions follow the C functions. The theorems connect them to bit lists:
`BitWriter.Wrote` says that a call appended given bits to the line or overflowed,
and the reader's lemmas say that it answers what `Lib.unstuff` answers on the
bits that remain. Nothing above this module looks at a byte buffer again.
-/

namespace Apollo.Ring

open Apollo.Lib

abbrev Byte := BitVec 8

/-- A nine-bit out-of-band character, held in a 16-bit word. -/
abbrev Symbol := BitVec 16

/-- `AP_RING_STUFF_AFTER_ONES`. -/
def stuffAfterOnes : Nat := 5

/-- `AP_RING_OOB_BITS`: an out-of-band character is nine bits, not eight. -/
def oobBits : Nat := 9

/-- The four out-of-band characters of `ap_ring_oob_t`. -/
inductive Oob
  | separator
  | frameStart
  | freeToken
  | claimedToken
deriving DecidableEq, Repr

/-- Their values, most significant bit at bit 8. -/
def Oob.symbol : Oob → Symbol
  | .separator => 0x0FC
  | .frameStart => 0x0FD
  | .freeToken => 0x0FE
  | .claimedToken => 0x0FF

/-- `ap_ring_oob_well_formed`: a leading zero, six ones and any two type bits. -/
def oobWellFormed (symbol : Symbol) : Bool :=
  if symbol > 0x1FF then false
  else (symbol &&& 0x1FC) == 0x0FC && (symbol &&& 0x100) == 0

/-- The nine bits of a character, in the order the line carries them. -/
def symbolBits (symbol : Symbol) : List Bool := msbBits oobBits symbol.toNat

/-! ## Writing -/

/-- `ap_ring_bitwriter_t`. The buffer is the lent memory, so its length is the
capacity. -/
structure BitWriter where
  bytes : List Byte
  bitCount : Nat
  onesRun : Nat
  overflow : Bool
deriving DecidableEq, Repr

/-- `ap_ring_bitwriter_init`. -/
def BitWriter.init (bytes : List Byte) : BitWriter :=
  { bytes := bytes.map fun _ => 0, bitCount := 0, onesRun := 0, overflow := false }

def BitWriter.capacity (w : BitWriter) : Nat := w.bytes.length

/-- `ap_ring_write_raw_bit`. -/
def BitWriter.writeRawBit (w : BitWriter) (bit : Bool) : BitWriter :=
  if w.capacity ≤ w.bitCount / 8 then { w with overflow := true }
  else
    { w with
      bytes := if bit then orBit w.bytes w.bitCount else w.bytes
      bitCount := w.bitCount + 1
      onesRun := if bit then w.onesRun + 1 else 0 }

/-- `ap_ring_write_data_bit`: the stuffed zero follows the fifth one. -/
def BitWriter.writeDataBit (w : BitWriter) (bit : Bool) : BitWriter :=
  let w := w.writeRawBit bit
  if stuffAfterOnes ≤ w.onesRun then w.writeRawBit false else w

/-- `ap_ring_write_data_bits`. -/
def BitWriter.writeDataBits (w : BitWriter) (value : BitVec 32) (bits : Nat) : BitWriter :=
  (List.range bits).foldl (fun w i => w.writeDataBit (value.getLsbD (bits - 1 - i))) w

/-- `ap_ring_write_oob`: nine raw bits, and the run cleared behind them. -/
def BitWriter.writeOob (w : BitWriter) (symbol : Symbol) : BitWriter :=
  let w := (List.range oobBits).foldl
    (fun w i => w.writeRawBit (symbol.getLsbD (oobBits - 1 - i))) w
  { w with onesRun := 0 }

/-! ## Reading -/

/-- `ap_ring_bitreader_t`. A reader never stands past the end of its stream. -/
structure BitReader where
  bytes : List Byte
  bitCount : Nat
  bitPos : Nat
  onesRun : Nat
  inStream : bitPos ≤ bitCount

/-- `ap_ring_bitreader_init`. -/
def BitReader.init (bytes : List Byte) (bitCount : Nat) : BitReader :=
  { bytes, bitCount, bitPos := 0, onesRun := 0, inStream := Nat.zero_le _ }

/-- `ap_ring_bitreader_has`. -/
def BitReader.has (r : BitReader) (bits : Nat) : Bool := bits ≤ r.bitCount - r.bitPos

/-- `ap_ring_read_raw_bit`: `none` is the C function's `false`. -/
def BitReader.readRawBit (r : BitReader) : Option Bool × BitReader :=
  if h : r.bitPos < r.bitCount then
    let value := bitAt r.bytes r.bitPos
    (some value,
      { r with
        bitPos := r.bitPos + 1
        onesRun := if value then r.onesRun + 1 else 0
        inStream := h })
  else (none, r)

/-- `ap_ring_read_data_bit`: the bit, and whether the sixth one of a run stood
where the stuffed zero was due. A violation gives the sixth one back. -/
def BitReader.readDataBit (r : BitReader) : Option (Bool × Bool) × BitReader :=
  match r.readRawBit with
  | (none, r) => (none, r)
  | (some value, r) =>
    if r.onesRun < stuffAfterOnes then (some (value, false), r)
    else
      match r.readRawBit with
      | (none, r) => (some (value, false), r)
      | (some true, r) =>
        (some (value, true),
          { r with
            bitPos := r.bitPos - 1
            onesRun := stuffAfterOnes
            inStream := Nat.le_trans (Nat.sub_le _ _) r.inStream })
      | (some false, r) => (some (value, false), r)

/-- The loop of `ap_ring_read_data_bits`, with the value read so far. -/
def BitReader.readDataBitsFrom : Nat → BitVec 32 → BitReader → Option (BitVec 32 × Bool) × BitReader
  | 0, out, r => (some (out, false), r)
  | n + 1, out, r =>
    match r.readDataBit with
    | (none, r) => (none, r)
    | (some (bit, violation), r) =>
      let out := out <<< 1 ||| (if bit then 1 else 0)
      if violation then (some (out, true), r) else readDataBitsFrom n out r

/-- `ap_ring_read_data_bits`: the value and the violation flag. -/
def BitReader.readDataBits (r : BitReader) (bits : Nat) :
    Option (BitVec 32 × Bool) × BitReader :=
  readDataBitsFrom bits 0 r

/-- The loop of `ap_ring_read_oob`. -/
def BitReader.readRawBits : Nat → Symbol → BitReader → Symbol × BitReader
  | 0, out, r => (out, r)
  | n + 1, out, r =>
    let (bit, r) := r.readRawBit
    readRawBits n (out <<< 1 ||| (if bit.getD false then 1 else 0)) r

/-- `ap_ring_read_oob`. -/
def BitReader.readOob (r : BitReader) : Option Symbol × BitReader :=
  if r.has oobBits then
    let (out, r) := readRawBits oobBits 0 r
    (some out, { r with onesRun := 0 })
  else (none, r)

/-- `ap_ring_peek_oob`: the look is made on a copy, so the reader is unchanged. -/
def BitReader.peekOob (r : BitReader) : Option Symbol :=
  match r.readOob.1 with
  | some candidate => if oobWellFormed candidate then some candidate else none
  | none => none

/-! ## What a write puts on the line -/

/-- The line written so far. -/
def BitWriter.line (w : BitWriter) : List Bool := packed w.bytes w.bitCount

/-- The buffer is zero from the writing position on, which is what makes the
`|=` of a raw bit a store. -/
def BitWriter.Clean (w : BitWriter) : Prop := ∀ i, w.bitCount ≤ i → bitAt w.bytes i = false

/-- A call took `w` to `w'` by appending `bits` and leaving the run at `run`, or
it overflowed. It overflows exactly when the bits do not fit. -/
structure BitWriter.Wrote (w w' : BitWriter) (bits : List Bool) (run : Nat) : Prop where
  capacity : w'.capacity = w.capacity
  fits : w'.overflow = false ↔ w.overflow = false ∧ w.bitCount + bits.length ≤ 8 * w.capacity
  clean : w.Clean → w'.Clean
  line : w.Clean → w'.overflow = false → w'.line = w.line ++ bits
  run : w'.overflow = false → w'.onesRun = run

theorem BitWriter.Wrote.bitCount {w w' : BitWriter} {bits : List Bool} {run : Nat}
    (h : w.Wrote w' bits run) (hw : w.Clean) (ho : w'.overflow = false) :
    w'.bitCount = w.bitCount + bits.length := by
  have := congrArg List.length (h.line hw ho)
  simpa only [BitWriter.line, length_packed, List.length_append] using this

theorem BitWriter.clean_init (bytes : List Byte) : (BitWriter.init bytes).Clean := by
  intro i _
  unfold bitAt BitWriter.init
  rw [List.getD_eq_getElem?_getD, List.getElem?_map]
  cases bytes[i / 8]? <;> simp

@[simp] theorem BitWriter.line_init (bytes : List Byte) : (BitWriter.init bytes).line = [] := rfl

theorem BitWriter.Wrote.trans {w w₁ w₂ : BitWriter} {as bs : List Bool} {r₁ r₂ : Nat}
    (hw : w.Clean) (h₁ : w.Wrote w₁ as r₁) (h₂ : w₁.Wrote w₂ bs r₂) :
    w.Wrote w₂ (as ++ bs) r₂ where
  capacity := h₂.capacity.trans h₁.capacity
  fits := by
    rw [h₂.fits, h₁.capacity, List.length_append]
    constructor
    · rintro ⟨ho, hfit⟩
      rw [h₁.bitCount hw ho] at hfit
      exact ⟨(h₁.fits.mp ho).1, by omega⟩
    · rintro ⟨ho, hfit⟩
      have ho₁ := h₁.fits.mpr ⟨ho, by omega⟩
      exact ⟨ho₁, by rw [h₁.bitCount hw ho₁]; omega⟩
  clean := fun hc => h₂.clean (h₁.clean hc)
  line := fun hc ho => by
    have ho₁ := (h₂.fits.mp ho).1
    rw [h₂.line (h₁.clean hc) ho, h₁.line hc ho₁, List.append_assoc]
  run := h₂.run

theorem BitWriter.Wrote.refl {w : BitWriter} {run : Nat} (hrun : w.overflow = false → w.onesRun = run)
    (hfit : w.overflow = false → w.bitCount ≤ 8 * w.capacity) : w.Wrote w [] run where
  capacity := rfl
  fits := ⟨fun ho => ⟨ho, hfit ho⟩, fun h => h.1⟩
  clean := id
  line := fun _ _ => (List.append_nil _).symm
  run := hrun

theorem BitWriter.wrote_writeRawBit (w : BitWriter) (bit : Bool) :
    w.Wrote (w.writeRawBit bit) [bit] (if bit then w.onesRun + 1 else 0) := by
  unfold BitWriter.writeRawBit
  by_cases hfull : w.capacity ≤ w.bitCount / 8
  · rw [if_pos hfull]
    refine ⟨rfl, ⟨fun h => ?_, fun h => ?_⟩, id, fun _ h => ?_, fun h => ?_⟩
    · cases h
    · have hfit := h.2
      rw [List.length_singleton] at hfit
      omega
    · cases h
    · cases h
  · rw [if_neg hfull]
    have hroom : w.bitCount / 8 < w.bytes.length := Nat.lt_of_not_le hfull
    have hbit : ∀ i, bitAt (if bit then orBit w.bytes w.bitCount else w.bytes) i
        = (bitAt w.bytes i || (bit && decide (i = w.bitCount))) := by
      intro i
      cases bit with
      | false => simp only [Bool.false_eq_true, if_false, Bool.false_and, Bool.or_false]
      | true => simp only [if_true, bitAt_orBit hroom, Bool.true_and]
    refine ⟨?_, ⟨fun ho => ⟨ho, ?_⟩, fun h => h.1⟩, fun hc i hi => ?_, fun hc _ => ?_, fun _ => rfl⟩
    · unfold BitWriter.capacity
      cases bit <;> simp only [Bool.false_eq_true, if_false, if_true, length_orBit]
    · simp only [List.length_singleton, BitWriter.capacity] at hroom ⊢
      omega
    · change w.bitCount + 1 ≤ i at hi
      have hne : decide (i = w.bitCount) = false := decide_eq_false (by omega)
      change bitAt (if bit then orBit w.bytes w.bitCount else w.bytes) i = false
      rw [hbit, hc i (by omega), hne, Bool.and_false, Bool.or_false]
    · change packed (if bit then orBit w.bytes w.bitCount else w.bytes) (w.bitCount + 1)
        = packed w.bytes w.bitCount ++ [bit]
      rw [packed_succ, hbit, hc _ le_rfl, decide_eq_true rfl, Bool.and_true, Bool.false_or]
      congr 1
      refine packed_congr fun i hi => ?_
      rw [hbit, decide_eq_false (by omega : i ≠ w.bitCount), Bool.and_false, Bool.or_false]

/-- An overflow is sticky: whatever a later call would have written, the call
before it already failed to fit. -/
theorem BitWriter.Wrote.overflowed {w w₁ w₂ : BitWriter} {as bs : List Bool} {r₁ r₂ r : Nat}
    (h₁ : w.Wrote w₁ as r₁) (h₂ : w₁.Wrote w₂ bs r₂) (ho : w₁.overflow = true) (cs : List Bool) :
    w.Wrote w₂ (as ++ cs) r := by
  have hnot : ¬ w₂.overflow = false := fun h => by
    have := (h₂.fits.mp h).1
    rw [ho] at this
    cases this
  refine ⟨h₂.capacity.trans h₁.capacity, ⟨fun h => absurd h hnot, fun h => ?_⟩,
    fun hc => h₂.clean (h₁.clean hc), fun _ h => absurd h hnot, fun h => absurd h hnot⟩
  have hfirst := h₁.fits.mpr ⟨h.1, by rw [List.length_append] at h; omega⟩
  rw [ho] at hfirst
  cases hfirst

theorem BitWriter.Wrote.inside {w w' : BitWriter} {bits : List Bool} {run : Nat}
    (h : w.Wrote w' bits run) (hw : w.Clean) (ho : w'.overflow = false) :
    w'.bitCount ≤ 8 * w'.capacity := by
  rw [h.bitCount hw ho, h.capacity]
  exact (h.fits.mp ho).2

theorem BitWriter.wrote_writeDataBit {w : BitWriter} (hw : w.Clean) (bit : Bool) :
    w.Wrote (w.writeDataBit bit) (stuff stuffAfterOnes w.onesRun [bit])
      (runAfter stuffAfterOnes w.onesRun [bit]) := by
  have hraw := w.wrote_writeRawBit bit
  have hzero := (w.writeRawBit bit).wrote_writeRawBit false
  have hstay : ∀ ho : (w.writeRawBit bit).overflow = true,
      (w.writeRawBit bit).Wrote (w.writeRawBit bit) [] 0 := fun ho =>
    .refl (fun h => absurd (ho.symm.trans h) (by decide)) (fun h => absurd (ho.symm.trans h) (by decide))
  unfold BitWriter.writeDataBit
  by_cases hdue : bit = true ∧ stuffAfterOnes ≤ w.onesRun + 1
  · obtain ⟨rfl, hrun⟩ := hdue
    simp only [stuff, runAfter, if_pos hrun]
    cases ho : (w.writeRawBit true).overflow with
    | false =>
      have hrun' : stuffAfterOnes ≤ (w.writeRawBit true).onesRun := by
        rw [hraw.run ho, if_pos rfl]
        exact hrun
      rw [if_pos hrun']
      exact hraw.trans hw hzero
    | true =>
      split
      · exact hraw.overflowed hzero ho [false]
      · exact hraw.overflowed (hstay ho) ho [false]
  · have hbits : stuff stuffAfterOnes w.onesRun [bit] = [bit] := by
      cases bit with
      | false => rfl
      | true => simp only [stuff, if_neg (fun h => hdue ⟨rfl, h⟩)]
    have hafter : runAfter stuffAfterOnes w.onesRun [bit] = if bit then w.onesRun + 1 else 0 := by
      cases bit with
      | false => rfl
      | true => simp only [runAfter, if_neg (fun h => hdue ⟨rfl, h⟩), if_true]
    rw [hbits, hafter]
    cases ho : (w.writeRawBit bit).overflow with
    | false =>
      have hrun' : ¬ stuffAfterOnes ≤ (w.writeRawBit bit).onesRun := by
        rw [hraw.run ho]
        cases bit with
        | false => exact Nat.not_succ_le_zero 4
        | true => exact fun h => hdue ⟨rfl, h⟩
      rw [if_neg hrun']
      exact hraw
    | true =>
      by_cases hrun' : stuffAfterOnes ≤ (w.writeRawBit bit).onesRun
      · rw [if_pos hrun']
        exact hraw.overflowed hzero ho []
      · rw [if_neg hrun']
        exact hraw

theorem BitWriter.wrote_foldl_writeDataBit (bits : List Bool) {w : BitWriter} (run : Nat)
    (hw : w.Clean) (hrun : w.overflow = false → w.onesRun = run)
    (hfit : w.overflow = false → w.bitCount ≤ 8 * w.capacity) :
    w.Wrote (bits.foldl BitWriter.writeDataBit w) (stuff stuffAfterOnes run bits)
      (runAfter stuffAfterOnes run bits) := by
  induction bits generalizing w run with
  | nil => exact .refl hrun hfit
  | cons bit bits ih =>
    have hbit := wrote_writeDataBit hw bit
    rw [show bit :: bits = [bit] ++ bits from rfl, stuff_append, runAfter_append, List.foldl_append]
    cases ho : w.overflow with
    | false =>
      rw [← hrun ho]
      exact hbit.trans hw (ih _ (hbit.clean hw) hbit.run (hbit.inside hw))
    | true =>
      have hrest := ih (runAfter stuffAfterOnes w.onesRun [bit]) (hbit.clean hw) hbit.run
        (hbit.inside hw)
      have hall := hbit.trans hw hrest
      have hnone : w.Wrote w [] 0 :=
        .refl (fun h => absurd (ho.symm.trans h) (by decide))
          (fun h => absurd (ho.symm.trans h) (by decide))
      exact hnone.overflowed hall ho _

theorem foldl_range_getLsbD {σ : Type} {n : Nat} (f : σ → Bool → σ) (s : σ) (v : BitVec n)
    (bits : Nat) : (List.range bits).foldl (fun s i => f s (v.getLsbD (bits - 1 - i))) s
      = (msbBits bits v.toNat).foldl f s := by
  rw [msbBits_eq_map, List.foldl_map]
  rfl

theorem BitWriter.wrote_writeDataBits {w : BitWriter} {run : Nat} (hw : w.Clean)
    (hrun : w.overflow = false → w.onesRun = run)
    (hfit : w.overflow = false → w.bitCount ≤ 8 * w.capacity) (value : BitVec 32) (bits : Nat) :
    w.Wrote (w.writeDataBits value bits) (stuff stuffAfterOnes run (msbBits bits value.toNat))
      (runAfter stuffAfterOnes run (msbBits bits value.toNat)) := by
  unfold BitWriter.writeDataBits
  rw [foldl_range_getLsbD BitWriter.writeDataBit]
  exact wrote_foldl_writeDataBit _ _ hw hrun hfit

theorem BitWriter.wrote_foldl_writeRawBit (bits : List Bool) {w : BitWriter} (run : Nat)
    (hw : w.Clean) (hrun : w.overflow = false → w.onesRun = run)
    (hfit : w.overflow = false → w.bitCount ≤ 8 * w.capacity) :
    w.Wrote (bits.foldl BitWriter.writeRawBit w) bits (Lib.onesRun run bits) := by
  induction bits generalizing w run with
  | nil => exact .refl hrun hfit
  | cons bit bits ih =>
    have hbit := w.wrote_writeRawBit bit
    have hrest := ih (if bit then run + 1 else 0) (hbit.clean hw)
      (fun ho => by rw [hbit.run ho, hrun (hbit.fits.mp ho).1]) (hbit.inside hw)
    exact hbit.trans hw hrest

theorem BitWriter.Wrote.clearRun {w w' : BitWriter} {bits : List Bool} {run : Nat}
    (h : w.Wrote w' bits run) : w.Wrote { w' with onesRun := 0 } bits 0 :=
  ⟨h.capacity, h.fits, h.clean, h.line, fun _ => rfl⟩

theorem BitWriter.wrote_writeOob {w : BitWriter} (hw : w.Clean)
    (hfit : w.overflow = false → w.bitCount ≤ 8 * w.capacity) (symbol : Symbol) :
    w.Wrote (w.writeOob symbol) (symbolBits symbol) 0 := by
  unfold BitWriter.writeOob
  rw [foldl_range_getLsbD BitWriter.writeRawBit]
  exact (wrote_foldl_writeRawBit _ w.onesRun hw (fun _ => rfl) hfit).clearRun

/-! ## What a read takes off the line -/

/-- The bits still unread. -/
def BitReader.rest (r : BitReader) : List Bool := (packed r.bytes r.bitCount).drop r.bitPos

/-- The reader stands on the same stream. -/
def BitReader.SameStream (r r' : BitReader) : Prop :=
  r'.bytes = r.bytes ∧ r'.bitCount = r.bitCount

theorem BitReader.length_rest (r : BitReader) : r.rest.length = r.bitCount - r.bitPos := by
  simp only [rest, List.length_drop, length_packed]

theorem BitReader.rest_init (bytes : List Byte) (n : Nat) :
    (BitReader.init bytes n).rest = packed bytes n := rfl

theorem BitReader.rest_eq_nil_iff (r : BitReader) : r.rest = [] ↔ r.bitPos = r.bitCount := by
  rw [← List.length_eq_zero_iff, length_rest]
  have := r.inStream
  omega

theorem BitReader.readRawBit_nil {r : BitReader} (h : r.rest = []) :
    r.readRawBit = (none, r) := by
  unfold BitReader.readRawBit
  rw [dif_neg (by have := (r.rest_eq_nil_iff).mp h; omega)]

theorem BitReader.readRawBit_cons {r : BitReader} {b : Bool} {t : List Bool}
    (h : r.rest = b :: t) :
    ∃ r', r.readRawBit = (some b, r') ∧ r'.rest = t ∧ r'.onesRun = (if b then r.onesRun + 1 else 0) ∧
      r.SameStream r' ∧ r'.bitPos = r.bitPos + 1 := by
  have hpos : r.bitPos < r.bitCount := by
    have := congrArg List.length h
    rw [length_rest, List.length_cons] at this
    omega
  have hb : bitAt r.bytes r.bitPos = b := by
    have h0 := congrArg (·[0]?) h
    simp only [rest, List.getElem?_drop, Nat.add_zero, packed, List.getElem?_map,
      List.getElem?_range hpos, Option.map_some, List.getElem?_cons_zero, Option.some.injEq] at h0
    exact h0
  have ht : (packed r.bytes r.bitCount).drop (r.bitPos + 1) = t := by
    have h1 := congrArg (List.drop 1) h
    simpa only [rest, List.drop_drop, List.drop_succ_cons, List.drop_zero] using h1
  refine ⟨⟨r.bytes, r.bitCount, r.bitPos + 1, if b then r.onesRun + 1 else 0, hpos⟩, ?_, ht, rfl,
    ⟨rfl, rfl⟩, rfl⟩
  simp only [BitReader.readRawBit, dif_pos hpos, hb]

/-- A call took the reader to `r'` by consuming the line down to `rest`. -/
structure BitReader.ReadTo (r r' : BitReader) (rest : List Bool) (run : Nat) : Prop where
  rest : r'.rest = rest
  run : r'.onesRun = run
  stream : r.SameStream r'

theorem BitReader.SameStream.trans {r r₁ r₂ : BitReader} (h₁ : r.SameStream r₁)
    (h₂ : r₁.SameStream r₂) : r.SameStream r₂ :=
  ⟨h₂.1.trans h₁.1, h₂.2.trans h₁.2⟩

theorem BitReader.readDataBit_nil {r : BitReader} (h : r.rest = []) :
    r.readDataBit = (none, r) := by
  rw [BitReader.readDataBit, readRawBit_nil h]

theorem BitReader.readDataBit_plain {r : BitReader} {b : Bool} {t : List Bool}
    (h : r.rest = b :: t) (hrun : (if b then r.onesRun + 1 else 0) < stuffAfterOnes) :
    ∃ r', r.readDataBit = (some (b, false), r') ∧
      r.ReadTo r' t (if b then r.onesRun + 1 else 0) := by
  obtain ⟨r₁, hraw, hrest, hones, hstream, -⟩ := readRawBit_cons h
  refine ⟨r₁, ?_, hrest, hones, hstream⟩
  simp only [BitReader.readDataBit, hraw, hones, if_pos hrun]

theorem BitReader.readDataBit_stuffed {r : BitReader} {t : List Bool}
    (h : r.rest = true :: false :: t) (hrun : stuffAfterOnes ≤ r.onesRun + 1) :
    ∃ r', r.readDataBit = (some (true, false), r') ∧ r.ReadTo r' t 0 := by
  obtain ⟨r₁, hraw, hrest, hones, hstream, -⟩ := readRawBit_cons h
  obtain ⟨r₂, hraw₂, hrest₂, hones₂, hstream₂, -⟩ := readRawBit_cons hrest
  refine ⟨r₂, ?_, hrest₂, hones₂, hstream.trans hstream₂⟩
  have hnot : ¬ r₁.onesRun < stuffAfterOnes := by
    rw [hones, if_pos rfl]
    exact Nat.not_lt_of_le hrun
  simp only [BitReader.readDataBit, hraw, hraw₂, if_neg hnot]

theorem BitReader.readDataBit_last {r : BitReader} (h : r.rest = [true])
    (hrun : stuffAfterOnes ≤ r.onesRun + 1) :
    ∃ r', r.readDataBit = (some (true, false), r') ∧ r.ReadTo r' [] (r.onesRun + 1) := by
  obtain ⟨r₁, hraw, hrest, hones, hstream, -⟩ := readRawBit_cons h
  refine ⟨r₁, ?_, hrest, hones, hstream⟩
  have hnot : ¬ r₁.onesRun < stuffAfterOnes := by
    rw [hones, if_pos rfl]
    exact Nat.not_lt_of_le hrun
  simp only [BitReader.readDataBit, hraw, if_neg hnot, readRawBit_nil hrest]

theorem BitReader.readDataBit_violation {r : BitReader} {t : List Bool}
    (h : r.rest = true :: true :: t) (hrun : stuffAfterOnes ≤ r.onesRun + 1) :
    r.readDataBit.1 = some (true, true) := by
  obtain ⟨r₁, hraw, hrest, hones, hstream, -⟩ := readRawBit_cons h
  obtain ⟨r₂, hraw₂, -, -, -, -⟩ := readRawBit_cons hrest
  have hnot : ¬ r₁.onesRun < stuffAfterOnes := by
    rw [hones, if_pos rfl]
    exact Nat.not_lt_of_le hrun
  simp only [BitReader.readDataBit, hraw, hraw₂, if_neg hnot]

/-- The value a shifting loop accumulates over a list of bits. -/
def shiftIn {n : Nat} (out : BitVec n) (bits : List Bool) : BitVec n :=
  bits.foldl (fun out bit => out <<< 1 ||| (if bit then 1 else 0)) out

theorem shiftIn_step {n : Nat} (out : BitVec n) (bit : Bool) :
    out <<< 1 ||| (if bit then 1 else 0) = BitVec.ofNat n (2 * out.toNat + bit.toNat) := by
  apply BitVec.eq_of_getLsbD_eq
  intro i hi
  have hval : ∀ i, (2 * out.toNat + bit.toNat).testBit i
      = (decide (1 ≤ i) && out.toNat.testBit (i - 1) || (decide (i = 0) && bit)) := by
    intro i
    rw [show 2 * out.toNat + bit.toNat = 2 ^ 1 * out.toNat + bit.toNat by ring,
      Nat.testBit_two_pow_mul_add _ (by cases bit <;> decide)]
    cases i with
    | zero => cases bit <;> rfl
    | succ i => simp
  have hbit : (if bit then 1 else 0 : BitVec n).getLsbD i = (decide (i = 0) && bit) := by
    cases bit with
    | false => simp
    | true => simp [hi]
  rw [BitVec.getLsbD_or, hbit, BitVec.getLsbD_shiftLeft, BitVec.getLsbD_ofNat, hval]
  cases i with
  | zero => simp [hi]
  | succ i => simp [hi, BitVec.getLsbD]

theorem shiftIn_zero {n : Nat} (bits : List Bool) :
    shiftIn (0 : BitVec n) bits = BitVec.ofNat n (ofMsbBits bits) := by
  induction bits using List.reverseRecOn with
  | nil => rfl
  | append_singleton bits bit ih =>
    have hlast : shiftIn (0 : BitVec n) (bits ++ [bit])
        = shiftIn 0 bits <<< 1 ||| (if bit then 1 else 0) := by
      simp only [shiftIn, List.foldl_append, List.foldl_cons, List.foldl_nil]
    rw [hlast, shiftIn_step, ih, ofMsbBits_concat, BitVec.toNat_ofNat]
    apply BitVec.eq_of_toNat_eq
    rw [BitVec.toNat_ofNat, BitVec.toNat_ofNat, Nat.add_mod, Nat.mul_mod_mod, ← Nat.add_mod]

theorem BitReader.readDataBitsFrom_eq {n : Nat} {r : BitReader} {bits t : List Bool} {run : Nat}
    (out : BitVec 32) (h : unstuff stuffAfterOnes n r.onesRun r.rest = some (bits, t, run)) :
    ∃ r', readDataBitsFrom n out r = (some (shiftIn out bits, false), r') ∧ r.ReadTo r' t run := by
  induction n generalizing r bits t run out with
  | zero =>
    simp only [unstuff, Option.some.injEq, Prod.mk.injEq] at h
    obtain ⟨rfl, rfl, rfl⟩ := h
    exact ⟨r, rfl, rfl, rfl, rfl, rfl⟩
  | succ n ih =>
    -- One bit is taken as `step` says, and the induction covers the rest of the loop.
    have finish : ∀ {b : Bool} {r₁ : BitReader} {u : List Bool} {run₁ : Nat}
        (_ : r.readDataBit = (some (b, false), r₁)) (_ : r.ReadTo r₁ u run₁) {bs : List Bool}
        (_ : unstuff stuffAfterOnes n run₁ u = some (bs, t, run)) (_ : b :: bs = bits),
        ∃ r', readDataBitsFrom (n + 1) out r = (some (shiftIn out bits, false), r') ∧
          r.ReadTo r' t run := by
      intro b r₁ u run₁ hread hto bs hrec heq
      rw [← hto.rest, ← hto.run] at hrec
      obtain ⟨r', hloop, hto'⟩ := ih (out <<< 1 ||| (if b then 1 else 0)) hrec
      refine ⟨r', ?_, hto'.rest, hto'.run, hto.stream.trans hto'.stream⟩
      subst heq
      simp only [readDataBitsFrom, hread, Bool.false_eq_true, if_false]
      exact hloop
    cases hl : r.rest with
    | nil => simp only [hl, unstuff, reduceCtorEq] at h
    | cons b l =>
      rw [hl] at h
      cases b with
      | false =>
        obtain ⟨⟨bs, u, s⟩, hrec, heq⟩ := Option.map_eq_some_iff.mp h
        cases heq
        obtain ⟨r₁, hread, hto⟩ := readDataBit_plain hl (Nat.zero_lt_succ 4)
        exact finish hread hto hrec rfl
      | true =>
        by_cases hrun : stuffAfterOnes ≤ r.onesRun + 1
        · simp only [unstuff, if_pos hrun] at h
          rcases l with _ | ⟨_ | _, l⟩
          · simp only [Option.ite_none_right_eq_some, Option.some.injEq, Prod.mk.injEq] at h
            obtain ⟨rfl, rfl, rfl, rfl⟩ := h
            obtain ⟨r₁, hread, hto⟩ := readDataBit_last hl hrun
            exact finish hread hto rfl rfl
          · obtain ⟨⟨bs, u, s⟩, hrec, heq⟩ := Option.map_eq_some_iff.mp h
            cases heq
            obtain ⟨r₁, hread, hto⟩ := readDataBit_stuffed hl hrun
            exact finish hread hto hrec rfl
          · cases h
        · simp only [unstuff, if_neg hrun] at h
          obtain ⟨⟨bs, u, s⟩, hrec, heq⟩ := Option.map_eq_some_iff.mp h
          cases heq
          obtain ⟨r₁, hread, hto⟩ := readDataBit_plain hl (Nat.lt_of_not_le hrun)
          exact finish hread hto hrec rfl

theorem BitReader.readDataBitsFrom_none {n : Nat} {r : BitReader} (out : BitVec 32)
    (h : unstuff stuffAfterOnes n r.onesRun r.rest = none) :
    (readDataBitsFrom n out r).1 = none ∨ ∃ v, (readDataBitsFrom n out r).1 = some (v, true) := by
  induction n generalizing r out with
  | zero => cases h
  | succ n ih =>
    have finish : ∀ {b : Bool} {r₁ : BitReader} {u : List Bool} {run₁ : Nat}
        (_ : r.readDataBit = (some (b, false), r₁)) (_ : r.ReadTo r₁ u run₁)
        (_ : unstuff stuffAfterOnes n run₁ u = none),
        (readDataBitsFrom (n + 1) out r).1 = none ∨
          ∃ v, (readDataBitsFrom (n + 1) out r).1 = some (v, true) := by
      intro b r₁ u run₁ hread hto hrec
      rw [← hto.rest, ← hto.run] at hrec
      simp only [readDataBitsFrom, hread, Bool.false_eq_true, if_false]
      exact ih _ hrec
    cases hl : r.rest with
    | nil =>
      left
      simp only [readDataBitsFrom, readDataBit_nil hl]
    | cons b l =>
      rw [hl] at h
      cases b with
      | false =>
        obtain ⟨r₁, hread, hto⟩ := readDataBit_plain hl (Nat.zero_lt_succ 4)
        exact finish hread hto (Option.map_eq_none_iff.mp h)
      | true =>
        by_cases hrun : stuffAfterOnes ≤ r.onesRun + 1
        · simp only [unstuff, if_pos hrun] at h
          rcases l with _ | ⟨_ | _, l⟩
          · have hn : n ≠ 0 := fun hn => by simp only [if_pos hn, reduceCtorEq] at h
            obtain ⟨m, rfl⟩ := Nat.exists_eq_succ_of_ne_zero hn
            obtain ⟨r₁, hread, hto⟩ := readDataBit_last hl hrun
            exact finish hread hto rfl
          · obtain ⟨r₁, hread, hto⟩ := readDataBit_stuffed hl hrun
            exact finish hread hto (Option.map_eq_none_iff.mp h)
          · right
            have hviol := readDataBit_violation hl hrun
            rcases hread : r.readDataBit with ⟨res, r₁⟩
            rw [hread] at hviol
            simp only at hviol
            subst hviol
            exact ⟨out <<< 1 ||| 1, by simp only [readDataBitsFrom, hread, if_true]⟩
        · simp only [unstuff, if_neg hrun] at h
          obtain ⟨r₁, hread, hto⟩ := readDataBit_plain hl (Nat.lt_of_not_le hrun)
          exact finish hread hto (Option.map_eq_none_iff.mp h)

/-! ## Characters -/

@[simp] theorem length_symbolBits (symbol : Symbol) : (symbolBits symbol).length = oobBits :=
  length_msbBits ..

theorem oobWellFormed_iff (symbol : Symbol) :
    oobWellFormed symbol = true ↔ ∃ c : Oob, symbol = c.symbol := by
  have key : ∀ n < 512, oobWellFormed (BitVec.ofNat 16 n) = true →
      ∃ c ∈ [Oob.separator, .frameStart, .freeToken, .claimedToken],
        BitVec.ofNat 16 n = c.symbol := by decide +kernel
  constructor
  · intro h
    have hlt : symbol.toNat < 512 := by
      by_contra hge
      have hgt : symbol > 0x1FF := by
        change (0x1FF : Symbol).toNat < symbol.toNat
        have : (0x1FF : Symbol).toNat = 511 := rfl
        omega
      simp only [oobWellFormed, if_pos hgt, Bool.false_eq_true] at h
    have heq : BitVec.ofNat 16 symbol.toNat = symbol := by
      rw [BitVec.ofNat_toNat, BitVec.setWidth_eq]
    obtain ⟨c, -, hc⟩ := key _ hlt (heq.symm ▸ h)
    exact ⟨c, heq.symm.trans hc⟩
  · rintro ⟨c, rfl⟩
    cases c <;> rfl

/-- Nine bits off the line, as the symbol they spell. -/
def lineSymbol (bits : List Bool) : Symbol := BitVec.ofNat 16 (ofMsbBits bits)

theorem lineSymbol_eq_iff {bits : List Bool} (hlen : bits.length = oobBits) (c : Oob) :
    lineSymbol bits = c.symbol ↔ bits = symbolBits c.symbol := by
  have hlt := ofMsbBits_lt bits
  have hc : c.symbol.toNat < 2 ^ oobBits := by cases c <;> decide
  constructor
  · intro h
    have hval : ofMsbBits bits = c.symbol.toNat := by
      have := congrArg BitVec.toNat h
      rw [lineSymbol, BitVec.toNat_ofNat] at this
      rw [hlen] at hlt
      simp only [oobBits] at hlt
      omega
    refine eq_of_ofMsbBits_eq (by rw [hlen, length_symbolBits]) ?_
    rw [hval, symbolBits, ofMsbBits_msbBits_of_lt hc]
  · rintro rfl
    rw [lineSymbol, symbolBits, ofMsbBits_msbBits_of_lt hc, BitVec.ofNat_toNat,
      BitVec.setWidth_eq]

theorem BitReader.readRawBits_eq {bits : List Bool} {r : BitReader} {t : List Bool} (out : Symbol)
    (h : r.rest = bits ++ t) :
    ∃ r', readRawBits bits.length out r = (shiftIn out bits, r') ∧ r'.rest = t ∧
      r.SameStream r' := by
  induction bits generalizing r out with
  | nil => exact ⟨r, rfl, h, rfl, rfl⟩
  | cons b bits ih =>
    obtain ⟨r₁, hraw, hrest, -, hstream, -⟩ := readRawBit_cons h
    obtain ⟨r', hloop, hrest', hstream'⟩ := ih (out <<< 1 ||| (if b then 1 else 0)) hrest
    refine ⟨r', ?_, hrest', hstream.trans hstream'⟩
    simp only [List.length_cons, readRawBits, hraw, Option.getD_some]
    exact hloop

theorem BitReader.readOob_eq {bits : List Bool} {r : BitReader} {t : List Bool}
    (hlen : bits.length = oobBits) (h : r.rest = bits ++ t) :
    ∃ r', r.readOob = (some (lineSymbol bits), r') ∧ r.ReadTo r' t 0 := by
  have hhas : r.has oobBits = true := by
    have := congrArg List.length h
    rw [length_rest, List.length_append, hlen] at this
    exact decide_eq_true (by omega)
  obtain ⟨r', hloop, hrest, hstream⟩ := readRawBits_eq 0 h
  rw [hlen, shiftIn_zero] at hloop
  refine ⟨{ r' with onesRun := 0 }, ?_, hrest, rfl, hstream⟩
  simp only [BitReader.readOob, hhas, if_true, hloop, lineSymbol]

theorem BitReader.readOob_none {r : BitReader} (h : r.rest.length < oobBits) :
    r.readOob = (none, r) := by
  have hhas : ¬ r.has oobBits = true := by
    rw [length_rest] at h
    simp only [has, decide_eq_true_eq]
    omega
  rw [BitReader.readOob, if_neg hhas]

theorem BitReader.peekOob_eq_some_iff (r : BitReader) (symbol : Symbol) :
    r.peekOob = some symbol ↔
      ∃ (c : Oob) (t : List Bool), symbol = c.symbol ∧ r.rest = symbolBits c.symbol ++ t := by
  by_cases hlen : r.rest.length < oobBits
  · rw [BitReader.peekOob, readOob_none hlen]
    constructor
    · intro h
      cases h
    · rintro ⟨c, t, -, h⟩
      rw [h, List.length_append, length_symbolBits] at hlen
      omega
  · have htake : (r.rest.take oobBits).length = oobBits := by
      rw [List.length_take]
      omega
    obtain ⟨r', hread, -⟩ := readOob_eq htake (List.take_append_drop _ _).symm
    have hpeek : r.peekOob = if oobWellFormed (lineSymbol (r.rest.take oobBits))
        then some (lineSymbol (r.rest.take oobBits)) else none := by
      simp only [BitReader.peekOob, hread]
    rw [hpeek]
    constructor
    · intro h
      obtain ⟨hwf, hsym⟩ := Option.ite_none_right_eq_some.mp h
      obtain ⟨c, hc⟩ := (oobWellFormed_iff _).mp hwf
      refine ⟨c, r.rest.drop oobBits, (Option.some.inj hsym).symm.trans hc, ?_⟩
      rw [← (lineSymbol_eq_iff htake c).mp hc, List.take_append_drop]
    · rintro ⟨c, t, rfl, h⟩
      have hbits : r.rest.take oobBits = symbolBits c.symbol := by
        rw [h, List.take_left' (length_symbolBits _)]
      have hc : lineSymbol (symbolBits c.symbol) = c.symbol :=
        (lineSymbol_eq_iff (length_symbolBits _) c).mpr rfl
      rw [hbits, hc, if_pos ((oobWellFormed_iff _).mpr ⟨c, rfl⟩)]

theorem symbolBits_mark (c : Oob) :
    false :: List.replicate (stuffAfterOnes + 1) true <+: symbolBits c.symbol := by
  cases c <;> decide

/-- Stuffed data that still has a byte to carry is never a character: the peek
that decides "another byte or the end of this sequence" is safe. -/
theorem BitReader.peekOob_stuffed {r : BitReader} {run : Nat} {bits t : List Bool}
    (hlen : 8 ≤ bits.length)
    (h : r.rest = stuff stuffAfterOnes run bits ++ t) : r.peekOob = none := by
  rw [Option.eq_none_iff_forall_ne_some]
  intro symbol hpeek
  obtain ⟨c, u, -, hrest⟩ := (r.peekOob_eq_some_iff symbol).mp hpeek
  have hmark : false :: List.replicate (stuffAfterOnes + 1) true <+:
      stuff stuffAfterOnes run bits ++ t := by
    rw [← h, hrest]
    exact (symbolBits_mark c).trans (List.prefix_append _ _)
  rcases bits with _ | ⟨_ | _, bits⟩
  · exact absurd hlen (by decide)
  · rw [stuff_false_cons, List.cons_append, List.cons_prefix_cons] at hmark
    refine not_ones_prefix_stuff (r := 0) (by decide) ?_ hmark.2
    rw [List.length_cons] at hlen
    exact Nat.le_trans (by decide : stuffAfterOnes ≤ 7) (by omega)
  · simp only [stuff] at hmark
    split at hmark <;> exact absurd (List.cons_prefix_cons.mp hmark).1 Bool.false_ne_true

end Apollo.Ring
