import Mathlib
import Apollo.Ring.FrameLine
import Apollo.Ring.Station

/-!
# What a refused frame leaves

`ap_ring_station_queue_frame` clears the lent buffer before the lengths are looked at, and
`ap_ring_frame_emit` finds out that a buffer is too small by filling it. So A REFUSED FRAME CHANGES NOTHING
only where there was nothing to change: the fields of the station are always left, the buffer is left
when it already holds what the refusal puts there.
-/

namespace Apollo.Ring

open Apollo.Lib

/-! ## Two writers in step -/

section Step

variable {R : BitWriter → BitWriter → Prop}

/-- A relation that one raw bit, the zero that is stuffed behind five ones and the end of a character
keep. -/
structure BitWriter.InStep (R : BitWriter → BitWriter → Prop) : Prop where
  raw : ∀ w v bit, R w v → R (w.writeRawBit bit) (v.writeRawBit bit)
  stuffed : ∀ w v, R w v → R (if stuffAfterOnes ≤ w.onesRun then w.writeRawBit false else w)
    (if stuffAfterOnes ≤ v.onesRun then v.writeRawBit false else v)
  clear : ∀ w v, R w v → R { w with onesRun := 0 } { v with onesRun := 0 }

variable {w v : BitWriter}

theorem BitWriter.InStep.foldl {f : BitWriter → Bool → BitWriter}
    (hf : ∀ w v bit, R w v → R (f w bit) (f v bit)) (bits : List Bool) (h : R w v) :
    R (bits.foldl f w) (bits.foldl f v) := by
  induction bits generalizing w v with
  | nil => exact h
  | cons bit bits ih => exact ih (hf w v bit h)

theorem BitWriter.InStep.writeDataBits (hR : InStep R) (h : R w v) (value : BitVec 32) (bits : Nat) :
    R (w.writeDataBits value bits) (v.writeDataBits value bits) := by
  rw [BitWriter.writeDataBits, BitWriter.writeDataBits, foldl_range_getLsbD BitWriter.writeDataBit,
    foldl_range_getLsbD BitWriter.writeDataBit]
  exact foldl (fun w v bit hwv => hR.stuffed _ _ (hR.raw w v bit hwv)) _ h

theorem BitWriter.InStep.writeOob (hR : InStep R) (h : R w v) (symbol : Symbol) :
    R (w.writeOob symbol) (v.writeOob symbol) := by
  rw [BitWriter.writeOob, BitWriter.writeOob, foldl_range_getLsbD BitWriter.writeRawBit,
    foldl_range_getLsbD BitWriter.writeRawBit]
  exact hR.clear _ _ (foldl hR.raw _ h)

theorem BitWriter.InStep.writeBytes (hR : InStep R) (h : R w v) (bytes : List Byte) :
    R (w.writeBytes bytes) (v.writeBytes bytes) := by
  induction bytes generalizing w v with
  | nil => exact h
  | cons byte bytes ih =>
    rw [BitWriter.writeBytes_cons, BitWriter.writeBytes_cons]
    exact ih (hR.writeDataBits h _ 8)

theorem BitWriter.InStep.writeFrame (hR : InStep R) (h : R w v) (fields : FrameFields) :
    R (w.writeFrame fields) (v.writeFrame fields) := by
  have hstart := hR.writeOob (hR.writeDataBits (hR.writeOob h Oob.frameStart.symbol) 0 nullSeparatorBits)
    Oob.separator.symbol
  have hheader := hR.writeOob (hR.writeBytes hstart fields.header) Oob.separator.symbol
  have hdata := hR.writeOob (hR.writeBytes hheader fields.data) Oob.separator.symbol
  exact hR.writeDataBits (hR.writeDataBits (hR.writeDataBits hdata _ 32) 0 nullSeparatorBits) _ 8

end Step

/-! ## Whether a frame fits -/

/-- The same room was used of the same room, whatever the bytes are. -/
structure BitWriter.SameRoom (w v : BitWriter) : Prop where
  capacity : v.capacity = w.capacity
  bitCount : v.bitCount = w.bitCount
  onesRun : v.onesRun = w.onesRun
  overflow : v.overflow = w.overflow

theorem BitWriter.capacity_writeRawBit (w : BitWriter) (bit : Bool) :
    (w.writeRawBit bit).capacity = w.capacity := by
  unfold writeRawBit capacity
  split
  · rfl
  · cases bit with
    | false => rfl
    | true => exact length_orBit ..

theorem BitWriter.writeRawBit_full {w : BitWriter} (hfull : w.capacity ≤ w.bitCount / 8) (bit : Bool) :
    w.writeRawBit bit = { w with overflow := true } := if_pos hfull

theorem BitWriter.writeRawBit_room {w : BitWriter} (hroom : ¬ w.capacity ≤ w.bitCount / 8) (bit : Bool) :
    w.writeRawBit bit =
      { w with
        bytes := if bit then orBit w.bytes w.bitCount else w.bytes
        bitCount := w.bitCount + 1
        onesRun := if bit then w.onesRun + 1 else 0 } := if_neg hroom

theorem BitWriter.SameRoom.writeRawBit {w v : BitWriter} (h : w.SameRoom v) (bit : Bool) :
    (w.writeRawBit bit).SameRoom (v.writeRawBit bit) := by
  have hcapacity : (v.writeRawBit bit).capacity = (w.writeRawBit bit).capacity := by
    rw [capacity_writeRawBit, capacity_writeRawBit, h.capacity]
  by_cases hfull : w.capacity ≤ w.bitCount / 8
  · have hfull' : v.capacity ≤ v.bitCount / 8 := by rwa [h.capacity, h.bitCount]
    refine ⟨hcapacity, ?_, ?_, ?_⟩ <;> rw [writeRawBit_full hfull, writeRawBit_full hfull']
    · exact h.bitCount
    · exact h.onesRun
  · have hroom : ¬ v.capacity ≤ v.bitCount / 8 := by rwa [h.capacity, h.bitCount]
    refine ⟨hcapacity, ?_, ?_, ?_⟩ <;> rw [writeRawBit_room hfull, writeRawBit_room hroom]
    · exact congrArg (· + 1) h.bitCount
    · exact congrArg (fun run => if bit then run + 1 else 0) h.onesRun
    · exact h.overflow

theorem BitWriter.sameRoom_inStep : InStep SameRoom where
  raw _ _ bit h := h.writeRawBit bit
  stuffed w v h := by
    rw [h.onesRun]
    split
    · exact h.writeRawBit false
    · exact h
  clear _ _ h := ⟨h.capacity, h.bitCount, rfl, h.overflow⟩

/-- The same room, of a buffer that holds nothing. -/
def BitWriter.cleaned (w : BitWriter) : BitWriter := { w with bytes := w.bytes.map fun _ => 0 }

theorem BitWriter.sameRoom_cleaned (w : BitWriter) : w.cleaned.SameRoom w :=
  ⟨(List.length_map ..).symm, rfl, rfl, rfl⟩

theorem BitWriter.clean_cleaned (w : BitWriter) : w.cleaned.Clean := fun i _ =>
  clean_init w.bytes i (Nat.zero_le i)

/-- WHETHER A FRAME FITS depends on the room alone: it overflows exactly when its line is too long. -/
theorem BitWriter.overflow_writeFrame {w : BitWriter} (hroom : w.bitCount ≤ 8 * w.capacity)
    (fields : FrameFields) :
    ((w.writeFrame fields).overflow = false ↔
      w.overflow = false ∧ w.bitCount + (frameLine fields).length ≤ 8 * w.capacity) ∧
      ((w.writeFrame fields).overflow = false →
        (w.writeFrame fields).bitCount = w.bitCount + (frameLine fields).length) := by
  have hsame := w.sameRoom_cleaned
  have hframe := sameRoom_inStep.writeFrame hsame fields
  have hcapacity : w.cleaned.capacity = w.capacity := hsame.capacity.symm
  have hcount : w.cleaned.bitCount ≤ 8 * w.cleaned.capacity := by rw [hcapacity]; exact hroom
  obtain ⟨run, hwrote⟩ := wrote_writeFrame w.clean_cleaned hcount fields
  rw [hframe.overflow, hframe.bitCount]
  refine ⟨?_, fun ho => hwrote.bitCount w.clean_cleaned ho⟩
  rw [hwrote.fits, hcapacity]
  exact Iff.rfl

/-! ## What an overflow leaves -/

/-- A writer of a short buffer beside the same one of a long buffer. -/
structure BitWriter.Cut (w v : BitWriter) : Prop where
  capacity : w.capacity ≤ v.capacity
  bitCount : w.bitCount = min v.bitCount (8 * w.capacity)
  bits : ∀ i < 8 * w.capacity, bitAt w.bytes i = bitAt v.bytes i
  run : w.bitCount < 8 * w.capacity → w.onesRun = v.onesRun

theorem BitWriter.bitAt_writeRawBit (w : BitWriter) (bit : Bool) {i : Nat} (hi : i ≠ w.bitCount) :
    bitAt (w.writeRawBit bit).bytes i = bitAt w.bytes i := by
  by_cases hfull : w.capacity ≤ w.bitCount / 8
  · rw [writeRawBit_full hfull]
  · rw [writeRawBit_room hfull]
    cases bit with
    | false => rfl
    | true =>
      show bitAt (orBit w.bytes w.bitCount) i = _
      rw [bitAt_orBit (not_le.mp hfull), decide_eq_false hi, Bool.or_false]

theorem BitWriter.Cut.right {w v : BitWriter} (h : w.Cut v) (hfull : w.bitCount = 8 * w.capacity) (bit : Bool) :
    w.Cut (v.writeRawBit bit) where
  capacity := by rw [capacity_writeRawBit]; exact h.capacity
  bitCount := by
    have hcount := h.bitCount
    by_cases hv : v.capacity ≤ v.bitCount / 8
    · rw [writeRawBit_full hv]
      exact hcount
    · rw [writeRawBit_room hv]
      show w.bitCount = min (v.bitCount + 1) _
      omega
  bits i hi := by
    have hcount := h.bitCount
    rw [bitAt_writeRawBit v bit (by omega)]
    exact h.bits i hi
  run hlt := absurd hfull hlt.ne

theorem BitWriter.Cut.left {w v : BitWriter} (h : w.Cut v) (hfull : w.bitCount = 8 * w.capacity) (bit : Bool) :
    (w.writeRawBit bit).Cut v := by
  have hcapacity : w.capacity ≤ w.bitCount / 8 := by omega
  rw [writeRawBit_full hcapacity]
  exact ⟨h.capacity, h.bitCount, h.bits, h.run⟩

theorem BitWriter.Cut.both {w v : BitWriter} (h : w.Cut v) (hroom : w.bitCount < 8 * w.capacity) (bit : Bool) :
    (w.writeRawBit bit).Cut (v.writeRawBit bit) := by
  have hcount := h.bitCount
  have hcap := h.capacity
  have hw : ¬ w.capacity ≤ w.bitCount / 8 := by omega
  have hv : ¬ v.capacity ≤ v.bitCount / 8 := by omega
  have heq : v.bitCount = w.bitCount := by omega
  have hcapacity := w.capacity_writeRawBit bit
  refine ⟨?_, ?_, ?_, fun _ => ?_⟩
  · rw [capacity_writeRawBit, capacity_writeRawBit]
    exact hcap
  · rw [hcapacity, writeRawBit_room hw, writeRawBit_room hv]
    show w.bitCount + 1 = min (v.bitCount + 1) _
    omega
  · intro i hi
    rw [hcapacity] at hi
    by_cases hplace : i = w.bitCount
    · rw [writeRawBit_room hw, writeRawBit_room hv]
      cases bit with
      | false => exact h.bits i hi
      | true =>
        show bitAt (orBit w.bytes w.bitCount) i = bitAt (orBit v.bytes v.bitCount) i
        rw [bitAt_orBit (not_le.mp hw), bitAt_orBit (not_le.mp hv), h.bits i hi, heq]
    · rw [bitAt_writeRawBit w bit hplace, bitAt_writeRawBit v bit (by rwa [heq])]
      exact h.bits i hi
  · rw [writeRawBit_room hw, writeRawBit_room hv]
    exact congrArg (fun run => if bit then run + 1 else 0) (h.run hroom)

theorem BitWriter.Cut.le {w v : BitWriter} (h : w.Cut v) : w.bitCount ≤ 8 * w.capacity := by
  rw [h.bitCount]
  exact Nat.min_le_right ..

theorem BitWriter.cut_inStep : InStep Cut where
  raw w v bit h := by
    obtain hroom | hfull := h.le.lt_or_eq
    · exact h.both hroom bit
    · have hleft := h.left hfull bit
      have hstays : (w.writeRawBit bit).bitCount = 8 * (w.writeRawBit bit).capacity := by
        rw [capacity_writeRawBit, writeRawBit_full (by omega)]
        exact hfull
      exact hleft.right hstays bit
  stuffed w v h := by
    obtain hroom | hfull := h.le.lt_or_eq
    · rw [h.run hroom]
      split
      · exact h.both hroom false
      · exact h
    · have hright : w.Cut (if stuffAfterOnes ≤ v.onesRun then v.writeRawBit false else v) := by
        split
        · exact h.right hfull false
        · exact h
      split
      · exact hright.left hfull false
      · exact hright
  clear _ _ h := ⟨h.capacity, h.bitCount, h.bits, fun _ => rfl⟩

/-- The writer, of a buffer this much longer. -/
def BitWriter.lengthened (w : BitWriter) (more : Nat) : BitWriter :=
  { w with bytes := w.bytes ++ List.replicate more 0, overflow := false }

theorem BitWriter.bitAt_lengthened (w : BitWriter) (more i : Nat) :
    bitAt (w.lengthened more).bytes i = bitAt w.bytes i := by
  show bitAt (w.bytes ++ List.replicate more 0) i = _
  unfold bitAt
  congr 1
  rw [List.getD_eq_getElem?_getD, List.getD_eq_getElem?_getD]
  by_cases hi : i / 8 < w.bytes.length
  · rw [List.getElem?_append_left hi]
  · rw [List.getElem?_append_right (not_lt.mp hi), List.getElem?_eq_none (not_lt.mp hi),
      List.getElem?_replicate]
    split <;> rfl

theorem BitWriter.cut_lengthened {w : BitWriter} (hroom : w.bitCount ≤ 8 * w.capacity) (more : Nat) :
    w.Cut (w.lengthened more) where
  capacity := by
    show w.bytes.length ≤ (w.bytes ++ List.replicate more 0).length
    rw [List.length_append]
    exact Nat.le_add_right ..
  bitCount := (Nat.min_eq_left hroom).symm
  bits i _ := (w.bitAt_lengthened more i).symm
  run _ := rfl

/-- A FRAME FILLS THE BUFFER with the long writer's bits, as far as there is room. -/
theorem BitWriter.writeFrame_cut {w : BitWriter} (hroom : w.bitCount ≤ 8 * w.capacity) (fields : FrameFields) :
    (w.writeFrame fields).bitCount = min (w.bitCount + (frameLine fields).length) (8 * w.capacity) ∧
      ∀ i < 8 * w.capacity, bitAt (w.writeFrame fields).bytes i =
        bitAt ((w.lengthened (frameLine fields).length).writeFrame fields).bytes i := by
  have hcut := cut_inStep.writeFrame (cut_lengthened hroom (frameLine fields).length) fields
  have hcapacity : (w.lengthened (frameLine fields).length).capacity =
      w.capacity + (frameLine fields).length := by
    show (w.bytes ++ List.replicate _ 0).length = _
    rw [List.length_append, List.length_replicate]
    rfl
  have hcount : (w.lengthened (frameLine fields).length).bitCount = w.bitCount := rfl
  have hfits := BitWriter.overflow_writeFrame (w := w.lengthened (frameLine fields).length)
    (by rw [hcapacity, hcount]; omega) fields
  have ho := hfits.1.mpr ⟨rfl, by rw [hcapacity, hcount]; omega⟩
  have hlength := hfits.2 ho
  have hwcap : (w.writeFrame fields).capacity = w.capacity := by
    have hsame : InStep (fun a _ => a.capacity = w.capacity) := by
      refine ⟨fun a _ bit h => (a.capacity_writeRawBit bit).trans h, fun a _ h => ?_, fun _ _ h => h⟩
      split
      · exact (a.capacity_writeRawBit false).trans h
      · exact h
    exact hsame.writeFrame (v := w) rfl fields
  have hbits := hcut.bits
  rw [hwcap] at hbits
  refine ⟨?_, hbits⟩
  rw [hcut.bitCount, hlength, hcount, hwcap]

/-! ## Refusals -/

/-- The lengths that `[MAC]` §2.2.2 permits. -/
def FrameFields.legal (fields : FrameFields) : Bool :=
  headerLengthValid fields.header.length && dataLengthValid fields.data.length

theorem frameEmit_illegal {fields : FrameFields} (hlegal : fields.legal = false) (w : BitWriter) :
    frameEmit w fields = (false, w) := by
  unfold FrameFields.legal at hlegal
  rw [frameEmit, if_pos]
  cases hheader : headerLengthValid fields.header.length
  · rfl
  · rw [hheader, Bool.true_and] at hlegal
    rw [hlegal]
    rfl

theorem frameEmit_legal {fields : FrameFields} (hlegal : fields.legal = true) (w : BitWriter) :
    frameEmit w fields = (!(w.writeFrame fields).overflow, w.writeFrame fields) := by
  rw [FrameFields.legal, Bool.and_eq_true] at hlegal
  rw [frameEmit, hlegal.1, hlegal.2]
  rfl

/-- A writer on which an emission that fails leaves what it found: the lengths are refused, no bit fits,
or all of them do. -/
def BitWriter.EmitsWhole (w : BitWriter) (fields : FrameFields) : Prop :=
  fields.legal = true → w.bitCount < 8 * w.capacity →
    w.overflow = false ∧ w.bitCount + (frameLine fields).length ≤ 8 * w.capacity

theorem BitWriter.writeFrame_full {w : BitWriter} (hfull : 8 * w.capacity ≤ w.bitCount)
    (fields : FrameFields) :
    (w.writeFrame fields).bytes = w.bytes ∧ (w.writeFrame fields).bitCount = w.bitCount := by
  have hraw (a : BitWriter) (bit : Bool) (h : a.bytes = w.bytes ∧ a.bitCount = w.bitCount) :
      (a.writeRawBit bit).bytes = w.bytes ∧ (a.writeRawBit bit).bitCount = w.bitCount := by
    have hcapacity : a.capacity ≤ a.bitCount / 8 := by
      rw [capacity, h.1, h.2]
      show w.capacity ≤ _
      omega
    rw [writeRawBit_full hcapacity]
    exact h
  have hstep : InStep (fun a _ => a.bytes = w.bytes ∧ a.bitCount = w.bitCount) := by
    refine ⟨fun a _ bit h => hraw a bit h, fun a _ h => ?_, fun _ _ h => h⟩
    split
    · exact hraw a false h
    · exact h
  exact hstep.writeFrame (v := w) ⟨rfl, rfl⟩ fields

theorem length_frameLine_pos (fields : FrameFields) : 0 < (frameLine fields).length := by
  rw [frameLine, List.length_append]
  exact Nat.add_pos_left (by decide) _

/-- WHEN A FAILED EMISSION LEAVES THE WRITER. -/
theorem emits_whole_iff (w : BitWriter) (fields : FrameFields) :
    ((frameEmit w fields).1 = false →
      (frameEmit w fields).2.bytes = w.bytes ∧ (frameEmit w fields).2.bitCount = w.bitCount) ↔
      w.EmitsWhole fields := by
  cases hlegal : fields.legal with
  | false =>
    rw [frameEmit_illegal hlegal]
    exact ⟨fun _ h => (nomatch hlegal.symm.trans h), fun _ _ => ⟨rfl, rfl⟩⟩
  | true =>
    rw [frameEmit_legal hlegal, Bool.not_eq_false', BitWriter.EmitsWhole]
    by_cases hroom : w.bitCount < 8 * w.capacity
    · obtain ⟨hfits, -⟩ := BitWriter.overflow_writeFrame hroom.le fields
      constructor
      · intro hleft _ _
        rw [← hfits, ← Bool.not_eq_true]
        intro ho
        have hcount := (hleft ho).2
        have hlength := length_frameLine_pos fields
        rw [(BitWriter.writeFrame_cut hroom.le fields).1] at hcount
        omega
      · intro hwhole ho
        have hnot := hfits.mpr (hwhole hlegal hroom)
        exact nomatch ho.symm.trans hnot
    · have hfull := BitWriter.writeFrame_full (not_lt.mp hroom) fields
      exact ⟨fun _ _ h => absurd h hroom, fun _ _ => hfull⟩

theorem eq_of_packed {as bs : List Byte} (hlength : as.length = bs.length)
    (h : packed as (8 * as.length) = packed bs (8 * as.length)) : as = bs := by
  refine List.ext_getElem hlength fun i hi hi' => BitVec.eq_of_getLsbD_eq fun j hj => ?_
  have hplace : 8 * i + (7 - j) < 8 * as.length := by omega
  have hbit := congrArg (·[8 * i + (7 - j)]?) h
  simp only [packed, List.getElem?_map, List.getElem?_range hplace, Option.map_some, Option.some_inj] at hbit
  have hdiv : (8 * i + (7 - j)) / 8 = i := by omega
  have hmod : 7 - (8 * i + (7 - j)) % 8 = j := by omega
  rwa [bitAt, bitAt, hdiv, hmod, List.getD_eq_getElem _ _ hi, List.getD_eq_getElem _ _ hi'] at hbit

/-- THE BUFFER AFTER A FRAME THAT DOES NOT FIT holds the frame's first bits. -/
theorem packed_writeFrame_init {bytes : List Byte} {fields : FrameFields}
    (hlong : 8 * bytes.length < (frameLine fields).length) :
    packed ((BitWriter.init bytes).writeFrame fields).bytes (8 * bytes.length) =
      (frameLine fields).take (8 * bytes.length) := by
  have hcapacity : (BitWriter.init bytes).capacity = bytes.length := List.length_map ..
  have hroom : (BitWriter.init bytes).bitCount ≤ 8 * (BitWriter.init bytes).capacity := Nat.zero_le _
  obtain ⟨-, hbits⟩ := BitWriter.writeFrame_cut hroom fields
  rw [hcapacity] at hbits
  generalize hmore : (BitWriter.init bytes).lengthened (frameLine fields).length = long at hbits
  have hclean : long.Clean := by
    intro i hi
    rw [← hmore, BitWriter.bitAt_lengthened]
    exact BitWriter.clean_init bytes i (Nat.zero_le i)
  have hlongcap : long.capacity = bytes.length + (frameLine fields).length := by
    rw [← hmore, ← hcapacity]
    show ((BitWriter.init bytes).bytes ++ List.replicate (frameLine fields).length 0).length = _
    rw [List.length_append, List.length_replicate]
    rfl
  have hlongcount : long.bitCount = 0 := by rw [← hmore]; rfl
  have hlongflow : long.overflow = false := by rw [← hmore]; rfl
  obtain ⟨run, hwrote⟩ := BitWriter.wrote_writeFrame hclean (by rw [hlongcount]; exact Nat.zero_le _) fields
  have ho : (long.writeFrame fields).overflow = false :=
    hwrote.fits.mpr ⟨hlongflow, by rw [hlongcount, hlongcap]; omega⟩
  have hline := hwrote.line hclean ho
  have hcount := hwrote.bitCount hclean ho
  have hempty : long.line = [] := by rw [BitWriter.line, hlongcount]; rfl
  rw [hempty, List.nil_append, BitWriter.line, hcount, hlongcount, Nat.zero_add] at hline
  rw [packed_congr hbits, ← hline]
  unfold packed
  rw [← List.map_take, List.take_range, Nat.min_eq_left hlong.le]

/-- A station whose lent buffer a refusal of this frame leaves as it is. -/
def Station.RefusesWhole (s : Station) (fields : FrameFields) : Prop :=
  ∀ bytes, s.tx.bits = some bytes →
    if fields.legal then
      (frameLine fields).length ≤ 8 * bytes.length ∨
        packed bytes (8 * bytes.length) = (frameLine fields).take (8 * bytes.length)
    else ∀ byte ∈ bytes, byte = 0

/-- WHEN A REFUSED FRAME LEAVES THE STATION. -/
theorem refuses_whole_iff (s : Station) (fields : FrameFields) :
    ((s.queueFrame fields).1 = false → (s.queueFrame fields).2 = s) ↔ s.RefusesWhole fields := by
  unfold Station.RefusesWhole
  cases hbits : s.tx.bits with
  | none =>
    have hqueue : s.queueFrame fields = (false, s) := by rw [Station.queueFrame, hbits]
    rw [hqueue]
    exact ⟨fun _ _ h => (nomatch h), fun _ _ => rfl⟩
  | some bytes =>
    -- A refusal changes the buffer and nothing else.
    have hsame (w : BitWriter) (hemit : frameEmit (.init bytes) fields = (false, w)) :
        ((s.queueFrame fields).1 = false → (s.queueFrame fields).2 = s) ↔ w.bytes = bytes := by
      have hqueue : s.queueFrame fields = (false, { s with tx := { s.tx with bits := some w.bytes } }) := by
        rw [Station.queueFrame, hbits]
        dsimp only
        rw [hemit]
      rw [hqueue]
      constructor
      · intro h
        have htx := congrArg (fun s => s.tx.bits) (h rfl)
        rw [hbits] at htx
        exact Option.some_inj.mp htx
      · rintro rfl -
        show ({ s with tx := { s.tx with bits := some w.bytes } } : Station) = s
        rw [← hbits]
    simp only [Option.some_inj, forall_eq']
    cases hlegal : fields.legal with
    | false =>
      rw [hsame _ (frameEmit_illegal hlegal _), if_neg Bool.false_ne_true]
      show bytes.map (fun _ => 0) = bytes ↔ _
      rw [List.map_const', eq_comm, List.eq_replicate_iff]
      exact and_iff_right rfl
    | true =>
      rw [if_pos rfl]
      obtain hfits | hlong := Nat.lt_or_ge (8 * bytes.length) (frameLine fields).length |>.symm
      · have htrue : (s.queueFrame fields).1 = true := by
          have hemit := (frameEmit_init bytes fields).mpr
            ⟨(Bool.and_eq_true _ _ ▸ hlegal).1, (Bool.and_eq_true _ _ ▸ hlegal).2, hfits⟩
          rw [Station.queueFrame, hbits]
          dsimp only
          split
          · rename_i hfalse
            rw [hfalse] at hemit
            exact nomatch hemit
          · rfl
        exact ⟨fun _ => .inl hfits, fun _ h => nomatch htrue.symm.trans h⟩
      · have hflow : (BitWriter.init bytes |>.writeFrame fields).overflow = true := by
          rw [← Bool.not_eq_false]
          intro ho
          have hemit : (frameEmit (.init bytes) fields).1 = true := by
            rw [frameEmit_legal hlegal, ho]
            rfl
          exact absurd ((frameEmit_init bytes fields).mp hemit).2.2 (not_le.mpr hlong)
        have hemit : frameEmit (.init bytes) fields = (false, (BitWriter.init bytes).writeFrame fields) := by
          rw [frameEmit_legal hlegal, hflow]
          rfl
        have hlength : ((BitWriter.init bytes).writeFrame fields).bytes.length = bytes.length := by
          obtain ⟨run, hwrote⟩ := BitWriter.wrote_writeFrame (BitWriter.clean_init bytes) (Nat.zero_le _) fields
          exact hwrote.capacity.trans (List.length_map ..)
        have hheld := packed_writeFrame_init hlong
        rw [hsame _ hemit]
        constructor
        · intro heq
          rw [heq] at hheld
          exact .inr hheld
        · rintro (hfits | hsame)
          · exact absurd hfits (not_le.mpr hlong)
          · refine eq_of_packed hlength ?_
            rw [hlength, hheld, hsame]

/-- A REFUSED FRAME CHANGES NOTHING, of the station and of the buffer, exactly when the buffer already
holds what the refusal writes; and a failed emission leaves the writer exactly when no bit of it fits. -/
theorem refusal (s : Station) (w : BitWriter) (fields : FrameFields) :
    (((s.queueFrame fields).1 = false → (s.queueFrame fields).2 = s) ∧
      ((frameEmit w fields).1 = false →
        (frameEmit w fields).2.bytes = w.bytes ∧ (frameEmit w fields).2.bitCount = w.bitCount)) ↔
      s.RefusesWhole fields ∧ w.EmitsWhole fields :=
  and_congr (refuses_whole_iff s fields) (emits_whole_iff w fields)

/-- A station with a frame half driven, which a frame of eleven header bytes wipes out. -/
theorem refusal_untrue :
    ¬ ∀ (s : Station) (fields : FrameFields),
      (s.queueFrame fields).1 = false → (s.queueFrame fields).2 = s := by
  intro hclaim
  have hleft := hclaim
    { slot := 0, tx := { bits := some [0x7E, 0x80], bitCount := 16, bitPos := 3, armed := true } }
    { header := List.replicate 11 0, data := [], lateAcknowledge := 0 } (by decide)
  exact absurd hleft (by decide)

end Apollo.Ring
