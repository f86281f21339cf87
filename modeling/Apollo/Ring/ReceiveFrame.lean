import Apollo.Ring.FrameLine
import Apollo.Ring.Listen

/-!
# A frame, received

What the receive path makes of one frame on the line, bit by bit: `follow` runs
`Receiver.step` over a list of bits, with the characters taken from the history, and
`follow_frame` is the receiver a whole frame leaves and the line it sent on.

Away from characters the receiver is a machine over data bits behind a lazy destuffer
(`Receiver.destuffer`), so each sequence of the frame is followed over its data and not
over its line. A separator is seen with its ninth bit, when the first eight have gone
into the byte assembler: seven of them, since the eighth is a zero on a run of six and
is dropped as stuffed. A byte never comes of them (`follow_separator`).
-/

namespace Apollo.Ring

open Apollo.Lib

namespace Receiver

variable (stripping : Bool)

/-- One bit with the character that ends on it: the receiver behind it, and the bit sent
on. -/
def hear (r : Receiver) (symbol : Option Symbol) (bit : Bool) : Receiver × Bool :=
  ((r.step stripping symbol bit).1, (r.step stripping symbol bit).2.1)

/-- One bit that ends no character. -/
def listen (r : Receiver) (bit : Bool) : Receiver × Bool := r.hear stripping none bit

/-- One bit behind a history. -/
def follow (s : Receiver × List Bool) (bit : Bool) : (Receiver × List Bool) × Bool :=
  let heard := s.1.hear stripping ((endingChar (s.2 ++ [bit])).map Oob.symbol) bit
  ((heard.1, s.2 ++ [bit]), heard.2)

/-- One data bit. -/
def data (r : Receiver) (bit : Bool) : Receiver × Bool :=
  ((r.dataBit stripping bit).1, (r.dataBit stripping bit).2.1)

theorem follow_noChar {h bits : List Bool} (hno : NoChar h bits) (r : Receiver) :
    transduce (follow stripping) (r, h) bits =
      (((transduce (listen stripping) r bits).1, h ++ bits),
        (transduce (listen stripping) r bits).2) := by
  induction bits generalizing r h with
  | nil => simp only [transduce_nil, List.append_nil]
  | cons b bits ih =>
    have hstep : follow stripping (r, h) b = (((listen stripping r b).1, h ++ [b]),
        (listen stripping r b).2) := by
      simp only [follow, hno.head, Option.map_none, listen]
    rw [transduce_cons, transduce_cons, hstep, ih hno.tail, List.append_assoc, List.singleton_append]

theorem follow_symbolBits {h : List Bool} (hquiet : Quiet h) (c : Oob) {r r' : Receiver}
    (hlisten : transduce (listen stripping) r (symbolBits c.symbol).dropLast =
      (r', (symbolBits c.symbol).dropLast))
    (hpass : ∀ bit, (r'.hear stripping (some c.symbol) bit).2 = bit) :
    ∃ bit, transduce (follow stripping) (r, h) (symbolBits c.symbol) =
      (((r'.hear stripping (some c.symbol) bit).1, h ++ symbolBits c.symbol),
        symbolBits c.symbol) := by
  have hne : symbolBits c.symbol ≠ [] := fun hnil => by
    have := congrArg List.length hnil
    rw [length_symbolBits] at this
    cases this
  have hsplit := List.dropLast_append_getLast hne
  have hfirst := follow_noChar stripping (noChar_symbolBits hquiet c) r
  rw [hlisten] at hfirst
  refine ⟨(symbolBits c.symbol).getLast hne, ?_⟩
  have hlast : transduce (follow stripping) (r', h ++ (symbolBits c.symbol).dropLast)
      [(symbolBits c.symbol).getLast hne] =
      (((r'.hear stripping (some c.symbol) ((symbolBits c.symbol).getLast hne)).1,
        h ++ symbolBits c.symbol), [(symbolBits c.symbol).getLast hne]) := by
    simp only [transduce_cons, transduce_nil, follow, List.append_assoc, hsplit,
      endingChar_symbolBits, Option.map_some, hpass]
  have hall := transduce_append_eq hfirst hlast
  rwa [hsplit] at hall

/-! ## Between frames, and before the header -/

theorem listen_waiting {r : Receiver} (h : r.state = .idle ∨ r.state = .awaitSeparator)
    (bits : List Bool) : transduce (listen stripping) r bits = (r, bits) := by
  refine transduce_still fun b _ => ?_
  simp only [listen, hear, step, reduceCtorEq, if_false, false_and, if_pos h]

theorem hear_frameStart (r : Receiver) (bit : Bool) :
    r.hear stripping (some Oob.frameStart.symbol) bit = (r.frameStart, bit) := by
  simp only [hear, step, if_true]

theorem hear_separator {r : Receiver} (h : r.state ≠ .idle) (bit : Bool) :
    r.hear stripping (some Oob.separator.symbol) bit = (r.separator, bit) := by
  have hne : ¬ (some Oob.separator.symbol : Option Symbol) = some Oob.frameStart.symbol := by decide
  simp only [hear, step, if_neg hne, true_and, if_pos h]

theorem hear_token {r : Receiver} (h : r.state = .idle ∨ r.state = .awaitSeparator) {c : Oob}
    (hc : c = .freeToken ∨ c = .claimedToken) (bit : Bool) :
    r.hear stripping (some c.symbol) bit = (r, bit) := by
  have hstart : ¬ (some c.symbol : Option Symbol) = some Oob.frameStart.symbol := by
    rcases hc with rfl | rfl <;> decide
  have hsep : ¬ (some c.symbol : Option Symbol) = some Oob.separator.symbol := by
    rcases hc with rfl | rfl <;> decide
  simp only [hear, step, if_neg hstart, hsep, false_and, if_false, if_pos h]

/-! ## Data behind the destuffer -/

/-- The states that take data. -/
def TakesData (r : Receiver) : Prop := r.state ≠ .idle ∧ r.state ≠ .awaitSeparator

theorem listen_of_takesData {r : Receiver} (h : r.TakesData) (bit : Bool) :
    r.listen stripping bit =
      if stuffAfterOnes ≤ r.onesRun && !bit then
        ({ r with onesRun := if bit then unsignedSucc r.onesRun else 0 }, bit)
      else { r with onesRun := if bit then unsignedSucc r.onesRun else 0 }.data stripping bit := by
  have hstate : ¬ (r.state = .idle ∨ r.state = .awaitSeparator) := not_or.mpr h
  simp only [listen, hear, step, reduceCtorEq, if_false, false_and, if_neg hstate, data]
  split <;> rfl

/-- A change of the fields that no data bit of a sequence looks at: the run, the counters of
what was copied, and what the late acknowledge is made of. -/
structure Mask where
  run : Nat → Nat := id
  copied : Nat → Nat := id
  wacked : Nat → Nat := id
  error : Bool → Bool := id
  late : Byte → Byte := id

/-- A receiver behind such a change. -/
def masked (m : Mask) (r : Receiver) : Receiver :=
  { r with
    onesRun := m.run r.onesRun
    framesCopied := m.copied r.framesCopied
    framesWacked := m.wacked r.framesWacked
    frameError := m.error r.frameError
    late := m.late r.late }

/-- The run put back in. -/
def withRun (r : Receiver) (run : Nat) : Receiver := { r with onesRun := run }

theorem assemble_whole {r : Receiver} (h : r.bitCount = 7) (bit : Bool)
    (whole : Receiver → Byte → Receiver) :
    r.assemble bit whole = whole { r with byte := 0, bitCount := 0 } (shiftBit r.byte bit) :=
  if_pos (show r.bitCount + 1 = 8 by rw [h])

theorem assemble_part {r : Receiver} (h : r.bitCount ≠ 7) (bit : Bool)
    (whole : Receiver → Byte → Receiver) :
    r.assemble bit whole = { r with byte := shiftBit r.byte bit, bitCount := r.bitCount + 1 } :=
  if_neg (show ¬ r.bitCount + 1 = 8 by omega)

section Masked

variable (m : Mask) (r : Receiver) (byte : Byte) (bit : Bool)

theorem capture_masked : (r.masked m).capture byte =
    (r.capture byte).masked m := by
  unfold capture masked
  dsimp only
  split
  · rfl
  · split <;> rfl

theorem headerByte_masked : (r.masked m).headerByte byte =
    (r.headerByte byte).masked m := by
  have hdecision : ∀ r : Receiver,
      (if (r.masked m).header.length = 6 then
        (r.masked m).receiveDecision else r.masked m) =
        (if r.header.length = 6 then r.receiveDecision else r).masked m := by
    intro r
    rw [apply_ite (masked m)]
    rfl
  unfold headerByte
  dsimp only
  rw [show (if (r.masked m).header.length < 8 then
        { r.masked m with
          header := (r.masked m).header ++ [byte] }
        else r.masked m) =
      (if r.header.length < 8 then { r with header := r.header ++ [byte] } else r).masked
        m by
    rw [apply_ite (masked m)]
    rfl, capture_masked, hdecision]

theorem assemble_masked {whole : Receiver → Byte → Receiver}
    (hwhole : ∀ (r : Receiver) (byte : Byte), whole (r.masked m) byte =
      (whole r byte).masked m) :
    (r.masked m).assemble bit whole =
      (r.assemble bit whole).masked m := by
  have hcount : (r.masked m).bitCount = r.bitCount := rfl
  by_cases h : r.bitCount = 7
  · rw [assemble_whole (hcount.trans h), assemble_whole h]
    exact hwhole { r with byte := 0, bitCount := 0 } _
  · rw [assemble_part (by rwa [hcount]), assemble_part h]
    rfl

theorem headerOut_masked : (r.masked m).headerOut bit =
    ((r.headerOut bit).1.masked m, (r.headerOut bit).2) := by
  unfold headerOut masked
  dsimp only
  split
  · split
    · split <;> rfl
    · split <;> rfl
  · rfl

theorem fcsBit_masked : (r.masked m).fcsBit =
    r.fcsBit.masked m := by
  unfold fcsBit masked
  dsimp only
  split <;> rfl

theorem dataBit_masked (stripping stripping' : Bool) (hlate : r.state ≠ .late) :
    (r.masked m).dataBit stripping' bit =
      ((r.dataBit stripping bit).1.masked m, (r.dataBit stripping bit).2) := by
  have hstate : (r.masked m).state = r.state := rfl
  unfold dataBit
  rw [hstate]
  cases hr : r.state with
  | idle => rfl
  | awaitSeparator => rfl
  | header =>
    simp only [headerBit, headerOut_masked]
    rw [assemble_masked _ _ _ fun r byte => headerByte_masked m r byte]
  | body =>
    simp only [bodyBit]
    rw [assemble_masked _ _ _ fun r byte => capture_masked m r byte]
  | fcs => simp only [fcsBit_masked]
  | late => exact absurd hr hlate

end Masked

section WithRun

variable (r : Receiver) (run : Nat) (bit : Bool)

theorem lateBit_withRun : (r.withRun run).lateBit stripping bit =
    ((r.lateBit stripping bit).1.withRun run, (r.lateBit stripping bit).2) := by
  have hout : (r.withRun run).lateOut bit = r.lateOut bit := rfl
  unfold lateBit
  rw [hout]
  unfold withRun
  dsimp only
  split
  · split
    · split <;> rfl
    · rfl
  · rfl

theorem data_withRun : (r.withRun run).data stripping bit =
    ((r.data stripping bit).1.withRun run, (r.data stripping bit).2) := by
  unfold data
  by_cases hlate : r.state = .late
  · have hlate' : (r.withRun run).state = .late := hlate
    unfold dataBit
    rw [hlate', hlate]
    dsimp only
    rw [lateBit_withRun]
  · have h := dataBit_masked { run := fun _ => run } r bit stripping stripping hlate
    change (r.withRun run).dataBit stripping bit = ((r.dataBit stripping bit).1.withRun run, _) at h
    rw [h]

end WithRun

section Destuffer

variable (r : Receiver) (run : Nat) (hready : r.TakesData)
include hready

theorem listen_stuffed (hrun : stuffAfterOnes ≤ run) :
    (r.withRun run).listen stripping false = (r.withRun 0, false) := by
  have hdue : (stuffAfterOnes ≤ (r.withRun run).onesRun && !false) = true := by
    simp only [withRun, hrun, decide_true, Bool.not_false, Bool.and_true]
  rw [listen_of_takesData stripping (r := r.withRun run) hready, if_pos hdue]
  rfl

theorem listen_zero (hrun : run < stuffAfterOnes) :
    (r.withRun run).listen stripping false =
      ((r.data stripping false).1.withRun 0, (r.data stripping false).2) := by
  have hdue : ¬ (stuffAfterOnes ≤ (r.withRun run).onesRun && !false) = true := by
    simp only [withRun, Nat.not_le_of_lt hrun, decide_false, Bool.false_and, Bool.false_eq_true,
      not_false_eq_true]
  rw [listen_of_takesData stripping (r := r.withRun run) hready, if_neg hdue]
  exact data_withRun stripping r 0 false

theorem listen_one (hrun : run ≤ stuffAfterOnes) :
    (r.withRun run).listen stripping true =
      ((r.data stripping true).1.withRun (run + 1), (r.data stripping true).2) := by
  have hdue : ¬ (stuffAfterOnes ≤ (r.withRun run).onesRun && !true) = true := by
    simp only [Bool.not_true, Bool.and_false, Bool.false_eq_true, not_false_eq_true]
  have hsucc : unsignedSucc run = run + 1 := by
    simp only [stuffAfterOnes] at hrun
    exact Nat.mod_eq_of_lt (by omega)
  rw [listen_of_takesData stripping (r := r.withRun run) hready, if_neg hdue]
  have hone := data_withRun stripping r (run + 1) true
  rw [← hsucc] at hone ⊢
  exact hone

end Destuffer

/-- The receiver as a machine over data bits behind a lazy destuffer. -/
def destuffer : LazyDestuffer stuffAfterOnes Receiver where
  step := listen stripping
  data := data stripping
  withRun := withRun
  Ready := TakesData
  step_stuffed := listen_stuffed stripping
  step_zero := listen_zero stripping
  step_one := listen_one stripping

/-! ## Bytes -/

/-- The byte assembler put to a value. -/
def withByte (r : Receiver) (byte : Byte) (bitCount : Nat) : Receiver := { r with byte, bitCount }

/-- A machine that sends bits on by `out`, and assembles them into bytes for `whole`. -/
def assembling (out : Receiver → Bool → Receiver × Bool) (whole : Receiver → Byte → Receiver)
    (r : Receiver) (bit : Bool) : Receiver × Bool :=
  ((out r bit).1.assemble bit whole, (out r bit).2)

/-- A machine that has nothing to do with the assembler. -/
def KeepsByte (out : Receiver → Bool → Receiver × Bool) : Prop :=
  ∀ r bit byte bitCount, out (withByte r byte bitCount) bit =
    ((out r bit).1.withByte byte bitCount, (out r bit).2) ∧
      (out r bit).1.byte = r.byte ∧ (out r bit).1.bitCount = r.bitCount

section Assembling

variable {out : Receiver → Bool → Receiver × Bool} {whole : Receiver → Byte → Receiver}

theorem KeepsByte.transduce (hout : KeepsByte out) (r : Receiver) (byte : Byte) (bitCount : Nat)
    (bits : List Bool) : transduce out (r.withByte byte bitCount) bits =
      ((Lib.transduce out r bits).1.withByte byte bitCount, (Lib.transduce out r bits).2) := by
  induction bits generalizing r with
  | nil => rfl
  | cons b bits ih => rw [transduce_cons, (hout r b byte bitCount).1, ih, transduce_cons]

theorem transduce_assembling_part (hout : KeepsByte out) (whole : Receiver → Byte → Receiver)
    {r : Receiver} (bits : List Bool) (hlen : r.bitCount + bits.length < 8) :
    transduce (assembling out whole) r bits =
      ((transduce out r bits).1.withByte (shiftIn r.byte bits) (r.bitCount + bits.length),
        (transduce out r bits).2) := by
  induction bits generalizing r with
  | nil => rfl
  | cons b bits ih =>
    obtain ⟨-, hbyte, hcount⟩ := hout r b 0 0
    rw [List.length_cons] at hlen
    have hstep : assembling out whole r b =
        ((out r b).1.withByte (shiftBit r.byte b) (r.bitCount + 1), (out r b).2) := by
      rw [assembling, assemble_part (by rw [hcount]; omega), hbyte, hcount]
      rfl
    have hrest := ih (r := (out r b).1.withByte (shiftBit r.byte b) (r.bitCount + 1)) (by
      simp only [withByte]
      omega)
    rw [hout.transduce] at hrest
    rw [transduce_cons, hstep, hrest, transduce_cons, List.length_cons]
    simp only [withByte, Prod.mk.injEq, and_true]
    congr 1
    omega

theorem transduce_assembling_byte (hout : KeepsByte out) {r : Receiver} (hbyte : r.byte = 0)
    (hcount : r.bitCount = 0) (byte : Byte) :
    transduce (assembling out whole) r (msbBits 8 byte.toNat) =
      (whole ((transduce out r (msbBits 8 byte.toNat)).1.withByte 0 0) byte,
        (transduce out r (msbBits 8 byte.toNat)).2) := by
  obtain ⟨bits, b, hsplit⟩ : ∃ bits b, msbBits 8 byte.toNat = bits ++ [b] :=
    ⟨_, _, (List.dropLast_append_getLast (fun hnil => by
      have := congrArg List.length hnil
      rw [length_msbBits] at this
      cases this)).symm⟩
  have hlen : bits.length = 7 := by
    have := congrArg List.length hsplit
    rw [length_msbBits, List.length_append, List.length_singleton] at this
    omega
  have hvalue : shiftBit (shiftIn 0 bits) b = byte := by
    have hall : shiftBit (shiftIn 0 bits) b = shiftIn (0 : Byte) (bits ++ [b]) := by
      simp only [shiftIn, shiftBit, List.foldl_append, List.foldl_cons, List.foldl_nil]
    rw [hall, ← hsplit, shiftIn_zero, ofMsbBits_msbBits_of_lt byte.isLt, BitVec.ofNat_toNat,
      BitVec.setWidth_eq]
  have hpart := transduce_assembling_part hout whole (r := r) bits (by omega)
  obtain ⟨hkeep, -, -⟩ := hout (transduce out r bits).1 b (shiftIn 0 bits) 7
  have hlast : transduce (assembling out whole)
      ((transduce out r bits).1.withByte (shiftIn 0 bits) 7) [b] =
      (whole ((out (transduce out r bits).1 b).1.withByte 0 0) byte,
        [(out (transduce out r bits).1 b).2]) := by
    rw [transduce_cons, transduce_nil, assembling, hkeep, assemble_whole rfl]
    simp only [withByte, hvalue]
  rw [hbyte, hcount, hlen, Nat.zero_add] at hpart
  rw [hsplit, transduce_append_eq hpart hlast, transduce_append]
  rfl

/-- A whole byte, as one step. -/
def byteStep (out : Receiver → Bool → Receiver × Bool) (whole : Receiver → Byte → Receiver)
    (r : Receiver) (byte : Byte) : Receiver × List Bool :=
  (whole ((transduce out r (msbBits 8 byte.toNat)).1.withByte 0 0) byte,
    (transduce out r (msbBits 8 byte.toNat)).2)

theorem transduce_assembling_bytes (hout : KeepsByte out) (whole : Receiver → Byte → Receiver)
    (hwhole : ∀ r byte, (whole r byte).byte = r.byte ∧ (whole r byte).bitCount = r.bitCount)
    {r : Receiver} (hbyte : r.byte = 0) (hcount : r.bitCount = 0) (bytes : List Byte) :
    transduce (assembling out whole) r (bytesBits bytes) =
      ((transduce (byteStep out whole) r bytes).1,
        (transduce (byteStep out whole) r bytes).2.flatten) := by
  induction bytes generalizing r with
  | nil => rfl
  | cons byte bytes ih =>
    obtain ⟨hbyte', hcount'⟩ := hwhole ((transduce out r (msbBits 8 byte.toNat)).1.withByte 0 0) byte
    rw [bytesBits_cons, transduce_append, transduce_assembling_byte hout hbyte hcount,
      ih hbyte' hcount', transduce_cons, List.flatten_cons]
    rfl

end Assembling

/-! ## The capture -/

/-- What a capture leaves in the lent memory. -/
def stored (capacity : Nat) (bytes memory : List Byte) : List Byte :=
  bytes.take capacity ++ memory.drop (min capacity bytes.length)

/-- The lent memory has the capacity it was lent for. -/
def Lent (r : Receiver) : Prop := ∀ memory, r.buffer = some memory → r.capacity ≤ memory.length

theorem set_stored {capacity : Nat} {bytes memory : List Byte} (hmem : capacity ≤ memory.length)
    (hroom : bytes.length < capacity) (byte : Byte) :
    (stored capacity bytes memory).set bytes.length byte = stored capacity (bytes ++ [byte]) memory := by
  unfold stored
  have hdrop : memory.drop bytes.length = memory[bytes.length] :: memory.drop (bytes.length + 1) :=
    List.drop_eq_getElem_cons (by omega)
  have hlong : (bytes ++ [byte]).length = bytes.length + 1 := List.length_append ..
  rw [List.take_of_length_le hroom.le, Nat.min_eq_right hroom.le,
    List.take_of_length_le (hlong ▸ hroom), hlong, Nat.min_eq_right hroom,
    List.set_append_right _ _ le_rfl, Nat.sub_self, hdrop, List.set_cons_zero, List.append_assoc,
    List.singleton_append]

theorem foldl_capture {r : Receiver} (hmem : r.Lent) (hbytes : r.bytes = 0)
    (hover : r.overrun = false) (bytes : List Byte) :
    bytes.foldl capture r =
      { r with
        buffer := r.buffer.map (stored r.capacity bytes)
        bytes := min r.capacity bytes.length
        overrun := r.buffer.isSome && decide (r.capacity < bytes.length) } := by
  induction bytes using List.reverseRecOn with
  | nil =>
    have hstored : ∀ memory, stored r.capacity [] memory = memory := fun memory => by
      simp only [stored, List.take_nil, List.length_nil, Nat.min_zero, List.drop_zero,
        List.nil_append]
    cases r with
    | mk =>
      simp only [Option.map_congr fun m _ => hstored m] at hbytes hover ⊢
      subst hbytes hover
      simp
  | append_singleton bytes byte ih =>
    rw [List.foldl_append, List.foldl_cons, List.foldl_nil, ih, List.length_append,
      List.length_singleton]
    unfold capture
    dsimp only
    by_cases hroom : bytes.length < r.capacity
    · have hmin : min r.capacity bytes.length = bytes.length := Nat.min_eq_right hroom.le
      have hmin' : min r.capacity (bytes.length + 1) = bytes.length + 1 := Nat.min_eq_right hroom
      have hfits : ¬ r.capacity < bytes.length := Nat.not_lt_of_le hroom.le
      have hfits' : ¬ r.capacity < bytes.length + 1 := Nat.not_lt_of_le hroom
      have hset : (r.buffer.map (stored r.capacity bytes)).map (·.set bytes.length byte) =
          r.buffer.map (stored r.capacity (bytes ++ [byte])) := by
        cases hbuffer : r.buffer with
        | none => rfl
        | some memory =>
          simp only [Option.map_some, set_stored (hmem memory hbuffer) hroom]
      rw [hmin, if_pos hroom, hset, hmin']
      simp only [hfits, hfits', decide_false, Bool.and_false]
    · have hcap : r.capacity ≤ bytes.length := Nat.le_of_not_lt hroom
      have hmin : min r.capacity bytes.length = r.capacity := Nat.min_eq_left hcap
      have hmin' : min r.capacity (bytes.length + 1) = r.capacity := Nat.min_eq_left (by omega)
      have hsame : stored r.capacity (bytes ++ [byte]) = stored r.capacity bytes := by
        funext memory
        rw [stored, stored, List.take_append_of_le_length hcap, List.length_append,
          List.length_singleton, hmin, hmin']
      rw [hmin, if_neg (lt_irrefl _), hmin', hsame]
      have hfull : r.capacity < bytes.length + 1 := by omega
      cases hbuffer : r.buffer with
      | none => simp only [Option.map_none, Option.isSome_none, Bool.false_eq_true, if_false,
          Bool.false_and]
      | some memory => simp only [Option.map_some, Option.isSome_some, if_true, Bool.true_and,
          hfull, decide_true]

/-! ## The packet header sequence -/

theorem capture_eq (r : Receiver) (byte : Byte) : r.capture byte =
    { r with
      buffer := (r.capture byte).buffer
      bytes := (r.capture byte).bytes
      overrun := (r.capture byte).overrun } := by
  unfold capture
  split
  · rfl
  · split <;> rfl

theorem foldl_capture_eq (r : Receiver) (bytes : List Byte) : bytes.foldl capture r =
    { r with
      buffer := (bytes.foldl capture r).buffer
      bytes := (bytes.foldl capture r).bytes
      overrun := (bytes.foldl capture r).overrun } := by
  induction bytes generalizing r with
  | nil => rfl
  | cons byte bytes ih =>
    rw [List.foldl_cons, ih, capture_eq]

theorem receiveDecision_eq (r : Receiver) : r.receiveDecision =
    { r with
      addressed := headerAddresses r.header r.address
      framesAddressed :=
        if headerAddresses r.header r.address then r.framesAddressed + 1 else r.framesAddressed } := by
  have hdecision : (headerType r.header &&& typeBroadcast != 0 ||
      readBe32 r.header hdrDestination == r.address) = headerAddresses r.header r.address := by
    unfold headerAddresses headerDestination
    by_cases h : headerType r.header &&& typeBroadcast = 0
    · rw [if_neg (not_not.mpr h), h, bne_self_eq_false, Bool.false_or]
    · rw [if_pos h, bne_iff_ne.mpr h, Bool.true_or]
  unfold receiveDecision
  change { r with
      addressed := (headerType r.header &&& typeBroadcast != 0 ||
        readBe32 r.header hdrDestination == r.address)
      framesAddressed := if (headerType r.header &&& typeBroadcast != 0 ||
        readBe32 r.header hdrDestination == r.address) then r.framesAddressed + 1
          else r.framesAddressed } = _
  rw [hdecision]

theorem headerAddresses_append {bytes : List Byte} (hlen : 6 ≤ bytes.length) (rest : List Byte)
    (address : BitVec 32) :
    headerAddresses (bytes ++ rest) address = headerAddresses bytes address := by
  have hget : ∀ i < 6, (bytes ++ rest).getD i 0 = bytes.getD i 0 := fun i hi =>
    List.getD_append _ _ _ _ (by omega)
  simp only [headerAddresses, headerType, headerDestination, readBe32, hdrType, hdrDestination,
    Nat.zero_add, Nat.reduceAdd, hget 0 (by decide), hget 1 (by decide), hget 2 (by decide),
    hget 3 (by decide), hget 4 (by decide), hget 5 (by decide)]

theorem capture_withHeader (r : Receiver) (header : List Byte) (addressed : Bool)
    (framesAddressed : Nat) (byte : Byte) :
    ({ r with header, addressed, framesAddressed } : Receiver).capture byte =
      { r.capture byte with header, addressed, framesAddressed } := by
  unfold capture
  dsimp only
  split
  · rfl
  · split <;> rfl

/-- The station is addressed by the header bytes so far. -/
def addressedBy (address : BitVec 32) (bytes : List Byte) : Bool :=
  6 ≤ bytes.length && headerAddresses bytes address

theorem foldl_headerByte {r : Receiver} (hheader : r.header = []) (haddressed : r.addressed = false)
    (bytes : List Byte) : bytes.foldl headerByte r =
      { bytes.foldl capture r with
        header := bytes.take 8
        addressed := addressedBy r.address bytes
        framesAddressed :=
          if addressedBy r.address bytes then r.framesAddressed + 1 else r.framesAddressed } := by
  induction bytes using List.reverseRecOn with
  | nil =>
    cases r with
    | mk =>
      simp only at hheader haddressed
      subst hheader haddressed
      rfl
  | append_singleton bytes byte ih =>
    have hlen : (bytes ++ [byte]).length = bytes.length + 1 := List.length_append ..
    rw [List.foldl_append, List.foldl_cons, List.foldl_nil, ih, List.foldl_append, List.foldl_cons,
      List.foldl_nil]
    have hpush : ∀ r' : Receiver, r'.header = bytes.take 8 →
        (if r'.header.length < 8 then { r' with header := r'.header ++ [byte] } else r') =
          { r' with header := (bytes ++ [byte]).take 8 } := by
      intro r' hr'
      rw [hr', List.length_take]
      by_cases hshort : bytes.length < 8
      · rw [if_pos (by omega), List.take_of_length_le hshort.le, List.take_of_length_le (by omega)]
      · rw [if_neg (by omega), List.take_append_of_le_length (by omega), ← hr']
    have haddress : (bytes.foldl capture r).address = r.address := by rw [foldl_capture_eq]
    unfold headerByte
    rw [hpush _ rfl]
    dsimp only
    rw [capture_withHeader]
    dsimp only
    have hcount : ((bytes ++ [byte]).take 8).length = 6 ↔ bytes.length = 5 := by
      rw [List.length_take, hlen]
      omega
    by_cases hsix : bytes.length = 5
    · -- the sixth byte decides
      have htake : (bytes ++ [byte]).take 8 = bytes ++ [byte] :=
        List.take_of_length_le (by omega)
      have hnew : addressedBy r.address (bytes ++ [byte]) =
          headerAddresses (bytes ++ [byte]) r.address := by
        simp only [addressedBy, hlen, hsix, Nat.reduceAdd, le_refl, decide_true, Bool.true_and]
      have hold : addressedBy r.address bytes = false := by
        simp only [addressedBy, hsix, Nat.reduceLeDiff, decide_false, Bool.false_and]
      rw [if_pos (hcount.mpr hsix), receiveDecision_eq, capture_eq]
      dsimp only
      rw [haddress, htake, hnew, hold]
      rfl
    · have hsame : addressedBy r.address (bytes ++ [byte]) = addressedBy r.address bytes := by
        unfold addressedBy
        rw [hlen]
        by_cases hlong : 6 ≤ bytes.length
        · rw [headerAddresses_append hlong, decide_eq_true hlong, decide_eq_true (by omega)]
        · rw [decide_eq_false hlong, decide_eq_false (by omega), Bool.false_and, Bool.false_and]
      rw [if_neg (fun h => hsix (hcount.mp h)), hsame]

/-- What an addressed station makes of the early acknowledge. -/
def earlySent (field : Byte) : Byte :=
  if field.getLsbD 3 then field else (field ||| earlyIntendToCopy) ^^^ earlyParity

/-- The header as it is sent on. -/
def headerSent (addressed : Bool) (header : List Byte) : List Byte :=
  if addressed then header.modify hdrEarlyAck earlySent else header

theorem headerSent_short (addressed : Bool) {header : List Byte}
    (hlen : header.length ≤ hdrEarlyAck) : headerSent addressed header = header := by
  cases addressed with
  | false => rfl
  | true => exact List.modify_eq_self hlen

theorem addressedBy_concat {bytes : List Byte} (hlen : 6 ≤ bytes.length) (address : BitVec 32)
    (byte : Byte) : addressedBy address (bytes ++ [byte]) = addressedBy address bytes := by
  unfold addressedBy
  rw [headerAddresses_append hlen, List.length_append, List.length_singleton, decide_eq_true hlen,
    decide_eq_true (by omega)]

theorem headerSent_concat (address : BitVec 32) (bytes : List Byte) (byte : Byte) :
    headerSent (addressedBy address (bytes ++ [byte])) (bytes ++ [byte]) =
      headerSent (addressedBy address bytes) bytes ++
        [if addressedBy address bytes = true ∧ bytes.length = hdrEarlyAck then earlySent byte
          else byte] := by
  by_cases hlong : 6 ≤ bytes.length
  · rw [addressedBy_concat hlong]
    cases addressedBy address bytes with
    | false => simp only [headerSent, Bool.false_eq_true, if_false, false_and]
    | true => simp only [headerSent, if_true, true_and, modify_concat]
  · have hne : ¬ (addressedBy address bytes = true ∧ bytes.length = hdrEarlyAck) := by
      rintro ⟨-, hlen⟩
      exact hlong (by rw [hlen]; decide)
    have hshort : bytes.length + 1 ≤ hdrEarlyAck := by
      simp only [hdrEarlyAck]
      omega
    rw [headerSent_short _ (by rwa [List.length_append, List.length_singleton]),
      headerSent_short _ (by omega), if_neg hne]

/-- The header's counters behind `n` bits of it. -/
def withEarly (r : Receiver) (headerBits : Nat) (flippedParity : Bool) : Receiver :=
  { r with headerBits, flippedParity }

theorem keepsByte_headerOut : KeepsByte headerOut := by
  intro r bit byte bitCount
  unfold headerOut withByte
  dsimp only
  split
  · split
    · split <;> exact ⟨rfl, rfl, rfl⟩
    · split <;> exact ⟨rfl, rfl, rfl⟩
  · exact ⟨rfl, rfl, rfl⟩

theorem transduce_headerOut_pass {r : Receiver} (bits : List Bool)
    (hsmall : r.headerBits + bits.length < 2 ^ 32)
    (hpass : r.addressed = false ∨ r.headerBits + bits.length ≤ 56 ∨ 64 ≤ r.headerBits) :
    transduce headerOut r bits =
      (r.withEarly (r.headerBits + bits.length) r.flippedParity, bits) := by
  induction bits generalizing r with
  | nil => rfl
  | cons b bits ih =>
    rw [List.length_cons] at hsmall hpass
    have hsucc : unsignedSucc r.headerBits = r.headerBits + 1 := Nat.mod_eq_of_lt (by omega)
    have hskip : ¬ (r.addressed && 56 ≤ r.headerBits && decide (r.headerBits < 64)) = true := by
      simp only [Bool.and_eq_true, decide_eq_true_eq]
      rintro ⟨⟨haddr, hlow⟩, hhigh⟩
      rcases hpass with hno | hbefore | hbehind
      · rw [haddr] at hno
        cases hno
      · omega
      · omega
    have hstep : headerOut r b = (r.withEarly (r.headerBits + 1) r.flippedParity, b) := by
      unfold headerOut
      dsimp only
      rw [if_neg hskip, hsucc]
      rfl
    have hrest := ih (r := r.withEarly (r.headerBits + 1) r.flippedParity)
      (by simp only [withEarly]; omega)
      (by
        simp only [withEarly]
        rcases hpass with hno | hbefore | hbehind
        · exact .inl hno
        · exact .inr (.inl (by omega))
        · exact .inr (.inr (by omega)))
    rw [transduce_cons, hstep, hrest, List.length_cons]
    simp only [withEarly]
    rw [Nat.add_right_comm, Nat.add_assoc]

theorem msbBits_byte (byte : Byte) : msbBits 8 byte.toNat =
    [byte.getLsbD 7, byte.getLsbD 6, byte.getLsbD 5, byte.getLsbD 4, byte.getLsbD 3,
      byte.getLsbD 2, byte.getLsbD 1, byte.getLsbD 0] := rfl

theorem msbBits_earlySent (field : Byte) : msbBits 8 (earlySent field).toNat =
    [field.getLsbD 7, field.getLsbD 6, field.getLsbD 5, field.getLsbD 4, true, field.getLsbD 2,
      field.getLsbD 1 ^^ !field.getLsbD 3, field.getLsbD 0] := by
  have key : ∀ n < 256, msbBits 8 (earlySent (BitVec.ofNat 8 n)).toNat =
      [(BitVec.ofNat 8 n).getLsbD 7, (BitVec.ofNat 8 n).getLsbD 6, (BitVec.ofNat 8 n).getLsbD 5,
        (BitVec.ofNat 8 n).getLsbD 4, true, (BitVec.ofNat 8 n).getLsbD 2,
        (BitVec.ofNat 8 n).getLsbD 1 ^^ !(BitVec.ofNat 8 n).getLsbD 3,
        (BitVec.ofNat 8 n).getLsbD 0] := by decide +kernel
  have h := key field.toNat field.isLt
  rwa [BitVec.ofNat_toNat, BitVec.setWidth_eq] at h

theorem transduce_headerOut_early {r : Receiver} (haddressed : r.addressed = true)
    (hbits : r.headerBits = 56) (hflipped : r.flippedParity = false) (field : Byte) :
    transduce headerOut r (msbBits 8 field.toNat) =
      (r.withEarly 64 (!field.getLsbD 3), msbBits 8 (earlySent field).toNat) := by
  have hsucc : ∀ n < 64, unsignedSucc n = n + 1 := fun n hn => Nat.mod_eq_of_lt (by omega)
  have hpass : ∀ n flipped bit, 56 ≤ n → n < 64 → n ≠ 60 → n ≠ 62 →
      (r.withEarly n flipped).headerOut bit = (r.withEarly (n + 1) flipped, bit) := by
    intro n flipped bit hlow hhigh hfour hsix
    have hbit3 : ¬ n - 56 = 4 := by omega
    have hbit1 : ¬ n - 56 = 6 := by omega
    simp only [headerOut, withEarly, haddressed, hlow, hhigh, hsucc n hhigh, hbit3, hbit1,
      decide_true, decide_false, Bool.and_self, Bool.false_and, Bool.false_eq_true, if_true,
      if_false]
  have hcopy : ∀ bit, (r.withEarly 60 false).headerOut bit = (r.withEarly 61 (!bit), true) := by
    intro bit
    cases bit <;> simp only [headerOut, withEarly, haddressed, hsucc 60 (by decide)] <;> rfl
  have hparity : ∀ flipped bit,
      (r.withEarly 62 flipped).headerOut bit = (r.withEarly 63 flipped, bit ^^ flipped) := by
    intro flipped bit
    cases bit <;> cases flipped <;>
      simp only [headerOut, withEarly, haddressed, hsucc 62 (by decide)] <;> rfl
  have hstart : r = r.withEarly 56 false := by rw [← hbits, ← hflipped]; rfl
  rw [msbBits_earlySent, msbBits_byte, hstart]
  simp only [transduce_cons, transduce_nil, hcopy, hparity, hpass 56 _ _ (by decide) (by decide)
    (by decide) (by decide), hpass 57 _ _ (by decide) (by decide) (by decide) (by decide),
    hpass 58 _ _ (by decide) (by decide) (by decide) (by decide),
    hpass 59 _ _ (by decide) (by decide) (by decide) (by decide),
    hpass 61 _ _ (by decide) (by decide) (by decide) (by decide),
    hpass 63 _ _ (by decide) (by decide) (by decide) (by decide), Nat.reduceAdd]
  rfl

theorem foldl_capture_withEarly (r : Receiver) (headerBits : Nat) (flippedParity : Bool)
    (bytes : List Byte) : bytes.foldl capture (r.withEarly headerBits flippedParity) =
      (bytes.foldl capture r).withEarly headerBits flippedParity := by
  have hone : ∀ (r : Receiver) (byte : Byte),
      (r.withEarly headerBits flippedParity).capture byte =
        (r.capture byte).withEarly headerBits flippedParity := by
    intro r byte
    unfold capture withEarly
    dsimp only
    split
    · rfl
    · split <;> rfl
  induction bytes generalizing r with
  | nil => rfl
  | cons byte bytes ih => rw [List.foldl_cons, hone, ih, List.foldl_cons]

section Header

variable {r : Receiver} (hheader : r.header = []) (haddressed : r.addressed = false)
include hheader haddressed

theorem foldl_headerByte_withEarly (headerBits : Nat) (flippedParity : Bool) (bytes : List Byte) :
    bytes.foldl headerByte (r.withEarly headerBits flippedParity) =
      (bytes.foldl headerByte r).withEarly headerBits flippedParity := by
  rw [foldl_headerByte (r := r.withEarly headerBits flippedParity) hheader haddressed,
    foldl_headerByte hheader haddressed, foldl_capture_withEarly]
  rfl

theorem foldl_headerByte_same (bytes : List Byte) :
    (bytes.foldl headerByte r).byte = r.byte ∧ (bytes.foldl headerByte r).bitCount = r.bitCount ∧
      (bytes.foldl headerByte r).headerBits = r.headerBits ∧
      (bytes.foldl headerByte r).flippedParity = r.flippedParity ∧
      (bytes.foldl headerByte r).addressed = addressedBy r.address bytes := by
  rw [foldl_headerByte hheader haddressed, foldl_capture_eq]
  exact ⟨rfl, rfl, rfl, rfl, rfl⟩

/-- THE HEADER SEQUENCE, byte by byte: every byte is captured and pushed, and the early
acknowledge is rewritten in an addressed station. -/
theorem transduce_header (hflipped : r.flippedParity = false) (hbits : r.headerBits = 0)
    (hbyte : r.byte = 0) (hcount : r.bitCount = 0) (bytes : List Byte)
    (hsmall : 8 * bytes.length < 2 ^ 32) :
    ∃ flipped, (bytes.length ≤ hdrEarlyAck → flipped = false) ∧
      (transduce (byteStep headerOut headerByte) r bytes).1 =
        bytes.foldl headerByte (r.withEarly (8 * bytes.length) flipped) ∧
      (transduce (byteStep headerOut headerByte) r bytes).2.flatten =
        bytesBits (headerSent (addressedBy r.address bytes) bytes) := by
  induction bytes using List.reverseRecOn with
  | nil =>
    refine ⟨false, fun _ => rfl, ?_, ?_⟩
    · rw [transduce_nil, List.foldl_nil, List.length_nil, Nat.mul_zero, ← hflipped, ← hbits]
      rfl
    · rfl
  | append_singleton bytes byte ih =>
    have hlen : (bytes ++ [byte]).length = bytes.length + 1 := List.length_append ..
    obtain ⟨flipped, hearly, hstate, hout⟩ := ih (by omega)
    obtain ⟨xs, hxs⟩ : ∃ xs, transduce (byteStep headerOut headerByte) r bytes =
        (bytes.foldl headerByte (r.withEarly (8 * bytes.length) flipped), xs) :=
      ⟨_, Prod.ext hstate rfl⟩
    have hfold := foldl_headerByte_withEarly hheader haddressed (8 * bytes.length) flipped bytes
    obtain ⟨hbyte', hcount', -, -, haddr'⟩ := foldl_headerByte_same hheader haddressed bytes
    -- whatever the bits did to the counters, the byte is handed on
    have hnext : ∀ flipped' ys, transduce headerOut
          (bytes.foldl headerByte (r.withEarly (8 * bytes.length) flipped))
          (msbBits 8 byte.toNat) =
          ((bytes.foldl headerByte (r.withEarly (8 * bytes.length) flipped)).withEarly
            (8 * bytes.length + 8) flipped', ys) →
        transduce (byteStep headerOut headerByte) r (bytes ++ [byte]) =
          ((bytes ++ [byte]).foldl headerByte (r.withEarly (8 * (bytes.length + 1)) flipped'),
            xs ++ [ys]) := by
      intro flipped' ys htake
      refine transduce_append_eq hxs ?_
      rw [transduce_cons, transduce_nil, byteStep, htake, List.foldl_append, List.foldl_cons,
        List.foldl_nil,
        foldl_headerByte_withEarly hheader haddressed (8 * (bytes.length + 1)) flipped', hfold]
      have hclean : ((bytes.foldl headerByte r).withEarly (8 * (bytes.length + 1)) flipped').withByte
          0 0 = (bytes.foldl headerByte r).withEarly (8 * (bytes.length + 1)) flipped' := by
        simp only [withByte, withEarly, ← hbyte, ← hcount, ← hbyte', ← hcount']
      rw [← hclean]
      rfl
    have hbits' : (bytes.foldl headerByte (r.withEarly (8 * bytes.length) flipped)).headerBits =
        8 * bytes.length := by rw [hfold]; rfl
    have hflipped' : (bytes.foldl headerByte
        (r.withEarly (8 * bytes.length) flipped)).flippedParity = flipped := by rw [hfold]; rfl
    have haddr : (bytes.foldl headerByte (r.withEarly (8 * bytes.length) flipped)).addressed =
        addressedBy r.address bytes := by rw [hfold]; exact haddr'
    rw [headerSent_concat, bytesBits_append, ← hout, hxs, hlen]
    by_cases hack : addressedBy r.address bytes = true ∧ bytes.length = hdrEarlyAck
    · obtain ⟨hmine, hseven⟩ := hack
      have hfirst := hearly hseven.le
      have hstep := transduce_headerOut_early
        (r := bytes.foldl headerByte (r.withEarly (8 * bytes.length) flipped))
        (haddr.trans hmine) (by rw [hbits', hseven]; rfl) (hflipped'.trans hfirst) byte
      have hall := hnext (!byte.getLsbD 3) _ (by rw [hstep, hseven]; rfl)
      refine ⟨_, fun hle => absurd hle (by rw [hseven]; decide), congrArg Prod.fst hall, ?_⟩
      rw [hall, if_pos ⟨hmine, hseven⟩]
      simp only [List.flatten_append, List.flatten_cons, List.flatten_nil, List.append_nil,
        bytesBits_cons, bytesBits_nil]
    · have hstep := transduce_headerOut_pass
        (r := bytes.foldl headerByte (r.withEarly (8 * bytes.length) flipped))
        (msbBits 8 byte.toNat) (by rw [hbits', length_msbBits]; omega)
        (by
          rw [hbits', length_msbBits, haddr]
          cases hmine : addressedBy r.address bytes with
          | false => exact .inl rfl
          | true =>
            have hne : bytes.length ≠ 7 := fun h => hack ⟨hmine, h⟩
            right
            omega)
      rw [hbits', length_msbBits, hflipped'] at hstep
      have hall := hnext flipped _ hstep
      refine ⟨flipped, fun hle => hearly (by omega), congrArg Prod.fst hall, ?_⟩
      rw [hall, if_neg hack]
      simp only [List.flatten_append, List.flatten_cons, List.flatten_nil, List.append_nil,
        bytesBits_cons, bytesBits_nil]

end Header

end Receiver

end Apollo.Ring
