import Apollo.Device.I8254

/-!
# The count register of an 8254 counter

A count is written a byte at a time into the register that the counting element is loaded from.
`countOf` says, from the bytes alone, which count was last written whole, and `Assembled` says what
that makes of the register: the whole count, unless the first of two bytes has already gone over its
low byte. Nothing but a write or a control word touches it (`SameProgram`).
-/

namespace Apollo.Device

/-! ## Whole counts -/

/-- A word of two bytes. -/
def twoBytes (high low : BitVec 8) : BitVec 16 := high ++ low

theorem getLsbD_twoBytes (high low : BitVec 8) (i : Nat) :
    (twoBytes high low).getLsbD i = if i < 8 then low.getLsbD i else high.getLsbD (i - 8) :=
  BitVec.getLsbD_append


theorem twoBytes_low (high low b : BitVec 8) :
    twoBytes high low &&& 0xFF00 ||| b.setWidth 16 = twoBytes high b := by
  apply BitVec.eq_of_getLsbD_eq
  intro i hi
  rw [BitVec.getLsbD_or, BitVec.getLsbD_and, getLsbD_twoBytes, getLsbD_twoBytes, BitVec.getLsbD_setWidth]
  interval_cases i <;> simp

theorem twoBytes_high (high low b : BitVec 8) :
    twoBytes high low &&& 0x00FF ||| b.setWidth 16 <<< 8 = twoBytes b low := by
  apply BitVec.eq_of_getLsbD_eq
  intro i hi
  rw [BitVec.getLsbD_or, BitVec.getLsbD_and, getLsbD_twoBytes, getLsbD_twoBytes, BitVec.getLsbD_shiftLeft, BitVec.getLsbD_setWidth]
  interval_cases i <;> simp

theorem exists_twoBytes (word : BitVec 16) : ∃ high low : BitVec 8, word = twoBytes high low := by
  refine ⟨(word >>> 8).setWidth 8, word.setWidth 8, ?_⟩
  apply BitVec.eq_of_getLsbD_eq
  intro i hi
  rw [getLsbD_twoBytes]
  split
  · next h => rw [BitVec.getLsbD_setWidth, decide_eq_true h, Bool.true_and]
  · next h =>
    rw [BitVec.getLsbD_setWidth, BitVec.getLsbD_ushiftRight, decide_eq_true (by omega), Bool.true_and]
    congr 1
    omega

/-- The last of the pairs of bytes, low byte first. -/
def lastPair : List (BitVec 8) → Option (BitVec 16)
  | low :: high :: bytes => (lastPair bytes).or (some (twoBytes high low))
  | _ => none

/-- The last whole count of the bytes written to a counter that is accessed so. A byte that is not
written is zero. -/
def countOf : PitAccess → List (BitVec 8) → Option (BitVec 16)
  | .lsb, bytes => bytes.getLast?.map fun low => twoBytes 0 low
  | .msb, bytes => bytes.getLast?.map fun high => twoBytes high 0
  | .lsbThenMsb, bytes => lastPair bytes
  | .latch, _ => none

theorem lastPair_concat_even {bytes : List (BitVec 8)} (h : bytes.length % 2 = 0) (b : BitVec 8) :
    lastPair (bytes ++ [b]) = lastPair bytes := by
  fun_induction lastPair bytes with
  | case1 low high bytes ih =>
    rw [List.length_cons, List.length_cons] at h
    rw [List.cons_append, List.cons_append, lastPair, ih (by omega)]
  | case2 bytes hnot =>
    rcases bytes with _ | ⟨a, _ | ⟨a', bytes⟩⟩
    · rfl
    · cases h
    · exact absurd rfl (hnot a a' bytes)

theorem lastPair_concat_odd {bytes : List (BitVec 8)} {low : BitVec 8} (h : bytes.length % 2 = 0)
    (high : BitVec 8) : lastPair (bytes ++ [low] ++ [high]) = some (twoBytes high low) := by
  fun_induction lastPair bytes with
  | case1 low' high' bytes ih =>
    rw [List.length_cons, List.length_cons] at h
    rw [List.cons_append, List.cons_append, List.cons_append, List.cons_append, lastPair,
      ih (by omega), Option.some_or]
  | case2 bytes hnot =>
    rcases bytes with _ | ⟨a, _ | ⟨a', bytes⟩⟩
    · rfl
    · cases h
    · exact absurd rfl (hnot a a' bytes)

namespace PitCounter

/-- The bytes written in a run. -/
def bytesOf (ops : List Op) : List (BitVec 8) :=
  ops.filterMap fun
    | .write value => some value
    | _ => none

@[simp] theorem bytesOf_nil : bytesOf [] = [] := rfl

theorem bytesOf_concat (ops : List Op) (o : Op) :
    bytesOf (ops ++ [o]) = bytesOf ops ++ bytesOf [o] := List.filterMap_append

/-! ## What a clock pulse leaves -/

/-- The program, the count register and the gate are the same. -/
structure SameProgram (c c' : PitCounter) : Prop where
  control : c'.control = c.control
  latch : c'.latch = c.latch
  writeMsbNext : c'.writeMsbNext = c.writeMsbNext
  countWritten : c'.countWritten = c.countWritten
  gate : c'.gate = c.gate

section SameProgram

variable {c c₁ c₂ : PitCounter}

theorem SameProgram.refl (c : PitCounter) : c.SameProgram c := ⟨rfl, rfl, rfl, rfl, rfl⟩

theorem SameProgram.trans (h₁ : c.SameProgram c₁) (h₂ : c₁.SameProgram c₂) : c.SameProgram c₂ :=
  ⟨h₂.control.trans h₁.control, h₂.latch.trans h₁.latch, h₂.writeMsbNext.trans h₁.writeMsbNext,
    h₂.countWritten.trans h₁.countWritten, h₂.gate.trans h₁.gate⟩

theorem SameProgram.drive (h : c.SameProgram c₁) (out : Bool) : c.SameProgram (c₁.drive out) :=
  h.trans ⟨rfl, rfl, rfl, rfl, rfl⟩

theorem sameProgram_transfer (c : PitCounter) : c.SameProgram c.transfer :=
  ⟨rfl, rfl, rfl, rfl, rfl⟩

theorem sameProgram_countDown (c : PitCounter) (n : Nat) : c.SameProgram (c.countDown n) :=
  ⟨rfl, rfl, rfl, rfl, rfl⟩

theorem sameProgram_loadSquare (c : PitCounter) : c.SameProgram c.loadSquare := by
  unfold loadSquare
  split
  · exact (sameProgram_transfer c).trans (sameProgram_countDown _ 1)
  · exact sameProgram_transfer c

theorem sameProgram_countToExpiry (c : PitCounter) (out : Bool) :
    c.SameProgram (c.countToExpiry out) := by
  unfold countToExpiry
  dsimp only
  split <;> exact ⟨rfl, rfl, rfl, rfl, rfl⟩

theorem sameProgram_squareExpired (c : PitCounter) : c.SameProgram c.squareExpired := by
  unfold squareExpired
  split
  · exact (sameProgram_loadSquare c).drive _
  · split
    · exact (sameProgram_loadSquare c).drive _
    · exact .refl c

theorem sameProgram_clockMode0 (c : PitCounter) : c.SameProgram c.clockMode0 := by
  unfold clockMode0
  split
  · exact sameProgram_transfer c
  · split
    · exact .refl c
    · exact sameProgram_countToExpiry c true

theorem sameProgram_clockMode1 (c : PitCounter) (triggered : Bool) :
    c.SameProgram (c.clockMode1 triggered) := by
  unfold clockMode1
  split
  · exact (sameProgram_transfer c).drive false
  · split
    · exact .refl c
    · exact sameProgram_countToExpiry c true

theorem sameProgram_clockMode2 (c : PitCounter) (triggered : Bool) :
    c.SameProgram (c.clockMode2 triggered) := by
  unfold clockMode2
  split
  · exact (sameProgram_transfer c).drive true
  · split
    · exact .refl c
    · split
      · exact (sameProgram_transfer c).drive true
      · split
        · exact (sameProgram_countDown c 1).drive false
        · exact sameProgram_countDown c 1

theorem sameProgram_clockMode3 (c : PitCounter) (triggered : Bool) :
    c.SameProgram (c.clockMode3 triggered) := by
  unfold clockMode3
  split
  · exact (sameProgram_loadSquare c).drive true
  · split
    · exact .refl c
    · split
      · exact (sameProgram_loadSquare c).drive false
      · split
        · exact (sameProgram_countDown c 2).trans (sameProgram_squareExpired _)
        · exact sameProgram_countDown c 2

theorem sameProgram_clockMode4 (c : PitCounter) : c.SameProgram c.clockMode4 := by
  have hdrive : c.SameProgram (c.drive true) := (SameProgram.refl c).drive true
  unfold clockMode4
  dsimp only
  split
  · exact hdrive.trans (sameProgram_transfer _)
  · split
    · exact hdrive
    · exact hdrive.trans (sameProgram_countToExpiry _ false)

theorem sameProgram_clockMode5 (c : PitCounter) (triggered : Bool) :
    c.SameProgram (c.clockMode5 triggered) := by
  have hdrive : c.SameProgram (c.drive true) := (SameProgram.refl c).drive true
  unfold clockMode5
  dsimp only
  split
  · exact hdrive.trans (sameProgram_transfer _)
  · split
    · exact hdrive
    · exact hdrive.trans (sameProgram_countToExpiry _ false)

/-- A CLOCK PULSE reads the program and writes none of it. -/
theorem sameProgram_clock (c : PitCounter) : c.SameProgram c.clock := by
  have hsampled : c.SameProgram c.sampled := ⟨rfl, rfl, rfl, rfl, rfl⟩
  unfold clock
  dsimp only
  split
  · exact hsampled.trans (sameProgram_clockMode0 _)
  · exact hsampled.trans (sameProgram_clockMode1 _ _)
  · exact hsampled.trans (sameProgram_clockMode2 _ _)
  · exact hsampled.trans (sameProgram_clockMode3 _ _)
  · exact hsampled.trans (sameProgram_clockMode4 _)
  · exact hsampled.trans (sameProgram_clockMode5 _ _)

end SameProgram

theorem clock_mode2 {c : PitCounter} (h : c.mode = 2) :
    c.clock = c.sampled.clockMode2 (c.trigger && c.countWritten) := by
  unfold clock
  rw [h]
  rfl

theorem clock_mode3 {c : PitCounter} (h : c.mode = 3) :
    c.clock = c.sampled.clockMode3 (c.trigger && c.countWritten) := by
  unfold clock
  rw [h]
  rfl

theorem read_eq (c : PitCounter) : ∃ status count next,
    c.read.2 = { c with statusLatched := status, countLatched := count, readMsbNext := next } := by
  unfold read
  split
  · exact ⟨_, _, _, rfl⟩
  · dsimp only
    split
    · exact ⟨_, _, _, rfl⟩
    · exact ⟨_, _, _, rfl⟩
    · split <;> exact ⟨_, _, _, rfl⟩
    · exact ⟨_, _, _, rfl⟩

/-! ## What the register holds -/

/-- What the bytes written since the control word have made of the count register. -/
structure Assembled (access : PitAccess) (bytes : List (BitVec 8)) (c : PitCounter) : Prop where
  accessed : c.rwOf = access
  half : c.writeMsbNext = true ↔ access = .lsbThenMsb ∧ bytes.length % 2 = 1
  whole : c.writeMsbNext = false → c.latch = (countOf access bytes).getD 0
  first : c.writeMsbNext = true → ∃ front low, bytes = front ++ [low]  ∧
    ∃ high, c.latch = twoBytes high low
  written : c.countWritten = (countOf access bytes).isSome

theorem assembled_control (c : PitCounter) (value : BitVec 8) :
    Assembled (pitAccess value) [] (c.writeControl value) where
  accessed := rfl
  half := ⟨fun h => (nomatch h), fun h => (nomatch h.2)⟩
  whole := fun _ => by cases pitAccess value <;> rfl
  first := fun h => (nomatch h)
  written := by cases pitAccess value <;> rfl

theorem Assembled.sameProgram {access : PitAccess} {bytes : List (BitVec 8)} {c c' : PitCounter}
    (h : Assembled access bytes c) (hsame : c.SameProgram c') : Assembled access bytes c' where
  accessed := by rw [rwOf, hsame.control]; exact h.accessed
  half := by rw [hsame.writeMsbNext]; exact h.half
  whole := by rw [hsame.writeMsbNext, hsame.latch]; exact h.whole
  first := by rw [hsame.writeMsbNext, hsame.latch]; exact h.first
  written := hsame.countWritten.trans h.written

theorem wholeCountWritten_spec (c : PitCounter) :
    c.wholeCountWritten.control = c.control ∧ c.wholeCountWritten.latch = c.latch ∧
      c.wholeCountWritten.writeMsbNext = c.writeMsbNext ∧ c.wholeCountWritten.gate = c.gate ∧
      c.wholeCountWritten.countWritten = true := by
  unfold wholeCountWritten
  dsimp only
  split
  · exact ⟨rfl, rfl, rfl, rfl, rfl⟩
  · exact ⟨rfl, rfl, rfl, rfl, rfl⟩
  · split <;> exact ⟨rfl, rfl, rfl, rfl, rfl⟩
  · split <;> exact ⟨rfl, rfl, rfl, rfl, rfl⟩
  · exact ⟨rfl, rfl, rfl, rfl, rfl⟩

theorem firstByteWritten_spec (c : PitCounter) :
    c.firstByteWritten.control = c.control ∧ c.firstByteWritten.latch = c.latch ∧
      c.firstByteWritten.writeMsbNext = c.writeMsbNext ∧ c.firstByteWritten.gate = c.gate ∧
      c.firstByteWritten.countWritten = c.countWritten := by
  unfold firstByteWritten
  split <;> exact ⟨rfl, rfl, rfl, rfl, rfl⟩

theorem write_cases (c : PitCounter) (value : BitVec 8) : ∃ latch writeMsbNext,
    c.write value = wholeCountWritten { c with latch, writeMsbNext } ∨
      c.write value = firstByteWritten { c with latch, writeMsbNext } ∨ c.write value = c := by
  unfold PitCounter.write
  split
  · exact ⟨_, _, .inl rfl⟩
  · exact ⟨_, _, .inl rfl⟩
  · split
    · exact ⟨_, _, .inr (.inl rfl)⟩
    · exact ⟨_, _, .inl rfl⟩
  · exact ⟨c.latch, c.writeMsbNext, .inr (.inr rfl)⟩

theorem Assembled.wholeCount {access : PitAccess} {bytes : List (BitVec 8)} {c : PitCounter}
    {word : BitVec 16} (haccess : c.rwOf = access) (hnext : c.writeMsbNext = false)
    (hlength : access = .lsbThenMsb → bytes.length % 2 = 0)
    (hcount : countOf access bytes = some word) (hlatch : c.latch = word) :
    Assembled access bytes c.wholeCountWritten := by
  obtain ⟨hcontrol, hsame, hmsb, -, hwritten⟩ := c.wholeCountWritten_spec
  refine ⟨?_, ?_, ?_, ?_, ?_⟩
  · rw [rwOf, hcontrol]
    exact haccess
  · rw [hmsb, hnext]
    refine ⟨fun h => (nomatch h), fun ⟨hboth, hodd⟩ => ?_⟩
    rw [hlength hboth] at hodd
    cases hodd
  · intro _
    rw [hsame, hlatch, hcount, Option.getD_some]
  · rw [hmsb, hnext]
    exact fun h => (nomatch h)
  · rw [hwritten, hcount, Option.isSome_some]

/-- ONE BYTE MORE. -/
theorem Assembled.write {access : PitAccess} {bytes : List (BitVec 8)} {c : PitCounter}
    (h : Assembled access bytes c) (value : BitVec 8) :
    Assembled access (bytes ++ [value]) (c.write value) := by
  unfold PitCounter.write
  have hnext : access ≠ .lsbThenMsb → c.writeMsbNext = false := fun hne =>
    Bool.eq_false_iff.mpr fun hmsb => hne (h.half.mp hmsb).1
  rw [h.accessed]
  cases access with
  | latch =>
    have hwritten := h.written
    have hwhole := h.whole (hnext (fun h => nomatch h))
    exact ⟨h.accessed, ⟨fun hmsb => (nomatch (h.half.mp hmsb).1), fun hboth => (nomatch hboth.1)⟩,
      fun _ => hwhole, fun hmsb => (nomatch (h.half.mp hmsb).1), hwritten⟩
  | lsb =>
    have hold : ∃ low, c.latch = twoBytes 0 low := by
      rw [h.whole (hnext (fun h => nomatch h))]
      cases hlast : bytes.getLast? with
      | none => exact ⟨0, by simp only [countOf, hlast, Option.map_none, Option.getD_none]; decide⟩
      | some low =>
        exact ⟨low, by simp only [countOf, hlast, Option.map_some, Option.getD_some]⟩
    obtain ⟨low, hlatch⟩ := hold
    refine .wholeCount h.accessed (hnext (fun h => nomatch h)) (fun h => nomatch h)
      (?_ : _ = some (twoBytes 0 value)) ?_
    · simp only [countOf, List.getLast?_concat, Option.map_some]
    · simp only [latchLow, hlatch, twoBytes_low]
  | msb =>
    have hold : ∃ high, c.latch = twoBytes high 0 := by
      rw [h.whole (hnext (fun h => nomatch h))]
      cases hlast : bytes.getLast? with
      | none => exact ⟨0, by simp only [countOf, hlast, Option.map_none, Option.getD_none]; decide⟩
      | some high =>
        exact ⟨high, by simp only [countOf, hlast, Option.map_some, Option.getD_some]⟩
    obtain ⟨high, hlatch⟩ := hold
    refine .wholeCount h.accessed (hnext (fun h => nomatch h)) (fun h => nomatch h)
      (?_ : _ = some (twoBytes value 0)) ?_
    · simp only [countOf, List.getLast?_concat, Option.map_some]
    · simp only [latchHigh, hlatch, twoBytes_high]
  | lsbThenMsb =>
    dsimp only
    cases hmsb : c.writeMsbNext with
    | false =>
      have heven : bytes.length % 2 = 0 := by
        by_contra hodd
        rw [h.half.mpr ⟨rfl, by omega⟩] at hmsb
        cases hmsb
      obtain ⟨hcontrol, hlatch, hnext', -, hwritten⟩ :=
        ((c.latchLow value).expectMsb true).firstByteWritten_spec
      obtain ⟨high, low, hold⟩ := exists_twoBytes c.latch
      rw [Bool.not_false, if_pos rfl]
      refine ⟨?_, ?_, ?_, ?_, ?_⟩
      · rw [rwOf, hcontrol]
        exact h.accessed
      · rw [hnext']
        refine ⟨fun _ => ⟨rfl, ?_⟩, fun _ => rfl⟩
        rw [List.length_append, List.length_singleton]
        omega
      · rw [hnext']
        exact fun h => (nomatch h)
      · intro _
        refine ⟨bytes, value, rfl, high, ?_⟩
        rw [hlatch]
        simp only [expectMsb, latchLow, hold, twoBytes_low]
      · rw [hwritten, countOf, lastPair_concat_even heven]
        exact h.written
    | true =>
      obtain ⟨-, hodd⟩ := h.half.mp hmsb
      obtain ⟨front, low, rfl, high, hold⟩ := h.first hmsb
      rw [List.length_append, List.length_singleton] at hodd
      rw [Bool.not_true, if_neg Bool.false_ne_true]
      refine .wholeCount h.accessed rfl (fun _ => ?_)
        (?_ : _ = some (twoBytes value low)) ?_
      · rw [List.length_append, List.length_append, List.length_singleton, List.length_singleton]
        omega
      · exact lastPair_concat_odd (by omega) value
      · simp only [expectMsb, latchHigh, hold, twoBytes_high]

theorem Assembled.op {access : PitAccess} {bytes : List (BitVec 8)} {c : PitCounter}
    (h : Assembled access bytes c) {o : Op} (ho : ∀ value, o ≠ .control value) :
    Assembled access (bytes ++ bytesOf [o]) (c.op o) := by
  cases o with
  | control value => exact absurd rfl (ho value)
  | write value => exact h.write value
  | clock => exact (List.append_nil bytes).symm ▸ h.sameProgram (sameProgram_clock c)
  | read =>
    obtain ⟨status, count, next, hread⟩ := c.read_eq
    rw [bytesOf]
    simp only [List.filterMap_cons, List.filterMap_nil, List.append_nil, PitCounter.op, hread]
    exact ⟨h.accessed, h.half, h.whole, h.first, h.written⟩
  | latchCount =>
    rw [bytesOf]
    simp only [List.filterMap_cons, List.filterMap_nil, List.append_nil, PitCounter.op, latchCount]
    split
    · exact h
    · exact ⟨h.accessed, h.half, h.whole, h.first, h.written⟩
  | latchStatus =>
    rw [bytesOf]
    simp only [List.filterMap_cons, List.filterMap_nil, List.append_nil, PitCounter.op, latchStatus]
    split
    · exact h
    · exact ⟨h.accessed, h.half, h.whole, h.first, h.written⟩
  | gate high =>
    rw [bytesOf]
    simp only [List.filterMap_cons, List.filterMap_nil, List.append_nil, PitCounter.op, setGate]
    exact ⟨h.accessed, h.half, h.whole, h.first, h.written⟩

/-- Whether an operation programs the counter. -/
def Op.isControl : Op → Bool
  | .control _ => true
  | _ => false

/-- THE COUNT REGISTER behind a control word and whatever follows it. -/
theorem assembled_run (c : PitCounter) (value : BitVec 8) (ops : List Op)
    (hops : ∀ o ∈ ops, o.isControl = false) :
    Assembled (pitAccess value) (bytesOf ops) (c.run (.control value :: ops)) := by
  induction ops using List.reverseRecOn with
  | nil => exact assembled_control c value
  | append_singleton ops o ih =>
    have hlast := ih fun o ho => hops o (List.mem_append_left _ ho)
    rw [← List.cons_append, run_append, run_cons, run_nil, bytesOf_concat]
    refine hlast.op fun value heq => ?_
    subst heq
    have hno : (Op.control value).isControl = false := hops _ List.mem_concat_self
    cases hno

end PitCounter

end Apollo.Device
