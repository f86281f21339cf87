import Apollo.Device.I8254Count

/-!
# What a reload takes, and when

The counting element is loaded from the count register, and a count written while it counts is to wait
there for the end of the cycle. Two things go wrong. The register is written in place, byte by byte,
so a load that comes between the two bytes of a count takes HALF OF IT. And in mode 3 it is the
register that is asked whether the count is odd, at the end of a half-cycle that was loaded from it
long before: a count of the other parity, written in the high half, ends that half a pulse early or a
pulse late.

`honest_of_onTime` says that nothing else does: over any run of writes, gate changes, reads and
pulses in which no load comes between two bytes, and no byte changes the parity in a high half, every
load takes a whole count, and a counter that counts goes through its cycle as if nothing had been
written.
-/

namespace Apollo.Device

namespace PitCounter

/-! ## A pulse, load or not -/

/-- The pulse more of the high half of an odd count has come. -/
def oddEnds (c : PitCounter) : Bool := c.squareCountIsOdd && c.out && c.counter == 0

/-- Another count of two ends a half-cycle. -/
def countEnds (c : PitCounter) : Bool :=
  (c.countDown 2).counter == 0 && (!c.squareCountIsOdd || !c.out)

/-- The next pulse loads the counting element from the count register. -/
def loads (c : PitCounter) : Bool :=
  let triggered := c.trigger && c.countWritten
  match c.mode with
  | 0 | 4 => c.loadPending
  | 2 => c.loadPending || triggered || (c.counting && c.gate && c.counter == 1)
  | 3 => c.loadPending || triggered || (c.counting && c.gate && (c.oddEnds || c.countEnds))
  | _ => triggered

/-- What a load makes of the counter: mode 3 takes the low bit off. -/
def loaded (c : PitCounter) : PitCounter :=
  if c.mode = 3 then c.sampled.loadSquare else c.sampled.transfer

theorem counting_loaded (c : PitCounter) :
    c.loaded.counting = true ∧ c.loaded.loadPending = false := by
  unfold loaded loadSquare
  split
  · split <;> exact ⟨rfl, rfl⟩
  · exact ⟨rfl, rfl⟩

theorem loads_mode2 {c : PitCounter} (h : c.mode = 2) : c.loads =
    (c.loadPending || (c.trigger && c.countWritten) ||
      (c.counting && c.gate && c.counter == 1)) := by
  unfold loads
  rw [h]
  rfl

theorem loads_mode3 {c : PitCounter} (h : c.mode = 3) : c.loads =
    (c.loadPending || (c.trigger && c.countWritten) ||
      (c.counting && c.gate && (c.oddEnds || c.countEnds))) := by
  unfold loads
  rw [h]
  rfl

/-- ONE PULSE of mode 2. -/
theorem clock_mode2_spec {c : PitCounter} (h : c.mode = 2) :
    c.clock = if c.loads then c.loaded.drive true
      else if c.counting && c.gate then
        (c.sampled.countDown 1).drive (c.out && (c.countDown 1).counter != 1)
      else c.sampled := by
  have hloaded : c.loaded = c.sampled.transfer := if_neg (by omega)
  have hpending : c.sampled.loadPending = c.loadPending := rfl
  have hrun : (!c.sampled.counting || !c.sampled.gate) = !(c.counting && c.gate) :=
    (Bool.not_and ..).symm
  rw [clock_mode2 h, clockMode2, loads_mode2 h, hloaded, hpending, hrun]
  cases c.loadPending || (c.trigger && c.countWritten) with
  | true => rfl
  | false =>
    cases c.counting && c.gate with
    | false => rfl
    | true =>
      rw [Bool.false_or, Bool.true_and, if_neg Bool.false_ne_true, Bool.not_true,
        if_neg Bool.false_ne_true, if_pos rfl]
      by_cases hone : c.counter = 1
      · rw [if_pos (beq_iff_eq.mpr hone)]
        exact if_pos hone
      · rw [if_neg (fun heq => hone (beq_iff_eq.mp heq))]
        refine (if_neg hone).trans ?_
        by_cases hnext : (c.countDown 1).counter = 1
        · refine (if_pos hnext).trans ?_
          rw [hnext, bne_self_eq_false, Bool.and_false]
        · refine (if_neg hnext).trans ?_
          rw [bne_iff_ne.mpr hnext, Bool.and_true]
          rfl

/-- ONE PULSE of mode 3: an end of a half-cycle turns OUT over. -/
theorem clock_mode3_spec {c : PitCounter} (h : c.mode = 3) :
    c.clock = if c.loads then
        c.loaded.drive (if c.loadPending || (c.trigger && c.countWritten) then true else !c.out)
      else if c.counting && c.gate then c.sampled.countDown 2 else c.sampled := by
  have hloaded : c.loaded = c.sampled.loadSquare := if_pos h
  have hpending : c.sampled.loadPending = c.loadPending := rfl
  have hrun : (!c.sampled.counting || !c.sampled.gate) = !(c.counting && c.gate) :=
    (Bool.not_and ..).symm
  have hodd : (c.sampled.squareCountIsOdd && c.sampled.out && c.sampled.counter == 0) = c.oddEnds :=
    rfl
  have hexpired : (c.sampled.countDown 2).squareExpired =
      if !c.squareCountIsOdd then c.sampled.loadSquare.drive !c.out
      else if !c.out then c.sampled.loadSquare.drive true else c.sampled.countDown 2 := rfl
  rw [clock_mode3 h, clockMode3, loads_mode3 h, hloaded, hpending, hrun, hodd, hexpired]
  cases c.loadPending || (c.trigger && c.countWritten) with
  | true => rfl
  | false =>
    cases c.counting && c.gate with
    | false => rfl
    | true =>
      rw [Bool.false_or, Bool.true_and, if_neg Bool.false_ne_true, Bool.not_true,
        if_neg Bool.false_ne_true, if_neg Bool.false_ne_true, if_pos rfl]
      cases hend : c.oddEnds with
      | true =>
        unfold oddEnds at hend
        have hout : c.out = true := by
          cases hout : c.out with
          | true => rfl
          | false => rw [hout, Bool.and_false, Bool.false_and] at hend; cases hend
        rw [hout]
        rfl
      | false =>
        rw [Bool.false_or, if_neg Bool.false_ne_true, countEnds]
        by_cases hzero : (c.countDown 2).counter = 0
        · refine (if_pos hzero).trans ?_
          rw [beq_iff_eq.mpr hzero, Bool.true_and]
          cases c.squareCountIsOdd <;> cases c.out <;> rfl
        · refine (if_neg hzero).trans ?_
          rw [beq_eq_false_iff_ne.mpr hzero, Bool.false_and, if_neg Bool.false_ne_true]

theorem expiry_cases {c clocked : PitCounter} {loads stopped out₁ out₂ high : Bool}
    (h : clocked = if loads then c.sampled.transfer.drive out₁
      else if stopped then c.sampled.drive out₂
      else (c.sampled.drive out₂).countToExpiry high) :
    (loads = true ∧ ∃ out, clocked = c.sampled.transfer.drive out) ∨
      (loads = false ∧ ∃ counter out expired,
        clocked = { c with trigger := false, counter, out, expired } ∧
          (counter = c.counter ∨ counter = (c.countDown 1).counter ∨
            counter = (c.countDown 2).counter)) := by
  cases loads with
  | true => exact .inl ⟨rfl, out₁, h⟩
  | false =>
    refine .inr ⟨rfl, ?_⟩
    rw [if_neg Bool.false_ne_true] at h
    cases stopped with
    | true => exact ⟨c.counter, out₂, c.expired, h, .inl rfl⟩
    | false =>
      rw [if_neg Bool.false_ne_true, countToExpiry] at h
      split at h
      · exact ⟨_, high, true, h, .inr (.inl rfl)⟩
      · exact ⟨_, out₂, c.expired, h, .inr (.inl rfl)⟩

theorem clock_cases (c : PitCounter) :
    (c.loads = true ∧ ∃ out, c.clock = c.loaded.drive out) ∨
      (c.loads = false ∧ ∃ counter out expired,
        c.clock = { c with trigger := false, counter, out, expired } ∧
          (counter = c.counter ∨ counter = (c.countDown 1).counter ∨
            counter = (c.countDown 2).counter)) := by
  by_cases h2 : c.mode = 2
  · rw [clock_mode2_spec h2]
    cases c.loads with
    | true => exact .inl ⟨rfl, _, rfl⟩
    | false =>
      refine .inr ⟨rfl, ?_⟩
      rw [if_neg Bool.false_ne_true]
      split
      · exact ⟨_, _, c.expired, rfl, .inr (.inl rfl)⟩
      · exact ⟨c.counter, c.out, c.expired, rfl, .inl rfl⟩
  by_cases h3 : c.mode = 3
  · rw [clock_mode3_spec h3]
    cases c.loads with
    | true => exact .inl ⟨rfl, _, rfl⟩
    | false =>
      refine .inr ⟨rfl, ?_⟩
      rw [if_neg Bool.false_ne_true]
      split
      · exact ⟨_, c.out, c.expired, rfl, .inr (.inr rfl)⟩
      · exact ⟨c.counter, c.out, c.expired, rfl, .inl rfl⟩
  have hloaded : c.loaded = c.sampled.transfer := if_neg h3
  rw [hloaded]
  rcases Nat.lt_or_ge c.mode 5 with hlt | hge
  · have hcases : c.mode = 0 ∨ c.mode = 1 ∨ c.mode = 4 := by omega
    rcases hcases with h | h | h
    · have hloads : c.loads = c.loadPending := by
        unfold loads
        rw [h]
        rfl
      rw [hloads]
      refine @expiry_cases c _ _ (!c.counting || !c.gate) c.out c.out true ?_
      unfold clock
      rw [h]
      rfl
    · have hloads : c.loads = (c.trigger && c.countWritten) := by
        unfold loads
        rw [h]
        rfl
      rw [hloads]
      refine @expiry_cases c _ _ (!c.counting) false c.out true ?_
      unfold clock
      rw [h]
      rfl
    · have hloads : c.loads = c.loadPending := by
        unfold loads
        rw [h]
        rfl
      rw [hloads]
      refine @expiry_cases c _ _ (!c.counting || !c.gate) true true false ?_
      unfold clock
      rw [h]
      rfl
  · obtain ⟨n, hn⟩ := Nat.exists_eq_add_of_le' hge
    have hloads : c.loads = (c.trigger && c.countWritten) := by
      unfold loads
      rw [hn]
      rfl
    rw [hloads]
    refine @expiry_cases c _ _ (!c.counting) true true false ?_
    unfold clock
    rw [hn]
    rfl

/-! ## What has been written -/

/-- A counter behind a reset: no control word, and the gate pulled high. -/
def powerUp : PitCounter := { gate := true }

/-- The control word in force, and the bytes written since. -/
def Op.programs (p : BitVec 8 × List (BitVec 8)) : Op → BitVec 8 × List (BitVec 8)
  | .control value => (value, [])
  | .write value => (p.1, p.2 ++ [value])
  | _ => p

def programOf (ops : List Op) : BitVec 8 × List (BitVec 8) := ops.foldl Op.programs (0, [])

/-- The last count written whole. -/
def wholeCount (ops : List Op) : Option (BitVec 16) :=
  countOf (pitAccess (programOf ops).1) (programOf ops).2

theorem programOf_concat (ops : List Op) (o : Op) :
    programOf (ops ++ [o]) = o.programs (programOf ops) := by
  rw [programOf, List.foldl_append, List.foldl_cons, List.foldl_nil, programOf]

theorem Assembled.silent {access : PitAccess} {bytes : List (BitVec 8)} {c : PitCounter}
    (h : Assembled access bytes c) {o : Op} (ho : o.isControl = false) (hnone : bytesOf [o] = []) :
    Assembled access bytes (c.op o) := by
  have hop := h.op (o := o) fun value heq => by
    subst heq
    cases ho
  rwa [hnone, List.append_nil] at hop

theorem assembled_programOf (ops : List Op) :
    Assembled (pitAccess (programOf ops).1) (programOf ops).2 (powerUp.run ops) := by
  induction ops using List.reverseRecOn with
  | nil => exact ⟨rfl, by decide, (fun _ => rfl), (fun h => nomatch h), rfl⟩
  | append_singleton ops o ih =>
    rw [run_append, run_cons, run_nil, programOf_concat]
    cases o with
    | control value => exact assembled_control _ value
    | write value => exact ih.write value
    | read => exact ih.silent rfl rfl
    | latchCount => exact ih.silent rfl rfl
    | latchStatus => exact ih.silent rfl rfl
    | gate high => exact ih.silent rfl rfl
    | clock => exact ih.silent rfl rfl

/-! ## No load without a count -/

/-- What loads or counts has a count to go by, and a counter of the two periodic modes that counts
has taken it. -/
structure Ready (c : PitCounter) : Prop where
  pending : c.loadPending = true → c.countWritten = true
  running : c.counting = true → c.countWritten = true
  taken : c.mode = 2 ∨ c.mode = 3 → c.counting = true → c.loadPending = false

theorem Ready.written {c : PitCounter} (h : c.Ready) (hloads : c.loads = true) :
    c.countWritten = true := by
  unfold loads at hloads
  dsimp only at hloads
  split at hloads
  · exact h.pending hloads
  · exact h.pending hloads
  · rw [Bool.or_eq_true, Bool.or_eq_true, Bool.and_eq_true, Bool.and_eq_true,
      Bool.and_eq_true] at hloads
    obtain (hpending | ⟨-, hwritten⟩) | ⟨⟨hcounting, -⟩, -⟩ := hloads
    · exact h.pending hpending
    · exact hwritten
    · exact h.running hcounting
  · rw [Bool.or_eq_true, Bool.or_eq_true, Bool.and_eq_true, Bool.and_eq_true,
      Bool.and_eq_true] at hloads
    obtain (hpending | ⟨-, hwritten⟩) | ⟨⟨hcounting, -⟩, -⟩ := hloads
    · exact h.pending hpending
    · exact hwritten
    · exact h.running hcounting
  · exact (Bool.and_eq_true_iff.mp hloads).2

theorem Ready.wholeCountWritten {c : PitCounter} (h : c.Ready) :
    c.wholeCountWritten.Ready := by
  have hwritten := c.wholeCountWritten_spec.2.2.2.2
  refine ⟨fun _ => hwritten, fun _ => hwritten, ?_⟩
  unfold PitCounter.wholeCountWritten
  dsimp only
  split
  · next h0 =>
    intro hm
    change c.mode = 0 at h0
    change c.mode = 2 ∨ c.mode = 3 at hm
    omega
  · next h4 =>
    intro hm
    change c.mode = 4 at h4
    change c.mode = 2 ∨ c.mode = 3 at hm
    omega
  · next h2 =>
    split
    · next hstill =>
      intro _ hcounting
      change c.counting = true at hcounting
      change (!c.counting) = true at hstill
      rw [hcounting] at hstill
      cases hstill
    · exact h.taken
  · next h3 =>
    split
    · next hstill =>
      intro _ hcounting
      change c.counting = true at hcounting
      change (!c.counting) = true at hstill
      rw [hcounting] at hstill
      cases hstill
    · exact h.taken
  · exact h.taken

theorem Ready.write {c : PitCounter} (h : c.Ready) (value : BitVec 8) : (c.write value).Ready := by
  obtain ⟨latch, writeMsbNext, heq | heq | heq⟩ := c.write_cases value
  · rw [heq]
    exact Ready.wholeCountWritten ⟨h.pending, h.running, h.taken⟩
  · rw [heq, firstByteWritten]
    split
    · exact ⟨h.pending, (fun hcounting => nomatch hcounting), (fun _ hcounting => nomatch hcounting)⟩
    · exact ⟨h.pending, h.running, h.taken⟩
  · rwa [heq]

theorem Ready.clock {c : PitCounter} (h : c.Ready) : c.clock.Ready := by
  have hsame := sameProgram_clock c
  rcases c.clock_cases with ⟨hloads, out, heq⟩ | ⟨-, counter, out, expired, heq, -⟩
  · have hwritten : c.clock.countWritten = true := hsame.countWritten.trans (h.written hloads)
    obtain ⟨-, hnone⟩ := c.counting_loaded
    refine ⟨fun _ => hwritten, fun _ => hwritten, fun _ _ => ?_⟩
    rw [heq]
    exact hnone
  · rw [heq]
    exact ⟨h.pending, h.running, h.taken⟩

/-- WHATEVER IS DONE to a counter leaves it ready. -/
theorem Ready.op {c : PitCounter} (h : c.Ready) (o : Op) : (c.op o).Ready := by
  cases o with
  | control value =>
    exact ⟨(fun hpending => nomatch hpending), (fun hcounting => nomatch hcounting),
      (fun _ hcounting => nomatch hcounting)⟩
  | write value => exact h.write value
  | clock => exact h.clock
  | read =>
    obtain ⟨status, count, next, hread⟩ := c.read_eq
    rw [PitCounter.op, hread]
    exact ⟨h.pending, h.running, h.taken⟩
  | latchCount =>
    rw [PitCounter.op, latchCount]
    split
    · exact h
    · exact ⟨h.pending, h.running, h.taken⟩
  | latchStatus =>
    rw [PitCounter.op, latchStatus]
    split
    · exact h
    · exact ⟨h.pending, h.running, h.taken⟩
  | gate high => exact ⟨h.pending, h.running, h.taken⟩

theorem ready_run (ops : List Op) : (powerUp.run ops).Ready := by
  induction ops using List.reverseRecOn with
  | nil =>
    exact ⟨(fun h => nomatch h), (fun h => nomatch h), (fun _ h => nomatch h)⟩
  | append_singleton ops o ih =>
    rw [run_append, run_cons, run_nil]
    exact ih.op o

/-! ## With the writes and without them -/

/-- A byte is written. -/
def Op.isWrite : Op → Bool
  | .write _ => true
  | _ => false

/-- All that was done but for the bytes written. -/
def unwritten (ops : List Op) : List Op := ops.filter fun o => !o.isWrite

/-- The counter drives a high half of mode 3, and nothing is about to start it again. -/
def highHalf (c : PitCounter) : Bool :=
  c.mode == 3 && c.counting && c.gate && c.out && !c.trigger

/-- The next byte is the low byte of a count. -/
def takesLow (c : PitCounter) : Bool :=
  match c.rwOf with
  | .lsb => true
  | .lsbThenMsb => !c.writeMsbNext
  | _ => false

/-- A byte that leaves the register even if it is even and odd if it is odd. -/
def keepsParity (c : PitCounter) (value : BitVec 8) : Bool :=
  !c.takesLow || (value &&& 1 != 0) == c.squareCountIsOdd

theorem odd_iff_getLsbD {w : Nat} (hw : 0 < w) (word : BitVec w) :
    (word &&& 1 != 0) = word.getLsbD 0 := by
  rw [show (1 : BitVec w) = 1#w from rfl, BitVec.and_one_eq_setWidth_ofBool_getLsbD]
  cases word.getLsbD 0 with
  | false =>
    have hzero : BitVec.setWidth w (BitVec.ofBool false) = 0 := by simp
    rw [hzero, bne_self_eq_false]
  | true =>
    rw [bne_iff_ne]
    intro heq
    have hbit := congrArg (fun v => v.getLsbD 0) heq
    simp [hw] at hbit

theorem squareCountIsOdd_write {c : PitCounter} {value : BitVec 8}
    (h : c.keepsParity value = true) :
    (c.write value).squareCountIsOdd = c.squareCountIsOdd := by
  obtain ⟨high, low, hlatch⟩ := exists_twoBytes c.latch
  have hlow : c.takesLow = true → (c.latchLow value).squareCountIsOdd = c.squareCountIsOdd := by
    intro htakes
    rw [keepsParity, htakes, Bool.not_true, Bool.false_or, beq_iff_eq] at h
    rw [← h, squareCountIsOdd, latchLow, hlatch, twoBytes_low, odd_iff_getLsbD (by decide),
      odd_iff_getLsbD (by decide), getLsbD_twoBytes]
    rfl
  have hhigh : (c.latchHigh value).squareCountIsOdd = c.squareCountIsOdd := by
    rw [squareCountIsOdd, squareCountIsOdd, latchHigh, hlatch, twoBytes_high,
      odd_iff_getLsbD (by decide), odd_iff_getLsbD (by decide), getLsbD_twoBytes, getLsbD_twoBytes]
    rfl
  have hwhole (c' : PitCounter) : c'.wholeCountWritten.squareCountIsOdd = c'.squareCountIsOdd := by
    rw [squareCountIsOdd, c'.wholeCountWritten_spec.2.1, squareCountIsOdd]
  have hfirst (c' : PitCounter) : c'.firstByteWritten.squareCountIsOdd = c'.squareCountIsOdd := by
    rw [squareCountIsOdd, c'.firstByteWritten_spec.2.1, squareCountIsOdd]
  unfold takesLow at hlow
  unfold PitCounter.write
  cases haccess : c.rwOf with
  | latch => rfl
  | lsb =>
    rw [haccess] at hlow
    exact (hwhole _).trans (hlow rfl)
  | msb => exact (hwhole _).trans hhigh
  | lsbThenMsb =>
    rw [haccess] at hlow
    dsimp only at hlow ⊢
    cases hnext : c.writeMsbNext with
    | false =>
      rw [hnext] at hlow
      exact (hfirst _).trans (hlow rfl)
    | true => exact (hwhole _).trans hhigh

theorem latchCount_eq (c : PitCounter) : ∃ count latched,
    c.latchCount = { c with countLatch := count, countLatched := latched } := by
  unfold latchCount
  split <;> exact ⟨_, _, rfl⟩

theorem latchStatus_eq (c : PitCounter) : ∃ status latched,
    c.latchStatus = { c with statusLatch := status, statusLatched := latched } := by
  unfold latchStatus
  split <;> exact ⟨_, _, rfl⟩

/-- Two counters in step: they have counted the same, and where the parity of the count will be
asked for it is the same. -/
structure Twin (s t : PitCounter) : Prop where
  periodic : s.mode = 2 ∨ s.mode = 3
  control : t.control = s.control
  counter : t.counter = s.counter
  gate : t.gate = s.gate
  out : t.out = s.out
  trigger : t.trigger = s.trigger
  counting : s.counting = true ∧ t.counting = true
  taken : s.loadPending = false ∧ t.loadPending = false
  written : s.countWritten = true ∧ t.countWritten = true
  parity : s.highHalf = true → t.squareCountIsOdd = s.squareCountIsOdd

section Twin

variable {s t : PitCounter}

theorem Twin.refl {c : PitCounter} (hready : c.Ready) (hm : c.mode = 2 ∨ c.mode = 3)
    (hcounting : c.counting = true) : Twin c c :=
  ⟨hm, rfl, rfl, rfl, rfl, rfl, ⟨hcounting, hcounting⟩,
    ⟨hready.taken hm hcounting, hready.taken hm hcounting⟩,
    ⟨hready.running hcounting, hready.running hcounting⟩, fun _ => rfl⟩

theorem Twin.mode (h : Twin s t) : t.mode = s.mode := by
  rw [PitCounter.mode, h.control, PitCounter.mode]

theorem Twin.countDown (h : Twin s t) (n : Nat) :
    (t.countDown n).counter = (s.countDown n).counter := by
  change (if !pitBcd t.control then _ else _) = if !pitBcd s.control then _ else _
  rw [h.control, h.counter]

theorem Twin.loads (h : Twin s t) : t.loads = s.loads := by
  rcases h.periodic with h2 | h3
  · rw [loads_mode2 h2, loads_mode2 (h.mode.trans h2), h.taken.1, h.taken.2, h.written.1,
      h.written.2, h.counting.1, h.counting.2, h.trigger, h.gate, h.counter]
  · rw [loads_mode3 h3, loads_mode3 (h.mode.trans h3), h.taken.1, h.taken.2, h.written.1,
      h.written.2, h.counting.1, h.counting.2, h.trigger, h.gate]
    cases htrigger : s.trigger with
    | true => rfl
    | false =>
      cases hgate : s.gate with
      | false => rfl
      | true =>
        rw [oddEnds, oddEnds, countEnds, countEnds, h.countDown, h.out, h.counter]
        cases hout : s.out with
        | false =>
          rw [Bool.and_false, Bool.and_false, Bool.not_false, Bool.or_true, Bool.or_true]
        | true =>
          have hhigh : s.highHalf = true := by
            rw [highHalf, h3, h.counting.1, hgate, hout, htrigger]
            rfl
          rw [h.parity hhigh]

theorem Twin.clock_out (h : Twin s t) (hloads : s.loads = true) : t.clock.out = s.clock.out := by
  have hloads' := h.loads.trans hloads
  rcases h.periodic with h2 | h3
  · rw [clock_mode2_spec h2, clock_mode2_spec (h.mode.trans h2), if_pos hloads, if_pos hloads']
    rfl
  · rw [clock_mode3_spec h3, clock_mode3_spec (h.mode.trans h3), if_pos hloads, if_pos hloads',
      h.taken.1, h.taken.2, h.written.1, h.written.2, h.trigger, h.out]
    rfl

theorem Twin.counted (h : Twin s t) (n : Nat) {out₁ out₂ : Bool} (hout : out₂ = out₁)
    (hparity : ((s.sampled.countDown n).drive out₁).highHalf = true →
      t.squareCountIsOdd = s.squareCountIsOdd) :
    Twin ((s.sampled.countDown n).drive out₁) ((t.sampled.countDown n).drive out₂) :=
  ⟨h.periodic, h.control, h.countDown n, h.gate, hout, rfl, h.counting, h.taken, h.written, hparity⟩

theorem Twin.trigger_eq_false (h : Twin s t) (hloads : s.loads = false) : s.trigger = false := by
  cases htrigger : s.trigger with
  | false => rfl
  | true =>
    rcases h.periodic with h2 | h3
    · rw [loads_mode2 h2, htrigger, h.written.1, Bool.and_true, Bool.or_true, Bool.true_or]
        at hloads
      cases hloads
    · rw [loads_mode3 h3, htrigger, h.written.1, Bool.and_true, Bool.or_true, Bool.true_or]
        at hloads
      cases hloads

theorem Twin.clock (h : Twin s t) (hloads : s.loads = false) : Twin s.clock t.clock := by
  have hloads' := h.loads.trans hloads
  rcases h.periodic with h2 | h3
  · have hnever (c : PitCounter) (hc : c.mode = 2) : c.highHalf = true → t.squareCountIsOdd =
        s.squareCountIsOdd := by
      rw [highHalf, hc]
      exact fun hfalse => nomatch hfalse
    rw [clock_mode2_spec h2, clock_mode2_spec (h.mode.trans h2), hloads, hloads',
      if_neg Bool.false_ne_true, if_neg Bool.false_ne_true, h.counting.1, h.counting.2, h.gate]
    cases s.gate with
    | false => exact ⟨h.periodic, h.control, h.counter, h.gate, h.out, rfl, h.counting, h.taken,
        h.written, hnever s.sampled h2⟩
    | true =>
      refine h.counted 1 ?_ (hnever _ h2)
      rw [h.out, h.countDown]
  · have hparity : (PitCounter.highHalf { s with trigger := false }) = true →
        t.squareCountIsOdd = s.squareCountIsOdd := by
      have hsame : { s with trigger := false } = s := by rw [← h.trigger_eq_false hloads]
      rw [hsame]
      exact h.parity
    rw [clock_mode3_spec h3, clock_mode3_spec (h.mode.trans h3), hloads, hloads',
      if_neg Bool.false_ne_true, if_neg Bool.false_ne_true, h.counting.1, h.counting.2, h.gate]
    cases s.gate with
    | false => exact ⟨h.periodic, h.control, h.counter, h.gate, h.out, rfl, h.counting, h.taken,
        h.written, hparity⟩
    | true => exact h.counted 2 h.out hparity

theorem Twin.write (h : Twin s t) {value : BitVec 8}
    (hkeeps : s.highHalf = true → s.keepsParity value = true) : Twin (s.write value) t := by
  have hodd : s.highHalf = true → t.squareCountIsOdd = (s.write value).squareCountIsOdd :=
    fun hhigh => (h.parity hhigh).trans (squareCountIsOdd_write (hkeeps hhigh)).symm
  obtain ⟨latch, writeMsbNext, heq | heq | heq⟩ := s.write_cases value
  · have hwhole : s.write value =
        { s with latch, writeMsbNext, nullCount := true, countWritten := true } := by
      rw [heq, wholeCountWritten]
      rcases h.periodic with h2 | h3
      · have hm : PitCounter.mode
            { s with latch, writeMsbNext, nullCount := true, countWritten := true } = 2 := h2
        dsimp only
        rw [hm, h.counting.1]
        rfl
      · have hm : PitCounter.mode
            { s with latch, writeMsbNext, nullCount := true, countWritten := true } = 3 := h3
        dsimp only
        rw [hm, h.counting.1]
        rfl
    rw [hwhole] at hodd ⊢
    exact ⟨h.periodic, h.control, h.counter, h.gate, h.out, h.trigger, h.counting, h.taken,
      ⟨rfl, h.written.2⟩, hodd⟩
  · have hfirst : s.write value = { s with latch, writeMsbNext } := by
      rw [heq, firstByteWritten]
      refine if_neg ?_
      change s.mode ≠ 0
      rcases h.periodic with h2 | h3
      · omega
      · omega
    rw [hfirst] at hodd ⊢
    exact ⟨h.periodic, h.control, h.counter, h.gate, h.out, h.trigger, h.counting, h.taken,
      h.written, hodd⟩
  · rwa [heq]

theorem Twin.op (h : Twin s t) {o : Op} (hcontrol : o.isControl = false)
    (hwrite : o.isWrite = false) (hloads : o = .clock → s.loads = false) :
    Twin (s.op o) (t.op o) := by
  cases o with
  | control value => cases hcontrol
  | write value => cases hwrite
  | clock => exact h.clock (hloads rfl)
  | read =>
    obtain ⟨_, _, _, hs⟩ := s.read_eq
    obtain ⟨_, _, _, ht⟩ := t.read_eq
    rw [PitCounter.op, PitCounter.op, hs, ht]
    exact ⟨h.periodic, h.control, h.counter, h.gate, h.out, h.trigger, h.counting, h.taken,
      h.written, h.parity⟩
  | latchCount =>
    obtain ⟨_, _, hs⟩ := s.latchCount_eq
    obtain ⟨_, _, ht⟩ := t.latchCount_eq
    rw [PitCounter.op, PitCounter.op, hs, ht]
    exact ⟨h.periodic, h.control, h.counter, h.gate, h.out, h.trigger, h.counting, h.taken,
      h.written, h.parity⟩
  | latchStatus =>
    obtain ⟨_, _, hs⟩ := s.latchStatus_eq
    obtain ⟨_, _, ht⟩ := t.latchStatus_eq
    rw [PitCounter.op, PitCounter.op, hs, ht]
    exact ⟨h.periodic, h.control, h.counter, h.gate, h.out, h.trigger, h.counting, h.taken,
      h.written, h.parity⟩
  | gate high =>
    have hmode := h.mode
    have hcontrol := h.control
    refine ⟨h.periodic, h.control, h.counter, rfl, ?_, ?_, h.counting, h.taken, h.written, ?_⟩
    · change (if t.gate && !high && (t.mode == 2 || t.mode == 3) then true else t.out) =
        if s.gate && !high && (s.mode == 2 || s.mode == 3) then true else s.out
      rw [hmode, h.gate, h.out]
    · change (if !t.gate && high && (t.mode == 1 || t.mode == 2 || t.mode == 3 || t.mode == 5)
          then true else t.trigger) =
        if !s.gate && high && (s.mode == 1 || s.mode == 2 || s.mode == 3 || s.mode == 5)
          then true else s.trigger
      rw [hmode, h.gate, h.trigger]
    · -- a gate that falls stops the count, and one that rises starts it again
      intro hhigh
      refine h.parity ?_
      unfold highHalf at hhigh ⊢
      rw [Bool.and_eq_true, Bool.and_eq_true, Bool.and_eq_true, Bool.and_eq_true] at hhigh
      obtain ⟨⟨⟨⟨hthree, -⟩, hup⟩, hout⟩, htrigger⟩ := hhigh
      have h3 : (s.mode == 3) = true := hthree
      have hhigh : high = true := hup
      subst hhigh
      have hgate : s.gate = true := by
        cases hgate : s.gate with
        | true => rfl
        | false =>
          change (!(if !s.gate && true &&
            (s.mode == 1 || s.mode == 2 || s.mode == 3 || s.mode == 5) then true else s.trigger)) =
              true at htrigger
          rw [hgate, h3] at htrigger
          simp at htrigger
      change (!(if !s.gate && true &&
        (s.mode == 1 || s.mode == 2 || s.mode == 3 || s.mode == 5) then true else s.trigger)) =
          true at htrigger
      change (if s.gate && !true && (s.mode == 2 || s.mode == 3) then true else s.out) = true at hout
      rw [hgate, Bool.not_true, Bool.and_false, Bool.false_and, if_neg Bool.false_ne_true] at hout
      rw [hgate, Bool.not_true, Bool.false_and, Bool.false_and, if_neg Bool.false_ne_true]
        at htrigger
      rw [h3, h.counting.1, hgate, hout, htrigger]
      rfl

theorem Twin.run (h : Twin s t) (mid : List Op) (hcontrol : ∀ o ∈ mid, o.isControl = false)
    (hloads : ∀ before after, mid = before ++ .clock :: after → (s.run before).loads = false)
    (hkeeps : ∀ before value after, mid = before ++ .write value :: after →
      (s.run before).highHalf = true → (s.run before).keepsParity value = true) :
    Twin (s.run mid) (t.run (unwritten mid)) := by
  induction mid generalizing s t with
  | nil => exact h
  | cons o mid ih =>
    have hrest (hstep : Twin (s.op o) (t.run (unwritten [o]))) :
        Twin (s.run (o :: mid)) ((t.run (unwritten [o])).run (unwritten mid)) :=
      ih hstep (fun o' ho' => hcontrol o' (List.mem_cons_of_mem o ho'))
        (fun before after heq => hloads (o :: before) after (congrArg (o :: ·) heq))
        fun before value after heq => hkeeps (o :: before) value after (congrArg (o :: ·) heq)
    have hsplit : t.run (unwritten (o :: mid)) = (t.run (unwritten [o])).run (unwritten mid) := by
      rw [← run_append, unwritten, unwritten, unwritten, ← List.filter_append]
      rfl
    rw [hsplit]
    refine hrest ?_
    cases hwrite : o.isWrite with
    | true =>
      cases o with
      | write value => exact h.write (hkeeps [] value mid rfl)
      | _ => cases hwrite
    | false =>
      have hkept : unwritten [o] = [o] := by
        rw [unwritten, List.filter_cons_of_pos (by rw [hwrite]; rfl), List.filter_nil]
      rw [hkept]
      refine h.op (hcontrol o List.mem_cons_self) hwrite fun heq => ?_
      exact hloads [] mid (congrArg (· :: mid) heq)

end Twin

/-! ## The law and its condition -/

/-- A pulse that loads takes the last whole count, less the low bit in mode 3, and another counts. -/
structure TakesWhole (c : PitCounter) (count : Option (BitVec 16)) : Prop where
  whole : c.loads = true → c.clock.counter = c.loaded.counter ∧ count = some c.latch
  counts : c.loads = false → c.clock.counter = c.counter ∨
    c.clock.counter = (c.countDown 1).counter ∨ c.clock.counter = (c.countDown 2).counter

/-- OUT, the counting element and the end of the cycle are where they are without the bytes. -/
structure Undisturbed (c : PitCounter) (mid : List Op) : Prop where
  out : (c.run (unwritten mid)).out = (c.run mid).out
  counter : (c.run (unwritten mid)).counter = (c.run mid).counter
  loads : (c.run (unwritten mid)).loads = (c.run mid).loads
  ends : (c.run mid).loads = true →
    (c.run (unwritten mid)).clock.out = (c.run mid).clock.out

/-- Every load of a run takes a whole count, and no cycle of the two periodic modes is disturbed by
what is written in it. -/
structure Honest (ops : List Op) : Prop where
  whole : ∀ before after, ops = before ++ .clock :: after →
    TakesWhole (powerUp.run before) (wholeCount before)
  undisturbed : ∀ before mid after, ops = before ++ mid ++ after →
    (powerUp.run before).mode = 2 ∨ (powerUp.run before).mode = 3 →
    (powerUp.run before).counting = true → (∀ o ∈ mid, o.isControl = false) →
    (∀ front back, mid = front ++ .clock :: back →
      ((powerUp.run before).run front).loads = false) →
    Undisturbed (powerUp.run before) mid

/-- A load may not come between the two bytes of a count, and a byte may not change the parity of the
count in a high half. -/
def Suits (c : PitCounter) : Op → Prop
  | .clock => c.loads = true → c.writeMsbNext = false
  | .write value => c.highHalf = true → c.keepsParity value = true
  | _ => True

instance (c : PitCounter) : (o : Op) → Decidable (c.Suits o)
  | .clock => inferInstanceAs (Decidable (c.loads = true → c.writeMsbNext = false))
  | .write value => inferInstanceAs (Decidable (c.highHalf = true → c.keepsParity value = true))
  | .control _ | .read | .latchCount | .latchStatus | .gate _ => instDecidableTrue

/-- Everything in a run comes when it suits. -/
def OnTime (ops : List Op) : Prop :=
  ∀ before o after, ops = before ++ o :: after → (powerUp.run before).Suits o

theorem onTime_iff (ops : List Op) : OnTime ops ↔
    ∀ n, ∀ h : n < ops.length, (powerUp.run (ops.take n)).Suits (ops.get ⟨n, h⟩) := by
  constructor
  · intro h n hn
    refine h _ _ (ops.drop (n + 1)) ?_
    rw [List.get_eq_getElem, List.getElem_cons_drop, List.take_append_drop]
  · intro h before o after heq
    have hlength : before.length < ops.length := by
      rw [heq, List.length_append, List.length_cons]
      omega
    have hsuits := h before.length hlength
    subst heq
    have hget : (before ++ o :: after).get ⟨before.length, hlength⟩ = o := by
      simp
    rwa [List.take_left, hget] at hsuits

instance (ops : List Op) : Decidable (OnTime ops) := decidable_of_iff _ (onTime_iff ops).symm

theorem takesWhole_of_between (before : List Op)
    (h : (powerUp.run before).loads = true → (powerUp.run before).writeMsbNext = false) :
    TakesWhole (powerUp.run before) (wholeCount before) := by
  have hassembled := assembled_programOf before
  rcases (powerUp.run before).clock_cases with ⟨hloads, out, heq⟩ | ⟨hloads, _, _, _, heq, hcounter⟩
  · refine ⟨fun _ => ⟨by rw [heq]; rfl, ?_⟩, fun hnot => ?_⟩
    · have hwritten := hassembled.written
      rw [(ready_run before).written hloads] at hwritten
      obtain ⟨word, hword⟩ := Option.isSome_iff_exists.mp hwritten.symm
      rw [hassembled.whole (h hloads), wholeCount, hword, Option.getD_some]
    · rw [hloads] at hnot
      cases hnot
  · refine ⟨fun hnot => ?_, fun _ => ?_⟩
    · rw [hloads] at hnot
      cases hnot
    · rw [heq]
      exact hcounter

/-- A RELOAD IS HONEST in every run in which no load comes between two bytes, and in which no byte
changes the parity of the count in a high half of mode 3. -/
theorem honest_of_onTime (ops : List Op) (h : OnTime ops) : Honest ops where
  whole before after heq := takesWhole_of_between before (h before .clock after heq)
  undisturbed before mid after heq hperiodic hcounting hcontrol hloads := by
    have htwin := (Twin.refl (ready_run before) hperiodic hcounting).run mid hcontrol hloads
      fun front value back hmid => by
        rw [← run_append]
        refine h (before ++ front) (.write value) (back ++ after) ?_
        rw [heq, hmid, List.append_assoc, List.append_assoc, List.append_assoc, List.cons_append]
    exact ⟨htwin.out, htwin.counter, htwin.loads, htwin.clock_out⟩

/-- A count of 4 in mode 3, and another even one written in its high half. -/
theorem honest_secondCount :
    Honest [.control 0x16, .write 4, .clock, .write 6, .clock, .clock, .clock] :=
  honest_of_onTime _ (by decide)

/-- HALF A COUNT is loaded by a pulse between its bytes, and in mode 3 an odd count written behind an
even one keeps OUT high for a pulse more. -/
theorem not_honest_betweenBytes :
    ¬ Honest [.control 0x34, .write 3, .write 0, .clock, .clock, .clock, .write 16, .clock] ∧
      ¬ Honest [.control 0x16, .write 4, .clock, .clock, .write 5] := by
  constructor
  · intro h
    have htakes := h.whole
      [.control 0x34, .write 3, .write 0, .clock, .clock, .clock, .write 16] [] rfl
    exact absurd (htakes.whole (by decide)).2 (by decide)
  · intro h
    have hundisturbed := h.undisturbed [.control 0x16, .write 4, .clock] [.clock, .write 5] [] rfl
      (by decide) (by decide) (by decide) ?_
    · exact absurd hundisturbed.loads (by decide)
    · intro front back heq
      cases front with
      | nil => decide
      | cons o front =>
        injection heq with _ heq
        cases front with
        | nil => injection heq with heq; cases heq
        | cons o' front =>
          injection heq with _ heq
          cases front <;> cases heq

end PitCounter

end Apollo.Device
