import Apollo.Device.Mc6840
import Apollo.Lib.Divider
import Apollo.Lib.Slots

/-!
# Periods and flags of the MC6840

From a counter initialisation on a timer divides its pulses EXACTLY by its period: the latch and one,
or in dual 8-bit operation the product of the halves, each and one, times eight behind the
prescaler. `Phase` says what stands in a timer after `j` pulses, and one pulse takes it to the next
`j` (`Phase.clock`). The one thing that is not exact is what is read back in dual operation: the low
half that counts is not the low half of the word that is read (`exact_iff`).

A timer read clears a flag that the status read before it saw. It should leave a time-out alone that
came in between; it does, unless the flag was there at the status read already (`survives_iff`).
-/

namespace Apollo.Device

open Apollo.Lib

namespace PtmTimer

/-! ## Counts -/

/-- The high half of the latch. -/
def latchHigh (timer : PtmTimer) : Nat := timer.latch.toNat / 256

/-- The low half of the latch. -/
def latchLow (timer : PtmTimer) : Nat := timer.latch.toNat % 256

/-- The counts of a round. -/
def period (timer : PtmTimer) : Nat :=
  if timer.dual8bit then (timer.latchLow + 1) * (timer.latchHigh + 1) else timer.latch.toNat + 1

/-- What is left in the counter after so many counts: a word, or two halves. -/
def remainder (timer : PtmTimer) (q : Nat) : Nat :=
  if timer.dual8bit then
    (timer.latchHigh - q / (timer.latchLow + 1) % (timer.latchHigh + 1)) * 256 +
      (timer.latchLow - q % (timer.latchLow + 1))
  else timer.latch.toNat - q % (timer.latch.toNat + 1)

theorem period_pos (timer : PtmTimer) : 0 < timer.period := by
  unfold period
  split
  · exact Nat.mul_pos (Nat.succ_pos _) (Nat.succ_pos _)
  · exact Nat.succ_pos _

theorem toNat_append_byte (high low : BitVec 8) :
    (high ++ low).toNat = high.toNat * 256 + low.toNat := by
  rw [BitVec.toNat_append, ← Nat.shiftLeft_add_eq_or_of_lt low.isLt, Nat.shiftLeft_eq]

/-- A timer after so many counts. -/
structure Counted (start : PtmTimer) (q : Nat) (timer : PtmTimer) : Prop where
  latch : timer.latch = start.latch
  control : timer.control = start.control
  word : start.dual8bit = false →
    timer.counter.toNat = start.latch.toNat - q % (start.latch.toNat + 1)
  low : start.dual8bit = true →
    timer.lsbCounter.toNat = start.latchLow - q % (start.latchLow + 1)
  high : start.dual8bit = true → timer.counter.toNat =
    (start.latchHigh - q / (start.latchLow + 1) % (start.latchHigh + 1)) * 256 + start.latchLow
  output : start.mode ≠ .singleShot → timer.output = decide (q / start.period % 2 = 1)
  fired : start.mode = .singleShot → timer.singleShotFired = decide (start.period ≤ q)

variable {start timer : PtmTimer} {q : Nat}

theorem Counted.next (h : Counted start q timer) (hno : ¬ Wraps start.period q) {next : PtmTimer}
    (hlatch : next.latch = timer.latch) (hcontrol : next.control = timer.control)
    (houtput : next.output = timer.output) (hfired : next.singleShotFired = timer.singleShotFired)
    (hword : start.dual8bit = false →
      next.counter.toNat = start.latch.toNat - (q + 1) % (start.latch.toNat + 1))
    (hlow : start.dual8bit = true →
      next.lsbCounter.toNat = start.latchLow - (q + 1) % (start.latchLow + 1))
    (hhigh : start.dual8bit = true → next.counter.toNat =
      (start.latchHigh - (q + 1) / (start.latchLow + 1) % (start.latchHigh + 1)) * 256 +
        start.latchLow) : Counted start (q + 1) next where
  latch := hlatch.trans h.latch
  control := hcontrol.trans h.control
  word := hword
  low := hlow
  high := hhigh
  output hmode := by rw [houtput, h.output hmode, div_succ_of_not_wraps hno]
  fired hmode := by
    rw [hfired, h.fired hmode, decide_eq_decide]
    refine ⟨fun hle => by omega, fun hle => ?_⟩
    by_contra hlt
    exact hno ⟨1, by omega⟩

theorem latch_timeOut (timer : PtmTimer) : timer.timeOut.latch = timer.latch := by
  unfold timeOut
  split_ifs <;> rfl

theorem control_timeOut (timer : PtmTimer) : timer.timeOut.control = timer.control := by
  unfold timeOut
  split_ifs <;> rfl

theorem counter_timeOut (timer : PtmTimer) : timer.timeOut.counter = timer.latch := by
  unfold timeOut
  split_ifs <;> rfl

theorem lsbCounter_timeOut (timer : PtmTimer) :
    timer.timeOut.lsbCounter = timer.latch.setWidth 8 := by
  unfold timeOut
  split_ifs <;> rfl

theorem prescaleCount_timeOut (timer : PtmTimer) :
    timer.timeOut.prescaleCount = timer.prescaleCount := by
  unfold timeOut
  split_ifs <;> rfl

theorem output_timeOut (hmode : timer.mode ≠ .singleShot) :
    timer.timeOut.output = !timer.output := by
  unfold timeOut
  rw [if_neg hmode]
  split <;> rfl

theorem singleShotFired_timeOut (hmode : timer.mode = .singleShot) :
    timer.timeOut.singleShotFired = true := by
  have hmeasurement : timer.measurement = false := by
    unfold measurement
    rw [hmode]
    rfl
  unfold timeOut
  rw [hmeasurement, if_neg (by decide), if_pos hmode]

theorem mode_eq (hcontrol : timer.control = start.control) : timer.mode = start.mode := by
  unfold mode
  rw [hcontrol]

theorem Counted.timeOut (h : Counted start q timer) (hwraps : Wraps start.period q) :
    Counted start (q + 1) timer.timeOut where
  latch := (latch_timeOut timer).trans h.latch
  control := (control_timeOut timer).trans h.control
  word hdual := by
    rw [period, if_neg (by rw [hdual]; decide)] at hwraps
    rw [counter_timeOut, h.latch, hwraps.mod_succ, Nat.sub_zero]
  low hdual := by
    rw [period, if_pos hdual, wraps_mul] at hwraps
    rw [lsbCounter_timeOut, h.latch, hwraps.1.mod_succ, Nat.sub_zero, BitVec.toNat_setWidth]
    rfl
  high hdual := by
    rw [period, if_pos hdual, wraps_mul] at hwraps
    rw [counter_timeOut, h.latch, hwraps.1.div_succ, hwraps.2.mod_succ, Nat.sub_zero, latchHigh,
      latchLow, Nat.div_add_mod']
  output hmode := by
    rw [output_timeOut (by rwa [mode_eq h.control]), h.output hmode, hwraps.div_succ,
      ← decide_not, decide_eq_decide]
    omega
  fired hmode := by
    rw [singleShotFired_timeOut (by rwa [mode_eq h.control]), eq_comm, decide_eq_true_eq]
    exact Nat.le_of_dvd (Nat.succ_pos q) hwraps

/-- ONE COUNT: it is the last one of a round, or the next stands in the counter. -/
theorem Counted.countDown (h : Counted start q timer) :
    timer.countDown.1 = decide (Wraps start.period q) ∧
      if Wraps start.period q then timer.countDown.2 = timer
      else Counted start (q + 1) timer.countDown.2 := by
  have hdual : timer.dual8bit = start.dual8bit := by rw [dual8bit, h.control]; rfl
  unfold PtmTimer.countDown
  rw [hdual]
  cases hsize : start.dual8bit with
  | false =>
    have hperiod : start.period = start.latch.toNat + 1 := by
      rw [period, if_neg (by rw [hsize]; decide)]
    have hword := h.word hsize
    have hzero : timer.counter = 0 ↔ Wraps start.period q := by
      rw [← BitVec.toNat_inj, hword, hperiod]
      exact down_eq_zero_iff _ _
    rw [if_neg (by decide)]
    by_cases hwraps : Wraps start.period q
    · rw [if_neg (not_not.2 (hzero.2 hwraps)), if_pos hwraps]
      exact ⟨(decide_eq_true hwraps).symm, rfl⟩
    · rw [if_pos fun hzero' => hwraps (hzero.1 hzero'), if_neg hwraps]
      refine ⟨(decide_eq_false hwraps).symm, h.next hwraps rfl rfl rfl rfl (fun _ => ?_)
        (fun hother => ?_) fun hother => ?_⟩
      · rw [hperiod] at hwraps
        obtain ⟨hpos, hdown⟩ := down_succ hwraps
        rw [hdown, ← hword]
        rw [← hword] at hpos
        exact BitVec.toNat_sub_of_le (by rw [BitVec.le_def]; exact hpos)
      · rw [hsize] at hother
        cases hother
      · rw [hsize] at hother
        cases hother
  | true =>
    have hperiod : start.period = (start.latchLow + 1) * (start.latchHigh + 1) := by
      rw [period, if_pos hsize]
    have hlow := h.low hsize
    have hhigh := h.high hsize
    have hlatchLow : (timer.latch.setWidth 8).toNat = start.latchLow := by
      rw [h.latch, BitVec.toNat_setWidth]
      rfl
    have hmsb : (timer.counter.extractLsb' 8 8).toNat =
        start.latchHigh - q / (start.latchLow + 1) % (start.latchHigh + 1) := by
      have hlatchHigh : start.latchHigh < 256 := by
        have := start.latch.isLt
        unfold latchHigh
        omega
      have hlatchLow : start.latchLow < 256 := Nat.mod_lt _ (by decide)
      rw [BitVec.extractLsb'_toNat, Nat.shiftRight_eq_div_pow, hhigh]
      omega
    have hlsbZero : timer.lsbCounter = 0 ↔ Wraps (start.latchLow + 1) q := by
      rw [← BitVec.toNat_inj, hlow]
      exact down_eq_zero_iff _ _
    have hmsbZero : timer.counter.extractLsb' 8 8 = 0 ↔
        Wraps (start.latchHigh + 1) (q / (start.latchLow + 1)) := by
      rw [← BitVec.toNat_inj, hmsb]
      exact down_eq_zero_iff _ _
    have hword : start.dual8bit = false → False := fun hother => by
      rw [hsize] at hother
      cases hother
    rw [if_pos rfl, hperiod]
    by_cases hlsb : Wraps (start.latchLow + 1) q
    · rw [if_neg (not_not.2 (hlsbZero.2 hlsb))]
      dsimp only
      by_cases hmsbWraps : Wraps (start.latchHigh + 1) (q / (start.latchLow + 1))
      · have hwraps := (wraps_mul _ _ q).2 ⟨hlsb, hmsbWraps⟩
        rw [if_neg (not_not.2 (hmsbZero.2 hmsbWraps)), if_pos hwraps]
        exact ⟨(decide_eq_true hwraps).symm, rfl⟩
      · have hwraps : ¬ Wraps ((start.latchLow + 1) * (start.latchHigh + 1)) q := fun hwraps =>
          hmsbWraps ((wraps_mul _ _ q).1 hwraps).2
        rw [if_pos fun hzero => hmsbWraps (hmsbZero.1 hzero), if_neg hwraps]
        refine ⟨(decide_eq_false hwraps).symm, h.next (by rwa [hperiod]) rfl rfl rfl rfl
          (fun hother => (hword hother).elim) (fun _ => ?_) fun _ => ?_⟩
        · rw [down_of_wraps hlsb]
          exact hlatchLow
        · obtain ⟨hpos, hdown⟩ := down_succ hmsbWraps
          rw [hlsb.div_succ, hdown, ← hmsb]
          rw [← hmsb] at hpos
          have hsub : (timer.counter.extractLsb' 8 8 - 1).toNat =
              (timer.counter.extractLsb' 8 8).toNat - 1 :=
            BitVec.toNat_sub_of_le (by rw [BitVec.le_def]; exact hpos)
          rw [← hsub, ← hlatchLow]
          exact toNat_append_byte _ _
    · have hwraps : ¬ Wraps ((start.latchLow + 1) * (start.latchHigh + 1)) q := fun hwraps =>
        hlsb ((wraps_mul _ _ q).1 hwraps).1
      rw [if_pos fun hzero => hlsb (hlsbZero.1 hzero), if_neg hwraps]
      refine ⟨(decide_eq_false hwraps).symm, h.next (by rwa [hperiod]) rfl rfl rfl rfl
        (fun hother => (hword hother).elim) (fun _ => ?_) fun _ => ?_⟩
      · obtain ⟨hpos, hdown⟩ := down_succ hlsb
        rw [hdown, ← hlow]
        rw [← hlow] at hpos
        exact BitVec.toNat_sub_of_le (by rw [BitVec.le_def]; exact hpos)
      · rw [div_succ_of_not_wraps hlsb]
        exact hhigh

/-! ## Pulses -/

/-- The pulses of a count. -/
def prescale (prescaled : Bool) : Nat := if prescaled then 8 else 1

/-- A timer after so many pulses. -/
structure Phase (prescaled : Bool) (start : PtmTimer) (j : Nat) (timer : PtmTimer) : Prop where
  counted : Counted start (j / prescale prescaled) timer
  prescaleCount : prescaled = true → timer.prescaleCount.toNat = j % 8

theorem Counted.count (h : Counted start q timer) :
    timer.count.1 = decide (Wraps start.period q) ∧ Counted start (q + 1) timer.count.2 ∧
      timer.count.2.prescaleCount = timer.prescaleCount := by
  have hprescale : timer.countDown.2.prescaleCount = timer.prescaleCount := by
    unfold PtmTimer.countDown
    dsimp only
    split_ifs <;> rfl
  obtain ⟨hlast, hcounted⟩ := h.countDown
  unfold PtmTimer.count
  by_cases hwraps : Wraps start.period q
  · rw [if_pos hwraps] at hcounted
    rw [decide_eq_true hwraps] at hlast ⊢
    generalize timer.countDown = counted at hlast hcounted hprescale
    obtain ⟨last, timer'⟩ := counted
    cases hlast
    cases hcounted
    exact ⟨rfl, h.timeOut hwraps, prescaleCount_timeOut _⟩
  · rw [if_neg hwraps] at hcounted
    rw [decide_eq_false hwraps] at hlast ⊢
    generalize timer.countDown = counted at hlast hcounted hprescale
    obtain ⟨last, timer'⟩ := counted
    cases hlast
    exact ⟨rfl, hcounted, hprescale⟩

theorem Counted.prescaler (h : Counted start q timer) (count : BitVec 8) :
    Counted start q { timer with prescaleCount := count } :=
  ⟨h.latch, h.control, h.word, h.low, h.high, h.output, h.fired⟩

theorem toNat_prescaler {count : BitVec 8} {j : Nat} (h : count.toNat = j % 8) :
    ((count + 1) &&& 7).toNat = (j + 1) % 8 := by
  rw [BitVec.toNat_and, BitVec.toNat_add, h]
  show (j % 8 + 1) % 256 &&& 7 = _
  rw [show (7 : Nat) = 2 ^ 3 - 1 from rfl, Nat.and_two_pow_sub_one_eq_mod]
  omega

/-- ONE PULSE. -/
theorem Phase.clock {prescaled : Bool} {j : Nat} (h : Phase prescaled start j timer) :
    (timer.clock prescaled).1 = decide (Wraps (prescale prescaled * start.period) j) ∧
      Phase prescaled start (j + 1) (timer.clock prescaled).2 := by
  obtain ⟨hcounted, hprescale⟩ := h
  unfold PtmTimer.clock
  cases prescaled with
  | false =>
    have hone : prescale false = 1 := rfl
    rw [hone, Nat.div_one] at hcounted
    obtain ⟨hlast, hnext, -⟩ := hcounted.count
    rw [hone, Nat.one_mul]
    refine ⟨hlast, ?_, nofun⟩
    rw [hone, Nat.div_one]
    exact hnext
  | true =>
    have height : prescale true = 8 := rfl
    rw [height] at hcounted
    have hcount := toNat_prescaler (hprescale rfl)
    rw [if_pos rfl, height]
    dsimp only
    rw [Bool.true_and]
    by_cases hwraps : Wraps 8 j
    · have hzero : (timer.prescaleCount + 1) &&& 7 = 0 := by
        rw [← BitVec.toNat_inj, hcount, hwraps.mod_succ]
        rfl
      obtain ⟨hlast, hnext, hsame⟩ := (hcounted.prescaler ((timer.prescaleCount + 1) &&& 7)).count
      rw [if_neg (by rw [decide_eq_true_eq, not_not]; exact hzero)]
      refine ⟨hlast.trans (decide_eq_decide.2 ?_), ?_, fun _ => ?_⟩
      · rw [wraps_mul]
        exact (and_iff_right hwraps).symm
      · rw [height, hwraps.div_succ]
        exact hnext
      · rw [hsame]
        exact hcount
    · have hzero : (timer.prescaleCount + 1) &&& 7 ≠ 0 := by
        intro hzero
        rw [hzero] at hcount
        exact hwraps (Nat.dvd_of_mod_eq_zero hcount.symm)
      rw [if_pos (decide_eq_true hzero)]
      refine ⟨(decide_eq_false fun hboth => hwraps ((wraps_mul _ _ j).1 hboth).1).symm, ?_,
        fun _ => hcount⟩
      rw [height, div_succ_of_not_wraps hwraps]
      exact hcounted.prescaler _

theorem Phase.pin {prescaled : Bool} {j : Nat} (h : Phase prescaled start j timer) :
    timer.pin =
      (start.outputEnable && if start.mode = .singleShot then
        !decide (prescale prescaled * start.period ≤ j)
      else decide (j / (prescale prescaled * start.period) % 2 = 1)) := by
  have hpos : 0 < prescale prescaled := by
    unfold prescale
    split <;> decide
  have henable : timer.outputEnable = start.outputEnable := by
    unfold outputEnable
    rw [h.counted.control]
  unfold PtmTimer.pin
  rw [henable, mode_eq h.counted.control]
  cases start.outputEnable with
  | false => rfl
  | true =>
    rw [Bool.not_true, if_neg (by decide), Bool.true_and]
    by_cases hmode : start.mode = .singleShot
    · have hfired : start.period ≤ j / prescale prescaled ↔
          prescale prescaled * start.period ≤ j := by
        rw [Nat.le_div_iff_mul_le hpos, Nat.mul_comm]
      rw [if_pos hmode, if_pos hmode, h.counted.fired hmode, decide_eq_decide.2 hfired]
    · rw [if_neg hmode, if_neg hmode, h.counted.output hmode, Nat.div_div_eq_div_mul]

/-- A COUNTER INITIALISATION: what a timer is after it. -/
structure Initialised (timer : PtmTimer) : Prop where
  counter : timer.counter = timer.latch
  low : timer.dual8bit = true → timer.lsbCounter = timer.latch.setWidth 8
  prescaleCount : timer.prescaleCount = 0
  output : timer.output = false
  fired : timer.singleShotFired = false

theorem initialised_reload (timer : PtmTimer) : timer.reload.Initialised where
  counter := rfl
  low _ := rfl
  prescaleCount := rfl
  output := rfl
  fired := rfl

theorem initialised_setGate (hhigh : timer.gate = true) (hmode : timer.measurement = false) :
    (timer.setGate false).Initialised := by
  obtain ⟨hcounter, hlow, hprescale, houtput, hfired⟩ :=
    initialised_reload { timer with gate := false }
  have hmode' : measurement { timer with gate := false } = false := hmode
  unfold setGate
  dsimp only
  rw [hmode', hhigh, Bool.false_and, Bool.false_and, if_neg (by decide), if_pos (by decide),
    if_neg (by decide)]
  split <;> exact ⟨hcounter, hlow, hprescale, houtput, hfired⟩

/-- It is the phase of no pulse. -/
theorem Initialised.phase (h : start.Initialised) (prescaled : Bool) :
    Phase prescaled start 0 start := by
  refine ⟨?_, fun _ => by rw [h.prescaleCount]; rfl⟩
  rw [Nat.zero_div]
  exact
    { latch := rfl
      control := rfl
      word := fun _ => by rw [h.counter, Nat.zero_mod, Nat.sub_zero]
      low := fun hdual => by
        rw [h.low hdual, BitVec.toNat_setWidth, Nat.zero_mod, Nat.sub_zero]
        rfl
      high := fun _ => by
        rw [h.counter, Nat.zero_div, Nat.zero_mod, Nat.sub_zero, latchHigh, latchLow,
          Nat.div_add_mod']
      output := fun _ => by rw [h.output, Nat.zero_div]; rfl
      fired := fun _ => by
        rw [h.fired, eq_comm, decide_eq_false_iff_not, not_le]
        exact start.period_pos }

end PtmTimer

namespace PtmOp

/-- An operation that leaves the settings of a timer and its count alone, but for pulses: no write
to a control register or to its latch, and no gate edge of its own. -/
def undisturbing (i : Fin 3) : PtmOp → Bool
  | .write (.timerMsb _) _ => true
  | .write (.timerLsb j) _ => j ≠ i
  | .write _ _ => false
  | .setGate j _ => j ≠ i
  | .read _ => true
  | .clockPin _ => true
  | .clockExternal _ => true
  | .clockInternal _ => true

/-- An operation between a status read and the read of a timer: not one of the two itself. -/
def between (i : Fin 3) : PtmOp → Bool
  | .read .control2OrStatus => false
  | .read (.timerMsb j) => j ≠ i
  | _ => true

end PtmOp

namespace Ptm

variable {ptm : Ptm} {i : Fin 3}

theorem timer_setTimer (j : Fin 3) (timer : PtmTimer) :
    (ptm.setTimer j timer).timer.get i = if j = i then timer else ptm.timer.get i :=
  Slots.get_set j i timer

/-- The same timer, but for its flag. -/
def SameTimer (ptm : Ptm) (i : Fin 3) (ptm' : Ptm) : Prop :=
  ∃ flag, ptm'.timer.get i = { ptm.timer.get i with interruptFlag := flag }

theorem SameTimer.of_eq {ptm' : Ptm} (h : ptm'.timer.get i = ptm.timer.get i) :
    SameTimer ptm i ptm' := ⟨(ptm.timer.get i).interruptFlag, h⟩

theorem sameTimer_setTimer {j : Fin 3} (hj : j ≠ i) (timer : PtmTimer) :
    SameTimer ptm i (ptm.setTimer j timer) :=
  .of_eq (by rw [timer_setTimer, if_neg hj])

theorem sameTimer_clockPin {j : Fin 3} (hj : j ≠ i) : SameTimer ptm i (ptm.clockPin j) := by
  unfold clockPin
  split
  · exact .of_eq rfl
  · exact sameTimer_setTimer hj _

theorem sameTimer_read (rs : PtmRs) : SameTimer ptm i (ptm.read rs).2 := by
  cases rs with
  | control1Or3 => exact .of_eq rfl
  | control2OrStatus => exact .of_eq rfl
  | timerLsb j => exact .of_eq rfl
  | timerMsb j =>
    show SameTimer ptm i (ptm.readCounter j).2
    unfold readCounter
    dsimp only
    split
    · by_cases hj : j = i
      · subst hj
        refine ⟨false, ?_⟩
        show (ptm.setTimer j _).timer.get j = _
        rw [timer_setTimer, if_pos rfl]
      · exact sameTimer_setTimer hj _
    · exact .of_eq rfl

theorem step_cases {op : PtmOp} (hop : op.undisturbing i = true) :
    (ptm.pulses i op = true ∧ ptm.step op = ptm.clockPin i) ∨
      (ptm.pulses i op = false ∧ SameTimer ptm i (ptm.step op)) := by
  cases op with
  | write rs value =>
    cases rs with
    | control1Or3 => cases hop
    | control2OrStatus => cases hop
    | timerMsb j => exact .inr ⟨rfl, .of_eq rfl⟩
    | timerLsb j => exact .inr ⟨rfl, sameTimer_setTimer (of_decide_eq_true hop) _⟩
  | read rs => exact .inr ⟨rfl, sameTimer_read rs⟩
  | setGate j high => exact .inr ⟨rfl, sameTimer_setTimer (of_decide_eq_true hop) _⟩
  | clockPin j =>
    by_cases hj : j = i
    · subst hj
      exact .inl ⟨decide_eq_true rfl, rfl⟩
    · exact .inr ⟨decide_eq_false hj, sameTimer_clockPin hj⟩
  | clockExternal j =>
    by_cases hj : j = i
    · subst hj
      cases hclock : (ptm.timer.get j).usesInternalClock with
      | true => exact .inr ⟨by simp [pulses, hclock], .of_eq (by simp [step, clockFrom, hclock])⟩
      | false => exact .inl ⟨by simp [pulses, hclock], by simp [step, clockFrom, hclock]⟩
    · refine .inr ⟨by simp [pulses, hj], ?_⟩
      show SameTimer ptm i (ptm.clockFrom j false)
      unfold clockFrom
      split
      · exact .of_eq rfl
      · exact sameTimer_clockPin hj
  | clockInternal j =>
    by_cases hj : j = i
    · subst hj
      cases hclock : (ptm.timer.get j).usesInternalClock with
      | false => exact .inr ⟨by simp [pulses, hclock], .of_eq (by simp [step, clockFrom, hclock])⟩
      | true => exact .inl ⟨by simp [pulses, hclock], by simp [step, clockFrom, hclock]⟩
    · refine .inr ⟨by simp [pulses, hj], ?_⟩
      show SameTimer ptm i (ptm.clockFrom j true)
      unfold clockFrom
      split
      · exact .of_eq rfl
      · exact sameTimer_clockPin hj

/-- The counter is enabled at every pulse of a run. -/
def Enabled (i : Fin 3) : Ptm → List PtmOp → Prop
  | _, [] => True
  | ptm, op :: ops =>
    (ptm.pulses i op = true → ptm.counting i = true) ∧ Enabled i (ptm.step op) ops

/-- What is counted of a run: its pulses, its time-outs, and the changes and the falls of the
output. -/
def pulseCount (ptm : Ptm) (i : Fin 3) (ops : List PtmOp) : Nat :=
  tally (fun ptm op => ptm.pulses i op) ptm ops

def timeOuts (ptm : Ptm) (i : Fin 3) (ops : List PtmOp) : Nat :=
  tally (fun ptm op => ptm.pulses i op && ptm.timesOut i) ptm ops

def changes (ptm : Ptm) (i : Fin 3) (ops : List PtmOp) : Nat :=
  tally (fun ptm op => (ptm.timer.get i).pin != ((ptm.step op).timer.get i).pin) ptm ops

def falls (ptm : Ptm) (i : Fin 3) (ops : List PtmOp) : Nat :=
  tally (fun ptm op => (ptm.timer.get i).pin && !((ptm.step op).timer.get i).pin) ptm ops

variable {prescaled : Bool} {start : PtmTimer} {j : Nat}

theorem SameTimer.phase {ptm' : Ptm} (h : SameTimer ptm i ptm')
    (hphase : PtmTimer.Phase prescaled start j (ptm.timer.get i)) :
    PtmTimer.Phase prescaled start j (ptm'.timer.get i) := by
  obtain ⟨flag, htimer⟩ := h
  rw [htimer]
  obtain ⟨⟨hlatch, hcontrol, hword, hlow, hhigh, houtput, hfired⟩, hprescale⟩ := hphase
  exact ⟨⟨hlatch, hcontrol, hword, hlow, hhigh, houtput, hfired⟩, hprescale⟩

/-- A PULSE OF A TIMER THAT COUNTS. -/
theorem clockPin_phase (hphase : PtmTimer.Phase prescaled start j (ptm.timer.get i))
    (hprescaled : prescaled = (i = 2 && start.control.getLsbD 0)) (hcounting : ptm.counting i = true) :
    ptm.timesOut i = decide (Wraps (PtmTimer.prescale prescaled * start.period) j) ∧
      PtmTimer.Phase prescaled start (j + 1) ((ptm.clockPin i).timer.get i) := by
  have hsame : ptm.prescaled i = prescaled := by
    unfold Ptm.prescaled
    rw [hphase.counted.control, hprescaled]
  obtain ⟨hlast, hnext⟩ := hphase.clock
  unfold timesOut clockPin
  rw [hcounting, hsame, Bool.true_and, Bool.not_true, if_neg (by decide), timer_setTimer, if_pos rfl]
  exact ⟨hlast, hnext⟩

/-- What a run from one phase to another has counted. -/
structure Tallied (prescaled : Bool) (start : PtmTimer) (i : Fin 3) (j : Nat) (ptm : Ptm)
    (ops : List PtmOp) : Prop where
  phase : PtmTimer.Phase prescaled start (j + ptm.pulseCount i ops) ((ptm.run ops).timer.get i)
  timeOuts : ptm.timeOuts i ops + j / (PtmTimer.prescale prescaled * start.period) =
    (j + ptm.pulseCount i ops) / (PtmTimer.prescale prescaled * start.period)
  changes : start.outputEnable = true → start.mode ≠ .singleShot →
    ptm.changes i ops + j / (PtmTimer.prescale prescaled * start.period) =
      (j + ptm.pulseCount i ops) / (PtmTimer.prescale prescaled * start.period)
  falls : start.outputEnable = true → start.mode = .singleShot →
    (ptm.falls i ops + if PtmTimer.prescale prescaled * start.period ≤ j then 1 else 0) =
      if PtmTimer.prescale prescaled * start.period ≤ j + ptm.pulseCount i ops then 1 else 0

theorem parity_bne (X j : Nat) :
    (decide (j / X % 2 = 1) != decide ((j + 1) / X % 2 = 1)) = decide (Wraps X j) := by
  rw [div_succ]
  by_cases h : Wraps X j
  · rw [if_pos h, decide_eq_true h, bne_iff_ne, ne_eq, decide_eq_decide]
    omega
  · rw [if_neg h, decide_eq_false h, Nat.add_zero, bne_self_eq_false]

theorem first_fall (X j : Nat) :
    ((if !decide (X ≤ j) && !!decide (X ≤ j + 1) then 1 else 0) + if X ≤ j then 1 else 0) =
      if X ≤ j + 1 then 1 else 0 := by
  by_cases h : X ≤ j
  · rw [if_pos h, if_pos (show X ≤ j + 1 by omega), decide_eq_true h]
    rfl
  · rw [if_neg h, decide_eq_false h, Bool.not_not, Bool.not_false, Bool.true_and]
    simp only [decide_eq_true_eq, Nat.add_zero]

theorem tally_cons (happens : Ptm → PtmOp → Bool) (ptm : Ptm) (op : PtmOp) (ops : List PtmOp) :
    tally happens ptm (op :: ops) = tally happens ptm [op] + tally happens (ptm.step op) ops := rfl

theorem tallied_step (hprescaled : prescaled = (i = 2 && start.control.getLsbD 0)) {op : PtmOp}
    (hphase : PtmTimer.Phase prescaled start j (ptm.timer.get i))
    (hop : op.undisturbing i = true) (hcounting : ptm.pulses i op = true → ptm.counting i = true) :
    Tallied prescaled start i j ptm [op] := by
  have hpin := hphase.pin
  rcases @step_cases ptm _ _ hop with ⟨hpulse, hstep⟩ | ⟨hpulse, hsame⟩
  · obtain ⟨hlast, hnext⟩ := clockPin_phase hphase hprescaled (hcounting hpulse)
    rw [← hstep] at hnext
    have hpin' := hnext.pin
    have hcount : ptm.pulseCount i [op] = 1 := by simp [pulseCount, tally, hpulse]
    refine ⟨?_, ?_, fun henable hmode => ?_, fun henable hmode => ?_⟩
    · rw [hcount]
      exact hnext
    · simp only [timeOuts, tally, hpulse, hlast, hcount, Bool.true_and, div_succ, decide_eq_true_eq]
      omega
    · rw [henable, if_neg hmode, Bool.true_and] at hpin hpin'
      simp only [changes, tally, hpin, hpin', hcount, parity_bne, decide_eq_true_eq]
      rw [div_succ]
      omega
    · rw [henable, if_pos hmode, Bool.true_and] at hpin hpin'
      simp only [falls, tally, hpin, hpin', hcount, Nat.add_zero]
      exact first_fall _ _
  · have hnext := hsame.phase hphase
    have hpin' := hnext.pin
    have hcount : ptm.pulseCount i [op] = 0 := by simp [pulseCount, tally, hpulse]
    have hpins : ((ptm.step op).timer.get i).pin = (ptm.timer.get i).pin := hpin'.trans hpin.symm
    refine ⟨?_, ?_, fun henable hmode => ?_, fun henable hmode => ?_⟩
    · rw [hcount]
      exact hnext
    · simp [timeOuts, tally, hpulse, hcount]
    · simp [changes, tally, hpins, hcount]
    · simp [falls, tally, hpins, hcount]

theorem Tallied.cons {op : PtmOp} {ops : List PtmOp} (h : Tallied prescaled start i j ptm [op])
    (h' : Tallied prescaled start i (j + ptm.pulseCount i [op]) (ptm.step op) ops) :
    Tallied prescaled start i j ptm (op :: ops) := by
  have hcount : ptm.pulseCount i (op :: ops) =
      ptm.pulseCount i [op] + (ptm.step op).pulseCount i ops := tally_cons _ _ _ _
  have htimeOuts : ptm.timeOuts i (op :: ops) =
      ptm.timeOuts i [op] + (ptm.step op).timeOuts i ops := tally_cons _ _ _ _
  have hchanges : ptm.changes i (op :: ops) =
      ptm.changes i [op] + (ptm.step op).changes i ops := tally_cons _ _ _ _
  have hfalls : ptm.falls i (op :: ops) = ptm.falls i [op] + (ptm.step op).falls i ops :=
    tally_cons _ _ _ _
  refine ⟨?_, ?_, fun henable hmode => ?_, fun henable hmode => ?_⟩
  · rw [hcount, ← add_assoc]
    exact h'.phase
  · rw [htimeOuts, hcount, ← add_assoc, ← h'.timeOuts, ← h.timeOuts]
    omega
  · rw [hchanges, hcount, ← add_assoc, ← h'.changes henable hmode, ← h.changes henable hmode]
    omega
  · rw [hfalls, hcount, ← add_assoc, ← h'.falls henable hmode, ← h.falls henable hmode]
    omega

/-- A WHOLE RUN. -/
theorem tallied (hprescaled : prescaled = (i = 2 && start.control.getLsbD 0)) (ops : List PtmOp)
    (hphase : PtmTimer.Phase prescaled start j (ptm.timer.get i))
    (hops : ∀ op ∈ ops, op.undisturbing i = true) (henabled : Enabled i ptm ops) :
    Tallied prescaled start i j ptm ops := by
  induction ops generalizing ptm j with
  | nil =>
    refine ⟨hphase, ?_, fun _ _ => ?_, fun _ _ => ?_⟩
    · exact Nat.zero_add _
    · exact Nat.zero_add _
    · exact Nat.zero_add _
  | cons op ops ih =>
    obtain ⟨hcounting, hrest⟩ := henabled
    have hstep := tallied_step hprescaled hphase (hops op List.mem_cons_self) hcounting
    exact hstep.cons (ih hstep.phase (fun op hop => hops op (List.mem_cons_of_mem _ hop)) hrest)

/-! ## Where a run begins -/

/-- An operation that initialises a counter: a write to its latch if bit 4 lets it, the fall of its
gate if it does not measure, and the end of a software reset for every counter. -/
def Initialises (ptm : Ptm) (i : Fin 3) : PtmOp → Prop
  | .write (.timerLsb j) _ => j = i ∧ (ptm.timer.get i).control.getLsbD 4 = false
  | .write .control1Or3 value =>
    ptm.timersPreset = true ∧ (ptm.writeControl value).timersPreset = false
  | .setGate j high =>
    j = i ∧ high = false ∧ (ptm.timer.get i).gate = true ∧ (ptm.timer.get i).measurement = false
  | _ => False

theorem initialised_writeLatch (value : BitVec 8)
    (h : (ptm.timer.get i).control.getLsbD 4 = false) :
    ((ptm.writeLatch i value).timer.get i).Initialised := by
  unfold writeLatch
  rw [timer_setTimer, if_pos rfl]
  dsimp only
  rw [h, Bool.not_false, if_pos rfl]
  obtain ⟨hcounter, hlow, hprescale, houtput, hfired⟩ :=
    PtmTimer.initialised_reload { ptm.timer.get i with latch := ptm.msbBuffer ++ value }
  split <;> exact ⟨hcounter, hlow, hprescale, houtput, hfired⟩

theorem initialised_writeControl (value : BitVec 8) (hpreset : ptm.timersPreset = true)
    (hgone : (ptm.writeControl value).timersPreset = false) :
    ((ptm.writeControl value).timer.get i).Initialised := by
  unfold writeControl at hgone ⊢
  dsimp only at hgone ⊢
  rw [hpreset] at hgone ⊢
  generalize enterPreset true _ = ptm' at hgone ⊢
  unfold leavePreset at hgone ⊢
  rw [Bool.true_and] at hgone ⊢
  cases hoperate : ptm'.timersPreset with
  | false =>
    rw [Bool.not_false, if_pos rfl, Slots.get_map]
    exact PtmTimer.initialised_reload _
  | true =>
    rw [hoperate, Bool.not_true, if_neg (by decide), hoperate] at hgone
    cases hgone

/-- AFTER A COUNTER INITIALISATION a run can begin. -/
theorem initialised_step {op : PtmOp} (h : ptm.Initialises i op) :
    ((ptm.step op).timer.get i).Initialised := by
  match op, h with
  | .write (.timerLsb _) value, ⟨rfl, hbit⟩ => exact initialised_writeLatch value hbit
  | .write .control1Or3 value, ⟨hpreset, hgone⟩ => exact initialised_writeControl value hpreset hgone
  | .setGate _ _, ⟨rfl, rfl, hhigh, hmode⟩ =>
    show ((ptm.setGate _ false).timer.get _).Initialised
    unfold setGate
    rw [timer_setTimer, if_pos rfl]
    exact PtmTimer.initialised_setGate hhigh hmode

/-! ## A counter stays enabled -/

theorem control_clock (prescaled : Bool) (timer : PtmTimer) :
    (timer.clock prescaled).2.control = timer.control ∧
      (timer.clock prescaled).2.gate = timer.gate := by
  have hcountDown : ∀ t : PtmTimer, t.countDown.2.control = t.control ∧
      t.countDown.2.gate = t.gate := by
    intro t
    unfold PtmTimer.countDown
    dsimp only
    split_ifs <;> exact ⟨rfl, rfl⟩
  have htimeOut : ∀ t : PtmTimer, t.timeOut.control = t.control ∧ t.timeOut.gate = t.gate := by
    intro t
    unfold PtmTimer.timeOut
    split_ifs <;> exact ⟨rfl, rfl⟩
  have hcount : ∀ t : PtmTimer, t.count.2.control = t.control ∧ t.count.2.gate = t.gate := by
    intro t
    obtain ⟨hcontrol, hgate⟩ := hcountDown t
    unfold PtmTimer.count
    generalize t.countDown = counted at hcontrol hgate ⊢
    obtain ⟨last, t'⟩ := counted
    cases last with
    | false => exact ⟨hcontrol, hgate⟩
    | true => exact ⟨(htimeOut t').1.trans hcontrol, (htimeOut t').2.trans hgate⟩
  cases prescaled with
  | false => exact hcount timer
  | true =>
    unfold PtmTimer.clock
    rw [if_pos rfl]
    dsimp only
    generalize (true && decide ((timer.prescaleCount + 1) &&& 7 ≠ 0)) = stopped
    cases stopped with
    | true => exact ⟨rfl, rfl⟩
    | false => exact hcount _

theorem control_setTimer {k : Fin 3} {timer : PtmTimer}
    (h : timer.control = (ptm.timer.get k).control) (m : Fin 3) :
    ((ptm.setTimer k timer).timer.get m).control = (ptm.timer.get m).control := by
  rw [timer_setTimer]
  split
  · next hk => rw [h, hk]
  · rfl

theorem control_clockPin (k m : Fin 3) :
    ((ptm.clockPin k).timer.get m).control = (ptm.timer.get m).control := by
  unfold clockPin
  split
  · rfl
  · exact control_setTimer (control_clock _ _).1 m

theorem control_step {op : PtmOp} (hop : op.undisturbing i = true) (m : Fin 3) :
    ((ptm.step op).timer.get m).control = (ptm.timer.get m).control := by
  cases op with
  | write rs value =>
    cases rs with
    | control1Or3 => cases hop
    | control2OrStatus => cases hop
    | timerMsb j => rfl
    | timerLsb j =>
      show ((ptm.writeLatch j value).timer.get m).control = _
      unfold writeLatch
      refine control_setTimer ?_ m
      dsimp only
      split_ifs <;> rfl
  | read rs =>
    obtain ⟨flag, htimer⟩ := @sameTimer_read ptm m rs
    show ((ptm.read rs).2.timer.get m).control = _
    rw [htimer]
  | setGate j high =>
    refine control_setTimer ?_ m
    unfold PtmTimer.setGate
    dsimp only
    split_ifs <;> rfl
  | clockPin j => exact control_clockPin j m
  | clockExternal j =>
    show ((ptm.clockFrom j false).timer.get m).control = _
    unfold clockFrom
    split
    · rfl
    · exact control_clockPin j m
  | clockInternal j =>
    show ((ptm.clockFrom j true).timer.get m).control = _
    unfold clockFrom
    split
    · rfl
    · exact control_clockPin j m

theorem counting_step (hmode : (ptm.timer.get i).measurement = false)
    (hcounting : ptm.counting i = true) {op : PtmOp} (hop : op.undisturbing i = true) :
    ((ptm.step op).timer.get i).measurement = false ∧ (ptm.step op).counting i = true := by
  have hmeasurement : ((ptm.step op).timer.get i).measurement = false := by
    unfold PtmTimer.measurement at hmode ⊢
    rwa [PtmTimer.mode_eq (control_step hop i)]
  have hgate : ((ptm.step op).timer.get i).gate = (ptm.timer.get i).gate := by
    rcases @step_cases ptm _ _ hop with ⟨-, hstep⟩ | ⟨-, flag, htimer⟩
    · rw [hstep, clockPin]
      split
      · rfl
      · rw [timer_setTimer, if_pos rfl]
        exact (control_clock _ _).2
    · rw [htimer]
  refine ⟨hmeasurement, ?_⟩
  unfold counting at hcounting ⊢
  dsimp only at hcounting ⊢
  rw [timersPreset, control_step hop, hgate, hmeasurement]
  rw [timersPreset, hmode] at hcounting
  exact hcounting

/-- A COUNTER THAT IS ENABLED in a mode that counts is enabled at every pulse. -/
theorem enabled_of_counting (ops : List PtmOp) (hmode : (ptm.timer.get i).measurement = false)
    (hcounting : ptm.counting i = true) (hops : ∀ op ∈ ops, op.undisturbing i = true) :
    Enabled i ptm ops := by
  induction ops generalizing ptm with
  | nil => trivial
  | cons op ops ih =>
    obtain ⟨hmode', hcounting'⟩ := counting_step hmode hcounting (hops op List.mem_cons_self)
    exact ⟨fun _ => hcounting,
      ih hmode' hcounting' fun op hop => hops op (List.mem_cons_of_mem _ hop)⟩

/-! ## What is read back -/

theorem readBack_eq (ptm : Ptm) (i : Fin 3) : ptm.readBack i = (ptm.timer.get i).counter := by
  have hhigh : (ptm.readCounter i).1 = (ptm.timer.get i).counter.extractLsb' 8 8 := by
    unfold readCounter
    dsimp only
    split <;> rfl
  have hlow : (ptm.readCounter i).2.lsbBuffer = (ptm.timer.get i).counter.setWidth 8 := by
    unfold readCounter
    dsimp only
    split <;> rfl
  show (ptm.readCounter i).1 ++ (ptm.readCounter i).2.lsbBuffer = (ptm.timer.get i).counter
  rw [hhigh, hlow]
  apply BitVec.eq_of_toNat_eq
  have hlt := (ptm.timer.get i).counter.isLt
  rw [PtmTimer.toNat_append_byte, BitVec.extractLsb'_toNat, BitVec.toNat_setWidth,
    Nat.shiftRight_eq_div_pow]
  omega

/-- The pulses between two time-outs. -/
def pulsePeriod (ptm : Ptm) (i : Fin 3) : Nat :=
  PtmTimer.prescale (ptm.prescaled i) * (ptm.timer.get i).period

/-- WHAT A TIMER IS TO DO in a run from a counter initialisation. -/
structure Exact (ptm : Ptm) (i : Fin 3) (ops : List PtmOp) : Prop where
  /-- As many time-outs as whole periods. -/
  timeOuts : ptm.timeOuts i ops = ptm.pulseCount i ops / ptm.pulsePeriod i
  /-- A continuous output has toggled as often. -/
  continuous : (ptm.timer.get i).outputEnable = true → (ptm.timer.get i).mode = .continuous →
    ptm.changes i ops = ptm.pulseCount i ops / ptm.pulsePeriod i
  /-- A single shot has fallen once, if a period is over. -/
  singleShot : (ptm.timer.get i).outputEnable = true → (ptm.timer.get i).mode = .singleShot →
    ptm.falls i ops = if ptm.pulsePeriod i ≤ ptm.pulseCount i ops then 1 else 0
  /-- The counter is what is left. -/
  readBack : ((ptm.run ops).readBack i).toNat =
    (ptm.timer.get i).remainder (ptm.pulseCount i ops / PtmTimer.prescale (ptm.prescaled i))

/-- IT DOES, but for the low half of a dual counter: that reads as the latch has it. -/
theorem exact_iff (ops : List PtmOp) (hinit : (ptm.timer.get i).Initialised)
    (hops : ∀ op ∈ ops, op.undisturbing i = true) (henabled : Enabled i ptm ops) :
    Exact ptm i ops ↔ ((ptm.timer.get i).dual8bit = true →
      ptm.pulseCount i ops / PtmTimer.prescale (ptm.prescaled i) %
        ((ptm.timer.get i).latchLow + 1) = 0) := by
  obtain ⟨hphase, htimeOuts, hchanges, hfalls⟩ :=
    @tallied ptm i (ptm.prescaled i) _ _ rfl ops (hinit.phase _) hops henabled
  rw [Nat.zero_add] at hphase
  have hread : ((ptm.run ops).readBack i).toNat =
      (ptm.timer.get i).remainder (ptm.pulseCount i ops / PtmTimer.prescale (ptm.prescaled i)) ↔
      ((ptm.timer.get i).dual8bit = true →
        ptm.pulseCount i ops / PtmTimer.prescale (ptm.prescaled i) %
          ((ptm.timer.get i).latchLow + 1) = 0) := by
    have hlt := Nat.mod_lt (ptm.pulseCount i ops / PtmTimer.prescale (ptm.prescaled i))
      (Nat.add_one_pos (ptm.timer.get i).latchLow)
    rw [readBack_eq]
    unfold PtmTimer.remainder
    cases hdual : (ptm.timer.get i).dual8bit with
    | false =>
      rw [hphase.counted.word hdual, if_neg (by decide)]
      exact ⟨fun _ h => (nomatch h), fun _ => rfl⟩
    | true =>
      rw [hphase.counted.high hdual, if_pos rfl]
      refine ⟨fun h _ => ?_, fun h => ?_⟩
      · omega
      · rw [h rfl, Nat.sub_zero]
  rw [← hread]
  refine ⟨fun h => h.readBack, fun h =>
    ⟨?_, fun henable hmode => ?_, fun henable hmode => ?_, h⟩⟩
  · rw [Nat.zero_add, Nat.zero_div, Nat.add_zero] at htimeOuts
    exact htimeOuts
  · have hchanged := hchanges henable (by rw [hmode]; decide)
    rw [Nat.zero_add, Nat.zero_div, Nat.add_zero] at hchanged
    exact hchanged
  · have hfell := hfalls henable hmode
    have hpos : 0 < PtmTimer.prescale (ptm.prescaled i) * (ptm.timer.get i).period :=
      Nat.mul_pos (by unfold PtmTimer.prescale; split <;> decide) (PtmTimer.period_pos _)
    rw [Nat.zero_add, if_neg (by omega)] at hfell
    exact hfell

/-! ## Status reads and timer reads -/

theorem statusOf_getLsbD (ptm : Ptm) (i : Fin 3) :
    ptm.statusOf.getLsbD i = (ptm.timer.get i).interruptFlag := by
  unfold statusOf
  generalize ptm.irq = irq
  have hbits : ∀ first second third irq : Bool, ∀ i : Fin 3,
      ((if first then (1 : BitVec 8) else 0) ||| (if second then 2 else 0) |||
        (if third then 4 else 0) ||| (if irq then 0x80 else 0)).getLsbD i =
          (#v[first, second, third] : Vector Bool 3).get i := by decide
  rw [hbits]
  obtain rfl | rfl | rfl : i = 0 ∨ i = 1 ∨ i = 2 := by omega
  · rfl
  · rfl
  · rfl

/-- What the last status read has left: which flags it saw, and whether one of them has been
cleared by a timer read. -/
structure SinceStatus (seen : BitVec 8) (pending : Bool) (ptm : Ptm) : Prop where
  snapshot : ptm.statusSnapshot = seen
  pending : ptm.statusWasRead = pending

/-- A timer read that takes the status read up. -/
def takesUp (seen : BitVec 8) : PtmOp → Bool
  | .read (.timerMsb j) => seen.getLsbD j
  | _ => false

variable {seen : BitVec 8} {pending : Bool}

theorem sinceStatus_step {op : PtmOp} (hop : op.between i = true)
    (h : SinceStatus seen pending ptm) :
    SinceStatus seen (pending && !takesUp seen op) (ptm.step op) := by
  obtain ⟨hsnapshot, hpending⟩ := h
  have hclock : ∀ j, (ptm.clockPin j).statusSnapshot = seen ∧
      (ptm.clockPin j).statusWasRead = pending := by
    intro j
    unfold clockPin
    split <;> exact ⟨hsnapshot, hpending⟩
  have hclockFrom : ∀ j internal, SinceStatus seen pending (ptm.clockFrom j internal) := by
    intro j internal
    unfold clockFrom
    split
    · exact ⟨hsnapshot, hpending⟩
    · exact ⟨(hclock j).1, (hclock j).2⟩
  have hkeeps : ∀ {ptm' : Ptm}, SinceStatus seen pending ptm' →
      SinceStatus seen (pending && !false) ptm' := by
    intro ptm' h'
    rwa [Bool.not_false, Bool.and_true]
  cases op with
  | write rs value =>
    refine hkeeps ?_
    cases rs with
    | control1Or3 =>
      show SinceStatus seen pending (ptm.writeControl value)
      unfold writeControl leavePreset enterPreset
      dsimp only
      split_ifs <;> exact ⟨hsnapshot, hpending⟩
    | control2OrStatus => exact ⟨hsnapshot, hpending⟩
    | timerMsb j => exact ⟨hsnapshot, hpending⟩
    | timerLsb j => exact ⟨hsnapshot, hpending⟩
  | read rs =>
    cases rs with
    | control1Or3 => exact hkeeps ⟨hsnapshot, hpending⟩
    | control2OrStatus => cases hop
    | timerLsb j => exact hkeeps ⟨hsnapshot, hpending⟩
    | timerMsb j =>
      show SinceStatus seen (pending && !seen.getLsbD j) (ptm.readCounter j).2
      unfold readCounter
      dsimp only
      rw [hsnapshot, hpending]
      cases pending with
      | false => exact ⟨rfl, rfl⟩
      | true => cases seen.getLsbD j <;> exact ⟨rfl, rfl⟩
  | setGate j high => exact hkeeps ⟨hsnapshot, hpending⟩
  | clockPin j => exact hkeeps ⟨(hclock j).1, (hclock j).2⟩
  | clockExternal j => exact hkeeps (hclockFrom j false)
  | clockInternal j => exact hkeeps (hclockFrom j true)

theorem sinceStatus_run (ops : List PtmOp) (hops : ∀ op ∈ ops, op.between i = true)
    (h : SinceStatus seen pending ptm) :
    SinceStatus seen (pending && !ops.any (takesUp seen)) (ptm.run ops) := by
  induction ops generalizing ptm pending with
  | nil => exact ⟨h.snapshot, by rw [List.any_nil, Bool.not_false, Bool.and_true]; exact h.pending⟩
  | cons op ops ih =>
    have hrest := ih (fun op hop => hops op (List.mem_cons_of_mem _ hop))
      (sinceStatus_step (hops op List.mem_cons_self) h)
    rw [List.any_cons, Bool.not_or, ← Bool.and_assoc]
    exact hrest

/-- THE FLAG OF A TIME-OUT that came after a status read survives the timer read after it, unless
the status read saw the flag of that timer already; but then another timer read may have taken the
status read up. -/
theorem survives_iff (ptm : Ptm) (i : Fin 3) (ops : List PtmOp)
    (hops : ∀ op ∈ ops, op.between i = true)
    (hraised : (((ptm.read .control2OrStatus).2.run ops).timer.get i).interruptFlag = true) :
    ((((ptm.read .control2OrStatus).2.run ops).read (.timerMsb i)).2.timer.get i).interruptFlag =
        true ↔
      ((ptm.timer.get i).interruptFlag = false ∨
        ∃ j, .read (.timerMsb j) ∈ ops ∧ (ptm.timer.get j).interruptFlag = true) := by
  obtain ⟨hsnapshot, hpending⟩ := @sinceStatus_run
    (ptm.read .control2OrStatus).2 i ptm.statusOf true ops hops ⟨rfl, rfl⟩
  have htaken : ops.any (takesUp ptm.statusOf) = true ↔
      ∃ j, .read (.timerMsb j) ∈ ops ∧ (ptm.timer.get j).interruptFlag = true := by
    rw [List.any_eq_true]
    constructor
    · rintro ⟨op, hmem, htakes⟩
      cases op with
      | read rs =>
        cases rs with
        | timerMsb j => exact ⟨j, hmem, by rw [← statusOf_getLsbD]; exact htakes⟩
        | control1Or3 => cases htakes
        | control2OrStatus => cases htakes
        | timerLsb j => cases htakes
      | write rs value => cases htakes
      | setGate j high => cases htakes
      | clockPin j => cases htakes
      | clockExternal j => cases htakes
      | clockInternal j => cases htakes
    · rintro ⟨j, hmem, hflag⟩
      exact ⟨_, hmem, (statusOf_getLsbD ptm j).trans hflag⟩
  rw [← htaken]
  generalize (ptm.read .control2OrStatus).2.run ops = ptm' at hraised hsnapshot hpending ⊢
  show ((ptm'.readCounter i).2.timer.get i).interruptFlag = true ↔ _
  unfold readCounter
  dsimp only
  rw [hsnapshot, hpending, statusOf_getLsbD, Bool.true_and]
  cases hseen : (ptm.timer.get i).interruptFlag with
  | false => simpa using hraised
  | true =>
    cases ops.any (takesUp ptm.statusOf) with
    | true => simpa using hraised
    | false =>
      rw [Bool.not_false, Bool.true_and, if_pos rfl]
      show ((ptm'.setTimer i _).timer.get i).interruptFlag = true ↔ _
      rw [timer_setTimer, if_pos rfl]
      simp

/-- PERIODS AND FLAGS: a timer does exactly what it should in a run from a counter initialisation
unless it is a dual counter between two rounds of its low half; and a time-out after a status read
keeps its flag through the timer read unless that flag was seen, and not taken up since. -/
theorem periods_and_flags (ptm : Ptm) (i : Fin 3) (ops : List PtmOp) :
    ((ptm.timer.get i).Initialised → (∀ op ∈ ops, op.undisturbing i = true) → Enabled i ptm ops →
      (Exact ptm i ops ↔ ((ptm.timer.get i).dual8bit = true →
        ptm.pulseCount i ops / PtmTimer.prescale (ptm.prescaled i) %
          ((ptm.timer.get i).latchLow + 1) = 0))) ∧
    ((∀ op ∈ ops, op.between i = true) → 0 < (ptm.read .control2OrStatus).2.timeOuts i ops →
      (((ptm.read .control2OrStatus).2.run ops).timer.get i).interruptFlag = true →
        (((((ptm.read .control2OrStatus).2.run ops).read (.timerMsb i)).2.timer.get i).interruptFlag =
            true ↔
          ((ptm.timer.get i).interruptFlag = false ∨
            ∃ j, .read (.timerMsb j) ∈ ops ∧ (ptm.timer.get j).interruptFlag = true))) :=
  ⟨fun hinit hops henabled => exact_iff ops hinit hops henabled,
    fun hops _ hraised => survives_iff ptm i ops hops hraised⟩

/-- The first timer with a control word and a latch. -/
def programmed (control high low : BitVec 8) : Ptm :=
  reset.run [.write .control2OrStatus 1, .write .control1Or3 control, .write (.timerMsb 0) high,
    .write (.timerLsb 0) low]

/-- A latch of 2 divides seven pulses by three, and a flag that the status read did not see
survives. -/
theorem periods_and_flags_three :
    Exact (programmed 0x80 0 2) 0 (.replicate 7 (.clockPin 0)) ∧
      (((((programmed 0x80 0 0).read .control2OrStatus).2.run [.clockPin 0]).read
        (.timerMsb 0)).2.timer.get 0).interruptFlag = true := by
  have hinit : ((programmed 0x80 0 2).timer.get 0).Initialised :=
    @initialised_step (reset.run [.write .control2OrStatus 1, .write .control1Or3 0x80,
      .write (.timerMsb 0) 0]) 0 (.write (.timerLsb 0) 2) ⟨rfl, by decide⟩
  have hperiods := (periods_and_flags (programmed 0x80 0 2) 0 (.replicate 7 (.clockPin 0))).1 hinit
    (by decide) (enabled_of_counting _ (by decide) (by decide) (by decide))
  have hflags := (periods_and_flags (programmed 0x80 0 0) 0 [.clockPin 0]).2 (by decide) (by decide)
    (by decide)
  exact ⟨hperiods.2 (by decide), hflags.2 (.inl (by decide))⟩

/-- A dual counter of 1 and 2 reads as $0102 after one pulse; and of a continuous timer that the
status read saw flagged the next time-out is lost. -/
theorem dual_reads_latch_and_flag_is_lost :
    ¬ Exact (programmed 0x84 1 2) 0 [.clockPin 0] ∧
      0 < (((programmed 0x80 0 0).clockPin 0).read .control2OrStatus).2.timeOuts 0 [.clockPin 0] ∧
      ((((((programmed 0x80 0 0).clockPin 0).read .control2OrStatus).2.run [.clockPin 0]).read
        (.timerMsb 0)).2.timer.get 0).interruptFlag = false :=
  ⟨fun h => absurd h.readBack (by decide), by decide, by decide +kernel⟩

end Ptm

end Apollo.Device
