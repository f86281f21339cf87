import Apollo.M68030.ExceptionReturn

/-!
# How a step begins

The head of `ap_m68030_step`, up to the decoder: an interrupt that is recognised is taken, a
stopped processor stays stopped, an odd program counter is an address error, and the instruction
word is had from the pipe, or its fetch is a bus error. Clocks, the trace mode and the
floating-point sequence are left out. Beside an exception's status stands the entry that was
taken, which the source does not return.

An interrupt whose entry is refused - a frame cannot be written, or the vector cannot be read -
answers with the same `ok` as one that is not recognised, and the step goes on.
-/

namespace Apollo.M68030

open Apollo.Lib

/-- `ap_m68030_step_status_t`. -/
inductive StepStatus
  | executed
  | exception (entry : Entry)
  | fault
  | unimplemented
  | stopped
deriving DecidableEq

/-- How a step begins: it ends before there is an instruction, or it comes to one. -/
inductive Beginning (σ : Type)
  | ended (status : StepStatus) (cpu : Cpu σ)
  | instruction (word : BitVec 16) (cpu : Cpu σ)

namespace Cpu

variable {σ : Type}

/-- What a step clears first. -/
def forStep (cpu : Cpu σ) : Cpu σ :=
  { cpu with
    accessFaulted := false
    fault := { cpu.fault with translation := false }
    refusedVector := 0 }

/-- What a step sets before it fetches: where a restart goes back to. -/
def forInstruction (cpu : Cpu σ) : Cpu σ :=
  { cpu with extensionWords := 0, entryRegs := cpu.regs }

/-- The registers that a restart puts back: all but the program counter, the status register and
the control registers. -/
def restoreEntry (cpu : Cpu σ) : Cpu σ :=
  cpu.mapRegs fun regs =>
    { regs with
      d := cpu.entryRegs.d
      a := cpu.entryRegs.a
      usp := cpu.entryRegs.usp
      isp := cpu.entryRegs.isp
      msp := cpu.entryRegs.msp }

/-- What is noted of an instruction word that did not arrive. -/
def noteFetchFault (cpu : Cpu σ) : Cpu σ :=
  cpu.noteFault
    { address := cpu.regs.pc, size := 2, read := true, functionCode := cpu.fetch.functionCode
      instructionStream := true, dataOutput := 0
      translation := cpu.fetch.pipe.decodedTranslation }

end Cpu

section Begin

variable {σ : Type} (ports : Ports σ)

/-- The status of an entry. -/
def statusOf (entry : Entry) (cpu : Cpu σ) : StepStatus × Cpu σ :=
  match entry.run ports cpu with
  | .ok _ cpu => (.exception entry, cpu)
  | .error _ cpu => (.fault, cpu)

/-- `fault_or_unimplemented`. -/
def faultOrUnimplemented (instructionAddress : BitVec 32) (cpu : Cpu σ) : StepStatus × Cpu σ :=
  if !cpu.accessFaulted then
    if cpu.refusedVector ≠ 0 then
      statusOf ports (.exception cpu.refusedVector instructionAddress instructionAddress) cpu
    else (.unimplemented, cpu)
  else statusOf ports (.busFault vectorBusError instructionAddress) cpu.restoreEntry

/-- What a step does once it has not taken an interrupt. -/
def beginInstruction (cpu : Cpu σ) : Beginning σ :=
  if cpu.stopped then .ended .stopped cpu
  else if cpu.regs.pc.getLsbD 0 then
    match statusOf ports .addressError cpu with
    | (status, cpu) => .ended status cpu
  else
    match fillToDecoded ports 4 cpu.forInstruction with
    | .ok (word, false) cpu => .instruction word cpu
    | .ok (_, true) cpu | .error _ cpu =>
      match faultOrUnimplemented ports cpu.regs.pc cpu.noteFetchFault with
      | (status, cpu) => .ended status cpu

/-- `ap_m68030_step`, up to the decoder. -/
def beginStep (cpu : Cpu σ) : Beginning σ :=
  match takeInterrupt ports cpu.forStep with
  | .ok _ cpu => .ended (.exception .interrupt) { cpu with stopped := false }
  | .error _ cpu => beginInstruction ports cpu

/-! ## Refused entries -/

/-- An interrupt is recognised, and its entry is refused: the device answers with a vector that has
no frame for it (0 to 3), a frame cannot be written, or the vector cannot be read. -/
def EntryRefused (cpu failed : Cpu σ) : Prop :=
  cpu.interruptPending = true ∧ takeInterrupt ports cpu.forStep = .error () failed

/-- A status that reports that something was refused: the step faults, or takes a bus error. -/
def StepStatus.Reports : StepStatus → Prop
  | fault => True
  | exception (.busFault _ _) => True
  | _ => False

/-- An instruction word cannot be used: it did not arrive, or its fetch faulted. -/
def Unusable (cpu : Cpu σ) : Prop :=
  ∀ word cpu', fillToDecoded ports 4 cpu.forInstruction ≠
    .ok (word, false) cpu'

/-- A processor that is stopped by more than the entry that it was refused: it is not waiting for
an interrupt, and the next instruction cannot be had either. -/
def RefusedTwice (cpu : Cpu σ) : Prop :=
  cpu.stopped = false ∧
    if cpu.regs.pc.getLsbD 0 then ∀ out cpu', takeAddressError ports cpu ≠ .ok out cpu'
    else Unusable ports cpu

/-- A step that does not pass over an entry that was refused: the step reports it, and comes to an
instruction only with the status register and the stack pointers that it began with. -/
def NeverPassedOver (cpu : Cpu σ) : Prop :=
  (∀ failed, EntryRefused ports cpu failed →
    ∃ status cpu', beginStep ports cpu = .ended status cpu' ∧ status.Reports) ∧
  ∀ word cpu', beginStep ports cpu = .instruction word cpu' →
    cpu'.regs.sr = cpu.regs.sr ∧ ∀ s, cpu'.regs.stackPointer s = cpu.regs.stackPointer s

variable {ports} {cpu failed : Cpu σ}

theorem takeInterrupt_of_not_pending (h : cpu.interruptPending = false) :
    takeInterrupt ports cpu =
      .error () { cpu with previousInterruptLevel := cpu.interruptLevel } := by
  unfold takeInterrupt
  rw [Attempt.read_bind, Attempt.modify_bind]
  exact Attempt.bind_of_error (Attempt.require_of_not (by simp [h]))

theorem interruptPending_forStep : cpu.forStep.interruptPending = cpu.interruptPending := rfl

theorem prefetchAndAdvance_regs (cpu : Cpu σ) : (prefetchAndAdvance ports cpu).regs = cpu.regs := rfl

theorem fillToDecoded_regs {turns : Nat} {decoded : BitVec 16 × Bool} {cpu' : Cpu σ}
    (h : fillToDecoded ports turns cpu = .ok decoded cpu') : cpu'.regs = cpu.regs := by
  induction turns generalizing cpu with
  | zero =>
    unfold fillToDecoded at h
    split at h
    · cases h
      rfl
    · exact nomatch h
  | succ turns ih =>
    unfold fillToDecoded at h
    split at h
    · cases h
      rfl
    · exact (ih h).trans (prefetchAndAdvance_regs cpu)

theorem beginInstruction_regs {word : BitVec 16} {cpu' : Cpu σ}
    (h : beginInstruction ports cpu = .instruction word cpu') : cpu'.regs = cpu.regs := by
  unfold beginInstruction at h
  split at h
  · exact nomatch h
  · split at h
    · exact nomatch h
    · split at h
      · rename_i word' cpu'' hfill
        cases h
        exact (fillToDecoded_regs hfill : cpu'.regs = cpu.forInstruction.regs)
      · exact nomatch h
      · exact nomatch h

theorem statusOf_reports (entry : Entry) :
    (statusOf ports entry cpu).1.Reports ↔
      (∃ vector address, entry = .busFault vector address) ∨
        ∀ out cpu', entry.run ports cpu ≠ .ok out cpu' := by
  unfold statusOf
  cases hrun : entry.run ports cpu with
  | ok out cpu' => cases entry <;> simp [StepStatus.Reports]
  | error e cpu' => simp [StepStatus.Reports]

theorem beginInstruction_reports :
    (∃ status cpu', beginInstruction ports cpu = .ended status cpu' ∧ status.Reports) ↔
      RefusedTwice ports cpu := by
  unfold RefusedTwice beginInstruction
  cases hstopped : cpu.stopped
  · rw [if_neg (by decide)]
    by_cases hodd : cpu.regs.pc.getLsbD 0 = true
    · rw [if_pos hodd, if_pos hodd]
      have hreports := @statusOf_reports σ ports cpu .addressError
      constructor
      · rintro ⟨status, cpu', hended, hstatus⟩
        cases hended
        obtain ⟨vector, address, hentry⟩ | hrefused := hreports.mp hstatus
        · exact nomatch hentry
        · exact ⟨rfl, hrefused⟩
      · rintro ⟨-, hrefused⟩
        exact ⟨_, _, rfl, hreports.mpr (.inr hrefused)⟩
    · rw [if_neg hodd, if_neg hodd]
      have hbusError : ∀ address (faulted : Cpu σ), faulted.accessFaulted = true →
          (faultOrUnimplemented ports address faulted).1.Reports := by
        intro address faulted hfaulted
        unfold faultOrUnimplemented
        rw [hfaulted, if_neg (by decide)]
        exact (statusOf_reports _).mpr (.inl ⟨_, _, rfl⟩)
      unfold Unusable
      cases hfill : fillToDecoded ports 4 cpu.forInstruction with
      | ok decoded cpu' =>
        obtain ⟨word, _ | _⟩ := decoded
        · simp
        · refine iff_of_true ⟨_, _, rfl, hbusError _ cpu'.noteFetchFault rfl⟩ ?_
          simp
      | error e cpu' =>
        refine iff_of_true ⟨_, _, rfl, hbusError _ cpu'.noteFetchFault rfl⟩ ?_
        simp
  · rw [if_pos rfl]
    simp [StepStatus.Reports]

theorem beginStep_of_error {e : Unit} (h : takeInterrupt ports cpu.forStep = .error e failed) :
    beginStep ports cpu = beginInstruction ports failed := by
  unfold beginStep
  rw [h]

/-- A REFUSED ENTRY IS PASSED OVER, unless the step then comes upon something else that it cannot
do. -/
theorem neverPassedOver_iff :
    NeverPassedOver ports cpu ↔ ∀ failed, EntryRefused ports cpu failed → RefusedTwice ports failed := by
  unfold NeverPassedOver
  constructor
  · rintro ⟨hreports, -⟩ failed hrefused
    obtain ⟨status, cpu', hended, hstatus⟩ := hreports failed hrefused
    rw [beginStep_of_error hrefused.2] at hended
    exact beginInstruction_reports.mp ⟨status, cpu', hended, hstatus⟩
  · intro htwice
    refine ⟨fun failed hrefused => ?_, fun word cpu' hword => ?_⟩
    · rw [beginStep_of_error hrefused.2]
      exact beginInstruction_reports.mpr (htwice failed hrefused)
    · cases hinterrupt : takeInterrupt ports cpu.forStep with
      | ok out failed =>
        unfold beginStep at hword
        rw [hinterrupt] at hword
        exact nomatch hword
      | error e failed =>
        rw [beginStep_of_error hinterrupt] at hword
        cases hpending : cpu.interruptPending
        · have hnot := @takeInterrupt_of_not_pending σ ports cpu.forStep
            (interruptPending_forStep.trans hpending)
          rw [hnot] at hinterrupt
          cases hinterrupt
          rw [beginInstruction_regs hword]
          exact ⟨rfl, fun s => rfl⟩
        · obtain ⟨status, cpu'', hended, -⟩ :=
            beginInstruction_reports.mpr (htwice failed ⟨hpending, hinterrupt⟩)
          exact nomatch hended.symm.trans hword

end Begin

/-- An interrupt at level 3 whose frame cannot be written: the step comes to the next instruction,
with the interrupt mask raised. -/
theorem not_neverPassedOver :
    ¬ NeverPassedOver (flatPorts fun request => request.write)
      { flatCpu .m68030 0x2000 0x1000 0x2000 with interruptLevel := 3 } := by
  intro h
  have hrun : (match beginStep (flatPorts fun request => request.write)
        { flatCpu .m68030 0x2000 0x1000 0x2000 with interruptLevel := 3 } with
      | .instruction _ cpu => decide (cpu.regs.sr.word = 0x2300)
      | .ended _ _ => false) = true := by decide +kernel
  split at hrun
  · rename_i word cpu hbegin
    have hsr := (h.2 word cpu hbegin).1
    rw [hsr] at hrun
    exact absurd (of_decide_eq_true hrun) (by decide)
  · exact nomatch hrun

end Apollo.M68030
