import Mathlib
import Apollo.Device.Wd7000Run

/-!
# Reset pulses and the command port

The host holds the adapter in reset through bit 0 of its control register, and a pulse shorter than
25 µs is to leave the part as it was. The rising edge takes the flags down before the length of the
pulse is known, and a short pulse does not put them back: only the diagnostics, which have no flag
up, come through one unharmed. In every run whose short pulses begin in the diagnostics, THE PORT IS
READY OR WILL BE, and a short pulse is as if it had not happened; one that begins anywhere else
leaves a port that no advance makes ready.
-/

namespace Apollo.Device.Wd7000

variable {δ : Type} {asc after final : Wd7000 δ}

/-! ## The reset line is left alone by everything else -/

/-- The control register and the state of the reset line are left as they are. -/
structure SameLine (asc after : Wd7000 δ) : Prop where
  control : after.control = asc.control
  inReset : after.inReset = asc.inReset
  holdDating : after.holdDating = asc.holdDating
  holdDated : after.holdDated = asc.holdDated
  diagnosing : after.diagnosing = asc.diagnosing

theorem SameLine.refl (asc : Wd7000 δ) : SameLine asc asc := ⟨rfl, rfl, rfl, rfl, rfl⟩

theorem SameLine.trans (h : SameLine asc after) (hfinal : SameLine after final) :
    SameLine asc final :=
  ⟨hfinal.control.trans h.control, hfinal.inReset.trans h.inReset,
    hfinal.holdDating.trans h.holdDating, hfinal.holdDated.trans h.holdDated,
    hfinal.diagnosing.trans h.diagnosing⟩

/-- An interrupt that is posted, or finds no room, is no business of the line. -/
theorem sameLine_postInterrupt (asc : Wd7000 δ) (status : BitVec 8) :
    SameLine asc (asc.postInterrupt status).2 := by
  unfold postInterrupt
  split
  · exact .refl asc
  · dsimp only
    split <;> exact ⟨rfl, rfl, rfl, rfl, rfl⟩

/-- The acknowledgement frees a mailbox and shows the next interrupt. -/
theorem sameLine_acknowledge (asc : Wd7000 δ) : SameLine asc asc.acknowledge := by
  have hfree : SameLine asc (asc.freeIcmb asc.queue.front) := by
    unfold freeIcmb
    split <;> exact ⟨rfl, rfl, rfl, rfl, rfl⟩
  unfold acknowledge
  split
  · exact ⟨rfl, rfl, rfl, rfl, rfl⟩
  · dsimp only
    split <;> exact ⟨hfree.control, hfree.inReset, hfree.holdDating, hfree.holdDated, hfree.diagnosing⟩

theorem sameLine_writeMemory (asc : Wd7000 δ) (address : BitVec 32) (value : BitVec 8) :
    SameLine asc (asc.writeMemory address value) := ⟨rfl, rfl, rfl, rfl, rfl⟩

theorem sameLine_writeMemory24 (asc : Wd7000 δ) (address value : BitVec 32) :
    SameLine asc (asc.writeMemory24 address value) :=
  ((sameLine_writeMemory ..).trans (sameLine_writeMemory ..)).trans (sameLine_writeMemory ..)

/-- A mailbox in host memory is written and its interrupt posted. -/
theorem sameLine_postIcmb (asc : Wd7000 δ) (code : BitVec 8) (cdbAddress : BitVec 32) :
    SameLine asc (asc.postIcmb code cdbAddress).2 := by
  unfold postIcmb
  split
  · exact .refl asc
  · rename_i m _
    split
    · exact .refl asc
    · have hwritten : SameLine asc (asc.writeIcmb m code cdbAddress) :=
        (sameLine_writeMemory ..).trans (sameLine_writeMemory24 ..)
      have hposted := hwritten.trans (sameLine_postInterrupt _ (icmbService m))
      dsimp only
      split
      · exact hposted.trans ⟨rfl, rfl, rfl, rfl, rfl⟩
      · exact hposted

/-- An outgoing mailbox is emptied. -/
theorem sameLine_takeMail (asc : Wd7000 δ) (n : Nat) : SameLine asc (asc.takeMail n) := by
  have hemptied : SameLine asc (asc.writeMemory (asc.ogmbAddress n) 0) := ⟨rfl, rfl, rfl, rfl, rfl⟩
  unfold takeMail
  dsimp only
  split
  · refine hemptied.trans (SameLine.trans ?_ (sameLine_postInterrupt _ _))
    exact ⟨rfl, rfl, rfl, rfl, rfl⟩
  · exact hemptied

variable [ScsiTarget δ]

/-- A command block runs on the bus of the targets; what comes of it is written to host memory. -/
theorem sameLine_runBlock (asc : Wd7000 δ) (scb : BitVec 32) (block : Nat → BitVec 8) :
    SameLine asc (asc.runBlock scb block).2 := by
  have htold : ∀ (moved : Wd7000 δ) (status vue : BitVec 8) (left : BitVec 32), SameLine asc moved →
      SameLine asc
        (if asc.userFlags.getLsbD 2 then
          ((moved.writeMemory (scb + 14) status).writeMemory (scb + 15) vue).writeMemory24
            (scb + 16) left
        else (moved.writeMemory (scb + 14) status).writeMemory (scb + 15) vue) := by
    intro moved status vue left hmoved
    have hwritten := (hmoved.trans (sameLine_writeMemory moved (scb + 14) status)).trans
      (sameLine_writeMemory _ (scb + 15) vue)
    split
    · exact hwritten.trans (sameLine_writeMemory24 ..)
    · exact hwritten
  unfold runBlock
  split
  · exact sameLine_writeMemory ..
  · dsimp only
    cases asc.bus.bind (·.command (blockTarget block) (asc.blockCommand block)) with
    | none => exact htold asc _ _ _ (.refl asc)
    | some answer => exact htold _ _ _ _ ⟨rfl, rfl, rfl, rfl, rfl⟩

theorem sameLine_startOgmb (asc : Wd7000 δ) (n : Nat) : SameLine asc (asc.startOgmb n).2 := by
  obtain ⟨-, heq⟩ | ⟨-, -, -, ⟨-, heq⟩ | ⟨-, heq⟩⟩ := startOgmb_cases asc n
  · rw [heq]
    exact .refl asc
  · rw [heq]
    exact sameLine_postIcmb ..
  · rw [heq]
    exact ((sameLine_takeMail asc n).trans (sameLine_runBlock ..)).trans (sameLine_postIcmb ..)

theorem sameLine_scanBox (asc : Wd7000 δ) (n : Nat) : SameLine asc (asc.scanBox n) := by
  unfold scanBox
  split
  · exact .refl asc
  · exact sameLine_startOgmb asc n

/-- By induction on the mailboxes that are left to scan. -/
theorem sameLine_scanBoxes (asc : Wd7000 δ) (count : Nat) :
    SameLine asc (asc.scanBoxes count) := by
  induction count with
  | zero => exact .refl asc
  | succ count ih =>
    rw [scanBoxes_succ]
    exact ih.trans (sameLine_scanBox ..)

theorem sameLine_scan (asc : Wd7000 δ) : SameLine asc asc.scan := by
  unfold scan
  split
  · exact .refl asc
  · exact (sameLine_scanBoxes ..).trans (sameLine_postIcmb ..)

omit [ScsiTarget δ] in
/-- A byte of a multi-byte command is collected. -/
theorem sameLine_parameterByte (asc : Wd7000 δ) (value : BitVec 8) :
    SameLine asc (asc.parameterByte value) := by
  unfold parameterByte
  dsimp only
  by_cases hkind : asc.sequence = .initialization
  · simp only [hkind, if_true]
    split <;> exact ⟨rfl, rfl, rfl, rfl, rfl⟩
  · simp only [hkind, if_false]
    split <;> exact ⟨rfl, rfl, rfl, rfl, rfl⟩

/-- Every command of one byte, the two that start mail included. -/
theorem sameLine_execute (asc : Wd7000 δ) (value : BitVec 8) : SameLine asc (asc.execute value) := by
  unfold execute
  split
  case h_8 =>
    split
    · exact sameLine_scan asc
    · exact sameLine_startOgmb ..
  all_goals exact ⟨rfl, rfl, rfl, rfl, rfl⟩

/-- A byte written to the command port leaves the line alone and the port busy. -/
theorem command_line (asc : Wd7000 δ) (value : BitVec 8) :
    SameLine asc (asc.command value) ∧ (asc.command value).busy = true := by
  have htake : ∀ (asc : Wd7000 δ) accepted, SameLine asc (asc.take accepted) := fun asc accepted =>
    ⟨rfl, rfl, rfl, rfl, rfl⟩
  unfold command
  split
  · exact ⟨(sameLine_parameterByte asc value).trans (htake ..), rfl⟩
  · split
    · exact ⟨htake .., rfl⟩
    · exact ⟨(sameLine_execute asc value).trans (htake ..), rfl⟩

omit [ScsiTarget δ] in
/-- The acknowledgement is not what makes the port ready or busy. -/
theorem acknowledge_port (asc : Wd7000 δ) :
    asc.acknowledge.ready = asc.ready ∧ asc.acknowledge.busy = asc.busy := by
  have hfree : (asc.freeIcmb asc.queue.front).ready = asc.ready ∧
      (asc.freeIcmb asc.queue.front).busy = asc.busy := by
    unfold freeIcmb
    split <;> exact ⟨rfl, rfl⟩
  unfold acknowledge
  split
  · exact ⟨rfl, rfl⟩
  · dsimp only
    split <;> exact hfree

/-! ## What holds of the line in every state -/

/-- The part is in reset exactly while the host holds the line, a hold is dated only then, and no
flag is up while the diagnostics run. -/
structure Lined (asc : Wd7000 δ) : Prop where
  line : asc.inReset = asc.control.getLsbD 0
  dated : asc.inReset = false → asc.holdDating = false ∧ asc.holdDated = false
  diagnosing : asc.diagnosing = true → asc.ready = false ∧ asc.rejected = false ∧
    asc.interrupt = false ∧ asc.busy = false ∧ asc.awaitingAck = false

omit [ScsiTarget δ] in
/-- A part that is powered up is out of reset, in its diagnostics with no flag up. -/
theorem lined_powerOn (memory : BitVec 32 → BitVec 8) : (powerOn memory : Wd7000 δ).Lined :=
  ⟨BitVec.getLsbD_zero.symm, fun _ => ⟨rfl, rfl⟩, fun _ => ⟨rfl, rfl, rfl, rfl, rfl⟩⟩

omit [ScsiTarget δ] in
/-- Dating a hold moves the clock and nothing that the host can see. -/
theorem dated_same (asc : Wd7000 δ) (now : Nat) :
    (asc.dated now).inReset = asc.inReset ∧ (asc.dated now).control = asc.control ∧
      (asc.dated now).ready = asc.ready ∧ (asc.dated now).rejected = asc.rejected ∧
      (asc.dated now).interrupt = asc.interrupt ∧ (asc.dated now).busy = asc.busy ∧
      (asc.dated now).awaitingAck = asc.awaitingAck ∧
      (asc.dated now).diagnosing = asc.diagnosing ∧
      (asc.dated now).diagnoseAt = asc.diagnoseAt ∧ (asc.dated now).readyAt = asc.readyAt ∧
      (asc.dated now).now = max asc.now now ∧
      (asc.holdDating = false → (asc.dated now).holdDating = false ∧
        (asc.dated now).holdDated = asc.holdDated) := by
  unfold dated
  split
  · rename_i hdating
    exact ⟨rfl, rfl, rfl, rfl, rfl, rfl, rfl, rfl, rfl, rfl, rfl,
      fun h => absurd (hdating.symm.trans h) (Ne.symm Bool.false_ne_true)⟩
  · exact ⟨rfl, rfl, rfl, rfl, rfl, rfl, rfl, rfl, rfl, rfl, rfl, fun h => ⟨h, rfl⟩⟩

omit [ScsiTarget δ] in
/-- In reset, time does no more than date the hold. -/
theorem advance_held (hheld : asc.inReset = true) (now : Nat) : asc.advance now = asc.dated now := by
  rw [advance_eq, (dated_same asc now).1, if_pos hheld]

omit [ScsiTarget δ] in
/-- Out of reset, time ends the diagnostics and the command that are due. -/
theorem advance_port (hout : asc.inReset = false) (now : Nat) :
    (asc.advance now).inReset = false ∧ (asc.advance now).control = asc.control ∧
      (asc.advance now).ready = (asc.ready ||
        asc.diagnosing && decide (asc.diagnoseAt ≤ max asc.now now) ||
        asc.busy && decide (asc.readyAt ≤ max asc.now now)) ∧
      (asc.advance now).busy = (asc.busy && !decide (asc.readyAt ≤ max asc.now now)) ∧
      (asc.advance now).diagnosing =
        (asc.diagnosing && !decide (asc.diagnoseAt ≤ max asc.now now)) := by
  obtain ⟨hreset, hcontrol, hready, -, -, hbusy, -, hdiagnosing, hdiagnoseAt, hreadyAt, hnow, -⟩ :=
    dated_same asc now
  have hdiagnose : ∀ asc' : Wd7000 δ, asc'.diagnose.inReset = asc'.inReset ∧
      asc'.diagnose.control = asc'.control ∧ asc'.diagnose.busy = asc'.busy ∧
      asc'.diagnose.readyAt = asc'.readyAt ∧ asc'.diagnose.now = asc'.now ∧
      asc'.diagnose.ready = (asc'.ready || asc'.diagnosing && decide (asc'.diagnoseAt ≤ asc'.now)) ∧
      asc'.diagnose.diagnosing =
        (asc'.diagnosing && !decide (asc'.diagnoseAt ≤ asc'.now)) := by
    intro asc'
    unfold Wd7000.diagnose
    cases hdue : (asc'.diagnosing && decide (asc'.diagnoseAt ≤ asc'.now)) with
    | true =>
      rw [Bool.and_eq_true] at hdue
      refine ⟨rfl, rfl, rfl, rfl, rfl, (Bool.or_true _).symm, ?_⟩
      rw [hdue.2, Bool.not_true, Bool.and_false]
      rfl
    | false =>
      refine ⟨rfl, rfl, rfl, rfl, rfl, (Bool.or_false _).symm, ?_⟩
      rw [Bool.and_eq_false_iff] at hdue
      show asc'.diagnosing = _
      obtain hdue | hdue := hdue
      · rw [hdue, Bool.false_and]
      · rw [hdue, Bool.not_false, Bool.and_true]
  obtain ⟨hreset', hcontrol', hbusy', hreadyAt', hnow', hready', hdiagnosing'⟩ :=
    hdiagnose (asc.dated now)
  rw [hreset, hout] at hreset'
  rw [hcontrol] at hcontrol'
  rw [hbusy] at hbusy'
  rw [hreadyAt] at hreadyAt'
  rw [hnow] at hnow'
  rw [hready, hdiagnosing, hdiagnoseAt, hnow] at hready'
  rw [hdiagnosing, hdiagnoseAt, hnow] at hdiagnosing'
  rw [advance_eq, hreset, hout, if_neg Bool.false_ne_true, hbusy', hreadyAt', hnow']
  cases hdue : (asc.busy && decide (asc.readyAt ≤ max asc.now now)) with
  | true =>
    rw [Bool.and_eq_true] at hdue
    rw [if_pos rfl]
    refine ⟨hreset', hcontrol', (Bool.or_true _).symm, ?_, hdiagnosing'⟩
    rw [hdue.2, Bool.not_true, Bool.and_false]
    rfl
  | false =>
    rw [if_neg Bool.false_ne_true]
    refine ⟨hreset', hcontrol', by rw [hready', Bool.or_false], ?_, hdiagnosing'⟩
    rw [hbusy']
    rw [Bool.and_eq_false_iff] at hdue
    obtain hdue | hdue := hdue
    · rw [hdue, Bool.false_and]
    · rw [hdue, Bool.not_false, Bool.and_true]

/-- ONE STEP. Only the control register moves the line, and only time ends the diagnostics. -/
theorem Lined.step (h : asc.Lined) (event : Event δ) : (asc.step event).Lined := by
  have hcongr : ∀ {after : Wd7000 δ}, SameLine asc after → after.inReset = asc.inReset →
      (after.diagnosing = true → after.ready = false ∧ after.rejected = false ∧
        after.interrupt = false ∧ after.busy = false ∧ after.awaitingAck = false) →
      after.Lined := by
    intro after hsame hreset hdiagnosing
    refine ⟨by rw [hreset, hsame.control, h.line], fun hout => ?_, hdiagnosing⟩
    rw [hsame.holdDating, hsame.holdDated]
    exact h.dated (hsame.inReset.symm.trans hout)
  cases event with
  | host memory => exact hcongr ⟨rfl, rfl, rfl, rfl, rfl⟩ rfl h.diagnosing
  | bus bus => exact hcongr ⟨rfl, rfl, rfl, rfl, rfl⟩ rfl h.diagnosing
  | attach attached => exact hcongr ⟨rfl, rfl, rfl, rfl, rfl⟩ rfl h.diagnosing
  | advance now =>
    obtain ⟨hreset, hcontrol, hready, hrejected, hinterrupt, hbusy, hawaiting, hdiagnosing, -, -, -,
      hdating⟩ := dated_same asc now
    show (asc.advance now).Lined
    cases hout : asc.inReset with
    | true =>
      rw [advance_held hout]
      refine ⟨by rw [hreset, hcontrol, h.line], fun hnot => ?_, ?_⟩
      · exact absurd (hout.symm.trans (hreset.symm.trans hnot)) (Ne.symm Bool.false_ne_true)
      · rw [hdiagnosing, hready, hrejected, hinterrupt, hbusy, hawaiting]
        exact h.diagnosing
    | false =>
      have hline : asc.control.getLsbD 0 = false := h.line.symm.trans hout
      obtain ⟨hdating', hdated'⟩ := hdating (h.dated hout).1
      rw [(h.dated hout).2] at hdated'
      have hdiagnose : ∀ asc' : Wd7000 δ, asc'.diagnose.holdDating = asc'.holdDating ∧
          asc'.diagnose.holdDated = asc'.holdDated ∧ asc'.diagnose.rejected = asc'.rejected ∧
          asc'.diagnose.interrupt = asc'.interrupt ∧
          asc'.diagnose.awaitingAck = asc'.awaitingAck := by
        intro asc'
        unfold Wd7000.diagnose
        split <;> exact ⟨rfl, rfl, rfl, rfl, rfl⟩
      obtain ⟨hdating'', hdated'', hrejected', hinterrupt', hawaiting'⟩ := hdiagnose (asc.dated now)
      obtain ⟨hout', hcontrol', hready', hbusy', hdiagnosing'⟩ := advance_port hout now
      refine ⟨by rw [hout', hcontrol', hline], fun _ => ?_, fun hstill => ?_⟩
      · rw [advance_eq, hreset, hout, if_neg Bool.false_ne_true]
        split <;> exact ⟨hdating''.trans hdating', hdated''.trans hdated'⟩
      · rw [hdiagnosing', Bool.and_eq_true, Bool.not_eq_true'] at hstill
        obtain ⟨hready0, hrejected0, hinterrupt0, hbusy0, hawaiting0⟩ := h.diagnosing hstill.1
        have hidle : (asc.advance now).rejected = false ∧ (asc.advance now).interrupt = false ∧
            (asc.advance now).awaitingAck = false := by
          rw [advance_eq, hreset, hout, if_neg Bool.false_ne_true]
          split <;> exact ⟨hrejected'.trans (hrejected.trans hrejected0),
            hinterrupt'.trans (hinterrupt.trans hinterrupt0),
            hawaiting'.trans (hawaiting.trans hawaiting0)⟩
        refine ⟨?_, hidle.1, hidle.2.1, ?_, hidle.2.2⟩
        · rw [hready', hready0, hbusy0, hstill.2]
          simp
        · rw [hbusy', hbusy0, Bool.false_and]
  | write reg value =>
    show (asc.write reg value).Lined
    unfold Wd7000.write
    split
    · split
      · exact h
      · rename_i hbusy
        rw [Bool.or_eq_true, Bool.or_eq_true, not_or, not_or] at hbusy
        have hsame := (command_line asc value).1
        refine hcongr hsame hsame.inReset fun hdiagnosing => ?_
        exact absurd (hsame.diagnosing.symm.trans hdiagnosing) hbusy.1.2
    · have hsame := sameLine_acknowledge asc
      refine hcongr hsame hsame.inReset fun hdiagnosing => ?_
      obtain ⟨hready, hrejected, hinterrupt, hbusy, hawaiting⟩ :=
        h.diagnosing (hsame.diagnosing.symm.trans hdiagnosing)
      rw [acknowledge_idle hawaiting]
      exact ⟨hready, hrejected, rfl, hbusy, hawaiting⟩
    · rw [writeControl_eq]
      cases hheld : value.getLsbD 0 <;> cases hwas : asc.control.getLsbD 0
      · refine ⟨(h.line.trans hwas).trans hheld.symm, h.dated, h.diagnosing⟩
      · cases asc.longEnough with
        | true =>
          refine ⟨?_, fun _ => ⟨rfl, rfl⟩, fun _ => ⟨rfl, rfl, rfl, rfl, rfl⟩⟩
          show false = (value &&& ~~~0x01).getLsbD 0
          rw [BitVec.getLsbD_and, hheld, Bool.false_and]
        | false => exact ⟨hheld.symm, fun _ => ⟨rfl, rfl⟩, h.diagnosing⟩
      · refine ⟨hheld.symm, (nomatch ·), fun hdiagnosing => ⟨rfl, rfl, rfl, rfl, ?_⟩⟩
        exact (h.diagnosing hdiagnosing).2.2.2.2
      · refine ⟨(h.line.trans hwas).trans hheld.symm, h.dated, h.diagnosing⟩
    · exact h

/-- From power up on, in every state. -/
theorem lined_run (h : asc.Lined) (events : List (Event δ)) : (asc.run events).Lined := by
  induction events generalizing asc with
  | nil => exact h
  | cons event events ih => exact ih (h.step event)

/-! ## Pulses -/

/-- Where an event leaves the reset line. -/
def lineAfter : Event δ → Bool → Bool
  | .write 2 value, _ => value.getLsbD 0
  | _, line => line

/-- An event that does not let go of the reset line. -/
def holds (event : Event δ) : Bool := lineAfter event true

/-- A pulse: the line is taken, held through these events, and let go. -/
def pulse (rise : BitVec 8) (during : List (Event δ)) (fall : BitVec 8) : List (Event δ) :=
  .write 2 rise :: during ++ [.write 2 fall]

/-- A pulse that is shorter than the part takes for a reset. -/
structure ShortPulse (asc : Wd7000 δ) (rise : BitVec 8) (during : List (Event δ)) (fall : BitVec 8) :
    Prop where
  up : asc.control.getLsbD 0 = false
  taken : rise.getLsbD 0 = true
  held : ∀ event ∈ during, holds event = true
  letGo : fall.getLsbD 0 = false
  short : (asc.run (.write 2 rise :: during)).longEnough = false

/-- The same event from a host that leaves the reset line alone. The bytes that a held part does not
take are left out. -/
def withoutReset : Event δ → Option (Event δ)
  | .write 0 _ => none
  | .write 2 value => some (.write 2 (value &&& ~~~0x01))
  | event => some event

/-- **A pulse is as if it had not happened**: at every later time the part is as it would be without
the pulse, in everything but the instant from which the last hold was measured. -/
def AsIfNot (asc : Wd7000 δ) (rise : BitVec 8) (during : List (Event δ)) (fall : BitVec 8) : Prop :=
  ∀ now, ∃ heldSince, (asc.run (pulse rise during fall)).advance now =
    { (asc.run ((pulse rise during fall).filterMap withoutReset)).advance now with heldSince }

/-- **The port answers**: it is ready, or the deadline of a command or of the diagnostics is pending
and any advance to it makes the port ready. -/
def Live (asc : Wd7000 δ) : Prop :=
  asc.ready = true ∨
    (asc.busy = true ∧ ∀ now, asc.readyAt ≤ now → (asc.advance now).ready = true) ∨
    (asc.diagnosing = true ∧ ∀ now, asc.diagnoseAt ≤ now → (asc.advance now).ready = true)

omit [ScsiTarget δ] in
/-- Out of reset a port that answers is ready, at work or in its diagnostics. -/
theorem live_iff (hout : asc.inReset = false) :
    asc.Live ↔ asc.ready = true ∨ asc.busy = true ∨ asc.diagnosing = true := by
  refine ⟨fun hlive => ?_, fun hpending => ?_⟩
  · obtain hready | hbusy | hdiagnosing := hlive
    · exact .inl hready
    · exact .inr (.inl hbusy.1)
    · exact .inr (.inr hdiagnosing.1)
  · obtain hready | hbusy | hdiagnosing := hpending
    · exact .inl hready
    · refine .inr (.inl ⟨hbusy, fun now hnow => ?_⟩)
      have hdue : asc.readyAt ≤ max asc.now now := hnow.trans (Nat.le_max_right ..)
      rw [(advance_port hout now).2.2.1, hbusy, decide_eq_true hdue]
      simp
    · refine .inr (.inr ⟨hdiagnosing, fun now hnow => ?_⟩)
      have hdue : asc.diagnoseAt ≤ max asc.now now := hnow.trans (Nat.le_max_right ..)
      rw [(advance_port hout now).2.2.1, hdiagnosing, decide_eq_true hdue]
      simp

/-- The part is in reset as the line is after an event. -/
theorem inReset_step (hlined : asc.Lined) (event : Event δ) :
    (asc.step event).inReset = lineAfter event asc.inReset := by
  cases event with
  | host memory => rfl
  | bus bus => rfl
  | attach attached => rfl
  | advance now =>
    show (asc.advance now).inReset = asc.inReset
    cases hreset : asc.inReset with
    | true =>
      rw [advance_held hreset, (dated_same asc now).1, hreset]
    | false => exact (advance_port hreset now).1
  | write reg value =>
    match reg with
    | 0 =>
      rw [show asc.step (.write 0 value) =
        if asc.inReset || asc.diagnosing || asc.busy then asc else asc.command value from rfl]
      split
      · rfl
      · exact (command_line asc value).1.inReset
    | 1 => exact (sameLine_acknowledge asc).inReset
    | 2 =>
      have hline := hlined.line
      show (asc.writeControl value).inReset = value.getLsbD 0
      rw [writeControl_eq]
      cases hvalue : value.getLsbD 0 <;> cases hwas : asc.control.getLsbD 0
      · exact hline.trans hwas
      · cases asc.longEnough <;> rfl
      · rfl
      · exact hline.trans hwas
    | reg + 3 => rfl

/-- While the line is held nothing that is done moves the flags of the port. -/
theorem step_held (hlined : asc.Lined) (hheld : asc.inReset = true) {event : Event δ}
    (hholds : holds event = true) :
    (asc.step event).inReset = true ∧ (asc.step event).ready = asc.ready ∧
      (asc.step event).busy = asc.busy ∧ (asc.step event).diagnosing = asc.diagnosing := by
  cases event with
  | host memory => exact ⟨hheld, rfl, rfl, rfl⟩
  | bus bus => exact ⟨hheld, rfl, rfl, rfl⟩
  | attach attached => exact ⟨hheld, rfl, rfl, rfl⟩
  | advance now =>
    obtain ⟨hreset, -, hready, -, -, hbusy, -, hdiagnosing, -⟩ := dated_same asc now
    show (asc.advance now).inReset = true ∧ (asc.advance now).ready = _ ∧
      (asc.advance now).busy = _ ∧ (asc.advance now).diagnosing = _
    rw [advance_held hheld]
    exact ⟨hreset.trans hheld, hready, hbusy, hdiagnosing⟩
  | write reg value =>
    show (asc.write reg value).inReset = true ∧ (asc.write reg value).ready = _ ∧
      (asc.write reg value).busy = _ ∧ (asc.write reg value).diagnosing = _
    unfold Wd7000.write
    split
    · rw [hheld, Bool.true_or, Bool.true_or, if_pos rfl]
      exact ⟨hheld, rfl, rfl, rfl⟩
    · have hsame := sameLine_acknowledge asc
      exact ⟨hsame.inReset.trans hheld, (acknowledge_port asc).1, (acknowledge_port asc).2,
        hsame.diagnosing⟩
    · have hwas : asc.control.getLsbD 0 = true := hlined.line.symm.trans hheld
      have hvalue : value.getLsbD 0 = true := hholds
      rw [writeControl_eq, hvalue, hwas]
      exact ⟨hheld, rfl, rfl, rfl⟩
    · exact ⟨hheld, rfl, rfl, rfl⟩

/-- Nor does all of it. -/
theorem run_held (hlined : asc.Lined) (hheld : asc.inReset = true) {during : List (Event δ)}
    (hholds : ∀ event ∈ during, holds event = true) :
    (asc.run during).inReset = true ∧ (asc.run during).ready = asc.ready ∧
      (asc.run during).busy = asc.busy ∧ (asc.run during).diagnosing = asc.diagnosing := by
  induction during generalizing asc with
  | nil => exact ⟨hheld, rfl, rfl, rfl⟩
  | cons event during ih =>
    obtain ⟨hheld', hready, hbusy, hdiagnosing⟩ := step_held hlined hheld (hholds event (.head _))
    obtain ⟨hheld'', hready', hbusy', hdiagnosing'⟩ :=
      ih (hlined.step event) hheld' fun event hevent => hholds event (.tail _ hevent)
    exact ⟨hheld'', hready'.trans hready, hbusy'.trans hbusy, hdiagnosing'.trans hdiagnosing⟩

theorem run_append (asc : Wd7000 δ) (first second : List (Event δ)) :
    asc.run (first ++ second) = (asc.run first).run second := List.foldl_append ..

/-- After a short pulse the port is neither ready nor busy; the diagnostics run if they ran before.
-/
theorem ShortPulse.port (hlined : asc.Lined) {rise fall : BitVec 8} {during : List (Event δ)}
    (h : ShortPulse asc rise during fall) :
    (asc.run (pulse rise during fall)).inReset = false ∧
      (asc.run (pulse rise during fall)).ready = false ∧
      (asc.run (pulse rise during fall)).busy = false ∧
      (asc.run (pulse rise during fall)).diagnosing = asc.diagnosing := by
  have hrise : asc.step (.write 2 rise) = (asc.controlBus rise).held := by
    show asc.writeControl rise = _
    rw [writeControl_eq, h.taken, h.up]
    rfl
  have hlined' := hlined.step (.write 2 rise)
  rw [hrise] at hlined'
  obtain ⟨hheld, hready, hbusy, hdiagnosing⟩ := run_held hlined' rfl h.held
  have hshort := h.short
  rw [run_cons, hrise] at hshort
  have hlast := lined_run hlined' during
  have hwas : ((asc.controlBus rise).held.run during).control.getLsbD 0 = true :=
    hlast.line.symm.trans hheld
  have hfall : asc.run (pulse rise during fall) =
      (((asc.controlBus rise).held.run during).controlBus fall).released := by
    show (asc.step (.write 2 rise)).run (during ++ [.write 2 fall]) = _
    rw [run_append, hrise]
    show ((asc.controlBus rise).held.run during).writeControl fall = _
    rw [writeControl_eq, h.letGo, hwas, hshort]
    rfl
  rw [hfall]
  exact ⟨rfl, hready, hbusy, hdiagnosing⟩

/-! ## A pulse in the diagnostics -/

/-- The bits of a control byte whose reset bit is taken out. -/
theorem getLsbD_and_not_one (value : BitVec 8) (i : Nat) :
    (value &&& ~~~0x01).getLsbD i = (value.getLsbD i && !decide (i = 0)) := by
  rw [BitVec.getLsbD_and, BitVec.getLsbD_not]
  rcases i with _ | i
  · simp
  · by_cases hi : i + 1 < 8
    · simp [hi]
    · rw [BitVec.getLsbD_of_ge value (i + 1) (by omega)]
      simp

/-- A part whose reset line was left alone, by one whose line is held. -/
def unheld (asc : Wd7000 δ) (heldSince : Nat) : Wd7000 δ :=
  { asc with
    control := asc.control &&& ~~~0x01
    inReset := false, holdDating := false, holdDated := false, heldSince }

/-- A held part in the diagnostics, and the part that was not held, whose diagnostics may be over. -/
structure Shadow (held other : Wd7000 δ) : Prop where
  inReset : held.inReset = true
  line : held.control.getLsbD 0 = true
  diagnosing : held.diagnosing = true
  idle : held.ready = false ∧ held.rejected = false ∧ held.interrupt = false ∧
    held.busy = false ∧ held.awaitingAck = false
  other : ∃ heldSince, other = held.unheld heldSince ∨
    (held.diagnoseAt ≤ held.now ∧ other = (held.unheld heldSince).diagnosed)

omit [ScsiTarget δ] in
/-- Time ends the diagnostics of a part that is not held, if they are due. -/
theorem advance_unheld {asc : Wd7000 δ} (hbusy : asc.busy = false) (heldSince now : Nat) :
    ((asc.unheld heldSince).advance now =
      if asc.diagnosing && decide (asc.diagnoseAt ≤ max asc.now now) then
        ({ asc with now := max asc.now now }.unheld heldSince).diagnosed
      else { asc with now := max asc.now now }.unheld heldSince) ∧
    (asc.unheld heldSince).diagnosed.advance now =
      ({ asc with now := max asc.now now }.unheld heldSince).diagnosed := by
  refine ⟨?_, ?_⟩
  · rw [advance_eq]
    unfold unheld dated Wd7000.diagnose
    simp only [Bool.false_eq_true, if_false]
    split
    · simp only [diagnosed, hbusy, Bool.false_and, Bool.false_eq_true, if_false]
    · simp only [hbusy, Bool.false_and, Bool.false_eq_true, if_false]
  · rw [advance_eq]
    unfold diagnosed unheld dated Wd7000.diagnose
    simp only [Bool.false_eq_true, if_false, Bool.false_and, hbusy]

/-- Without its reset bit a control byte does to the part that is not held what it does to the bus.
-/
theorem writeControl_unheld (asc : Wd7000 δ) (value : BitVec 8) (heldSince : Nat) :
    (asc.unheld heldSince).writeControl (value &&& ~~~0x01) =
      (asc.controlBus value).unheld heldSince := by
  have hbit : (value &&& ~~~0x01).getLsbD 0 = false := by
    rw [getLsbD_and_not_one]
    exact Bool.and_false _
  have hline : (asc.unheld heldSince).control.getLsbD 0 = false := by
    show (asc.control &&& ~~~0x01).getLsbD 0 = false
    rw [getLsbD_and_not_one]
    exact Bool.and_false _
  have hreset : ∀ value : BitVec 8, (value &&& ~~~0x01).getLsbD 1 = value.getLsbD 1 := by
    intro value
    rw [getLsbD_and_not_one]
    exact Bool.and_true _
  rw [writeControl_eq, hbit, hline]
  simp only [Bool.not_false, Bool.false_and, Bool.and_false, Bool.false_eq_true, if_false]
  unfold controlBus unheld
  simp only [hreset]

theorem writeControl_unheld_diagnosed (asc : Wd7000 δ) (value : BitVec 8) (heldSince : Nat) :
    (asc.unheld heldSince).diagnosed.writeControl (value &&& ~~~0x01) =
      ((asc.controlBus value).unheld heldSince).diagnosed := by
  have hsame : (asc.unheld heldSince).diagnosed.writeControl (value &&& ~~~0x01) =
      ((asc.unheld heldSince).writeControl (value &&& ~~~0x01)).diagnosed := by
    have hbit : (value &&& ~~~0x01).getLsbD 0 = false := by
      rw [getLsbD_and_not_one]
      exact Bool.and_false _
    have hline : (asc.unheld heldSince).control.getLsbD 0 = false := by
      show (asc.control &&& ~~~0x01).getLsbD 0 = false
      rw [getLsbD_and_not_one]
      exact Bool.and_false _
    rw [writeControl_eq, writeControl_eq, hbit, hline,
      show (asc.unheld heldSince).diagnosed.control = (asc.unheld heldSince).control from rfl, hline]
    rfl
  rw [hsame, writeControl_unheld]

omit [ScsiTarget δ] in
/-- With no interrupt shown there is nothing to acknowledge. -/
theorem acknowledge_quiet {asc : Wd7000 δ} (hawaiting : asc.awaitingAck = false)
    (hinterrupt : asc.interrupt = false) : asc.acknowledge = asc := by
  rw [acknowledge_idle hawaiting, ← hinterrupt]

/-- ONE STEP of a held part and of the part that is not: they stay one another's shadow. -/
theorem Shadow.step {held other : Wd7000 δ} (h : Shadow held other) {event : Event δ}
    (hholds : holds event = true) :
    Shadow (held.step event) (other.run (withoutReset event).toList) := by
  obtain ⟨heldSince, hother⟩ := h.other
  obtain ⟨hready, hrejected, hinterrupt, hbusy, hawaiting⟩ := h.idle
  cases event with
  | host memory =>
    refine ⟨h.inReset, h.line, h.diagnosing, h.idle, heldSince, ?_⟩
    obtain rfl | ⟨hdue, rfl⟩ := hother
    · exact .inl rfl
    · exact .inr ⟨hdue, rfl⟩
  | bus bus =>
    refine ⟨h.inReset, h.line, h.diagnosing, h.idle, heldSince, ?_⟩
    obtain rfl | ⟨hdue, rfl⟩ := hother
    · exact .inl rfl
    · exact .inr ⟨hdue, rfl⟩
  | attach attached =>
    refine ⟨h.inReset, h.line, h.diagnosing, h.idle, heldSince, ?_⟩
    obtain rfl | ⟨hdue, rfl⟩ := hother
    · exact .inl rfl
    · exact .inr ⟨hdue, rfl⟩
  | advance now =>
    obtain ⟨hreset', hcontrol', hready', hrejected', hinterrupt', hbusy', hawaiting', hdiagnosing',
      hdiagnoseAt', -, hnow', -⟩ := dated_same held now
    have hunheld : ∀ since, (held.dated now).unheld since =
        { held with now := max held.now now }.unheld since := by
      intro since
      unfold dated
      split <;> rfl
    show Shadow (held.advance now) (other.advance now)
    rw [advance_held h.inReset]
    refine ⟨hreset'.trans h.inReset, ?_, hdiagnosing'.trans h.diagnosing,
      ⟨hready'.trans hready, hrejected'.trans hrejected, hinterrupt'.trans hinterrupt,
        hbusy'.trans hbusy, hawaiting'.trans hawaiting⟩, heldSince, ?_⟩
    · rw [hcontrol']
      exact h.line
    · rw [hdiagnoseAt', hnow', hunheld]
      obtain rfl | ⟨hdue, rfl⟩ := hother
      · rw [(advance_unheld hbusy heldSince now).1, h.diagnosing, Bool.true_and]
        by_cases hdue : held.diagnoseAt ≤ max held.now now
        · rw [if_pos (decide_eq_true hdue)]
          exact .inr ⟨hdue, rfl⟩
        · rw [if_neg (by simpa using hdue)]
          exact .inl rfl
      · rw [(advance_unheld hbusy heldSince now).2]
        exact .inr ⟨hdue.trans (Nat.le_max_left ..), rfl⟩
  | write reg value =>
    match reg, hholds with
    | 0, _ =>
      have hsame : held.step (.write 0 value) = held := by
        show (if held.inReset || held.diagnosing || held.busy then held else held.command value) = held
        rw [h.inReset]
        rfl
      rw [hsame]
      exact h
    | 1, _ =>
      have hsame : held.step (.write 1 value) = held := acknowledge_quiet hawaiting hinterrupt
      have hother' : other.run (withoutReset (.write 1 value)).toList = other := by
        show other.acknowledge = other
        obtain rfl | ⟨-, rfl⟩ := hother
        · exact acknowledge_quiet hawaiting hinterrupt
        · exact acknowledge_quiet hawaiting hinterrupt
      rw [hsame, hother']
      exact h
    | 2, hvalue =>
      have hbit : value.getLsbD 0 = true := hvalue
      have hheld : held.step (.write 2 value) = held.controlBus value := by
        show held.writeControl value = _
        rw [writeControl_eq, hbit, h.line]
        rfl
      show Shadow (held.step (.write 2 value)) (other.writeControl (value &&& ~~~0x01))
      rw [hheld]
      refine ⟨h.inReset, hbit, h.diagnosing, h.idle, heldSince, ?_⟩
      obtain rfl | ⟨hdue, rfl⟩ := hother
      · exact .inl (writeControl_unheld ..)
      · exact .inr ⟨hdue, writeControl_unheld_diagnosed ..⟩
    | reg + 3, _ =>
      exact h

/-- The run without its resets, an event at a time. -/
theorem run_filterMap_cons (asc : Wd7000 δ) (event : Event δ) (events : List (Event δ)) :
    asc.run ((event :: events).filterMap withoutReset) =
      (asc.run (withoutReset event).toList).run (events.filterMap withoutReset) := by
  rw [List.filterMap_cons]
  cases withoutReset event <;> rfl

/-- By induction on the events of the pulse. -/
theorem Shadow.run {held other : Wd7000 δ} (h : Shadow held other) {during : List (Event δ)}
    (hholds : ∀ event ∈ during, holds event = true) :
    Shadow (held.run during) (other.run (during.filterMap withoutReset)) := by
  induction during generalizing held other with
  | nil => exact h
  | cons event during ih =>
    rw [run_filterMap_cons]
    exact ih (h.step (hholds event (.head _))) fun event hevent => hholds event (.tail _ hevent)

omit [ScsiTarget δ] in
/-- A part that is not in reset has no hold to forget. -/
theorem unheld_self (hlined : asc.Lined) (hout : asc.inReset = false) :
    asc.unheld asc.heldSince = asc := by
  obtain ⟨hdating, hdated⟩ := hlined.dated hout
  have hcontrol : asc.control &&& ~~~0x01 = asc.control := by
    refine BitVec.eq_of_getLsbD_eq fun i _ => ?_
    rw [getLsbD_and_not_one]
    rcases i with _ | i
    · rw [← hlined.line, hout, Bool.false_and]
    · exact Bool.and_true _
  unfold unheld
  rw [hcontrol]
  cases asc
  simp_all

omit [ScsiTarget δ] in
theorem unheld_held (asc : Wd7000 δ) (hready : asc.ready = false) (hrejected : asc.rejected = false)
    (hinterrupt : asc.interrupt = false) (hbusy : asc.busy = false) (heldSince : Nat) :
    asc.held.unheld heldSince = asc.unheld heldSince := by
  unfold unheld held
  cases asc
  simp_all

/-- When a short hold ends, the part is its shadow but for the instant at which the hold began. -/
theorem Shadow.letGo {held other : Wd7000 δ} (h : Shadow held other) {fall : BitVec 8}
    (hfall : fall.getLsbD 0 = false) (hshort : held.longEnough = false) (now : Nat) :
    ∃ heldSince, (held.writeControl fall).advance now =
      { (other.writeControl (fall &&& ~~~0x01)).advance now with heldSince } := by
  obtain ⟨heldSince, hother⟩ := h.other
  have hbusy : (held.controlBus fall).busy = false := h.idle.2.2.2.1
  have hreleased : held.writeControl fall = (held.controlBus fall).unheld held.heldSince := by
    rw [writeControl_eq, hfall, h.line, hshort]
    have hcontrol : fall &&& ~~~0x01 = fall := by
      refine BitVec.eq_of_getLsbD_eq fun i _ => ?_
      rw [getLsbD_and_not_one]
      rcases i with _ | i
      · rw [hfall, Bool.false_and]
      · exact Bool.and_true _
    show (held.controlBus fall).released = _
    unfold unheld
    rw [show (held.controlBus fall).control = fall from rfl, hcontrol]
    rfl
  refine ⟨held.heldSince, ?_⟩
  rw [hreleased, (advance_unheld hbusy held.heldSince now).1]
  have hdiagnosing : (held.controlBus fall).diagnosing = true := h.diagnosing
  obtain rfl | ⟨hdue, rfl⟩ := hother
  · rw [writeControl_unheld, (advance_unheld hbusy heldSince now).1]
    split <;> rfl
  · have hdue' : (held.controlBus fall).diagnoseAt ≤ max (held.controlBus fall).now now :=
      hdue.trans (Nat.le_max_left ..)
    rw [writeControl_unheld_diagnosed, (advance_unheld hbusy heldSince now).2, hdiagnosing,
      decide_eq_true hdue', Bool.true_and, if_pos rfl]
    rfl

/-- A SHORT PULSE IN THE DIAGNOSTICS is as if it had not happened. -/
theorem ShortPulse.asIfNot (hlined : asc.Lined) {rise fall : BitVec 8} {during : List (Event δ)}
    (h : ShortPulse asc rise during fall) (hdiagnosing : asc.diagnosing = true) :
    AsIfNot asc rise during fall := by
  have hout : asc.inReset = false := hlined.line.trans h.up
  obtain ⟨hready, hrejected, hinterrupt, hbusy, hawaiting⟩ := hlined.diagnosing hdiagnosing
  have hrise : asc.step (.write 2 rise) = (asc.controlBus rise).held := by
    show asc.writeControl rise = _
    rw [writeControl_eq, h.taken, h.up]
    rfl
  have hlifted : asc.writeControl (rise &&& ~~~0x01) =
      (asc.controlBus rise).held.unheld asc.heldSince := by
    rw [unheld_held (asc.controlBus rise) hready hrejected hinterrupt hbusy,
      ← writeControl_unheld, unheld_self hlined hout]
  have hshadow : Shadow (asc.controlBus rise).held (asc.writeControl (rise &&& ~~~0x01)) :=
    ⟨rfl, h.taken, hdiagnosing, ⟨rfl, rfl, rfl, rfl, hawaiting⟩, asc.heldSince, .inl hlifted⟩
  have hshort := h.short
  rw [run_cons, hrise] at hshort
  intro now
  obtain ⟨heldSince, hsame⟩ := (hshadow.run h.held).letGo h.letGo hshort now
  refine ⟨heldSince, ?_⟩
  have hpulse : asc.run (pulse rise during fall) =
      ((asc.controlBus rise).held.run during).writeControl fall := by
    show (asc.step (.write 2 rise)).run (during ++ [.write 2 fall]) = _
    rw [run_append, hrise]
    rfl
  have hwithout : asc.run ((pulse rise during fall).filterMap withoutReset) =
      ((asc.writeControl (rise &&& ~~~0x01)).run (during.filterMap withoutReset)).writeControl
        (fall &&& ~~~0x01) := by
    unfold pulse
    rw [List.cons_append, run_filterMap_cons, List.filterMap_append, run_append]
    rfl
  rw [hpulse, hwithout]
  exact hsame

/-! ## A pulse anywhere else -/

/-- Out of reset a port that answers answers after any event that does not put it into reset. -/
theorem step_up (hout : asc.inReset = false) (hline : asc.control.getLsbD 0 = false)
    (hlive : asc.ready = true ∨ asc.busy = true ∨ asc.diagnosing = true) {event : Event δ}
    (hafter : (asc.step event).inReset = false) :
    (asc.step event).ready = true ∨ (asc.step event).busy = true ∨
      (asc.step event).diagnosing = true := by
  cases event with
  | host memory => exact hlive
  | bus bus => exact hlive
  | attach attached => exact hlive
  | advance now =>
    obtain ⟨-, -, hready, hbusy, hdiagnosing⟩ := advance_port hout now
    show (asc.advance now).ready = true ∨ (asc.advance now).busy = true ∨
      (asc.advance now).diagnosing = true
    rw [hready, hbusy, hdiagnosing]
    cases decide (asc.readyAt ≤ max asc.now now) <;>
      cases decide (asc.diagnoseAt ≤ max asc.now now) <;> simp <;> tauto
  | write reg value =>
    match reg, hafter with
    | 0, _ =>
      show (asc.write 0 value).ready = true ∨ (asc.write 0 value).busy = true ∨
        (asc.write 0 value).diagnosing = true
      rw [show asc.write 0 value =
        if asc.inReset || asc.diagnosing || asc.busy then asc else asc.command value from rfl]
      split
      · exact hlive
      · exact .inr (.inl (command_line asc value).2)
    | 1, _ =>
      show asc.acknowledge.ready = true ∨ asc.acknowledge.busy = true ∨
        asc.acknowledge.diagnosing = true
      rw [(acknowledge_port asc).1, (acknowledge_port asc).2, (sameLine_acknowledge asc).diagnosing]
      exact hlive
    | 2, hafter =>
      change (asc.writeControl value).inReset = false at hafter
      show (asc.writeControl value).ready = true ∨ (asc.writeControl value).busy = true ∨
        (asc.writeControl value).diagnosing = true
      rw [writeControl_eq, hline] at hafter ⊢
      cases hvalue : value.getLsbD 0
      · exact hlive
      · rw [hvalue] at hafter
        exact nomatch hafter
    | reg + 3, _ => exact hlive

omit [ScsiTarget δ] in
/-- An event without its reset bit raises no reset. -/
theorem lineAfter_without {event lifted : Event δ} (hlifted : withoutReset event = some lifted) :
    lineAfter lifted false = false := by
  cases event with
  | host memory => cases hlifted; rfl
  | bus bus => cases hlifted; rfl
  | attach attached => cases hlifted; rfl
  | advance now => cases hlifted; rfl
  | write reg value =>
    match reg, hlifted with
    | 1, hlifted => cases hlifted; rfl
    | 2, hlifted =>
      cases hlifted
      show (value &&& ~~~0x01).getLsbD 0 = false
      rw [getLsbD_and_not_one]
      exact Bool.and_false _
    | reg + 3, hlifted => cases hlifted; rfl

/-- Nor do all of them: the port answers throughout. -/
theorem run_without (hlined : asc.Lined) (hout : asc.inReset = false)
    (hlive : asc.ready = true ∨ asc.busy = true ∨ asc.diagnosing = true) (events : List (Event δ)) :
    (asc.run (events.filterMap withoutReset)).inReset = false ∧
      ((asc.run (events.filterMap withoutReset)).ready = true ∨
        (asc.run (events.filterMap withoutReset)).busy = true ∨
        (asc.run (events.filterMap withoutReset)).diagnosing = true) := by
  induction events generalizing asc with
  | nil => exact ⟨hout, hlive⟩
  | cons event events ih =>
    rw [run_filterMap_cons]
    cases hevent : withoutReset event with
    | none => exact ih hlined hout hlive
    | some lifted =>
      show (((asc.step lifted).run (events.filterMap withoutReset)).inReset = false ∧ _)
      have hlifted := hlined.step lifted
      have hafter : (asc.step lifted).inReset = false := by
        rw [inReset_step hlined, hout]
        exact lineAfter_without hevent
      exact ih hlifted hafter (step_up hout (hlined.line.symm.trans hout) hlive hafter)

/-- A SHORT PULSE OUTSIDE THE DIAGNOSTICS of a port that was to answer is not as if it had not
happened. -/
theorem ShortPulse.not_asIfNot (hlined : asc.Lined) (hlive : asc.Live) {rise fall : BitVec 8}
    {during : List (Event δ)} (h : ShortPulse asc rise during fall)
    (hdiagnosing : asc.diagnosing = false) : ¬ AsIfNot asc rise during fall := by
  intro hasIf
  have hout : asc.inReset = false := hlined.line.trans h.up
  obtain ⟨hreset, hready, hbusy, hdiagnosing'⟩ := h.port hlined
  rw [hdiagnosing] at hdiagnosing'
  obtain ⟨hreset', hpending⟩ := run_without hlined hout ((live_iff hout).mp hlive) (pulse rise during fall)
  generalize hother : asc.run ((pulse rise during fall).filterMap withoutReset) = other
    at hreset' hpending
  obtain ⟨heldSince, hsame⟩ := hasIf (max other.readyAt other.diagnoseAt)
  have hready' := congrArg Wd7000.ready hsame
  rw [hother] at hready'
  change _ = (other.advance _).ready at hready'
  rw [(advance_port hreset _).2.2.1, hready, hbusy, hdiagnosing', (advance_port hreset' _).2.2.1]
    at hready'
  have hbusyDue : other.readyAt ≤ max other.now (max other.readyAt other.diagnoseAt) :=
    (Nat.le_max_left ..).trans (Nat.le_max_right ..)
  have hdiagnoseDue : other.diagnoseAt ≤ max other.now (max other.readyAt other.diagnoseAt) :=
    (Nat.le_max_right ..).trans (Nat.le_max_right ..)
  rw [decide_eq_true hbusyDue, decide_eq_true hdiagnoseDue] at hready'
  obtain hup | hup | hup := hpending <;> rw [hup] at hready' <;> simp at hready'

/-! ## Runs -/

omit [ScsiTarget δ] in
/-- The line goes up by a write of the control register alone, -/
theorem rise_of_lineAfter {event : Event δ} (h : lineAfter event false = true) :
    ∃ rise, event = .write 2 rise ∧ rise.getLsbD 0 = true := by
  unfold lineAfter at h
  split at h
  · exact ⟨_, rfl, h⟩
  · exact absurd h Bool.false_ne_true

omit [ScsiTarget δ] in
/-- and comes down by one. -/
theorem fall_of_lineAfter {event : Event δ} (h : lineAfter event true = false) :
    ∃ fall, event = .write 2 fall ∧ fall.getLsbD 0 = false := by
  unfold lineAfter at h
  split at h
  · exact ⟨_, rfl, h⟩
  · exact absurd h (Ne.symm Bool.false_ne_true)

/-- A part in reset was put there by a write since which the line was held. -/
theorem held_since {start : Wd7000 δ} (hlined : start.Lined) (hout : start.inReset = false)
    (events : List (Event δ)) (hheld : (start.run events).inReset = true) :
    ∃ before rise during, events = before ++ .write 2 rise :: during ∧
      (start.run before).inReset = false ∧ rise.getLsbD 0 = true ∧
      ∀ event ∈ during, holds event = true := by
  induction events using List.reverseRecOn with
  | nil => exact absurd (hheld.symm.trans hout) (Ne.symm Bool.false_ne_true)
  | append_singleton events event ih =>
    rw [run_append] at hheld
    change ((start.run events).step event).inReset = true at hheld
    rw [inReset_step (lined_run hlined events)] at hheld
    cases hbefore : (start.run events).inReset with
    | false =>
      rw [hbefore] at hheld
      obtain ⟨rise, rfl, hrise⟩ := rise_of_lineAfter hheld
      exact ⟨events, rise, [], rfl, hbefore, hrise, fun other hother => nomatch hother⟩
    | true =>
      obtain ⟨before, rise, during, rfl, hup, hrise, hholds⟩ := ih hbefore
      refine ⟨before, rise, during ++ [event], by simp, hup, hrise, fun other hother => ?_⟩
      obtain hother | hother := List.mem_append.mp hother
      · exact hholds other hother
      · rw [List.mem_singleton.mp hother]
        rw [hbefore] at hheld
        exact hheld

/-- Every short pulse of a run from this state begins while the diagnostics run. -/
def Harmless (start : Wd7000 δ) (events : List (Event δ)) : Prop :=
  ∀ before rise during fall rest, events = before ++ pulse rise during fall ++ rest →
    ShortPulse (start.run before) rise during fall → (start.run before).diagnosing = true

omit [ScsiTarget δ] in
theorem Harmless.of_append [ScsiTarget δ] {start : Wd7000 δ} {first second : List (Event δ)}
    (h : Harmless start (first ++ second)) : Harmless start first := by
  intro before rise during fall rest heq
  refine h before rise during fall (rest ++ second) ?_
  rw [heq, List.append_assoc]

/-- OUTSIDE RESET THE PORT ANSWERS in every state of a run whose short pulses are harmless. -/
theorem live_run (memory : BitVec 32 → BitVec 8) {events : List (Event δ)}
    (hharmless : Harmless (powerOn memory) events)
    (hout : ((powerOn memory : Wd7000 δ).run events).inReset = false) :
    ((powerOn memory : Wd7000 δ).run events).Live := by
  rw [live_iff hout]
  induction events using List.reverseRecOn with
  | nil => exact .inr (.inr rfl)
  | append_singleton events event ih =>
    have hlined : ((powerOn memory : Wd7000 δ).run events).Lined :=
      lined_run (lined_powerOn memory) events
    have hbefore := hharmless.of_append
    have hrun : (powerOn memory : Wd7000 δ).run (events ++ [event]) =
        ((powerOn memory).run events).step event := run_append ..
    rw [hrun] at hout ⊢
    cases hreset : ((powerOn memory : Wd7000 δ).run events).inReset with
    | false =>
      exact step_up hreset (hlined.line.symm.trans hreset) (ih hbefore hreset) hout
    | true =>
      -- the line is let go here: the pulse was a reset, or short and so in the diagnostics
      have hfalls := hout
      rw [inReset_step hlined, hreset] at hfalls
      obtain ⟨fall, rfl, hfall⟩ := fall_of_lineAfter hfalls
      obtain ⟨before, rise, during, hevents, hup, hrise, hholds⟩ :=
        held_since (lined_powerOn memory) rfl events hreset
      have hline : ((powerOn memory : Wd7000 δ).run events).control.getLsbD 0 = true :=
        hlined.line.symm.trans hreset
      cases hlong : ((powerOn memory : Wd7000 δ).run events).longEnough with
      | true =>
        refine .inr (.inr ?_)
        show (((powerOn memory : Wd7000 δ).run events).writeControl fall).diagnosing = true
        rw [writeControl_eq, hfall, hline, hlong]
        rfl
      | false =>
        have hlined' : ((powerOn memory : Wd7000 δ).run before).Lined :=
          lined_run (lined_powerOn memory) before
        have hpulse : ShortPulse ((powerOn memory : Wd7000 δ).run before) rise during fall := by
          refine ⟨hlined'.line.symm.trans hup, hrise, hholds, hfall, ?_⟩
          rw [← run_append, ← hevents]
          exact hlong
        have hdiagnosing := hharmless before rise during fall [] (by simp [hevents, pulse]) hpulse
        refine .inr (.inr ?_)
        have hend := (hpulse.port hlined').2.2.2
        rw [← run_append] at hend
        have hsame : before ++ pulse rise during fall = events ++ [.write 2 fall] := by
          simp [hevents, pulse]
        rw [hsame, hrun] at hend
        exact hend.trans hdiagnosing

/-- THE COMMAND PORT AND ITS RESET PULSES, in every run whose short pulses begin in the diagnostics:
in each of its states outside reset the port answers, each of its short pulses is as if it had not
happened, and of the next short pulse that is so, and leaves a port that answers, exactly when it
begins in the diagnostics as well. -/
theorem pulses (memory : BitVec 32 → BitVec 8) (events : List (Event δ))
    (hharmless : Harmless (powerOn memory) events) :
    (∀ before after, events = before ++ after →
      ((powerOn memory).run before).inReset = false → ((powerOn memory).run before).Live) ∧
    (∀ before rise during fall after, events = before ++ pulse rise during fall ++ after →
      ShortPulse ((powerOn memory).run before) rise during fall →
      AsIfNot ((powerOn memory).run before) rise during fall) ∧
    (∀ rise during fall, ShortPulse ((powerOn memory).run events) rise during fall →
      (AsIfNot ((powerOn memory).run events) rise during fall ↔
        ((powerOn memory).run events).diagnosing = true) ∧
      (((powerOn memory).run (events ++ pulse rise during fall)).Live ↔
        ((powerOn memory).run events).diagnosing = true)) := by
  have hlined : ∀ events, ((powerOn memory : Wd7000 δ).run events).Lined :=
    lined_run (lined_powerOn memory)
  refine ⟨?_, ?_, ?_⟩
  · rintro before after rfl hout
    exact live_run memory hharmless.of_append hout
  · intro before rise during fall after hevents hpulse
    exact hpulse.asIfNot (hlined before)
      (hharmless before rise during fall after hevents hpulse)
  · intro rise during fall hpulse
    have hout : ((powerOn memory : Wd7000 δ).run events).inReset = false :=
      (hlined events).line.trans hpulse.up
    obtain ⟨hreset, hready, hbusy, hdiagnosing⟩ := hpulse.port (hlined events)
    refine ⟨⟨fun hasIf => ?_, hpulse.asIfNot (hlined events)⟩, ?_⟩
    · by_contra hnot
      exact hpulse.not_asIfNot (hlined events) (live_run memory hharmless hout)
        (Bool.eq_false_of_not_eq_true hnot) hasIf
    · rw [run_append, live_iff hreset, hready, hbusy, hdiagnosing]
      simp

/-- The diagnostics after power up are over, a short pulse comes, and the port is ready no more,
whatever time passes. -/
theorem not_pulses :
    ¬ ∀ (memory : BitVec 32 → BitVec 8) (events : List (Event Exb8200)) rise during fall,
      ShortPulse ((powerOn memory).run events) rise during fall →
        AsIfNot ((powerOn memory).run events) rise during fall ∧
          ((powerOn memory).run (events ++ pulse rise during fall)).Live := by
  intro hall
  have hpulse : ShortPulse ((powerOn fun _ => 0 : Wd7000 Exb8200).run [.advance (us 3000000)])
      0x01 [.advance (us 3000001), .advance (us 3000002)] 0x00 := by
    refine ⟨by decide +kernel, by decide, by decide, by decide, by decide +kernel⟩
  obtain ⟨-, hlive⟩ := hall _ _ _ _ _ hpulse
  have hport := hpulse.port (lined_run (lined_powerOn _) _)
  rw [run_append, live_iff hport.1, hport.2.1, hport.2.2.1, hport.2.2.2] at hlive
  revert hlive
  decide +kernel

/-- A short pulse in the diagnostics after power up, and the port once their time has come. -/
theorem pulses_powerOn :
    let events : List (Event Exb8200) :=
      pulse 0x01 [.advance 1, .advance 2] 0x00 ++ [.advance (us 3000000)]
    Harmless (powerOn fun _ => 0) events ∧
      AsIfNot (powerOn fun _ => 0 : Wd7000 Exb8200) 0x01 [.advance 1, .advance 2] 0x00 ∧
      ((powerOn fun _ => 0 : Wd7000 Exb8200).run events).ready = true ∧
      ((powerOn fun _ => 0 : Wd7000 Exb8200).run events).Live := by
  intro events
  have hharmless : Harmless (powerOn fun _ => 0) events := by
    intro before rise during fall rest heq hpulse
    obtain _ | ⟨first, _ | ⟨second, _ | ⟨third, _ | ⟨fourth, _ | ⟨fifth, before⟩⟩⟩⟩⟩ := before
    · rfl
    all_goals simp [events, pulse] at heq
    have hrise := hpulse.taken
    rw [← heq.2.2.2.1] at hrise
    exact absurd hrise (by decide)
  obtain ⟨hlive, hasIf, -⟩ := pulses (fun _ => 0) events hharmless
  refine ⟨hharmless, ?_, by decide +kernel, hlive events [] (List.append_nil _).symm (by decide +kernel)⟩
  refine hasIf [] _ _ _ [.advance (us 3000000)] rfl ?_
  exact ⟨by decide +kernel, by decide, by decide, by decide, by decide +kernel⟩

end Apollo.Device.Wd7000
