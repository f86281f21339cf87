import Mathlib
import Apollo.Board.Cascade

/-!
# Delivery

How a request of the slave reaches the processor. A round of service is an acknowledge, after which
the device lets its line down and both parts are sent a non-specific end. From a state of a careful
run with nothing in service and the cascade admitted, THE ROUNDS COME TO EVERY REQUEST OF THE SLAVE:
each of them lets a line down that was up.
-/

namespace Apollo.Device.I8259

open Lib.Rotating

variable {pic : I8259} {level : Fin 8}

/-! ## A part with nothing in service -/

theorem blocking_of_idle (hidle : pic.isr = 0#8) : pic.blocking = 0#8 := by
  unfold blocking
  rw [hidle]
  split
  · exact BitVec.zero_and
  · rfl

theorem admits_of_idle (hidle : pic.isr = 0#8) : pic.admits level = !has pic.imr level := by
  rw [Bool.eq_iff_iff, admits_iff, blocking_of_idle hidle]
  simp

theorem interruptPending_of_idle (hidle : pic.isr = 0#8) :
    pic.interruptPending = true ↔
      ∃ level, has pic.irr level = true ∧ has pic.imr level = false := by
  rw [interruptPending_eq, asks_iff]
  simp only [admits_of_idle hidle, wire, Bool.not_eq_true']

/-! ## A round of one part -/

/-- A non-specific end that does not rotate. -/
def nonSpecificEoi : BitVec 8 := 0x20

/-- What an acknowledge leaves of a part that had nothing in service: the level it took is in
service, or nothing is. -/
structure Acknowledged (before after : I8259) (level : Fin 8) : Prop where
  controls : SameControls before after
  pins : after.pins = before.pins
  irr : ∀ b, has after.irr b =
    (has before.irr b && !decide (b = level) || before.levelTriggered && has before.pins b)
  isr : ∀ b, has after.isr b = true → b = level
  serving : before.autoEoi = false →
    after.isr = bit level ∧ after.highestPriority = before.highestPriority

theorem acknowledged_second {served : I8259} (h : Acknowledged pic served level)
    (hserving : served.isr = bit level ∧ served.highestPriority = pic.highestPriority) :
    Acknowledged pic served.acknowledgeSecond.2 level := by
  unfold acknowledgeSecond
  dsimp only
  by_cases hauto : served.autoEoi = true
  · rw [if_pos hauto]
    have hcontrols : SameControls pic { served with acknowledging := false } :=
      ⟨h.controls.1, h.controls.2, h.controls.3, h.controls.4, h.controls.5, h.controls.6⟩
    refine ⟨hcontrols.trans (sameControls_endInterrupt ..), (endInterrupt_pins ..).trans h.pins,
      fun b => ?_, fun b hb => ?_, fun hnot => ?_⟩
    · rw [endInterrupt_irr]
      exact h.irr b
    · rw [endInterrupt_isr, Bool.and_eq_true] at hb
      exact h.isr b hb.1
    · exact absurd ((h.controls.autoEoi.symm.trans hauto).symm.trans hnot) Bool.false_ne_true.symm
  · rw [if_neg hauto]
    exact ⟨⟨h.controls.1, h.controls.2, h.controls.3, h.controls.4, h.controls.5, h.controls.6⟩, h.pins, h.irr,
      h.isr, fun _ => hserving⟩

theorem vector_second (pic : I8259) :
    pic.acknowledgeSecond.1 = pic.vectorBase ||| BitVec.ofNat 8 pic.acknowledgedLevel.val := by
  unfold acknowledgeSecond
  dsimp only
  split
  · rw [endInterrupt_vectorBase]
  · rfl

theorem acknowledged_of_resolve (hidle : pic.isr = 0#8) (h : pic.resolve = some level) :
    Acknowledged pic pic.acknowledge.2 level ∧
      pic.acknowledgeFirst.1 = level ∧
      pic.acknowledge.1 =
        pic.vectorBase ||| BitVec.ofNat 8 level.val := by
  have hfirst : pic.acknowledgeFirst =
      (level, { pic.serve level with acknowledging := true, acknowledgedLevel := level }) := by
    rw [acknowledgeFirst, h]
  have hcontrols := sameControls_serve pic level
  have hisr : (pic.serve level).isr = bit level := by
    rw [serve_isr, hidle, BitVec.zero_or]
  have honly : ∀ b, has (pic.serve level).isr b = true → b = level := fun b hb => by
    rw [hisr, has_bit] at hb
    exact of_decide_eq_true hb
  have hserving : (pic.serve level).isr = bit level ∧
      (pic.serve level).highestPriority = pic.highestPriority :=
    ⟨hisr, serve_highestPriority pic level⟩
  rw [acknowledge, hfirst, vector_second]
  refine ⟨acknowledged_second ?_ hserving, rfl, ?_⟩
  · exact ⟨⟨hcontrols.1, hcontrols.2, hcontrols.3, hcontrols.4, hcontrols.5, hcontrols.6⟩,
      serve_pins pic level, serve_irr pic level, honly, fun _ => hserving⟩
  · rw [← hcontrols.vectorBase]

theorem setRequest_down (pic : I8259) (level b : Fin 8) :
    has (pic.setRequest level.val false).2.pins b = (has pic.pins b && !decide (b = level)) ∧
      has (pic.setRequest level.val false).2.irr b = (has pic.irr b && !decide (b = level)) := by
  have hwire := wire_setRequest pic level b false
  have hpin := congrArg Wire.pin hwire
  have hlatch := congrArg Wire.latch hwire
  by_cases hb : b = level
  · rw [if_pos hb] at hpin hlatch
    rw [decide_eq_true hb]
    simpa [wire, Wire.drive] using And.intro hpin hlatch
  · rw [if_neg hb] at hpin hlatch
    rw [decide_eq_false hb]
    simpa [wire] using And.intro hpin hlatch

theorem isr_of_eoi (hmask : has pic.imr level = false) (h : ∀ b, has pic.isr b = true → b = level) :
    (pic.endInterrupt pic.highestInService false).isr = 0#8 := by
  refine eq_zero_iff.mpr fun b => ?_
  rw [endInterrupt_isr]
  cases hb : has pic.isr b with
  | false => rfl
  | true =>
    obtain rfl := h b hb
    have hblocking : has pic.blocking b = true := by
      unfold blocking
      split
      · rw [has_and, has_not, hb, hmask]
        rfl
      · exact hb
    have hhighest : pic.highestInService = some b := by
      refine first_eq_some.mpr ⟨hblocking, fun other hother => ?_⟩
      refine Bool.eq_false_iff.mpr fun hin => ?_
      have hservice : has pic.isr other = true := by
        unfold blocking at hin
        split at hin
        · rw [has_and, Bool.and_eq_true] at hin
          exact hin.1
        · exact hin
      rw [h other hservice] at hother
      exact lt_irrefl _ hother
    rw [hhighest, decide_eq_true rfl]
    rfl

end Apollo.Device.I8259

namespace Apollo.Board.Intr

open Device Lib.Rotating

variable {intr : Intr} {level : Fin 8}

/-! ## A round of service -/

/-- The line of the pair that an acknowledge would take. -/
def served (intr : Intr) : Option Nat :=
  match intr.master.resolve with
  | none => none
  | some line =>
    if line = cascadeLine then intr.slave.resolve.map (8 + ·.val) else some line.val

/-- A non-specific end to the slave, and one to the master. -/
def endBoth (intr : Intr) : Intr :=
  (intr.write 0x011100 I8259.nonSpecificEoi).write 0x011000 I8259.nonSpecificEoi

/-- An acknowledge, the line let down, and the ends. -/
def serviceRound (intr : Intr) : Intr :=
  match intr.served with
  | none => endBoth intr.acknowledge.2
  | some irq => endBoth (intr.acknowledge.2.setRequest irq false)

/-- Rounds of service. -/
def serviced : Nat → Intr → Intr
  | 0, intr => intr
  | rounds + 1, intr => serviced rounds intr.serviceRound

/-- A non-specific end of one part. -/
def ended (pic : I8259) : I8259 := pic.endInterrupt pic.highestInService false

/-- The master with its cascade input driven. -/
def driven (master : I8259) (asserted : Bool) : I8259 :=
  (master.setRequest cascadeLine.val asserted).2

theorem endBoth_eq (intr : Intr) :
    intr.endBoth = ⟨ended (driven intr.master (ended intr.slave).interruptPending),
      ended intr.slave⟩ := rfl

theorem serviceRound_master {line : Fin 8} (hresolve : intr.master.resolve = some line)
    (hfirst : intr.master.acknowledgeFirst.1 = line) (hline : line ≠ cascadeLine) :
    intr.serviceRound =
      endBoth ⟨(intr.master.acknowledge.2.setRequest line.val false).2, intr.slave⟩ := by
  have hserved : intr.served = some line.val := by
    rw [served, hresolve]
    exact if_neg hline
  have hack : intr.acknowledge.2 = ⟨intr.master.acknowledge.2, intr.slave⟩ := by
    rw [acknowledge]
    dsimp only
    rw [if_pos (by rw [hfirst]; exact hline)]
    rfl
  have hlt := line.isLt
  have hvalue : line.val ≠ cascadeLine.val := fun heq => hline (Fin.ext heq)
  rw [serviceRound, hserved, hack]
  dsimp only
  rw [setRequest, if_neg (by omega), if_pos hlt, if_neg hvalue]

theorem serviceRound_cascade {line : Fin 8} (hresolve : intr.master.resolve = some cascadeLine)
    (hfirst : intr.master.acknowledgeFirst.1 = cascadeLine)
    (hslave : intr.slave.resolve = some line) (hup : has intr.slave.acknowledge.2.pins line = true) :
    intr.serviceRound =
      endBoth ⟨driven (driven intr.master.acknowledge.2 intr.slave.acknowledge.2.interruptPending)
          (intr.slave.acknowledge.2.setRequest line.val false).2.interruptPending,
        (intr.slave.acknowledge.2.setRequest line.val false).2⟩ := by
  have hserved : intr.served = some (8 + line.val) := by
    rw [served, hresolve]
    dsimp only
    rw [if_pos rfl, hslave]
    rfl
  have hack : intr.acknowledge.2 = ⟨driven intr.master.acknowledge.2 intr.slave.acknowledge.2.interruptPending,
      intr.slave.acknowledge.2⟩ := by
    rw [acknowledge]
    dsimp only
    rw [if_neg (by rw [hfirst]; simp)]
    rfl
  have hlt := line.isLt
  have hmoved : (intr.slave.acknowledge.2.setRequest line.val false).1 = true := by
    rw [I8259.setRequest_moved]
    exact bne_iff_ne.mpr fun heq => Bool.false_ne_true (heq.trans hup)
  rw [serviceRound, hserved, hack]
  dsimp only
  rw [setRequest, if_neg (by omega), if_neg (by omega), Nat.add_sub_cancel_left]
  dsimp only
  rw [if_pos hmoved]
  rfl

/-! ## Waiting -/

/-- Nothing is in service, and the master has the cascade latched whenever the slave asks. -/
structure Quiet (intr : Intr) : Prop where
  masterIdle : intr.master.isr = 0#8
  slaveIdle : intr.slave.isr = 0#8
  masterLatched : intr.master.Latched
  slaveLatched : intr.slave.Latched
  output : has intr.master.pins cascadeLine = intr.slave.interruptPending
  latched : has intr.master.pins cascadeLine = true → has intr.master.irr cascadeLine = true
  admitted : has intr.master.imr cascadeLine = false
  /-- No line of a level-triggered slave stands up without its request. -/
  settled : intr.slave.levelTriggered = true → ∀ b, has intr.slave.pins b = true →
    has intr.slave.irr b = true

/-- A request of the slave waits. -/
structure Awaits (intr : Intr) (level : Fin 8) : Prop extends Quiet intr where
  asked : has intr.slave.irr level = true
  unmasked : has intr.slave.imr level = false
  /-- With automatic ends the slave's other requests would hold its output up. -/
  alone : intr.slave.autoEoi = false ∨ intr.slave.resolve = some level

/-- The lines of a part that are up. -/
def up (pic : I8259) : Finset (Fin 8) := Finset.univ.filter fun b => has pic.pins b = true

theorem mem_up {pic : I8259} {b : Fin 8} : b ∈ up pic ↔ has pic.pins b = true := by
  simp [up]

/-- The lines of the pair that are up. -/
def linesUp (intr : Intr) : Nat := (up intr.master).card + (up intr.slave).card

theorem ended_pins (pic : I8259) : (ended pic).pins = pic.pins := I8259.endInterrupt_pins ..

theorem ended_irr (pic : I8259) : (ended pic).irr = pic.irr := I8259.endInterrupt_irr ..

theorem sameControls_ended (pic : I8259) : I8259.SameControls pic (ended pic) :=
  I8259.sameControls_endInterrupt ..

theorem ended_of_idle {pic : I8259} (h : pic.isr = 0#8) : ended pic = pic := by
  have hnone : pic.highestInService = none := by
    unfold I8259.highestInService
    rw [I8259.blocking_of_idle h]
    exact first_eq_none.mpr fun _ => has_zero
  rw [ended, hnone]
  rfl

theorem wire_driven (master : I8259) (asserted : Bool) (b : Fin 8) :
    (driven master asserted).wire b =
      if b = cascadeLine then (master.wire cascadeLine).drive master.levelTriggered asserted
      else master.wire b :=
  I8259.wire_setRequest ..

theorem driven_isr (master : I8259) (asserted : Bool) : (driven master asserted).isr = master.isr :=
  I8259.setRequest_isr ..

theorem sameControls_driven (master : I8259) (asserted : Bool) :
    I8259.SameControls master (driven master asserted) :=
  I8259.sameControls_setRequest ..

theorem driven_pins (master : I8259) (asserted : Bool) :
    has (driven master asserted).pins cascadeLine = asserted := by
  have hwire := wire_driven master asserted cascadeLine
  rw [if_pos rfl] at hwire
  exact congrArg Wire.pin hwire

theorem driven_pins_other (master : I8259) (asserted : Bool) {b : Fin 8} (hb : b ≠ cascadeLine) :
    has (driven master asserted).pins b = has master.pins b := by
  have hwire := wire_driven master asserted b
  rw [if_neg hb] at hwire
  exact congrArg Wire.pin hwire

theorem driven_latched (master : I8259) {asserted : Bool} (hup : asserted = true)
    (h : has master.pins cascadeLine = true → has master.irr cascadeLine = true) :
    has (driven master asserted).irr cascadeLine = true := by
  have hwire := wire_driven master asserted cascadeLine
  rw [if_pos rfl] at hwire
  refine (congrArg Wire.latch hwire).trans ?_
  unfold Wire.drive I8259.wire
  dsimp only
  rw [hup]
  cases hpin : has master.pins cascadeLine with
  | false => simp
  | true => rw [h hpin]; simp

theorem latched_setRequest {pic : I8259} (h : pic.Latched) (line : Nat) (asserted : Bool) :
    (pic.setRequest line asserted).2.Latched := I8259.latched_run h (.setRequest line asserted)

theorem latched_acked {pic : I8259} (h : pic.Latched) : pic.acknowledge.2.Latched :=
  I8259.latched_runs h [.acknowledgeFirst, .acknowledgeSecond]

theorem latched_ended {pic : I8259} (h : pic.Latched) : (ended pic).Latched :=
  I8259.latched_run h (.write false I8259.nonSpecificEoi)

/-! ## What one round does -/

theorem Awaits.pending (h : Awaits intr level) : intr.slave.interruptPending = true :=
  (I8259.interruptPending_of_idle h.slaveIdle).mpr ⟨level, h.asked, h.unmasked⟩

theorem Awaits.cascade_up (h : Awaits intr level) : has intr.master.pins cascadeLine = true :=
  h.output.trans h.pending

theorem Awaits.exists_resolve (h : Awaits intr level) : ∃ line, intr.master.resolve = some line := by
  have hmaster : intr.master.interruptPending = true :=
    (I8259.interruptPending_of_idle h.masterIdle).mpr
      ⟨cascadeLine, h.latched h.cascade_up, h.admitted⟩
  exact Option.isSome_iff_exists.mp hmaster

theorem quiet_master {master : I8259} {line : Fin 8} {asserted : Bool}
    (hmask : has master.imr line = false) (hisr : ∀ b, has master.isr b = true → b = line)
    (hlatched : master.Latched)
    (hcascade : has master.pins cascadeLine = true → has master.irr cascadeLine = true) :
    (ended (driven master asserted)).isr = 0#8 ∧ (ended (driven master asserted)).Latched ∧
      has (ended (driven master asserted)).pins cascadeLine = asserted ∧
      (asserted = true → has (ended (driven master asserted)).irr cascadeLine = true) := by
  refine ⟨?_, latched_ended (latched_setRequest hlatched _ _), ?_, fun hup => ?_⟩
  · refine @I8259.isr_of_eoi _ line ?_ fun b hb => ?_
    · rw [(sameControls_driven master asserted).imr]
      exact hmask
    · rw [driven_isr] at hb
      exact hisr b hb
  · rw [ended_pins]
    exact driven_pins master asserted
  · rw [ended_irr]
    exact driven_latched master hup hcascade

theorem Awaits.round_master (h : Awaits intr level) {line : Fin 8}
    (hresolve : intr.master.resolve = some line) (hline : line ≠ cascadeLine) :
    Awaits intr.serviceRound level ∧ intr.serviceRound.slave = intr.slave ∧
      linesUp intr.serviceRound < linesUp intr := by
  obtain ⟨hacked, hfirst, -⟩ := I8259.acknowledged_of_resolve h.masterIdle hresolve
  obtain ⟨hasked, hunmasked⟩ := I8259.asks_of_resolve hresolve
  have hdown := I8259.setRequest_down intr.master.acknowledge.2 line
  have hcontrols := hacked.controls.trans
    (I8259.sameControls_setRequest intr.master.acknowledge.2 line.val false)
  have hround := serviceRound_master hresolve hfirst hline
  rw [endBoth_eq, ended_of_idle h.slaveIdle] at hround
  generalize hdropped : (intr.master.acknowledge.2.setRequest line.val false).2 = dropped at *
  have hcascade : has dropped.pins cascadeLine = true → has dropped.irr cascadeLine = true := by
    intro hup
    rw [(hdown cascadeLine).1, Bool.and_eq_true] at hup
    rw [(hdown cascadeLine).2, hup.2, Bool.and_true,
      hacked.irr, h.latched (hacked.pins ▸ hup.1), hup.2]
    rfl
  have hlatched : dropped.Latched := hdropped ▸
    latched_setRequest (latched_acked h.masterLatched) _ _
  have hisr : ∀ b, has dropped.isr b = true → b = line := fun b hb => by
    rw [← hdropped, I8259.setRequest_isr] at hb
    exact hacked.isr b hb
  have hmask : has dropped.imr line = false := by rw [hcontrols.imr]; exact hunmasked
  obtain ⟨hidle, hkept, hpins, hirr⟩ :=
    @quiet_master dropped line intr.slave.interruptPending hmask hisr hlatched hcascade
  have hfinal := hcontrols.trans ((sameControls_driven dropped _).trans
    (sameControls_ended (driven dropped intr.slave.interruptPending)))
  have hup : up (ended (driven dropped intr.slave.interruptPending)) =
      (up intr.master).erase line := by
    ext b
    rw [Finset.mem_erase, mem_up, mem_up]
    by_cases hb : b = cascadeLine
    · rw [hb, hpins, ← h.output]
      exact ⟨fun hin => ⟨Ne.symm hline, hin⟩, fun hin => hin.2⟩
    · rw [ended_pins, driven_pins_other _ _ hb, (hdown b).1,
        hacked.pins]
      simp [and_comm]
  rw [hround]
  refine ⟨⟨⟨hidle, h.slaveIdle, hkept, h.slaveLatched, hpins, fun hin => hirr (hpins ▸ hin), ?_,
    h.settled⟩, h.asked, h.unmasked, h.alone⟩, rfl, ?_⟩
  · rw [hfinal.imr]
    exact h.admitted
  · unfold linesUp
    rw [hup]
    have hmem : line ∈ up intr.master := mem_up.mpr (h.masterLatched line hasked)
    have hless := Finset.card_erase_lt_of_mem hmem
    exact Nat.add_lt_add_right hless _

theorem Awaits.round_cascade (h : Awaits intr level) {line : Fin 8}
    (hresolve : intr.master.resolve = some cascadeLine)
    (hslave : intr.slave.resolve = some line) (hother : line ≠ level) :
    Awaits intr.serviceRound level ∧
      intr.serviceRound.slave.vectorBase = intr.slave.vectorBase ∧
      linesUp intr.serviceRound < linesUp intr := by
  have hauto : intr.slave.autoEoi = false :=
    h.alone.resolve_right fun heq => hother (Option.some.inj (hslave.symm.trans heq))
  obtain ⟨hmaster, hfirst, -⟩ := I8259.acknowledged_of_resolve h.masterIdle hresolve
  obtain ⟨hacked, -, -⟩ := I8259.acknowledged_of_resolve h.slaveIdle hslave
  obtain ⟨hasked, hunmasked⟩ := I8259.asks_of_resolve hslave
  obtain ⟨hisr, hhighest⟩ := hacked.serving hauto
  have hlineUp : has intr.slave.pins line = true := h.slaveLatched line hasked
  have hround := serviceRound_cascade hresolve hfirst hslave
    (show has intr.slave.acknowledge.2.pins line = true from hacked.pins ▸ hlineUp)
  have hdown := I8259.setRequest_down intr.slave.acknowledge.2 line
  have hcontrols := hacked.controls.trans
    (I8259.sameControls_setRequest intr.slave.acknowledge.2 line.val false)
  have hdroppedIsr : (intr.slave.acknowledge.2.setRequest line.val false).2.isr = bit line :=
    (I8259.setRequest_isr ..).trans hisr
  have hdroppedHighest : (intr.slave.acknowledge.2.setRequest line.val false).2.highestPriority =
      intr.slave.highestPriority := by
    rw [I8259.setRequest, dif_pos line.isLt]
    exact hhighest
  have hlatched : (intr.slave.acknowledge.2.setRequest line.val false).2.Latched :=
    latched_setRequest (latched_acked h.slaveLatched) _ _
  rw [endBoth_eq] at hround
  generalize (intr.slave.acknowledge.2.setRequest line.val false).2 = dropped at *
  -- in level mode every line that is up asks already, so nothing new is latched
  have hirr : ∀ b, has dropped.irr b = (has intr.slave.irr b && !decide (b = line)) := by
    intro b
    rw [(hdown b).2, hacked.irr]
    cases hmode : intr.slave.levelTriggered with
    | false => simp
    | true =>
      cases hpin : has intr.slave.pins b with
      | false => simp
      | true => rw [h.settled hmode b hpin]; simp
  have hpinsDropped : ∀ b, has dropped.pins b = (has intr.slave.pins b && !decide (b = line)) := by
    intro b
    rw [(hdown b).1, hacked.pins]
  have hsilent : dropped.interruptPending = false :=
    I8259.not_pending_of_serving hslave hcontrols hdroppedHighest
      (by rw [hdroppedIsr, has_bit, decide_eq_true rfl])
      (fun b hb => (Bool.and_eq_true_iff.mp ((hirr b).symm.trans hb)).1)
      fun _ => by rw [hirr, decide_eq_true rfl, Bool.not_true, Bool.and_false]
  rw [hsilent] at hround
  have hslaveFinal := hcontrols.trans (sameControls_ended dropped)
  have hslaveIdle : (ended dropped).isr = 0#8 := by
    refine @I8259.isr_of_eoi _ line ?_ fun b hb => ?_
    · rw [hcontrols.imr]
      exact hunmasked
    · rw [hdroppedIsr, has_bit] at hb
      exact of_decide_eq_true hb
  generalize hlow : driven (driven intr.master.acknowledge.2 intr.slave.acknowledge.2.interruptPending) false =
    low at hround
  have hlowControls : I8259.SameControls intr.master low := hlow ▸
    hmaster.controls.trans ((sameControls_driven _ _).trans (sameControls_driven _ _))
  have hlowIsr : ∀ b, has low.isr b = true → b = cascadeLine := fun b hb => by
    rw [← hlow, driven_isr, driven_isr] at hb
    exact hmaster.isr b hb
  have hlowLatched : low.Latched := hlow ▸
    latched_setRequest (latched_setRequest (latched_acked h.masterLatched) _ _) _ _
  have hlowPins : has low.pins cascadeLine = false := hlow ▸ driven_pins _ _
  have hmask : has low.imr cascadeLine = false := by rw [hlowControls.imr]; exact h.admitted
  obtain ⟨hidle, hkept, hpins, hirr3⟩ :=
    @quiet_master low cascadeLine (ended dropped).interruptPending hmask hlowIsr hlowLatched
      fun hup => absurd (hlowPins.symm.trans hup) Bool.false_ne_true
  have hfinal := hlowControls.trans ((sameControls_driven low _).trans
    (sameControls_ended (driven low (ended dropped).interruptPending)))
  have hupMaster : up (ended (driven low (ended dropped).interruptPending)) ⊆ up intr.master := by
    intro b hb
    rw [mem_up] at hb ⊢
    by_cases hcascade : b = cascadeLine
    · exact hcascade ▸ h.cascade_up
    · rw [ended_pins, driven_pins_other _ _ hcascade, ← hlow, driven_pins_other _ _ hcascade,
        driven_pins_other _ _ hcascade] at hb
      exact hmaster.pins ▸ hb
  have hupSlave : up (ended dropped) = (up intr.slave).erase line := by
    ext b
    rw [Finset.mem_erase, mem_up, mem_up, ended_pins, hpinsDropped]
    simp [and_comm]
  rw [hround]
  refine ⟨⟨⟨hidle, hslaveIdle, hkept, latched_ended hlatched, hpins,
    fun hin => hirr3 (hpins ▸ hin), ?_, fun hmode b hb => ?_⟩, ?_, ?_, .inl ?_⟩,
    hslaveFinal.vectorBase, ?_⟩
  · rw [hfinal.imr]
    exact h.admitted
  · rw [hslaveFinal.levelTriggered] at hmode
    rw [ended_pins, hpinsDropped, Bool.and_eq_true] at hb
    rw [ended_irr, hirr, h.settled hmode b hb.1, hb.2]
    rfl
  · rw [ended_irr, hirr, h.asked, decide_eq_false (Ne.symm hother)]
    rfl
  · rw [hslaveFinal.imr]
    exact h.unmasked
  · rw [hslaveFinal.autoEoi]
    exact hauto
  · unfold linesUp
    rw [hupSlave]
    have hless := Finset.card_erase_lt_of_mem (mem_up.mpr hlineUp)
    exact Nat.add_lt_add_of_le_of_lt (Finset.card_le_card hupMaster) hless

/-! ## Delivery -/

/-- The acknowledge takes a request of the slave and answers its vector. -/
structure Delivers (intr : Intr) (level : Fin 8) (vectorBase : BitVec 8) : Prop where
  master : intr.master.resolve = some cascadeLine
  slave : intr.slave.resolve = some level
  vector : intr.acknowledge.1 = vectorBase ||| BitVec.ofNat 8 level.val

theorem Awaits.delivers (h : Awaits intr level) (hmaster : intr.master.resolve = some cascadeLine)
    (hslave : intr.slave.resolve = some level) :
    Delivers intr level intr.slave.vectorBase := by
  obtain ⟨-, hfirst, -⟩ := I8259.acknowledged_of_resolve h.masterIdle hmaster
  obtain ⟨-, -, hvector⟩ := I8259.acknowledged_of_resolve h.slaveIdle hslave
  refine ⟨hmaster, hslave, ?_⟩
  rw [acknowledge]
  dsimp only
  rw [if_neg (by rw [hfirst]; simp)]
  exact hvector

theorem Awaits.round (h : Awaits intr level) :
    Delivers intr level intr.slave.vectorBase ∨
      Awaits intr.serviceRound level ∧
        intr.serviceRound.slave.vectorBase = intr.slave.vectorBase ∧
        linesUp intr.serviceRound < linesUp intr := by
  obtain ⟨line, hresolve⟩ := h.exists_resolve
  by_cases hline : line = cascadeLine
  · subst hline
    obtain ⟨asked, hslave⟩ := Option.isSome_iff_exists.mp h.pending
    by_cases hasked : asked = level
    · exact .inl (h.delivers hresolve (hasked ▸ hslave))
    · exact .inr (h.round_cascade hresolve hslave hasked)
  · obtain ⟨hawaits, hslave, hless⟩ := h.round_master hresolve hline
    exact .inr ⟨hawaits, by rw [hslave], hless⟩

/-- THE ROUNDS COME TO A REQUEST THAT WAITS. -/
theorem Awaits.delivered {rounds : Nat} (h : Awaits intr level) (hrounds : linesUp intr ≤ rounds) :
    ∃ n, n ≤ rounds ∧ Delivers (serviced n intr) level intr.slave.vectorBase := by
  induction rounds generalizing intr with
  | zero =>
    obtain hnow | ⟨-, -, hless⟩ := h.round
    · exact ⟨0, le_rfl, hnow⟩
    · omega
  | succ rounds ih =>
    obtain hnow | ⟨hawaits, hbase, hless⟩ := h.round
    · exact ⟨0, Nat.zero_le _, hnow⟩
    · obtain ⟨n, hn, hdelivers⟩ := ih hawaits (by omega)
      exact ⟨n + 1, by omega, hbase ▸ hdelivers⟩

theorem linesUp_le (intr : Intr) : linesUp intr ≤ 16 := by
  have hmaster := (up intr.master).card_le_univ
  have hslave := (up intr.slave).card_le_univ
  rw [Fintype.card_fin] at hmaster hslave
  unfold linesUp
  omega

/-- No request is lost between the two parts. -/
structure NothingLost (intr : Intr) : Prop where
  /-- The cascade input is the slave's output. -/
  cascade : has intr.master.pins cascadeLine = intr.slave.interruptPending
  /-- While the slave has a request that is admitted, the master has the cascade latched or in
  service. -/
  held : ∀ level, has intr.slave.irr level = true → intr.slave.admits level = true →
    has intr.master.irr cascadeLine = true ∨ has intr.master.isr cascadeLine = true
  /-- Once nothing is in service, rounds of service come to every request that is not masked. -/
  delivered : intr.master.isr = 0#8 → intr.slave.isr = 0#8 →
    has intr.master.imr cascadeLine = false →
    (intr.slave.levelTriggered = true → intr.slave.Settled) →
    ∀ level, has intr.slave.irr level = true → has intr.slave.imr level = false →
    (intr.slave.autoEoi = false ∨ intr.slave.resolve = some level) →
    ∃ n, n ≤ 16 ∧ Delivers (serviced n intr) level intr.slave.vectorBase

/-- A part has taken a request no oftener than its line rose. -/
structure OncePerEdge (record : Record) : Prop where
  master : ∀ level, record.master.takes level ≤ record.master.rises level
  slave : ∀ level, record.slave.takes level ≤ record.slave.rises level

theorem Tied.quiet (h : Tied intr) (hattended : intr.master.Attended cascadeLine)
    (hmaster : intr.master.isr = 0#8) (hslave : intr.slave.isr = 0#8)
    (hadmitted : has intr.master.imr cascadeLine = false)
    (hsettled : intr.slave.levelTriggered = true → intr.slave.Settled) : Quiet intr where
  masterIdle := hmaster
  slaveIdle := hslave
  masterLatched := h.masterLatched
  slaveLatched := h.slaveLatched
  output := h.output
  latched hup := (hattended hup).resolve_right fun hin => by
    rw [hmaster, has_zero] at hin
    exact Bool.false_ne_true hin
  admitted := hadmitted
  settled := hsettled

theorem Careful.requestsKept {operations : List Operation} (h : Careful operations) :
    NothingLost (reset.runs operations) := by
  obtain ⟨htied, hattended⟩ := h.tied
  generalize reset.runs operations = intr at *
  refine ⟨htied.output, fun level hlatch hadmits => ?_,
    fun hmaster hslave hadmitted hsettled level hasked hunmasked halone => ?_⟩
  · have hpending : intr.slave.interruptPending = true := by
      rw [I8259.interruptPending_eq, I8259.asks_iff]
      exact ⟨level, hlatch, hadmits⟩
    exact hattended (htied.output.trans hpending)
  · have hquiet := htied.quiet hattended hmaster hslave hadmitted hsettled
    exact Awaits.delivered ⟨hquiet, hasked, hunmasked, halone⟩ (linesUp_le intr)

theorem Accounted.oncePerEdge {record : Record} (h : intr.Accounted record) : OncePerEdge record where
  master level := le_of_add_le_left (h.master level)
  slave level := le_of_add_le_left (h.slave level)

/-- Both parts started, the slave level triggered; two of its lines come up, the first is served and
let down, and its service is ended in both parts. -/
def twoAsking : List Operation :=
  [.write 0x011000 0x11, .write 0x011001 0x40, .write 0x011001 0x08, .write 0x011001 0x01,
    .write 0x011100 0x19, .write 0x011101 0x48, .write 0x011101 0x03, .write 0x011101 0x01,
    .setRequest 8 true, .setRequest 9 true, .acknowledge, .setRequest 8 false,
    .write 0x011100 0x20, .write 0x011000 0x20]

/-- Both parts started, the slave with automatic ends; two of its lines come up, the first is
acknowledged, and the service of the cascade is ended. -/
def heldUp : List Operation :=
  [.write 0x011000 0x11, .write 0x011001 0x40, .write 0x011001 0x08, .write 0x011001 0x01,
    .write 0x011100 0x11, .write 0x011101 0x48, .write 0x011101 0x03, .write 0x011101 0x03,
    .setRequest 8 true, .setRequest 9 true, .acknowledge, .write 0x011000 0x20]

/-- A line up when the slave is started in level mode, and driven up again. -/
def drivenAgain : List Operation :=
  [.setRequest 8 true, .write 0x011100 0x19, .setRequest 8 true]

/-- A line up for two acknowledges of a master in level mode. -/
def upTwice : List Operation :=
  [.write 0x011000 0x19, .write 0x011001 0x40, .write 0x011001 0x08, .write 0x011001 0x01,
    .setRequest 0 true]

end Apollo.Board.Intr
