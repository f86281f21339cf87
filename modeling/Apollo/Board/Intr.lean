import Mathlib
import Apollo.Device.I8259

/-!
# The cascaded interrupt controllers

`src/core/board/ap_intr.c`: two 8259As, the second one's output on line 3 of the first. The board
drives that line itself, after whatever can change the output.
-/

namespace Apollo.Board

open Device

/-- `AP_INTR_CASCADE_LINE`. -/
def cascadeLine : Fin 8 := 3

/-- `ap_intr_t`. -/
structure Intr where
  master : I8259
  slave : I8259
deriving DecidableEq

namespace Intr

/-- `update_cascade`. -/
def updateCascade (intr : Intr) : Intr :=
  { intr with master := (intr.master.setRequest cascadeLine.val intr.slave.interruptPending).2 }

/-- `ap_intr_reset`. -/
def reset : Intr := updateCascade ⟨I8259.init, I8259.init⟩

/-- `ap_intr_decode`: whether it is the slave, and the part's A0. -/
def decode (address : BitVec 32) : Option (Bool × Bool) :=
  let base := address &&& ~~~(0x100#32 - 1)
  if base ≠ 0x011000#32 ∧ base ≠ 0x011100#32 then none
  else some (base == 0x011100#32, address.getLsbD 0)

/-- `ap_intr_read`. -/
def read (intr : Intr) (address : BitVec 32) : BitVec 8 × Intr :=
  match decode address with
  | none => (0, intr)
  | some (true, a0) =>
    let (value, slave) := intr.slave.read a0
    (value, updateCascade { intr with slave := slave })
  | some (false, a0) =>
    let (value, master) := intr.master.read a0
    (value, { intr with master := master })

/-- `ap_intr_write`. -/
def write (intr : Intr) (address : BitVec 32) (value : BitVec 8) : Intr :=
  match decode address with
  | none => intr
  | some (true, a0) => updateCascade { intr with slave := intr.slave.write a0 value }
  | some (false, a0) => { intr with master := intr.master.write a0 value }

/-- `ap_intr_set_request`. -/
def setRequest (intr : Intr) (irq : Nat) (asserted : Bool) : Intr :=
  if 16 ≤ irq then intr
  else if irq < 8 then
    if irq = cascadeLine.val then intr
    else { intr with master := (intr.master.setRequest irq asserted).2 }
  else
    let (moved, slave) := intr.slave.setRequest (irq - 8) asserted
    if moved then updateCascade { intr with slave := slave } else { intr with slave := slave }

/-- `ap_intr_pending`. -/
def pending (intr : Intr) : Bool := intr.master.interruptPending

/-- `ap_intr_acknowledge`. -/
def acknowledge (intr : Intr) : BitVec 8 × Intr :=
  let (level, master) := intr.master.acknowledgeFirst
  let (vector, master) := master.acknowledgeSecond
  if level ≠ cascadeLine then (vector, { intr with master := master })
  else
    let (vector, slave) := intr.slave.acknowledgeFirst.2.acknowledgeSecond
    (vector, updateCascade ⟨master, slave⟩)

/-! ## The lines of the pair -/

/-- The request lines of the pair, with the cascade as the master's line 3. -/
structure Wires where
  master : Fin 8 → Wire
  slave : Fin 8 → Wire

/-- The lines of the pair. -/
def wires (intr : Intr) : Wires := ⟨intr.master.wire, intr.slave.wire⟩

/-- What driving a line of the master does to the lines: it drives that line. -/
def Wires.driveMaster (intr : Intr) (wires : Wires) (level : Fin 8) (asserted : Bool) : Wires :=
  { wires with
    master := fun b => if b = level then
      (wires.master level).drive intr.master.levelTriggered asserted else wires.master b }

/-- What driving a line of the slave does to the lines: it drives that line, and if the line moved
the cascade follows what the slave then asks. -/
def Wires.driveSlave (intr : Intr) (wires : Wires) (level : Fin 8) (asserted : Bool) : Wires :=
  let slave := fun b => if b = level then
    (wires.slave level).drive intr.slave.levelTriggered asserted else wires.slave b
  if asserted = (wires.slave level).pin then { wires with slave := slave }
  else Wires.driveMaster intr { wires with slave := slave } cascadeLine (intr.slave.asks slave)

/-- The controllers differ in their lines at most: the same levels are admitted. -/
structure SameGates (before after : Intr) : Prop where
  masterLevel : after.master.levelTriggered = before.master.levelTriggered
  slaveLevel : after.slave.levelTriggered = before.slave.levelTriggered
  masterAsks : after.master.asks = before.master.asks
  slaveAsks : after.slave.asks = before.slave.asks

theorem SameGates.refl (intr : Intr) : SameGates intr intr := ⟨rfl, rfl, rfl, rfl⟩

theorem SameGates.trans {a b c : Intr} (h : SameGates a b) (h' : SameGates b c) : SameGates a c :=
  ⟨h'.masterLevel.trans h.masterLevel, h'.slaveLevel.trans h.slaveLevel,
    h'.masterAsks.trans h.masterAsks, h'.slaveAsks.trans h.slaveAsks⟩

theorem SameGates.driveMaster {before after : Intr} (h : SameGates before after) :
    Wires.driveMaster after = Wires.driveMaster before := by
  funext wires level asserted
  rw [Wires.driveMaster, Wires.driveMaster, h.masterLevel]

theorem SameGates.driveSlave {before after : Intr} (h : SameGates before after) :
    Wires.driveSlave after = Wires.driveSlave before := by
  funext wires level asserted
  simp only [Wires.driveSlave, h.driveMaster, h.slaveLevel, h.slaveAsks]

variable {intr : Intr}

theorem sameGates_updateCascade (intr : Intr) : SameGates intr intr.updateCascade :=
  ⟨I8259.setRequest_levelTriggered .., rfl, I8259.asks_setRequest .., rfl⟩

theorem sameGates_setRequest (intr : Intr) (irq : Nat) (asserted : Bool) :
    SameGates intr (intr.setRequest irq asserted) := by
  have hslave : SameGates intr
      { intr with slave := (intr.slave.setRequest (irq - 8) asserted).2 } :=
    ⟨rfl, I8259.setRequest_levelTriggered .., rfl, I8259.asks_setRequest ..⟩
  rw [setRequest]
  split
  · exact .refl intr
  · split
    · split
      · exact .refl intr
      · exact ⟨I8259.setRequest_levelTriggered .., rfl, I8259.asks_setRequest .., rfl⟩
    · dsimp only
      split
      · exact hslave.trans (sameGates_updateCascade _)
      · exact hslave

theorem wires_updateCascade (intr : Intr) :
    intr.updateCascade.wires =
      Wires.driveMaster intr intr.wires cascadeLine (intr.slave.asks intr.slave.wire) := by
  rw [wires, updateCascade, Wires.driveMaster, Wires.mk.injEq, I8259.interruptPending_eq]
  exact ⟨funext fun b => I8259.wire_setRequest .., rfl⟩

theorem wires_setRequest_master (intr : Intr) {level : Fin 8} (h : level ≠ cascadeLine)
    (asserted : Bool) :
    (intr.setRequest level.val asserted).wires =
      Wires.driveMaster intr intr.wires level asserted := by
  have hlevel := level.isLt
  rw [setRequest, if_neg (by omega), if_pos hlevel, if_neg fun heq => h (Fin.ext heq), wires,
    Wires.driveMaster, Wires.mk.injEq]
  exact ⟨funext fun b => I8259.wire_setRequest .., rfl⟩

theorem wires_setRequest_slave (intr : Intr) (level : Fin 8) (asserted : Bool) :
    (intr.setRequest (8 + level.val) asserted).wires =
      Wires.driveSlave intr intr.wires level asserted := by
  have hlevel := level.isLt
  have hslave : (intr.slave.setRequest level.val asserted).2.wire = fun b =>
      if b = level then (intr.slave.wire level).drive intr.slave.levelTriggered asserted
      else intr.slave.wire b := funext fun b => I8259.wire_setRequest ..
  rw [setRequest, if_neg (by omega), if_neg (by omega), Nat.add_sub_cancel_left]
  dsimp only
  rw [I8259.setRequest_moved, Wires.driveSlave]
  by_cases hmoved : asserted = (intr.slave.wire level).pin
  · rw [if_neg (by rw [hmoved, bne_self_eq_false]; exact Bool.false_ne_true)]
    exact (if_pos hmoved).symm ▸ congrArg (Wires.mk intr.master.wire) hslave
  · rw [if_pos (bne_iff_ne.mpr hmoved), wires_updateCascade]
    refine Eq.trans ?_ (if_neg hmoved).symm
    rw [show (intr.slave.setRequest level.val asserted).2.asks = intr.slave.asks from
      I8259.asks_setRequest .., wires, hslave]
    rfl

theorem pending_eq (intr : Intr) : intr.pending = intr.master.asks intr.wires.master :=
  I8259.interruptPending_eq intr.master

end Intr

/-!
## Sampling the interrupt lines

`ap_board_sample_interrupts` of `src/core/board/ap_board.c` drives every device's line, and on the
way tells the board's registers whether the master asks. It tells them after the third of nine
lines, so what the registers report is the state that is delivered only if the six later lines
change nothing about it.
-/

/-- What the devices drive their lines with. -/
structure DeviceLines where
  timerIrq : Bool
  sioIrq : Bool
  sioDiagnosticInterrupt : Bool
  calendarIrq : Bool
  scsiFitted : Bool
  wd7000Irq : Bool
  tapeIrq : Bool
  omtiDiskIrq : Bool
  omtiFdcIrq : Bool
  ethernetPresent : Bool
  etherlinkIrq : Bool
  ringCtlIrq : Bool

/-- The line of the card in the tape's slot. -/
def DeviceLines.tapeSlot (lines : DeviceLines) : Bool :=
  if lines.scsiFitted then lines.wd7000Irq else lines.tapeIrq

/-- The line of the Ethernet slot; an empty slot drives nothing. -/
def DeviceLines.ethernetSlot (lines : DeviceLines) : Bool :=
  lines.ethernetPresent && lines.etherlinkIrq

/-- The part of `ap_board_t` that delivers interrupts: the controllers, the flag of
`ap_boardreg_set_interrupt_pending`, and the registers of the parity interrupt. -/
structure Delivery where
  interrupts : Intr
  interruptPending : Bool
  cpuStatus : BitVec 16
  cpuControl : BitVec 16

namespace Delivery

/-- The lines driven before the flag is taken. -/
def sampleEarly (intr : Intr) (lines : DeviceLines) : Intr :=
  ((intr.setRequest 0 lines.timerIrq).setRequest 1 lines.sioIrq).setRequest 13
    lines.sioDiagnosticInterrupt

/-- The lines driven after it. -/
def sampleLate (intr : Intr) (lines : DeviceLines) : Intr :=
  (((((intr.setRequest 8 lines.calendarIrq).setRequest 5 lines.tapeSlot).setRequest 14
    lines.omtiDiskIrq).setRequest 6 lines.omtiFdcIrq).setRequest 10
    lines.ethernetSlot).setRequest 2 lines.ringCtlIrq

/-- `ap_board_sample_interrupts`. -/
def sampleInterrupts (board : Delivery) (lines : DeviceLines) : Delivery :=
  let early := sampleEarly board.interrupts lines
  { board with interruptPending := early.pending, interrupts := sampleLate early lines }

/-- `ap_board_parity_interrupt`. -/
def parityInterrupt (board : Delivery) : Bool :=
  board.cpuStatus &&& 0x00F0#16 != 0 && board.cpuControl &&& 0x0001#16 != 0

/-- `ap_board_interrupt_level`. -/
def interruptLevel (board : Delivery) : Nat :=
  if board.parityInterrupt then 7 else if board.interrupts.pending then 6 else 0

/-- The flag the registers were given is what the controllers deliver. -/
structure FlagCurrent (board : Delivery) : Prop where
  pending : board.interruptPending = board.interrupts.pending
  level : board.parityInterrupt = false →
    (board.interruptPending = true ↔ board.interruptLevel = 6)

/-! ## When the later lines disturb nothing -/

/-- The latch of a line of the master once it is driven. -/
def driven (intr : Intr) (level : Fin 8) (asserted : Bool) : Bool :=
  asserted && (intr.master.levelTriggered || has intr.master.irr level ||
    !has intr.master.pins level)

/-- The cascade after the slave's lines are driven in turn, each of them that moves taking the
cascade to what the slave then asks. -/
def cascade (intr : Intr) : (Fin 8 → Wire) → Wire → List (Fin 8 × Bool) → Wire
  | _, wire, [] => wire
  | slave, wire, (level, asserted) :: rest =>
    let slave' := fun b => if b = level then
      (slave level).drive intr.slave.levelTriggered asserted else slave b
    let wire' := if asserted = (slave level).pin then wire
      else wire.drive intr.master.levelTriggered (intr.slave.asks slave')
    cascade intr slave' wire' rest

/-- The slave's lines in the order they are driven; the first of them before the flag is taken. -/
def slaveLines (lines : DeviceLines) : List (Fin 8 × Bool) :=
  [(5, lines.sioDiagnosticInterrupt), (0, lines.calendarIrq), (6, lines.omtiDiskIrq),
    (2, lines.ethernetSlot)]

/-- The master's latches when the flag is taken. -/
def latchedEarly (intr : Intr) (lines : DeviceLines) (level : Fin 8) : Bool :=
  if level = 0 then driven intr 0 lines.timerIrq
  else if level = 1 then driven intr 1 lines.sioIrq
  else if level = 3 then
    (cascade intr intr.slave.wire (intr.master.wire 3) ((slaveLines lines).take 1)).latch
  else has intr.master.irr level

/-- The master's latches after the sample. -/
def latchedLate (intr : Intr) (lines : DeviceLines) (level : Fin 8) : Bool :=
  if level = 2 then driven intr 2 lines.ringCtlIrq
  else if level = 5 then driven intr 5 lines.tapeSlot
  else if level = 6 then driven intr 6 lines.omtiFdcIrq
  else if level = 3 then
    (cascade intr intr.slave.wire (intr.master.wire 3) (slaveLines lines)).latch
  else latchedEarly intr lines level

/-- The lines of the master that a later device drives, directly or through the slave. -/
def laterLines : List (Fin 8) := [2, 3, 5, 6]

/-- One of these levels is latched and admitted. -/
def Asks (intr : Intr) (latched : Fin 8 → Bool) (levels : List (Fin 8)) : Prop :=
  ∃ level ∈ levels, latched level = true ∧ intr.master.admits level = true

/-- The later devices make no difference to whether the master asks: it asks for a line that none
of them drives, or it asks for one that they do before they drive it just when it does after. -/
def Undisturbed (intr : Intr) (lines : DeviceLines) : Prop :=
  Asks intr (latchedEarly intr lines) [0, 1, 4, 7] ∨
    (Asks intr (latchedEarly intr lines) laterLines ↔ Asks intr (latchedLate intr lines) laterLines)

theorem sameGates_sampleEarly (intr : Intr) (lines : DeviceLines) :
    Intr.SameGates intr (sampleEarly intr lines) :=
  ((Intr.sameGates_setRequest ..).trans (Intr.sameGates_setRequest ..)).trans
    (Intr.sameGates_setRequest ..)

theorem sameGates_sampleLate (intr : Intr) (lines : DeviceLines) :
    Intr.SameGates intr (sampleLate intr lines) :=
  (((((Intr.sameGates_setRequest ..).trans (Intr.sameGates_setRequest ..)).trans
    (Intr.sameGates_setRequest ..)).trans (Intr.sameGates_setRequest ..)).trans
    (Intr.sameGates_setRequest ..)).trans (Intr.sameGates_setRequest ..)

/-! ## What the sample does to the latches -/

section Lines

variable (intr : Intr) (wires : Intr.Wires) (level b : Fin 8) (asserted : Bool)
  (rest : List (Fin 8 × Bool))

@[simp] theorem driveMaster_slave :
    (Intr.Wires.driveMaster intr wires level asserted).slave = wires.slave := rfl

theorem driveMaster_of_ne (h : b ≠ level) :
    (Intr.Wires.driveMaster intr wires level asserted).master b = wires.master b := if_neg h

theorem driveSlave_of_ne (h : b ≠ cascadeLine) :
    (Intr.Wires.driveSlave intr wires level asserted).master b = wires.master b := by
  rw [Intr.Wires.driveSlave]
  split
  · rfl
  · exact if_neg h

theorem cascade_cons :
    cascade intr wires.slave (wires.master cascadeLine) ((level, asserted) :: rest) =
      cascade intr (Intr.Wires.driveSlave intr wires level asserted).slave
        ((Intr.Wires.driveSlave intr wires level asserted).master cascadeLine) rest := by
  rw [cascade, Intr.Wires.driveSlave]
  split
  · rfl
  · rw [driveMaster_slave]
    congr 1

end Lines

/-- The lines when the flag is taken. -/
def wiresEarly (intr : Intr) (lines : DeviceLines) : Intr.Wires :=
  Intr.Wires.driveSlave intr (Intr.Wires.driveMaster intr (Intr.Wires.driveMaster intr intr.wires
    0 lines.timerIrq) 1 lines.sioIrq) 5 lines.sioDiagnosticInterrupt

/-- The lines after the sample. -/
def wiresLate (intr : Intr) (lines : DeviceLines) : Intr.Wires :=
  Intr.Wires.driveMaster intr (Intr.Wires.driveSlave intr (Intr.Wires.driveMaster intr
    (Intr.Wires.driveSlave intr (Intr.Wires.driveMaster intr (Intr.Wires.driveSlave intr
      (wiresEarly intr lines) 0 lines.calendarIrq) 5 lines.tapeSlot) 6 lines.omtiDiskIrq)
    6 lines.omtiFdcIrq) 2 lines.ethernetSlot) 2 lines.ringCtlIrq

variable {intr : Intr} {lines : DeviceLines}

theorem wires_sampleEarly : (sampleEarly intr lines).wires = wiresEarly intr lines := by
  have htimer := Intr.sameGates_setRequest intr 0 lines.timerIrq
  have hsio := htimer.trans (Intr.sameGates_setRequest _ 1 lines.sioIrq)
  rw [sampleEarly, wiresEarly]
  rw [show 13 = 8 + (5 : Fin 8).val from rfl, Intr.wires_setRequest_slave, hsio.driveSlave,
    show 1 = (1 : Fin 8).val from rfl, Intr.wires_setRequest_master _ (by decide),
    htimer.driveMaster, show 0 = (0 : Fin 8).val from rfl,
    Intr.wires_setRequest_master _ (by decide)]

theorem wires_sampleLate {early : Intr} (hgates : Intr.SameGates intr early)
    (hearly : early.wires = wiresEarly intr lines) :
    (sampleLate early lines).wires = wiresLate intr lines := by
  have h8 := hgates.trans (Intr.sameGates_setRequest _ 8 lines.calendarIrq)
  have h5 := h8.trans (Intr.sameGates_setRequest _ 5 lines.tapeSlot)
  have h14 := h5.trans (Intr.sameGates_setRequest _ 14 lines.omtiDiskIrq)
  have h6 := h14.trans (Intr.sameGates_setRequest _ 6 lines.omtiFdcIrq)
  have h10 := h6.trans (Intr.sameGates_setRequest _ 10 lines.ethernetSlot)
  rw [sampleLate, wiresLate]
  refine (Intr.wires_setRequest_master _ (show (2 : Fin 8) ≠ cascadeLine by decide) _).trans ?_
  rw [h10.driveMaster]
  congr 1
  refine (Intr.wires_setRequest_slave _ 2 _).trans ?_
  rw [h6.driveSlave]
  congr 1
  refine (Intr.wires_setRequest_master _ (show (6 : Fin 8) ≠ cascadeLine by decide) _).trans ?_
  rw [h14.driveMaster]
  congr 1
  refine (Intr.wires_setRequest_slave _ 6 _).trans ?_
  rw [h5.driveSlave]
  congr 1
  refine (Intr.wires_setRequest_master _ (show (5 : Fin 8) ≠ cascadeLine by decide) _).trans ?_
  rw [h8.driveMaster]
  congr 1
  refine (Intr.wires_setRequest_slave _ 0 _).trans ?_
  rw [hgates.driveSlave, hearly]

theorem driveMaster_self (intr : Intr) (wires : Intr.Wires) (level : Fin 8) (asserted : Bool) :
    (Intr.Wires.driveMaster intr wires level asserted).master level =
      (wires.master level).drive intr.master.levelTriggered asserted := if_pos rfl

theorem wiresEarly_cascade : (wiresEarly intr lines).master cascadeLine =
    cascade intr intr.slave.wire (intr.master.wire 3) ((slaveLines lines).take 1) :=
  (cascade_cons intr (Intr.Wires.driveMaster intr (Intr.Wires.driveMaster intr intr.wires
    0 lines.timerIrq) 1 lines.sioIrq) 5 lines.sioDiagnosticInterrupt []).symm

theorem wiresLate_cascade : (wiresLate intr lines).master cascadeLine =
    cascade intr intr.slave.wire (intr.master.wire 3) (slaveLines lines) := by
  refine Eq.symm ((cascade_cons intr (Intr.Wires.driveMaster intr (Intr.Wires.driveMaster intr
    intr.wires 0 lines.timerIrq) 1 lines.sioIrq) 5 lines.sioDiagnosticInterrupt _).trans ?_)
  refine (cascade_cons intr (wiresEarly intr lines) 0 lines.calendarIrq _).trans ?_
  refine (cascade_cons intr (Intr.Wires.driveMaster intr _ 5 lines.tapeSlot) 6
    lines.omtiDiskIrq _).trans ?_
  exact cascade_cons intr (Intr.Wires.driveMaster intr _ 6 lines.omtiFdcIrq) 2
    lines.ethernetSlot []

theorem wiresEarly_latch (level : Fin 8) :
    ((wiresEarly intr lines).master level).latch = latchedEarly intr lines level := by
  rw [latchedEarly]
  by_cases h0 : level = 0
  · subst h0
    rw [if_pos rfl, wiresEarly, driveSlave_of_ne _ _ _ _ _ (by decide),
      driveMaster_of_ne _ _ _ _ _ (by decide), driveMaster_self]
    rfl
  by_cases h1 : level = 1
  · subst h1
    rw [if_neg h0, if_pos rfl, wiresEarly, driveSlave_of_ne _ _ _ _ _ (by decide),
      driveMaster_self, driveMaster_of_ne _ _ _ _ _ (by decide)]
    rfl
  by_cases h3 : level = 3
  · subst h3
    rw [if_neg h0, if_neg h1, if_pos rfl, ← wiresEarly_cascade]
    rfl
  rw [if_neg h0, if_neg h1, if_neg h3, wiresEarly, driveSlave_of_ne _ _ _ _ _ h3,
    driveMaster_of_ne _ _ _ _ _ h1, driveMaster_of_ne _ _ _ _ _ h0]
  rfl

theorem wiresLate_of_ne {level : Fin 8} (h2 : level ≠ 2) (h5 : level ≠ 5) (h6 : level ≠ 6)
    (h3 : level ≠ 3) : (wiresLate intr lines).master level = (wiresEarly intr lines).master level := by
  rw [wiresLate, driveMaster_of_ne _ _ _ _ _ h2, driveSlave_of_ne _ _ _ _ _ h3,
    driveMaster_of_ne _ _ _ _ _ h6, driveSlave_of_ne _ _ _ _ _ h3,
    driveMaster_of_ne _ _ _ _ _ h5, driveSlave_of_ne _ _ _ _ _ h3]

theorem wiresLate_latch (level : Fin 8) :
    ((wiresLate intr lines).master level).latch = latchedLate intr lines level := by
  have hearly : ∀ b : Fin 8, b = 2 ∨ b = 5 ∨ b = 6 →
      (wiresEarly intr lines).master b = intr.master.wire b := by
    rintro b (rfl | rfl | rfl) <;>
    rw [wiresEarly, driveSlave_of_ne _ _ _ _ _ (by decide),
      driveMaster_of_ne _ _ _ _ _ (by decide), driveMaster_of_ne _ _ _ _ _ (by decide)] <;> rfl
  rw [latchedLate]
  by_cases h2 : level = 2
  · subst h2
    rw [if_pos rfl, wiresLate, driveMaster_self, driveSlave_of_ne _ _ _ _ _ (by decide),
      driveMaster_of_ne _ _ _ _ _ (by decide), driveSlave_of_ne _ _ _ _ _ (by decide),
      driveMaster_of_ne _ _ _ _ _ (by decide), driveSlave_of_ne _ _ _ _ _ (by decide),
      hearly 2 (.inl rfl)]
    rfl
  by_cases h5 : level = 5
  · subst h5
    rw [if_neg h2, if_pos rfl, wiresLate, driveMaster_of_ne _ _ _ _ _ (by decide),
      driveSlave_of_ne _ _ _ _ _ (by decide), driveMaster_of_ne _ _ _ _ _ (by decide),
      driveSlave_of_ne _ _ _ _ _ (by decide), driveMaster_self,
      driveSlave_of_ne _ _ _ _ _ (by decide), hearly 5 (.inr (.inl rfl))]
    rfl
  by_cases h6 : level = 6
  · subst h6
    rw [if_neg h2, if_neg h5, if_pos rfl, wiresLate, driveMaster_of_ne _ _ _ _ _ (by decide),
      driveSlave_of_ne _ _ _ _ _ (by decide), driveMaster_self,
      driveSlave_of_ne _ _ _ _ _ (by decide), driveMaster_of_ne _ _ _ _ _ (by decide),
      driveSlave_of_ne _ _ _ _ _ (by decide), hearly 6 (.inr (.inr rfl))]
    rfl
  by_cases h3 : level = 3
  · subst h3
    rw [if_neg h2, if_neg h5, if_neg h6, if_pos rfl, ← wiresLate_cascade]
    rfl
  rw [if_neg h2, if_neg h5, if_neg h6, if_neg h3, wiresLate_of_ne h2 h5 h6 h3, wiresEarly_latch]

/-! ## The flag -/

theorem asks_split (latched : Fin 8 → Bool) :
    (∃ level, latched level = true ∧ intr.master.admits level = true) ↔
      Asks intr latched [0, 1, 4, 7] ∨ Asks intr latched laterLines := by
  have hmem : ∀ level : Fin 8, level ∈ [0, 1, 4, 7] ∨ level ∈ laterLines := by decide
  constructor
  · rintro ⟨level, hlevel⟩
    exact (hmem level).imp (fun h => ⟨level, h, hlevel⟩) fun h => ⟨level, h, hlevel⟩
  · rintro (⟨level, -, hlevel⟩ | ⟨level, -, hlevel⟩) <;> exact ⟨level, hlevel⟩

theorem pending_sampleEarly : (sampleEarly intr lines).pending = true ↔
    Asks intr (latchedEarly intr lines) [0, 1, 4, 7] ∨
      Asks intr (latchedEarly intr lines) laterLines := by
  rw [Intr.pending_eq, (sameGates_sampleEarly intr lines).masterAsks, wires_sampleEarly,
    I8259.asks_iff, ← asks_split]
  simp only [wiresEarly_latch]

theorem latchedLate_kept {level : Fin 8} (h : level ∈ [0, 1, 4, 7]) :
    latchedLate intr lines level = latchedEarly intr lines level := by
  have hne : level ≠ 2 ∧ level ≠ 5 ∧ level ≠ 6 ∧ level ≠ 3 := by
    revert level
    decide
  rw [latchedLate, if_neg hne.1, if_neg hne.2.1, if_neg hne.2.2.1, if_neg hne.2.2.2]

theorem pending_sampleLate : (sampleLate (sampleEarly intr lines) lines).pending = true ↔
    Asks intr (latchedEarly intr lines) [0, 1, 4, 7] ∨
      Asks intr (latchedLate intr lines) laterLines := by
  have hearly := sameGates_sampleEarly intr lines
  rw [Intr.pending_eq, (hearly.trans (sameGates_sampleLate _ lines)).masterAsks,
    wires_sampleLate hearly wires_sampleEarly, I8259.asks_iff]
  simp only [wiresLate_latch]
  rw [asks_split]
  refine or_congr_left (exists_congr fun level => and_congr_right fun hlevel => ?_)
  rw [latchedLate_kept hlevel]

/-- **THE FLAG**: after a sample the registers report the interrupt state that is delivered exactly
when the devices driven after the flag is taken make no difference to it. -/
theorem flagCurrent_iff (board : Delivery) (lines : DeviceLines) :
    FlagCurrent (board.sampleInterrupts lines) ↔ Undisturbed board.interrupts lines := by
  have hflag : (board.sampleInterrupts lines).interruptPending =
      (sampleEarly board.interrupts lines).pending := rfl
  have hpending : (board.sampleInterrupts lines).interrupts.pending =
      (sampleLate (sampleEarly board.interrupts lines) lines).pending := rfl
  have hsame : (board.sampleInterrupts lines).interruptPending =
      (board.sampleInterrupts lines).interrupts.pending ↔ Undisturbed board.interrupts lines := by
    rw [hflag, hpending, Bool.eq_iff_iff, pending_sampleEarly, pending_sampleLate, Undisturbed]
    tauto
  refine ⟨fun h => hsame.mp h.pending, fun h => ⟨hsame.mpr h, fun hparity => ?_⟩⟩
  rw [hsame.mpr h, interruptLevel, hparity, if_neg Bool.false_ne_true]
  cases (board.sampleInterrupts lines).interrupts.pending <;> decide

/-- The controllers as the firmware programs them, with nothing masked. -/
def programmed : Intr :=
  [(0x011000, 0x11), (0x011001, 0xA0), (0x011001, 0x08), (0x011001, 0x01), (0x011100, 0x11),
    (0x011101, 0xA8), (0x011101, 0x03), (0x011101, 0x01)].foldl
    (fun intr (address, value) => intr.write address value) Intr.reset

/-- When the floppy's is the one line that comes up, the registers report no interrupt and the
controllers deliver one. -/
theorem not_flagCurrent : ¬FlagCurrent (sampleInterrupts ⟨programmed, false, 0, 0⟩
    ⟨false, false, false, false, false, false, false, false, true, false, false, false⟩) := by
  intro h
  exact absurd h.pending (by decide)

end Delivery

end Apollo.Board
