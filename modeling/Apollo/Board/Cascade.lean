import Mathlib
import Apollo.Device.Requests
import Apollo.Board.Intr

/-!
# The cascade

Runs of the pair of interrupt controllers from reset. The board keeps the master's cascade input at
the slave's output, but for a slave line that is driven up again where it was up already: with the
slave level triggered and its latch cleared by a new start, that makes the slave ask and does not
move the line, so the board does not look (`slips`).

The board looks at the output when both cycles of an acknowledge are over. A slave that asks again
by then has kept its output up, and an edge-triggered master, which took its request at the first
cycle, sees no new edge. So the request is lost to the master unless WHAT TAKES THE CASCADE LETS ITS
INPUT DOWN (`TakesHeard`), or unless WHAT ENDS ITS SERVICE FINDS THE INPUT DOWN OR LATCHED AGAIN
(`EndsHeard`). Along a run whose every step keeps one of the two, the master attends to the cascade
whenever the slave asks.
-/

namespace Apollo.Board.Intr

open Device

/-- The entry points of the pair. -/
inductive Operation
  | read (address : BitVec 32)
  | write (address : BitVec 32) (value : BitVec 8)
  | setRequest (irq : Nat) (asserted : Bool)
  | acknowledge

/-- The pair after an operation. -/
def Operation.run (intr : Intr) : Operation → Intr
  | .read address => (intr.read address).2
  | .write address value => intr.write address value
  | .setRequest irq asserted => intr.setRequest irq asserted
  | .acknowledge => intr.acknowledge.2

/-! ## What each part sees -/

/-- An acknowledge, as the operations of one part. -/
def acknowledgeCycles : List I8259.Operation := [.acknowledgeFirst, .acknowledgeSecond]

/-- What the slave sees of an operation. -/
def slaveOperations (intr : Intr) : Operation → List I8259.Operation
  | .read address =>
    match decode address with
    | some (true, a0) => [.read a0]
    | _ => []
  | .write address value =>
    match decode address with
    | some (true, a0) => [.write a0 value]
    | _ => []
  | .setRequest irq asserted => if 8 ≤ irq ∧ irq < 16 then [.setRequest (irq - 8) asserted] else []
  | .acknowledge =>
    if intr.master.acknowledgeFirst.1 = cascadeLine then acknowledgeCycles else []

/-- Whether the board looks at the slave's output after an operation. -/
def refreshes (intr : Intr) : Operation → Bool
  | .read address => (decode address).any (·.1)
  | .write address _ => (decode address).any (·.1)
  | .setRequest irq asserted =>
    8 ≤ irq && irq < 16 && (intr.slave.setRequest (irq - 8) asserted).1
  | .acknowledge => intr.master.acknowledgeFirst.1 = cascadeLine

/-- What the master sees of an operation before its cascade input is driven. -/
def masterOwnOperations : Operation → List I8259.Operation
  | .read address =>
    match decode address with
    | some (false, a0) => [.read a0]
    | _ => []
  | .write address value =>
    match decode address with
    | some (false, a0) => [.write a0 value]
    | _ => []
  | .setRequest irq asserted =>
    if irq < 8 ∧ irq ≠ cascadeLine.val then [.setRequest irq asserted] else []
  | .acknowledge => acknowledgeCycles

/-- What the master sees of an operation. -/
def masterOperations (intr : Intr) (operation : Operation) : List I8259.Operation :=
  masterOwnOperations operation ++
    if intr.refreshes operation then
      [.setRequest cascadeLine.val (intr.slave.runs (intr.slaveOperations operation)).interruptPending]
    else []

/-- EACH PART SEES ITS OWN OPERATIONS. -/
theorem run_eq (intr : Intr) (operation : Operation) :
    operation.run intr = ⟨intr.master.runs (intr.masterOperations operation),
      intr.slave.runs (intr.slaveOperations operation)⟩ := by
  cases operation with
  | read address =>
    cases hdecode : decode address with
    | none =>
      simp [Operation.run, Intr.read, masterOperations, masterOwnOperations, slaveOperations, refreshes,
        hdecode, I8259.runs]
    | some found =>
      obtain ⟨isSlave, a0⟩ := found
      cases isSlave <;>
        simp [Operation.run, Intr.read, masterOperations, masterOwnOperations, slaveOperations,
          refreshes, hdecode, I8259.runs, I8259.Operation.run, updateCascade]
  | write address value =>
    cases hdecode : decode address with
    | none =>
      simp [Operation.run, Intr.write, masterOperations, masterOwnOperations, slaveOperations, refreshes,
        hdecode, I8259.runs]
    | some found =>
      obtain ⟨isSlave, a0⟩ := found
      cases isSlave <;>
        simp [Operation.run, Intr.write, masterOperations, masterOwnOperations, slaveOperations,
          refreshes, hdecode, I8259.runs, I8259.Operation.run, updateCascade]
  | setRequest irq asserted =>
    unfold Operation.run Intr.setRequest masterOperations masterOwnOperations slaveOperations refreshes
    by_cases hbeyond : 16 ≤ irq
    · simp [hbeyond, I8259.runs, Nat.not_lt.mpr hbeyond, show ¬ irq < 8 by omega]
    · by_cases hmaster : irq < 8
      · by_cases hcascade : irq = cascadeLine.val
        · simp [hcascade, cascadeLine, I8259.runs]
        · simp [hbeyond, hmaster, hcascade, I8259.runs, I8259.Operation.run, show ¬ 8 ≤ irq by omega]
      · have hslave : 8 ≤ irq ∧ irq < 16 := by omega
        cases hmoved : (intr.slave.setRequest (irq - 8) asserted).1 <;>
          simp [hbeyond, hmaster, hslave, hmoved, I8259.runs, I8259.Operation.run, updateCascade]
  | acknowledge =>
    unfold Operation.run Intr.acknowledge masterOperations masterOwnOperations slaveOperations refreshes
    by_cases hcascade : intr.master.acknowledgeFirst.1 = cascadeLine
    · simp [hcascade, I8259.runs, acknowledgeCycles, I8259.Operation.run, updateCascade]
    · simp [hcascade, I8259.runs, acknowledgeCycles, I8259.Operation.run]

/-! ## The record of a run -/

/-- A slave line that is driven up where it was up, its latch clear in level mode: the slave asks
anew and no line has moved. -/
def slips (intr : Intr) : Operation → Bool
  | .setRequest irq asserted =>
    if h : 8 ≤ irq ∧ irq < 16 then
      let wire := intr.slave.wire ⟨irq - 8, by omega⟩
      asserted && intr.slave.levelTriggered && wire.pin && !wire.latch
    else false
  | _ => false

/-- How often the lines of each part have risen, and its levels been taken. -/
structure Record where
  master : I8259.Ledger
  slave : I8259.Ledger

/-- The record at reset. -/
def Record.empty : Record := ⟨.empty, .empty⟩

/-- What an operation enters in the record. -/
def Record.enter (record : Record) (intr : Intr) (operation : Operation) : Record where
  master := record.master.enterAll intr.master (intr.masterOperations operation)
  slave := record.slave.enterAll intr.slave (intr.slaveOperations operation)

/-- What several operations enter in the record. -/
def Record.enterAll (record : Record) (intr : Intr) : List Operation → Record
  | [] => record
  | operation :: rest => (record.enter intr operation).enterAll (operation.run intr) rest

/-- The pair after some operations. -/
def runs (intr : Intr) (operations : List Operation) : Intr := operations.foldl Operation.run intr

/-! ## Conditions on a step -/

/-- No line slips, and the master is not started over while its cascade input is up. -/
def Steady (intr : Intr) (operation : Operation) : Prop :=
  intr.slips operation = false ∧
    ∀ own ∈ masterOwnOperations operation, own.starts = true →
      has intr.master.pins cascadeLine = false

/-- What takes the cascade from an edge-triggered master is an acknowledge that leaves the slave
silent, and not a poll. -/
def TakesHeard (intr : Intr) : Operation → Prop
  | .acknowledge => intr.master.resolve = some cascadeLine →
      intr.master.levelTriggered = true ∨ intr.slave.Lowers
  | operation => ∀ own ∈ masterOwnOperations operation,
      intr.master.taken own = some cascadeLine → intr.master.levelTriggered = true

/-- What ends the service of the cascade finds its input down, or latched again. -/
def EndsHeard (intr : Intr) : Operation → Prop
  | .acknowledge => intr.master.autoEoi = true →
      if intr.master.resolve = some cascadeLine then
        intr.master.levelTriggered = true ∨ intr.slave.Lowers
      else has intr.master.isr cascadeLine = true → intr.master.Heard cascadeLine
  | operation => ∀ own ∈ masterOwnOperations operation,
      intr.master.ends cascadeLine own = true → intr.master.Heard cascadeLine

/-- A run whose every step is steady, and in which every taking of the cascade is heard, or every
end of its service. -/
def Careful (operations : List Operation) : Prop :=
  Lib.EachStep Operation.run (fun intr operation => intr.Steady operation ∧ intr.TakesHeard operation)
      reset operations ∨
    Lib.EachStep Operation.run (fun intr operation => intr.Steady operation ∧ intr.EndsHeard operation)
      reset operations

/-- No step makes a level-triggered part take a request again. -/
def Punctual (intr : Intr) (operation : Operation) : Prop :=
  Lib.EachStep I8259.Operation.run I8259.Punctual intr.master (intr.masterOperations operation) ∧
    Lib.EachStep I8259.Operation.run I8259.Punctual intr.slave (intr.slaveOperations operation)

instance (intr : Intr) (operation : Operation) : Decidable (intr.Steady operation) :=
  inferInstanceAs (Decidable (_ ∧ _))

instance (intr : Intr) : (operation : Operation) → Decidable (intr.TakesHeard operation)
  | .acknowledge => inferInstanceAs (Decidable (_ → _))
  | .read _ => inferInstanceAs (Decidable (∀ own ∈ _, _))
  | .write _ _ => inferInstanceAs (Decidable (∀ own ∈ _, _))
  | .setRequest _ _ => inferInstanceAs (Decidable (∀ own ∈ _, _))

instance (intr : Intr) (operation : Operation) : Decidable (intr.Punctual operation) :=
  inferInstanceAs (Decidable (_ ∧ _))

/-- What ties the two parts together in every state of a careful run. -/
structure Tied (intr : Intr) : Prop where
  masterLatched : intr.master.Latched
  slaveLatched : intr.slave.Latched
  output : has intr.master.pins cascadeLine = intr.slave.interruptPending

theorem tied_reset : Tied reset where
  masterLatched := I8259.latched_run I8259.latched_init (.setRequest 3 false)
  slaveLatched := I8259.latched_init
  output := by decide

variable {intr : Intr}

theorem cascade_not_own (operation : Operation) (asserted : Bool) :
    .setRequest cascadeLine.val asserted ∉ masterOwnOperations operation := by
  unfold masterOwnOperations
  intro hmem
  cases operation with
  | read address =>
    dsimp only at hmem
    split at hmem <;> simp at hmem
  | write address value =>
    dsimp only at hmem
    split at hmem <;> simp at hmem
  | setRequest irq raised =>
    dsimp only at hmem
    split at hmem
    · rename_i hirq
      have heq := List.mem_singleton.mp hmem
      injection heq with hline
      exact hirq.2 hline.symm
    · simp at hmem
  | acknowledge => simp [acknowledgeCycles] at hmem

theorem interruptPending_of_unmoved (hlatched : intr.slave.Latched) {level : Fin 8} {asserted : Bool}
    (hmoved : (intr.slave.setRequest level.val asserted).1 = false)
    (hslips : (asserted && intr.slave.levelTriggered && (intr.slave.wire level).pin &&
      !(intr.slave.wire level).latch) = false) :
    (intr.slave.setRequest level.val asserted).2.interruptPending = intr.slave.interruptPending := by
  have hpin : asserted = (intr.slave.wire level).pin := by
    rw [I8259.setRequest_moved] at hmoved
    exact bne_eq_false_iff_eq.mp hmoved
  have hup : (intr.slave.wire level).latch = true → (intr.slave.wire level).pin = true :=
    hlatched level
  have hsame : (intr.slave.wire level).drive intr.slave.levelTriggered asserted =
      intr.slave.wire level := by
    unfold Wire.drive
    rw [hpin] at hslips ⊢
    cases hwire : intr.slave.wire level with
    | mk pin latch =>
      rw [hwire] at hslips hup
      revert hslips hup
      cases pin <;> cases latch <;> cases intr.slave.levelTriggered <;> simp
  rw [I8259.interruptPending_eq, I8259.interruptPending_eq, I8259.asks_setRequest]
  congr 1
  funext b
  rw [I8259.wire_setRequest, hsame]
  split
  · rename_i hb
    rw [hb]
  · rfl

theorem interruptPending_of_not_refreshes (hlatched : intr.slave.Latched) {operation : Operation}
    (hrefreshes : intr.refreshes operation = false) (hslips : intr.slips operation = false) :
    (intr.slave.runs (intr.slaveOperations operation)).interruptPending =
      intr.slave.interruptPending := by
  cases operation with
  | read address =>
    unfold refreshes at hrefreshes
    cases hdecode : decode address with
    | none => simp [slaveOperations, hdecode, I8259.runs]
    | some found =>
      obtain ⟨isSlave, a0⟩ := found
      obtain rfl : isSlave = false := by simpa [hdecode] using hrefreshes
      simp [slaveOperations, hdecode, I8259.runs]
  | write address value =>
    unfold refreshes at hrefreshes
    cases hdecode : decode address with
    | none => simp [slaveOperations, hdecode, I8259.runs]
    | some found =>
      obtain ⟨isSlave, a0⟩ := found
      obtain rfl : isSlave = false := by simpa [hdecode] using hrefreshes
      simp [slaveOperations, hdecode, I8259.runs]
  | setRequest irq asserted =>
    by_cases hirq : 8 ≤ irq ∧ irq < 16
    · have hmoved : (intr.slave.setRequest (irq - 8) asserted).1 = false := by
        simpa [refreshes, hirq] using hrefreshes
      rw [slips, dif_pos hirq] at hslips
      have hslave : intr.slaveOperations (.setRequest irq asserted) =
          [.setRequest (irq - 8) asserted] := if_pos hirq
      rw [hslave]
      exact @interruptPending_of_unmoved intr hlatched ⟨irq - 8, by omega⟩ asserted hmoved hslips
    · have hslave : intr.slaveOperations (.setRequest irq asserted) = [] := if_neg hirq
      rw [hslave]
      rfl
  | acknowledge =>
    have hother : ¬ intr.master.acknowledgeFirst.1 = cascadeLine := of_decide_eq_false hrefreshes
    have hslave : intr.slaveOperations .acknowledge = [] := if_neg hother
    rw [hslave]
    rfl

/-- An operation that slips nowhere keeps the cascade input at the slave's output. -/
theorem Tied.run (h : Tied intr) {operation : Operation} (hslips : intr.slips operation = false) :
    Tied (operation.run intr) := by
  rw [run_eq]
  refine ⟨I8259.latched_runs h.masterLatched _, I8259.latched_runs h.slaveLatched _, ?_⟩
  dsimp only
  rw [masterOperations]
  cases hrefreshes : intr.refreshes operation with
  | true =>
    rw [if_pos rfl, I8259.runs, List.foldl_append]
    exact congrArg Wire.pin ((I8259.wire_setRequest _ cascadeLine cascadeLine _).trans (if_pos rfl))
  | false =>
    rw [if_neg Bool.false_ne_true, List.append_nil, I8259.pins_runs (cascade_not_own operation),
      interruptPending_of_not_refreshes h.slaveLatched hrefreshes hslips]
    exact h.output

/-! ## The master hears the cascade -/

theorem acknowledgeFirst_cascade {master : I8259} :
    master.acknowledgeFirst.1 = cascadeLine ↔ master.resolve = some cascadeLine := by
  rw [I8259.acknowledgeFirst]
  cases master.resolve with
  | none => exact ⟨fun h => absurd h (by decide : (7 : Fin 8) ≠ 3), fun h => by cases h⟩
  | some level => exact ⟨congrArg some, Option.some.inj⟩

/-- The master after an operation: what it sees of it, and then its cascade input. -/
theorem run_master (intr : Intr) (operation : Operation) :
    (operation.run intr).master =
      if intr.refreshes operation then
        ((intr.master.runs (masterOwnOperations operation)).setRequest cascadeLine.val
          (intr.slave.runs (intr.slaveOperations operation)).interruptPending).2
      else intr.master.runs (masterOwnOperations operation) := by
  rw [run_eq]
  dsimp only
  rw [masterOperations]
  cases intr.refreshes operation with
  | true =>
    rw [if_pos rfl, if_pos rfl, I8259.runs, List.foldl_append]
    rfl
  | false => rw [if_neg Bool.false_ne_true, if_neg Bool.false_ne_true, List.append_nil]

theorem heard_of_own {operation : Operation}
    (h : (intr.master.runs (masterOwnOperations operation)).Heard cascadeLine) :
    (operation.run intr).master.Heard cascadeLine := by
  rw [run_master]
  split
  · exact I8259.heard_run h (.setRequest _ _)
      (fun hstarts => absurd hstarts Bool.false_ne_true) fun htaken => by cases htaken
  · exact h

theorem attended_of_own {operation : Operation}
    (h : (intr.master.runs (masterOwnOperations operation)).Attended cascadeLine) :
    (operation.run intr).master.Attended cascadeLine := by
  rw [run_master]
  split
  · exact I8259.attended_run h (.setRequest _ _)
      (fun hstarts => absurd hstarts Bool.false_ne_true) fun hends => absurd hends Bool.false_ne_true
  · exact h

/-- An acknowledge of the cascade that leaves the slave silent lets the input down. -/
theorem cascade_let_down (hresolve : intr.master.resolve = some cascadeLine)
    (hlowers : intr.slave.Lowers) :
    has (Operation.run intr .acknowledge).master.pins cascadeLine = false := by
  have hfirst := acknowledgeFirst_cascade.mpr hresolve
  have hslave : intr.slaveOperations .acknowledge = acknowledgeCycles := if_pos hfirst
  have hrefreshes : intr.refreshes .acknowledge = true := decide_eq_true hfirst
  rw [run_master, if_pos hrefreshes, hslave]
  refine (congrArg Wire.pin (I8259.wire_setRequest _ cascadeLine cascadeLine _)).trans ?_
  rw [if_pos rfl]
  exact hlowers.not_pending

/-- What an operation other than an acknowledge is to the master. -/
theorem own_cases {operation : Operation} (h : operation ≠ .acknowledge) :
    masterOwnOperations operation = [] ∨ ∃ own, masterOwnOperations operation = [own] := by
  unfold masterOwnOperations
  cases operation with
  | read address =>
    dsimp only
    split
    · exact .inr ⟨_, rfl⟩
    · exact .inl rfl
  | write address value =>
    dsimp only
    split
    · exact .inr ⟨_, rfl⟩
    · exact .inl rfl
  | setRequest irq asserted =>
    dsimp only
    split
    · exact .inr ⟨_, rfl⟩
    · exact .inl rfl
  | acknowledge => exact absurd rfl h

theorem heard_acknowledge (h : intr.master.Heard cascadeLine)
    (htakes : intr.TakesHeard .acknowledge) :
    (Operation.run intr .acknowledge).master.Heard cascadeLine := by
  have hown (htake : intr.master.resolve = some cascadeLine → intr.master.levelTriggered = true) :
      (Operation.run intr .acknowledge).master.Heard cascadeLine := by
    refine heard_of_own ?_
    have hfirst := I8259.heard_run h .acknowledgeFirst
      (fun hstarts => absurd hstarts Bool.false_ne_true) htake
    exact I8259.heard_run hfirst .acknowledgeSecond
      (fun hstarts => absurd hstarts Bool.false_ne_true) fun htaken => by cases htaken
  by_cases hresolve : intr.master.resolve = some cascadeLine
  · obtain hlevel | hlowers := htakes hresolve
    · exact hown fun _ => hlevel
    · exact fun hup => absurd ((cascade_let_down hresolve hlowers).symm.trans hup) Bool.false_ne_true
  · exact hown fun hcascade => absurd hcascade hresolve

/-- A STEP THAT TAKES THE CASCADE HEARD LEAVES IT HEARD. -/
theorem heard_step (h : intr.master.Heard cascadeLine) {operation : Operation}
    (hsteady : intr.Steady operation) (htakes : intr.TakesHeard operation) :
    (operation.run intr).master.Heard cascadeLine := by
  by_cases hop : operation = .acknowledge
  · subst hop
    exact heard_acknowledge h htakes
  · refine heard_of_own ?_
    have htakes : ∀ own ∈ masterOwnOperations operation,
        intr.master.taken own = some cascadeLine → intr.master.levelTriggered = true := by
      cases operation with
      | acknowledge => exact absurd rfl hop
      | _ => exact htakes
    obtain hnone | ⟨own, hown⟩ := own_cases hop
    · rw [hnone]
      exact h
    · have hmem : own ∈ masterOwnOperations operation := hown ▸ List.mem_singleton.mpr rfl
      rw [hown]
      exact I8259.heard_run h own (hsteady.2 own hmem) (htakes own hmem)

theorem attended_acknowledge (h : intr.master.Attended cascadeLine)
    (hends : intr.EndsHeard .acknowledge) :
    (Operation.run intr .acknowledge).master.Attended cascadeLine := by
  have hfirst : intr.master.acknowledgeFirst.2.Attended cascadeLine :=
    I8259.attended_run h .acknowledgeFirst
      (fun hstarts => absurd hstarts Bool.false_ne_true) fun hends => absurd hends Bool.false_ne_true
  have hown (hheard : intr.master.acknowledgeFirst.2.ends cascadeLine .acknowledgeSecond = true →
      intr.master.acknowledgeFirst.2.Heard cascadeLine) :
      (Operation.run intr .acknowledge).master.Attended cascadeLine :=
    attended_of_own (I8259.attended_run hfirst .acknowledgeSecond
      (fun hstarts => absurd hstarts Bool.false_ne_true) hheard)
  cases hauto : intr.master.autoEoi with
  | false =>
    refine hown fun hended => ?_
    rw [I8259.ends, I8259.acknowledgeFirst_autoEoi, hauto] at hended
    exact absurd hended Bool.false_ne_true
  | true =>
    have hends := hends hauto
    by_cases hresolve : intr.master.resolve = some cascadeLine
    · rw [if_pos hresolve] at hends
      obtain hlevel | hlowers := hends
      · exact hown fun _ => I8259.heard_acknowledgeFirst hlevel hresolve cascadeLine
      · exact fun hup =>
          absurd ((cascade_let_down hresolve hlowers).symm.trans hup) Bool.false_ne_true
    · rw [if_neg hresolve] at hends
      refine hown fun hended => ?_
      have hhighest := beq_iff_eq.mp (Bool.and_eq_true_iff.mp hended).2
      have hservice := (I8259.acknowledgeFirst_isr (I8259.isr_of_highestInService hhighest)).resolve_right
        hresolve
      exact I8259.heard_run (hends hservice) .acknowledgeFirst
        (fun hstarts => absurd hstarts Bool.false_ne_true) fun htaken => absurd htaken hresolve

/-- A STEP THAT ENDS THE CASCADE HEARD LEAVES IT ATTENDED TO. -/
theorem attended_step (h : intr.master.Attended cascadeLine) {operation : Operation}
    (hsteady : intr.Steady operation) (hends : intr.EndsHeard operation) :
    (operation.run intr).master.Attended cascadeLine := by
  by_cases hop : operation = .acknowledge
  · subst hop
    exact attended_acknowledge h hends
  · refine attended_of_own ?_
    have hends : ∀ own ∈ masterOwnOperations operation,
        intr.master.ends cascadeLine own = true → intr.master.Heard cascadeLine := by
      cases operation with
      | acknowledge => exact absurd rfl hop
      | _ => exact hends
    obtain hnone | ⟨own, hown⟩ := own_cases hop
    · rw [hnone]
      exact h
    · have hmem : own ∈ masterOwnOperations operation := hown ▸ List.mem_singleton.mpr rfl
      rw [hown]
      exact I8259.attended_run h own (hsteady.2 own hmem) (hends own hmem)

/-- IN EVERY CAREFUL RUN THE CASCADE INPUT IS THE SLAVE'S OUTPUT, AND THE MASTER ATTENDS TO IT. -/
theorem Careful.tied {operations : List Operation} (h : Careful operations) :
    Tied (reset.runs operations) ∧ (reset.runs operations).master.Attended cascadeLine := by
  have hreset : reset.master.Heard cascadeLine := by decide
  obtain htakes | hends := h
  · have hrun := htakes.invariant (fun intr => Tied intr ∧ intr.master.Heard cascadeLine)
      ⟨tied_reset, hreset⟩ fun intr operation hintr hstep =>
        ⟨hintr.1.run hstep.1.1, heard_step hintr.2 hstep.1 hstep.2⟩
    exact ⟨hrun.1, hrun.2.attended⟩
  · exact hends.invariant (fun intr => Tied intr ∧ intr.master.Attended cascadeLine)
      ⟨tied_reset, hreset.attended⟩ fun intr operation hintr hstep =>
        ⟨hintr.1.run hstep.1.1, attended_step hintr.2 hstep.1 hstep.2⟩

/-! ## The accounts of the parts -/

/-- The accounts of both parts. -/
structure Accounted (intr : Intr) (record : Record) : Prop where
  master : intr.master.Accounted record.master
  slave : intr.slave.Accounted record.slave

theorem accounted_reset : reset.Accounted .empty where
  master level := by revert level; decide
  slave := I8259.accounted_init

theorem Accounted.run {record : Record} (h : intr.Accounted record) {operation : Operation}
    (hpunctual : intr.Punctual operation) :
    (operation.run intr).Accounted (record.enter intr operation) := by
  rw [run_eq]
  exact ⟨I8259.accounted_runs h.master hpunctual.1, I8259.accounted_runs h.slave hpunctual.2⟩

/-- A PUNCTUAL RUN KEEPS THE ACCOUNTS. -/
theorem Accounted.runs {record : Record} {operations : List Operation} (h : intr.Accounted record)
    (hpunctual : Lib.EachStep Operation.run Punctual intr operations) :
    (intr.runs operations).Accounted (record.enterAll intr operations) := by
  induction operations generalizing intr record with
  | nil => exact h
  | cons operation rest ih => exact ih (h.run hpunctual.1) hpunctual.2

end Apollo.Board.Intr
