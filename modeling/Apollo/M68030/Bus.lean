import Apollo.Lib.Sizes
import Mathlib

/-!
# The bus cycle of the MC68030

`src/core/cpu/m68030/ap_m68030_bus.c`: one `tick` is one clock, which is two of the states
that the manual names. A cycle that asks for a burst, and is granted it, stays open for four
long words.
-/

namespace Apollo.M68030

/-- `ap_m68030_bus_state_t`. -/
inductive BusState
  | idle
  | s0
  | s1
  | s2
  | s3
  | s4
  | s5
deriving DecidableEq

/-- `ap_m68030_size_t`. -/
inductive Size
  | byte
  | word
  | long
  | three
deriving DecidableEq

/-- `ap_m68030_term_t`. -/
inductive Term
  | none
  | dsack
  | sterm
  | berr
deriving DecidableEq

/-- `AP_M68030_BURST_BEATS`. -/
abbrev burstBeatsMax : Nat := 4

/-- `ap_m68030_bus_t`. -/
structure Bus where
  address : BitVec 32 := 0
  functionCode : BitVec 8 := 0
  size : Size := .byte
  read : Bool := false
  state : BusState := .idle
  termination : Term := .none
  clocks : BitVec 32 := 0
  waitStates : BitVec 32 := 0
  active : Bool := false
  complete : Bool := false
  advancingToS4 : Bool := false
  cbreq : Bool := false
  cback : Bool := false
  bursting : Bool := false
  burstBeats : Nat := 0
  rmc : Bool := false
  ecs : Bool := false
  ocs : Bool := false
  as : Bool := false
  ds : Bool := false
  dben : Bool := false
deriving DecidableEq

namespace Bus

/-- `apply_signals`. -/
def applySignals (bus : Bus) : Bus :=
  match bus.state with
  | .idle => { bus with ecs := false, ocs := false, as := false, ds := false, dben := false }
  | .s0 => { bus with ecs := true, as := false, ds := false, dben := false }
  | .s1 =>
    { bus with ecs := false, ocs := false, as := true, ds := bus.read, dben := !bus.read }
  | .s2 => { bus with as := true, ds := bus.read, dben := true }
  | .s3 | .s4 => { bus with as := true, ds := true, dben := true }
  | .s5 => { bus with as := false, ds := false, dben := !bus.read }

/-- The bus goes on to a state, and drives that state's signals. -/
def enter (bus : Bus) (state : BusState) : Bus := { bus with state }.applySignals

/-- `ap_m68030_bus_begin`. -/
def begin (bus : Bus) (address : BitVec 32) (functionCode : BitVec 8) (size : Size) (read : Bool)
    (firstOperand : Bool) : Bus :=
  { bus with
    address
    functionCode
    size
    read
    state := .idle
    termination := .none
    clocks := 0
    waitStates := 0
    active := true
    complete := false
    advancingToS4 := false
    cbreq := false
    cback := false
    bursting := false
    burstBeats := 0
    ocs := firstOperand
    ecs := false
    as := false
    ds := false
    dben := false }

/-- `ap_m68030_bus_request_burst`. -/
def requestBurst (bus : Bus) : Bus := if bus.rmc then bus else { bus with cbreq := true }

/-- `ap_m68030_bus_acknowledge_burst`. -/
def acknowledgeBurst (bus : Bus) (acknowledged : Bool) : Bus := { bus with cback := acknowledged }

/-- `ap_m68030_bus_terminate`. -/
def terminate (bus : Bus) (term : Term) : Bus :=
  if bus.active then { bus with termination := term } else bus

/-- The end of a cycle. -/
def finish (bus : Bus) : Bus :=
  let bus := bus.enter .s5
  { bus with active := false, complete := true }

/-- A clock of a burst that is under way. -/
def tickBurst (bus : Bus) : Bool × Bus :=
  if bus.termination = .berr then (true, { bus.finish with bursting := false })
  else if bus.termination ≠ .sterm then (false, { bus with waitStates := bus.waitStates + 1 })
  else
    let bus := { bus with burstBeats := bus.burstBeats + 1 }
    let bus := if burstBeatsMax ≤ bus.burstBeats + 1 then { bus with cbreq := false } else bus
    if burstBeatsMax ≤ bus.burstBeats then (true, { bus.finish with bursting := false })
    else (false, bus)

/-- The second clock of a cycle, and every wait clock after it. -/
def tickSample (bus : Bus) : Bool × Bus :=
  let bus := bus.enter .s2
  if bus.termination = .none then
    (false, { bus with waitStates := bus.waitStates + 1 }.enter .s3)
  else
    let bus := bus.enter .s3
    if bus.termination = .sterm && bus.cbreq && bus.cback then
      (false, { bus with burstBeats := 1, bursting := true })
    else if bus.termination = .sterm ∨ bus.termination = .berr then (true, bus.finish)
    else (false, { bus with advancingToS4 := true })

/-- `ap_m68030_bus_tick`. -/
def tick (bus : Bus) : Bool × Bus :=
  if !bus.active then (false, bus)
  else
    let bus := { bus with clocks := bus.clocks + 1 }
    if bus.state = .idle then (false, (bus.enter .s0).enter .s1)
    else if bus.advancingToS4 then (true, (bus.enter .s4).finish)
    else if bus.bursting then bus.tickBurst
    else bus.tickSample

/-! ## What driving the signals leaves alone -/

section Enter

variable (bus : Bus) (state : BusState)

@[simp] theorem enter_state : (bus.enter state).state = state := by cases state <;> rfl

@[simp] theorem enter_active : (bus.enter state).active = bus.active := by
  cases state <;> rfl

@[simp] theorem enter_advancingToS4 : (bus.enter state).advancingToS4 = bus.advancingToS4 := by
  cases state <;> rfl

@[simp] theorem enter_bursting : (bus.enter state).bursting = bus.bursting := by
  cases state <;> rfl

@[simp] theorem enter_burstBeats : (bus.enter state).burstBeats = bus.burstBeats := by
  cases state <;> rfl

@[simp] theorem enter_cbreq : (bus.enter state).cbreq = bus.cbreq := by
  cases state <;> rfl

@[simp] theorem enter_cback : (bus.enter state).cback = bus.cback := by
  cases state <;> rfl

@[simp] theorem enter_waitStates : (bus.enter state).waitStates = bus.waitStates := by
  cases state <;> rfl

@[simp] theorem enter_termination : (bus.enter state).termination = bus.termination := by
  cases state <;> rfl

@[simp] theorem finish_active : bus.finish.active = false := rfl

@[simp] theorem finish_bursting : bus.finish.bursting = bus.bursting := rfl

@[simp] theorem finish_cbreq : bus.finish.cbreq = bus.cbreq := rfl

@[simp] theorem finish_cback : bus.finish.cback = bus.cback := rfl

@[simp] theorem finish_burstBeats : bus.finish.burstBeats = bus.burstBeats := rfl

end Enter

end Bus

end Apollo.M68030
