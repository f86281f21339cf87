import Apollo.Ring.Medium
import Apollo.Time.Clock

/-!
# The multi-node scheduler

`src/core/ring/ap_ring_sched.c`: every node on its own clock and the ring on its bit
clock, merged by a scan for the earliest deadline. All arithmetic is the C code's on
64-bit times, so it wraps.

A callback sees its own context, the medium and the time, and answers with its
context and the cells it transmits. What the callbacks keep is one type `σ`.
`runUntil` has fuel because the C loop has no bound of its own, and it answers the
events of the loop in the order they were delivered.
-/

namespace Apollo.Ring

/-- `ap_ring_node_step_fn`: the new context, and what is driven on which slot. -/
abbrev Step (σ : Type) := σ → Medium → Time → σ × List (Int × Cell)

/-- `ap_ring_participant_t`. A node without a callback is still clocked. -/
structure Participant (σ : Type) where
  present : Bool := false
  period : Time := 0
  next : Time := 0
  step : Option (Step σ) := none

/-- `AP_RING_DATA_HZ`. -/
def ringDataHz : Time := 12000000

/-- `AP_RING_BIT_CELL_TICKS`. -/
def bitCellTicks : Time := timeBaseHz / ringDataHz

/-- `ap_ring_sched_t`. -/
structure Sched (σ : Type) where
  medium : Medium
  participant : Vector (Participant σ) maxNodes
  used : Nat
  bitPeriod : Time
  nextBit : Time
  now : Time

namespace Sched

variable {σ : Type}

/-- `ap_ring_sched_init`. -/
def init : Sched σ :=
  { medium := .init
    participant := Vector.replicate maxNodes {}
    used := 0
    bitPeriod := bitCellTicks
    nextBit := bitCellTicks
    now := 0 }

def participantAt (s : Sched σ) (i : Nat) : Participant σ := s.participant[i]?.getD {}

/-- `ap_ring_sched_add`: a frequency the base does not divide is refused, and the
first boundary is one period from now. -/
def add (s : Sched σ) (hz : BitVec 32) (step : Option (Step σ)) : Option Nat × Sched σ :=
  match clockInit hz with
  | none => (none, s)
  | some clock =>
    match s.medium.attach with
    | (none, medium) => (none, { s with medium })
    | (some slot, medium) =>
      (some slot,
        { s with
          medium
          participant := s.participant.setIfInBounds slot
            { present := true, period := clock.period, next := s.now + clock.period, step }
          used := if s.used ≤ slot then slot + 1 else s.used })

/-- One participant in the scan of `ap_ring_sched_run_until`: it must be strictly
earlier to win. -/
def scan (s : Sched σ) (best : Time × Int) (i : Nat) : Time × Int :=
  let p := s.participantAt i
  if p.present && p.next < best.1 then (p.next, (i : Int)) else best

/-- When the next event is due and whose it is, with `-1` for the bit clock. -/
def earliest (s : Sched σ) : Time × Int := (List.range s.used).foldl s.scan (s.nextBit, -1)

/-- The cells a callback drives. -/
def transmitAll (m : Medium) (cells : List (Int × Cell)) : Medium :=
  cells.foldl (fun m (slot, cell) => m.transmit slot cell) m

/-- One round of the loop of `ap_ring_sched_run_until`; `none` is its `break`. -/
def turn (s : Sched σ) (world : σ) (target : Time) : Option ((Time × Int) × Sched σ × σ) :=
  let (due, who) := s.earliest
  if target < due then none
  else
    let s := { s with now := due }
    if who < 0 then
      some ((due, who),
        { s with medium := s.medium.advance, nextBit := s.nextBit + s.bitPeriod }, world)
    else
      let p := s.participantAt who.toNat
      -- the deadline moves before the callback runs
      let s := { s with
        participant := s.participant.setIfInBounds who.toNat { p with next := p.next + p.period } }
      match p.step with
      | none => some ((due, who), s, world)
      | some step =>
        let (world, cells) := step world s.medium due
        some ((due, who), { s with medium := transmitAll s.medium cells }, world)

/-- `ap_ring_sched_run_until`, with the events it delivered. -/
def runUntil : Nat → Sched σ → σ → Time → Option (List (Time × Int) × Sched σ × σ)
  | 0, _, _, _ => none
  | fuel + 1, s, world, target =>
    match s.turn world target with
    | none => some ([], { s with now := target }, world)
    | some (event, s, world) =>
      (runUntil fuel s world target).map fun (events, s, world) => (event :: events, s, world)

/-- What a caller does with a scheduler. -/
inductive Command (σ : Type)
  | add (hz : BitVec 32) (step : Option (Step σ))
  | runUntil (target : Time)

/-- A caller's commands one after the other, with the events of all runs. -/
def exec (fuel : Nat) : List (Command σ) → Sched σ → σ → Option (List (Time × Int) × Sched σ × σ)
  | [], s, world => some ([], s, world)
  | .add hz step :: cmds, s, world => exec fuel cmds (s.add hz step).2 world
  | .runUntil target :: cmds, s, world =>
    match runUntil fuel s world target with
    | none => none
    | some (events, s, world) =>
      (exec fuel cmds s world).map fun (events', s, world) => (events ++ events', s, world)

end Sched

end Apollo.Ring
