import Apollo.Lib.Sizes
import Mathlib

/-!
# Bus arbitration of the MC68030

`src/core/cpu/m68030/ap_m68030_arb.c`: the five states of the arbitration unit, the request and the
acknowledge it sees through two clocks of synchronisation, and the grant and the three-state
control it drives.
-/

namespace Apollo.M68030

/-- `ap_m68030_arb_state_t`. -/
inductive ArbState
  | state0
  | state1
  | state2
  | state3
  | state4
deriving DecidableEq

/-- `ap_m68030_rmc_t`. -/
inductive Rmc
  | none
  | firstRead
  | locked
deriving DecidableEq

/-- `ap_m68030_arb_t`. -/
structure Arb where
  state : ArbState
  br : Bool
  bgack : Bool
  brSync : BitVec 2
  bgackSync : BitVec 2
  r : Bool
  a : Bool
  bg : Bool
  threeState : Bool
  rmc : Rmc
  cycleCommitted : Bool
deriving DecidableEq

namespace Arb

/-- `ap_m68030_arb_init`. -/
def init : Arb :=
  { state := .state0, br := false, bgack := false, brSync := 0, bgackSync := 0, r := false
    a := false, bg := false, threeState := false, rmc := .none, cycleCommitted := false }

/-- `may_grant`. -/
def mayGrant (arb : Arb) : Bool := arb.rmc ≠ .locked ∧ arb.cycleCommitted = false

/-- `next_state`. -/
def nextState (arb : Arb) : ArbState :=
  match arb.state with
  | .state0 => if arb.r && arb.mayGrant then .state1 else if arb.a then .state4 else .state0
  | .state1 => .state2
  | .state2 => if arb.a || !arb.r then .state3 else .state2
  | .state3 => .state4
  | .state4 => if !arb.a then .state0 else if arb.r && arb.mayGrant then .state1 else .state4

/-- `drive_outputs`: G in a state. -/
def grantIn : ArbState → Bool
  | .state1 | .state2 => true
  | _ => false

/-- `drive_outputs`: T in a state. -/
def threeStateIn : ArbState → Bool
  | .state0 => false
  | _ => true

/-- `sync_advance`: the shift register after a sample. -/
def syncAdvance (shift : BitVec 2) (pin : Bool) : BitVec 2 :=
  shift <<< 1 ||| if pin then 1 else 0

/-- `tick_is_a_no_op`. -/
def tickIsANoOp (arb : Arb) : Bool :=
  arb.state = .state0 ∧ arb.br = false ∧ arb.bgack = false ∧ arb.brSync = 0 ∧ arb.bgackSync = 0

/-- `ap_m68030_arb_tick`. -/
def tick (arb : Arb) : Arb :=
  if arb.tickIsANoOp then arb
  else
    let state := arb.nextState
    let brSync := syncAdvance arb.brSync arb.br
    let bgackSync := syncAdvance arb.bgackSync arb.bgack
    { arb with
      state := state
      bg := grantIn state
      threeState := threeStateIn state
      brSync := brSync
      bgackSync := bgackSync
      r := brSync.getLsbD 1
      a := bgackSync.getLsbD 1 }

/-- `ap_m68030_arb_bus_grant`. -/
def busGrant (arb : Arb) : Bool := arb.bg && arb.rmc = .none

/-- `ap_m68030_arb_processor_is_master`. -/
def processorIsMaster (arb : Arb) : Bool := !arb.threeState

end Arb

/-!
## Runs of the arbitration unit

A run of `ap_m68030_arb.c`: pins set and clocks ticked in any order. What every state of a run has is
`Sampled`, and with it the shortcut of `ap_m68030_arb_tick` is one (`tick_eq_advance`). A request that
is held is granted within four clocks, whatever the acknowledge does, unless the processor locks the
bus or has a cycle committed: then the unit waits (`not_requestGranted_committed`).
-/

namespace Arb

/-! ## The arbitration unit without its shortcut -/

/-- The outputs and the synchronised inputs are those of the state and of the shift registers. -/
structure Sampled (arb : Arb) : Prop where
  grant : arb.bg = grantIn arb.state
  threeState : arb.threeState = threeStateIn arb.state
  request : arb.r = arb.brSync.getLsbD 1
  acknowledge : arb.a = arb.bgackSync.getLsbD 1

theorem sampled_init : Sampled init := ⟨rfl, rfl, rfl, rfl⟩

/-- A clock of the unit, whether or not it is one that changes nothing. -/
def advance (arb : Arb) : Arb :=
  { arb with
    state := arb.nextState
    bg := grantIn arb.nextState
    threeState := threeStateIn arb.nextState
    brSync := syncAdvance arb.brSync arb.br
    bgackSync := syncAdvance arb.bgackSync arb.bgack
    r := (syncAdvance arb.brSync arb.br).getLsbD 1
    a := (syncAdvance arb.bgackSync arb.bgack).getLsbD 1 }

theorem sampled_advance (arb : Arb) : arb.advance.Sampled := ⟨rfl, rfl, rfl, rfl⟩

theorem tick_eq_advance {arb : Arb} (h : arb.Sampled) : arb.tick = arb.advance := by
  unfold tick
  split_ifs with hnoop
  · obtain ⟨hstate, hbr, hbgack, hbrSync, hbgackSync⟩ :
        arb.state = .state0 ∧ arb.br = false ∧ arb.bgack = false ∧ arb.brSync = 0 ∧
          arb.bgackSync = 0 := by
      simpa [tickIsANoOp] using hnoop
    obtain ⟨hbg, hthree, hr, ha⟩ := h
    obtain ⟨state, br, bgack, brSync, bgackSync, r, a, bg, threeState, rmc, committed⟩ := arb
    dsimp only at hstate hbr hbgack hbrSync hbgackSync hbg hthree hr ha
    subst hstate hbr hbgack hbrSync hbgackSync hbg hthree hr ha
    simp [advance, nextState, syncAdvance]
  · rfl

/-- The two inputs driven. -/
def driven (arb : Arb) (br bgack : Bool) : Arb := { arb with br := br, bgack := bgack }

theorem Sampled.driven {arb : Arb} (h : arb.Sampled) (br bgack : Bool) :
    (arb.driven br bgack).Sampled := ⟨h.grant, h.threeState, h.request, h.acknowledge⟩

theorem syncAdvance_zero (shift : BitVec 2) (pin : Bool) :
    (syncAdvance shift pin).getLsbD 0 = pin := by
  revert shift pin
  decide

theorem syncAdvance_one (shift : BitVec 2) (pin : Bool) :
    (syncAdvance shift pin).getLsbD 1 = shift.getLsbD 0 := by
  revert shift pin
  decide

/-- The clocks a state is from the processor's, when nothing asks. -/
def statesLeft : ArbState → Nat
  | .state0 => 0
  | .state1 => 4
  | .state2 => 3
  | .state3 => 2
  | .state4 => 1

theorem state_of_statesLeft {state : ArbState} (h : statesLeft state = 0) : state = .state0 := by
  cases state <;> first | rfl | exact absurd h (by decide)

theorem statesLeft_le (state : ArbState) : statesLeft state ≤ 4 := by cases state <;> decide

theorem statesLeft_nextState {arb : Arb} (hr : arb.r = false) (ha : arb.a = false) :
    statesLeft arb.nextState = statesLeft arb.state - 1 := by
  unfold nextState
  cases hstate : arb.state <;> simp [hr, ha, statesLeft]

/-! ## Runs -/

/-- `ap_m68030_arb_set_request`. -/
def setRequest (arb : Arb) (asserted : Bool) : Arb := { arb with br := asserted }

/-- `ap_m68030_arb_set_acknowledge`. -/
def setAcknowledge (arb : Arb) (asserted : Bool) : Arb := { arb with bgack := asserted }

/-- `ap_m68030_arb_set_rmc`. -/
def setRmc (arb : Arb) (rmc : Rmc) : Arb := { arb with rmc := rmc }

/-- `ap_m68030_arb_set_cycle_committed`. -/
def setCycleCommitted (arb : Arb) (committed : Bool) : Arb := { arb with cycleCommitted := committed }

/-- What is done to the unit. -/
inductive Event
  | request (asserted : Bool)
  | acknowledge (asserted : Bool)
  | rmc (phase : Rmc)
  | cycleCommitted (committed : Bool)
  | tick
deriving DecidableEq

/-- The unit after an event. -/
def step (arb : Arb) : Event → Arb
  | .request asserted => arb.setRequest asserted
  | .acknowledge asserted => arb.setAcknowledge asserted
  | .rmc phase => arb.setRmc phase
  | .cycleCommitted committed => arb.setCycleCommitted committed
  | .tick => arb.tick

/-- The unit after a run. -/
def run (arb : Arb) (events : List Event) : Arb := events.foldl step arb

theorem Sampled.step {arb : Arb} (h : arb.Sampled) (event : Event) : (arb.step event).Sampled := by
  cases event with
  | request => exact ⟨h.grant, h.threeState, h.request, h.acknowledge⟩
  | acknowledge => exact ⟨h.grant, h.threeState, h.request, h.acknowledge⟩
  | rmc => exact ⟨h.grant, h.threeState, h.request, h.acknowledge⟩
  | cycleCommitted => exact ⟨h.grant, h.threeState, h.request, h.acknowledge⟩
  | tick =>
    change arb.tick.Sampled
    rw [tick_eq_advance h]
    exact sampled_advance arb

theorem Sampled.run {arb : Arb} (h : arb.Sampled) (events : List Event) : (arb.run events).Sampled := by
  induction events generalizing arb with
  | nil => exact h
  | cons event events ih => exact ih (h.step event)

/-! ## A request that is held -/

/-- An event that leaves a request held, and the processor's lock off. -/
def Event.Holds : Event → Prop
  | .request asserted => asserted = true
  | .rmc phase => phase = .none
  | .acknowledge _ | .cycleCommitted _ | .tick => True

/-- An event that commits no cycle. -/
def Event.Uncommitted : Event → Prop
  | .cycleCommitted committed => committed = false
  | _ => True

/-- A request that is held from state 0 on, with the lock off, is granted within so many clocks. -/
def RequestGranted (events : List Event) (arb : Arb) (clocks : Nat) : Prop :=
  arb.state = .state0 → arb.br = true → arb.rmc = .none → (∀ event ∈ events, event.Holds) →
    clocks ≤ events.count .tick → ∃ before, before <+: events ∧ (arb.run before).state = .state1

/-- How many clocks a request that is held is from its grant, at most: it goes through two registers,
and an acknowledge can take the unit to state 4 and back on the way. A request that was there before
and went away does not count. -/
def clocksLeft (arb : Arb) : Nat :=
  if arb.brSync.getLsbD 0 then
    if arb.r then (if arb.state = .state4 then 2 else 1) else 3
  else if arb.r ∧ arb.state = .state0 then 1 else 4

theorem clocksLeft_pos (arb : Arb) : 0 < arb.clocksLeft := by
  unfold clocksLeft
  split_ifs <;> decide

theorem clocksLeft_le {arb : Arb} : arb.clocksLeft ≤ 4 := by
  unfold clocksLeft
  split_ifs <;> decide

/-- A request waits to be granted. -/
structure Waiting (arb : Arb) : Prop where
  sampled : arb.Sampled
  state : arb.state = .state0 ∨ arb.state = .state4
  br : arb.br = true
  rmc : arb.rmc = .none
  cycleCommitted : arb.cycleCommitted = false

theorem Waiting.tick {arb : Arb} (h : arb.Waiting) :
    arb.tick.state = .state1 ∨ arb.tick.Waiting ∧ arb.tick.clocksLeft < arb.clocksLeft := by
  have hgrant : arb.mayGrant = true := by
    unfold mayGrant
    rw [h.rmc, h.cycleCommitted]
    rfl
  rw [tick_eq_advance h.sampled]
  have hr : arb.advance.r = arb.brSync.getLsbD 0 := syncAdvance_one arb.brSync arb.br
  have hfirst : arb.advance.brSync.getLsbD 0 = true := (syncAdvance_zero arb.brSync arb.br).trans h.br
  have hstate : arb.advance.state = arb.nextState := rfl
  have hwaiting : arb.nextState = .state0 ∨ arb.nextState = .state4 → arb.advance.Waiting :=
    fun hnext => ⟨sampled_advance arb, hnext, h.br, h.rmc, h.cycleCommitted⟩
  unfold clocksLeft
  rw [hr, hfirst, hstate, if_pos rfl]
  cases hasked : arb.r with
  | true =>
    rcases h.state with hfrom | hfrom
    · left
      rw [nextState, hfrom]
      simp [hasked, hgrant]
    · cases ha : arb.a with
      | true =>
        left
        rw [nextState, hfrom]
        simp [hasked, hgrant, ha]
      | false =>
        have hnext : arb.nextState = .state0 := by
          rw [nextState, hfrom]
          simp [ha]
        right
        refine ⟨hwaiting (.inl hnext), ?_⟩
        rw [hnext, hfrom]
        cases arb.brSync.getLsbD 0 <;> decide
  | false =>
    have hnext : arb.nextState = .state0 ∨ arb.nextState = .state4 := by
      rcases h.state with hfrom | hfrom
      · rw [nextState, hfrom]
        cases ha : arb.a <;> simp [hasked]
      · rw [nextState, hfrom]
        cases ha : arb.a <;> simp [hasked]
    right
    refine ⟨hwaiting hnext, ?_⟩
    cases arb.brSync.getLsbD 0 with
    | true =>
      rw [if_pos rfl, if_pos rfl, if_neg Bool.false_ne_true]
      split_ifs <;> decide
    | false =>
      rw [if_neg Bool.false_ne_true, if_neg Bool.false_ne_true, if_neg fun h => Bool.false_ne_true h.1]
      decide

theorem Waiting.step {arb : Arb} (h : arb.Waiting) {event : Event} (hholds : event.Holds)
    (huncommitted : event.Uncommitted) (hother : event ≠ .tick) :
    (arb.step event).Waiting ∧ (arb.step event).clocksLeft = arb.clocksLeft := by
  have hsampled := h.sampled.step event
  cases event with
  | request asserted => exact ⟨⟨hsampled, h.state, hholds, h.rmc, h.cycleCommitted⟩, rfl⟩
  | acknowledge asserted => exact ⟨⟨hsampled, h.state, h.br, h.rmc, h.cycleCommitted⟩, rfl⟩
  | rmc phase => exact ⟨⟨hsampled, h.state, h.br, hholds, h.cycleCommitted⟩, rfl⟩
  | cycleCommitted committed => exact ⟨⟨hsampled, h.state, h.br, h.rmc, huncommitted⟩, rfl⟩
  | tick => exact absurd rfl hother

theorem Waiting.granted {arb : Arb} (h : arb.Waiting) (events : List Event)
    (hholds : ∀ event ∈ events, event.Holds) (huncommitted : ∀ event ∈ events, event.Uncommitted)
    (hclocks : arb.clocksLeft ≤ events.count .tick) :
    ∃ before, before <+: events ∧ (arb.run before).state = .state1 := by
  induction events generalizing arb with
  | nil => exact absurd hclocks (arb.clocksLeft_pos).not_ge
  | cons event events ih =>
    have hlater : ∀ arb' : Arb, arb.step event = arb' → arb'.Waiting →
        arb'.clocksLeft ≤ events.count .tick →
        ∃ before, before <+: event :: events ∧ (arb.run before).state = .state1 := by
      rintro arb' rfl hwaiting hleft
      obtain ⟨before, hbefore, hstate⟩ := ih hwaiting (fun e he => hholds e (List.mem_cons_of_mem _ he))
        (fun e he => huncommitted e (List.mem_cons_of_mem _ he)) hleft
      exact ⟨event :: before, (List.prefix_cons_inj event).mpr hbefore, hstate⟩
    by_cases htick : event = .tick
    · subst htick
      rw [List.count_cons_self] at hclocks
      rcases h.tick with hgranted | ⟨hwaiting, hless⟩
      · exact ⟨[.tick], (List.prefix_cons_inj _).mpr List.nil_prefix, hgranted⟩
      · exact hlater arb.tick rfl hwaiting (by omega)
    · rw [List.count_cons_of_ne htick] at hclocks
      obtain ⟨hwaiting, hsame⟩ := h.step (hholds event List.mem_cons_self)
        (huncommitted event List.mem_cons_self) htick
      exact hlater _ rfl hwaiting (hsame ▸ hclocks)

/-! ## Arbitration -/

/-- What holds of the unit in a state of a run. -/
structure Arbitrates (arb : Arb) : Prop where
  master : arb.processorIsMaster = true ↔ arb.state = .state0
  grant : arb.tick.state = .state1 → arb.state ≠ .state1 → arb.rmc ≠ .locked ∧ arb.cycleCommitted = false
  busGrant : arb.busGrant = true → arb.rmc = .none
  shortcut : arb.tick = arb.advance

theorem mayGrant_of_nextState {arb : Arb} (h : arb.nextState = .state1) : arb.mayGrant = true := by
  unfold nextState at h
  cases hstate : arb.state <;> rw [hstate] at h <;> simp only at h
  · split_ifs at h with hgrant
    exact (Bool.and_eq_true_iff.mp hgrant).2
  · cases h
  · split_ifs at h
  · cases h
  · split_ifs at h with hidle hgrant
    exact (Bool.and_eq_true_iff.mp hgrant).2

theorem Sampled.arbitrates {arb : Arb} (h : arb.Sampled) : arb.Arbitrates where
  master := by
    unfold processorIsMaster
    rw [h.threeState]
    cases arb.state <;> decide
  grant hgranted _ := by
    rw [tick_eq_advance h] at hgranted
    exact of_decide_eq_true (mayGrant_of_nextState hgranted)
  busGrant hgranted := of_decide_eq_true (Bool.and_eq_true_iff.mp hgranted).2
  shortcut := tick_eq_advance h

/-- ARBITRATION, in every state of every run: who is master, when a grant is given and when it is seen,
that the shortcut is one, and that a request which is held is granted within four clocks if no cycle is
committed on the way. -/
theorem run_arbitrates (history : List Event) :
    (init.run history).Arbitrates ∧
      ∀ events, (init.run history).cycleCommitted = false → (∀ event ∈ events, event.Uncommitted) →
        RequestGranted events (init.run history) 4 := by
  have hsampled := sampled_init.run history
  refine ⟨hsampled.arbitrates, fun events hfree huncommitted hstate hbr hrmc hholds hclocks => ?_⟩
  exact Waiting.granted ⟨hsampled, .inl hstate, hbr, hrmc, hfree⟩ events hholds huncommitted
    (clocksLeft_le.trans hclocks)

theorem run_arbitrates_request :
    ∃ before, before <+: List.replicate 4 Event.tick ∧
      ((init.run [.request true]).run before).state = .state1 :=
  (run_arbitrates [.request true]).2 (List.replicate 4 .tick) rfl
    (fun event hevent => by rw [List.eq_of_mem_replicate hevent]; trivial) rfl rfl rfl
    (fun event hevent => by rw [List.eq_of_mem_replicate hevent]; trivial) (by decide)

/-- No bus master is there, and the processor has a cycle committed. -/
structure Committed (arb : Arb) : Prop where
  sampled : arb.Sampled
  state : arb.state = .state0
  cycleCommitted : arb.cycleCommitted = true
  bgack : arb.bgack = false
  bgackSync : arb.bgackSync = 0

theorem Committed.ticks {arb : Arb} (h : arb.Committed) (clocks : ℕ) :
    (arb.run (List.replicate clocks .tick)).Committed := by
  induction clocks generalizing arb with
  | zero => exact h
  | succ clocks ih =>
    refine @ih arb.tick ?_
    have ha : arb.a = false := by
      rw [h.sampled.acknowledge, h.bgackSync]
      rfl
    have hgrant : arb.mayGrant = false := by
      unfold mayGrant
      rw [h.cycleCommitted]
      simp
    rw [tick_eq_advance h.sampled]
    refine ⟨sampled_advance arb, ?_, h.cycleCommitted, h.bgack, ?_⟩
    · change arb.nextState = .state0
      rw [nextState, h.state]
      simp [ha, hgrant]
    · change syncAdvance arb.bgackSync arb.bgack = 0
      rw [h.bgackSync, h.bgack]
      rfl

/-- With a cycle committed all the time, a request that is held is not granted in any number of clocks. -/
theorem not_requestGranted_committed :
    ¬ ∃ clocks, ∀ history events, RequestGranted events (init.run history) clocks := by
  rintro ⟨clocks, hclaim⟩
  have hasking : (init.run [.request true, .cycleCommitted true]).Committed :=
    ⟨sampled_init.run _, rfl, rfl, rfl, rfl⟩
  obtain ⟨before, hbefore, hgranted⟩ := hclaim [.request true, .cycleCommitted true]
    (List.replicate clocks .tick) rfl rfl rfl
    (fun event hevent => by rw [List.eq_of_mem_replicate hevent]; trivial)
    (by rw [List.count_replicate_self])
  have hticks := List.eq_replicate_of_mem fun event hevent =>
    List.eq_of_mem_replicate (hbefore.subset hevent)
  rw [hticks, (hasking.ticks before.length).state] at hgranted
  cases hgranted

end Arb

end Apollo.M68030
