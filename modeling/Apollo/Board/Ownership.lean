import Mathlib
import Apollo.Board.Arbiter
import Apollo.M68030.Arb

/-!
# Who owns the bus

A run of the board from reset: clocks of the bus, and between them accesses that leave the
controllers and the devices as they like, the processor's RMC and its committed cycles, and the
adapter's two signals. `Owned` is what every state of a run has, by one lemma an event.

OWNERSHIP IS EXCLUSIVE when the adapter has a line of its own; a transfer runs only while the DMA
line holds the bus; and seven clocks without a request give the bus back. What the code does not do
is end a grant whose request it refuses: the line holds the bus while the request is pending.
-/

namespace Apollo.Board

open M68030 Device

namespace Arbiter

/-! ## The request lines -/

theorem asks_setRequest {arbiter : Arbiter} {drq : Nat} {asserted : Bool} {line : Fin 8} :
    (arbiter.setRequest drq asserted).asks line =
      if line.val = drq then asserted else arbiter.asks line := by
  unfold setRequest
  by_cases hbound : 8 ≤ drq
  · rw [if_pos hbound, if_neg (by omega)]
  · have hbit : (1#8 <<< drq).getLsbD line.val = decide (line.val = drq) := by
      rw [← BitVec.twoPow_eq, BitVec.getLsbD_twoPow]
      simp [eq_comm, show drq < 8 by omega]
    rw [if_neg hbound]
    unfold asks
    cases asserted
    · simp only [Bool.false_eq_true, if_false, BitVec.getLsbD_and, BitVec.getLsbD_not, hbit]
      by_cases hline : line.val = drq <;> simp [hline]
    · simp only [if_true, BitVec.getLsbD_or, hbit]
      by_cases hline : line.val = drq <;> simp [hline]

@[simp] theorem setRequest_cpu (arbiter : Arbiter) (drq : Nat) (asserted : Bool) :
    (arbiter.setRequest drq asserted).cpu = arbiter.cpu := by
  unfold setRequest
  split_ifs <;> rfl

@[simp] theorem setRequest_master (arbiter : Arbiter) (drq : Nat) (asserted : Bool) :
    (arbiter.setRequest drq asserted).master = arbiter.master := by
  unfold setRequest
  split_ifs <;> rfl

theorem highestRequester_isSome {arbiter : Arbiter} :
    arbiter.highestRequester.isSome = true ↔ ∃ line, arbiter.asks line = true := by
  simp [highestRequester, List.find?_isSome]

/-! ## A clock of the arbiter -/

@[simp] theorem asks_tick (arbiter : Arbiter) (line : Fin 8) :
    arbiter.tick.asks line = arbiter.asks line := by
  unfold tick asks
  dsimp only
  split <;> split_ifs <;> rfl

/-- Who holds the bus after a clock. -/
def nextMaster (arbiter : Arbiter) : Option (Fin 8) :=
  match arbiter.master with
  | none =>
    if arbiter.cpu.busGrant && arbiter.highestRequester.isSome then arbiter.highestRequester
    else none
  | some line => if arbiter.asks line then some line else none

theorem master_tick (arbiter : Arbiter) : arbiter.tick.master = arbiter.nextMaster := by
  unfold tick nextMaster
  cases arbiter.master with
  | none =>
    unfold Arb.busGrant
    cases hgrant : arbiter.cpu.bg && decide (arbiter.cpu.rmc = .none) &&
        arbiter.highestRequester.isSome <;>
      simp [hgrant]
  | some line => cases hasks : arbiter.asks line <;> simp_all [asks]

/-- The unit that the arbiter clocks: it is asked when a line asks, and acknowledged while a line
holds the bus. -/
theorem cpu_tick {arbiter : Arbiter} (hsampled : arbiter.cpu.Sampled)
    (hbgack : arbiter.cpu.bgack = arbiter.master.isSome) :
    arbiter.tick.cpu =
      (arbiter.cpu.driven arbiter.highestRequester.isSome arbiter.nextMaster.isSome).advance := by
  rw [← Arb.tick_eq_advance (hsampled.driven _ _)]
  unfold tick nextMaster Arb.driven
  cases hmaster : arbiter.master with
  | none =>
    rw [hmaster] at hbgack
    unfold Arb.busGrant
    cases hgrant : arbiter.cpu.bg && decide (arbiter.cpu.rmc = .none) &&
        arbiter.highestRequester.isSome
    · simp [hgrant, ← hbgack]
    · simp only [Bool.and_eq_true, decide_eq_true_eq] at hgrant
      simp [hgrant.1.1, hgrant.1.2, hgrant.2]
  | some line =>
    rw [hmaster] at hbgack
    cases hasks : arbiter.asks line <;> simp_all [asks]

end Arbiter

namespace MasterPort

/-! ## The port -/

/-- A port that is acknowledged after a clock either was, and still claims the bus, or asked for it
with its channel selected while its line held the bus. -/
theorem nextState_acknowledged {port : MasterPort} {selected inCascade holds : Bool}
    (h : port.nextState selected inCascade holds = .acknowledged ∨
      port.nextState selected inCascade holds = .owns) :
    (port.state = .acknowledged ∨ port.state = .owns) ∧ port.claiming = true ∨
      holds = true ∧ (port.request && selected) = true := by
  obtain ⟨channel, drq, request, masterL, state⟩ := port
  cases state <;> cases request <;> cases masterL <;> cases selected <;> cases inCascade <;>
    cases holds <;> simp_all [nextState, claiming]

end MasterPort

/-! ## A run of the board -/

/-- `cpu_hz` of the models of `ap_model.c`. -/
def modelHz : List Nat := [20000000, 12000000, 25000000, 33000000]

/-- `ap_board_init_model` and `ap_board_attach_master`: the adapter's channel and line, the rest of
the machine, and the clock of the model. -/
def Bus.init {ρ : Type} (cpuHz : { hz // hz ∈ modelHz }) (channel : Fin 4) (drq : Nat) (rest : ρ) :
    Bus ρ :=
  { parts := { dma := fun _ => I8237.reset, dmaPossible := true, rest := rest }
    arbiter := Arbiter.reset
    master := MasterPort.init channel drq
    refreshIntervalTicks := cpuHz.val * 15 / 1000000
    refreshTicksLeft := cpuHz.val * 15 / 1000000
    refreshHolding := false
    dmaTransferTicks := cpuHz.val * 4 / 3000000
    dmaTransferTicksLeft := 0 }

/-- What a run is made of: a clock of the bus; an access, or time, that leaves the controllers and
the rest as it likes and may raise the guard; the processor's RMC; a committed cycle; and the
adapter's DRQ and MASTER.L. -/
inductive Event (ρ : Type)
  | tick
  | access (dma : Fin 2 → I8237) (touched : Bool) (rest : ρ)
  | rmc (rmc : Rmc)
  | committed (cycleCommitted : Bool)
  | adapter (request masterL : Bool)

/-- Whether an event is a clock. -/
def Event.isTick {ρ : Type} : Event ρ → Bool
  | .tick => true
  | _ => false

namespace Bus

variable {ρ : Type}

/-- The board after an event. -/
def handle (devices : Devices ρ) (bus : Bus ρ) : Event ρ → Bus ρ
  | .tick => (bus.tick devices).2
  | .access dma touched rest =>
    { bus with parts := ⟨dma, bus.parts.dmaPossible || touched, rest⟩ }
  | .rmc rmc => { bus with arbiter.cpu.rmc := rmc }
  | .committed cycleCommitted => { bus with arbiter.cpu.cycleCommitted := cycleCommitted }
  | .adapter request masterL =>
    { bus with master.request := request, master.masterL := masterL }

/-- The board after a run of events. -/
def run (devices : Devices ρ) (bus : Bus ρ) (events : List (Event ρ)) : Bus ρ :=
  events.foldl (handle devices) bus

/-! ## The invariant -/

/-- What every state of a run has: the arbitration unit is sampled and acknowledged while a line
holds the bus; a guard that is down leaves no DMA request at the arbiter; only the DMA's line and
the adapter's ever ask; an acknowledged adapter's line holds the bus and asks for it, and is not
the DMA's; and a refresh starts its count again. -/
structure Owned (bus : Bus ρ) : Prop where
  sampled : bus.arbiter.cpu.Sampled
  acknowledged : bus.arbiter.cpu.bgack = bus.arbiter.master.isSome
  guarded : bus.parts.dmaPossible = false → bus.arbiter.asks 0 = false
  lines : ∀ line, bus.arbiter.asks line = true → line = 0 ∨ line.val = bus.master.drq
  held : bus.master.state = .acknowledged ∨ bus.master.state = .owns →
    ∃ line, line.val = bus.master.drq ∧ bus.arbiter.master = some line ∧
      bus.arbiter.asks line = true
  silent : bus.master.drq = 0 →
    bus.master.request = false ∧ bus.master.masterL = false ∧ bus.master.state = .idle
  refreshed : bus.refreshHolding = true → bus.refreshTicksLeft = bus.refreshIntervalTicks
  interval : 2 ≤ bus.refreshIntervalTicks

theorem owned_init (cpuHz : { hz // hz ∈ modelHz }) (channel : Fin 4) (drq : Nat) (rest : ρ) :
    Owned (init cpuHz channel drq rest) where
  sampled := Arb.sampled_init
  acknowledged := rfl
  guarded h := nomatch h
  lines line h := by simp [init, Arbiter.reset, Arbiter.asks] at h
  held h := by simp [init, MasterPort.init] at h
  silent _ := ⟨rfl, rfl, rfl⟩
  refreshed h := nomatch h
  interval := by
    obtain ⟨hz, hmem⟩ := cpuHz
    simp only [modelHz, List.mem_cons, List.not_mem_nil, or_false] at hmem
    rcases hmem with rfl | rfl | rfl | rfl <;> norm_num [init]

/-! ## One lemma a stage of the clock -/

theorem refresh_frame (bus : Bus ρ) : ∃ holding left,
    bus.refresh = { bus with refreshHolding := holding, refreshTicksLeft := left } := by
  unfold refresh
  dsimp only
  generalize (if bus.refreshTicksLeft = 0 then _ else _) = left
  split_ifs
  · exact ⟨_, _, rfl⟩
  · exact ⟨_, _, rfl⟩
  · exact ⟨_, _, rfl⟩

@[simp] theorem refresh_parts (bus : Bus ρ) : bus.refresh.parts = bus.parts := by
  obtain ⟨holding, left, hrefresh⟩ := bus.refresh_frame
  rw [hrefresh]

@[simp] theorem refresh_arbiter (bus : Bus ρ) : bus.refresh.arbiter = bus.arbiter := by
  obtain ⟨holding, left, hrefresh⟩ := bus.refresh_frame
  rw [hrefresh]

@[simp] theorem refresh_master (bus : Bus ρ) : bus.refresh.master = bus.master := by
  obtain ⟨holding, left, hrefresh⟩ := bus.refresh_frame
  rw [hrefresh]

/-- The bus when the poll has answered and the arbiter has not. -/
def polled (devices : Devices ρ) (bus : Bus ρ) : Bus ρ :=
  let parts := poll devices bus.parts
  { bus.refresh with
    parts := { parts with dmaPossible := stillPossible devices parts }
    arbiter := bus.arbiter.setRequest 0 (parts.dma 1).servicePending.isSome }

theorem tick_down (devices : Devices ρ) {bus : Bus ρ} (h : bus.parts.dmaPossible = false) :
    bus.tick devices = (none, bus.refresh.arbitrate) := by
  unfold tick
  simp [h]

theorem tick_up (devices : Devices ρ) {bus : Bus ρ} (h : bus.parts.dmaPossible = true) :
    bus.tick devices = (bus.polled devices).arbitrate.serve devices
      ((poll devices bus.parts).dma 1).servicePending := by
  unfold tick polled
  simp [h]

theorem owned_refresh {bus : Bus ρ} (h : bus.Owned) : bus.refresh.Owned := by
  have hinterval := h.interval
  unfold refresh
  rw [if_neg (by omega)]
  dsimp only
  generalize (if bus.refreshTicksLeft = 0 then _ else _) = left
  split_ifs
  · exact { h with refreshed := fun _ => rfl }
  · exact { h with refreshed := fun hholding => nomatch hholding }

theorem owned_setRequest {bus : Bus ρ} (h : bus.Owned) (parts : Parts ρ) (asserted : Bool)
    (hguard : asserted = true → parts.dmaPossible = true) :
    Owned { bus with parts := parts, arbiter := bus.arbiter.setRequest 0 asserted } where
  sampled := by rw [Arbiter.setRequest_cpu]; exact h.sampled
  acknowledged := by rw [Arbiter.setRequest_cpu, Arbiter.setRequest_master]; exact h.acknowledged
  guarded hdown := by
    rw [Arbiter.asks_setRequest, if_pos (show ((0 : Fin 8) : Nat) = 0 from rfl)]
    cases asserted with
    | false => rfl
    | true => exact absurd (hguard rfl) (by rw [hdown]; decide)
  lines line hasks := by
    rw [Arbiter.asks_setRequest] at hasks
    by_cases hzero : line.val = 0
    · exact .inl (Fin.ext hzero)
    · rw [if_neg hzero] at hasks
      exact h.lines line hasks
  held hstate := by
    obtain ⟨line, hline, hmaster, hasks⟩ := h.held hstate
    have hdrq : bus.master.drq ≠ 0 := by
      intro hzero
      rcases hstate with hstate | hstate <;>
        exact absurd ((h.silent hzero).2.2.symm.trans hstate) (by decide)
    refine ⟨line, hline, ?_, ?_⟩
    · rw [Arbiter.setRequest_master]; exact hmaster
    · rw [Arbiter.asks_setRequest, if_neg (by rw [hline]; exact hdrq)]; exact hasks
  silent := h.silent
  refreshed := h.refreshed
  interval := h.interval

theorem owned_arbitrate {bus : Bus ρ} (h : bus.Owned) : bus.arbitrate.Owned where
  sampled := by
    show (Arbiter.setRequest _ _ _).cpu.Sampled
    rw [Arbiter.setRequest_cpu, Arbiter.cpu_tick h.sampled h.acknowledged]
    exact Arb.sampled_advance _
  acknowledged := by
    show (Arbiter.setRequest _ _ _).cpu.bgack = (Arbiter.setRequest _ _ _).master.isSome
    rw [Arbiter.setRequest_cpu, Arbiter.setRequest_master, Arbiter.master_tick,
      Arbiter.cpu_tick h.sampled h.acknowledged]
    rfl
  guarded hdown := by
    show (Arbiter.setRequest _ _ _).asks 0 = false
    rw [Arbiter.asks_setRequest, Arbiter.asks_tick]
    split_ifs with hzero
    · obtain ⟨hrequest, hmasterL, hstate⟩ := h.silent hzero.symm
      simp [MasterPort.claiming, hrequest, hmasterL]
    · exact h.guarded hdown
  lines line hasks := by
    have hasks : (Arbiter.setRequest _ _ _).asks line = true := hasks
    rw [Arbiter.asks_setRequest, Arbiter.asks_tick] at hasks
    by_cases hline : line.val = bus.master.drq
    · exact .inr hline
    · rw [if_neg hline] at hasks
      exact h.lines line hasks
  held hstate := by
    show ∃ line : Fin 8, line.val = bus.master.drq ∧ (Arbiter.setRequest _ _ _).master = some line ∧
      (Arbiter.setRequest _ _ _).asks line = true
    simp only [Arbiter.setRequest_master, Arbiter.asks_setRequest]
    rcases MasterPort.nextState_acknowledged hstate with ⟨hbefore, hclaiming⟩ | ⟨hholds, hasked⟩
    · obtain ⟨line, hline, hmaster, hasks⟩ := h.held hbefore
      refine ⟨line, hline, ?_, ?_⟩
      · rw [Arbiter.master_tick, Arbiter.nextMaster, hmaster]
        exact if_pos hasks
      · rw [if_pos hline, hclaiming, Bool.true_or]
    · obtain ⟨line, hmaster, hline⟩ := Option.map_eq_some_iff.mp (of_decide_eq_true hholds)
      rw [Arbiter.setRequest_master] at hmaster
      refine ⟨line, hline, hmaster, ?_⟩
      rw [if_pos hline, hasked, Bool.or_true]
  silent hzero := by
    obtain ⟨hrequest, hmasterL, hstate⟩ := h.silent hzero
    refine ⟨hrequest, hmasterL, ?_⟩
    show bus.master.nextState _ _ _ = .idle
    simp [MasterPort.nextState, hstate, hrequest]
  refreshed := h.refreshed
  interval := h.interval

theorem dmaPossible_transfer (devices : Devices ρ) (unit : Fin 2) (parts : Parts ρ)
    (h : parts.dmaPossible = true) :
    ((controller unit).transfer (devices.bus unit) parts).2.dmaPossible = true :=
  DmaPart.transfer_keeps (fun _ _ hpossible => hpossible) (devices.bus_keeps unit)
    (fun _ _ => trivial) h

theorem serve_frame (devices : Devices ρ) (bus : Bus ρ) (selected : Option (Fin 4)) :
    ∃ parts left, (bus.serve devices selected).2 =
        { bus with parts := parts, dmaTransferTicksLeft := left } ∧
      (bus.parts.dmaPossible = true → parts.dmaPossible = true) := by
  have hkept := dmaPossible_transfer devices (transferUnit bus.parts selected) bus.parts
  unfold serve
  split_ifs
  · exact ⟨bus.parts, bus.dmaTransferTicksLeft, rfl, id⟩
  · exact ⟨bus.parts, bus.dmaTransferTicksLeft - 1, rfl, id⟩
  · dsimp only
    generalize (controller (transferUnit bus.parts selected)).transfer _ bus.parts = ran at *
    obtain ⟨_ | cycle, parts⟩ := ran
    · exact ⟨_, _, rfl, hkept⟩
    · exact ⟨_, _, rfl, hkept⟩

theorem owned_serve {devices : Devices ρ} {bus : Bus ρ} (h : bus.Owned)
    (selected : Option (Fin 4)) : (bus.serve devices selected).2.Owned := by
  obtain ⟨parts, left, hserve, hpossible⟩ := serve_frame devices bus selected
  rw [hserve]
  refine { h with guarded := fun hdown => h.guarded ?_ }
  cases hbefore : bus.parts.dmaPossible with
  | false => rfl
  | true => exact absurd (hpossible hbefore) (by rw [show parts.dmaPossible = false from hdown]; decide)

theorem owned_polled (devices : Devices ρ) {bus : Bus ρ} (h : bus.Owned) :
    (bus.polled devices).Owned := by
  have hrefreshed := owned_setRequest (owned_refresh h)
    { poll devices bus.parts with
      dmaPossible := stillPossible devices (poll devices bus.parts) }
    ((poll devices bus.parts).dma 1).servicePending.isSome fun hselected => by
      show stillPossible devices _ = true
      unfold stillPossible
      rw [hselected]
      rfl
  rw [refresh_arbiter] at hrefreshed
  exact hrefreshed

theorem owned_tick {devices : Devices ρ} {bus : Bus ρ} (h : bus.Owned) :
    (bus.tick devices).2.Owned := by
  cases hpossible : bus.parts.dmaPossible with
  | false =>
    rw [tick_down devices hpossible]
    exact owned_arbitrate (owned_refresh h)
  | true =>
    rw [tick_up devices hpossible]
    exact owned_serve (owned_arbitrate (owned_polled devices h)) _

theorem tick_up_frame (devices : Devices ρ) {bus : Bus ρ} (h : bus.parts.dmaPossible = true) :
    (bus.tick devices).2.arbiter = (bus.polled devices).arbitrate.arbiter ∧
      (bus.tick devices).2.master = (bus.polled devices).arbitrate.master ∧
      (bus.tick devices).2.refreshHolding = bus.refresh.refreshHolding := by
  rw [tick_up devices h]
  obtain ⟨parts, left, hserve, -⟩ := serve_frame devices (bus.polled devices).arbitrate
    ((poll devices bus.parts).dma 1).servicePending
  rw [hserve]
  exact ⟨rfl, rfl, rfl⟩

theorem drq_tick (devices : Devices ρ) (bus : Bus ρ) :
    (bus.tick devices).2.master.drq = bus.master.drq := by
  have hkept : bus.refresh.master.drq = bus.master.drq := by rw [refresh_master]
  cases hpossible : bus.parts.dmaPossible with
  | false =>
    rw [tick_down devices hpossible]
    exact hkept
  | true =>
    rw [(tick_up_frame devices hpossible).2.1]
    exact hkept

/-- The adapter's line is its own when the adapter drives its signals. -/
def Fits (drq : Nat) (events : List (Event ρ)) : Prop :=
  ∀ request masterL, Event.adapter request masterL ∈ events → drq ≠ 0

theorem drq_handle (devices : Devices ρ) (bus : Bus ρ) (event : Event ρ) :
    (bus.handle devices event).master.drq = bus.master.drq := by
  cases event with
  | tick => exact drq_tick devices bus
  | access dma touched rest => rfl
  | rmc rmc => rfl
  | committed cycleCommitted => rfl
  | adapter request masterL => rfl

theorem drq_run (devices : Devices ρ) (bus : Bus ρ) (events : List (Event ρ)) :
    (bus.run devices events).master.drq = bus.master.drq := by
  induction events generalizing bus with
  | nil => rfl
  | cons event events ih => exact (ih _).trans (drq_handle devices bus event)

theorem owned_handle {devices : Devices ρ} {bus : Bus ρ} (h : bus.Owned) {event : Event ρ}
    (hfits : Fits bus.master.drq [event]) : (bus.handle devices event).Owned := by
  cases event with
  | tick => exact owned_tick h
  | access dma touched rest =>
    exact { h with guarded := fun hdown => h.guarded (Bool.or_eq_false_iff.mp hdown).1 }
  | rmc rmc => exact { h with sampled := ⟨h.sampled.1, h.sampled.2, h.sampled.3, h.sampled.4⟩ }
  | committed cycleCommitted =>
    exact { h with sampled := ⟨h.sampled.1, h.sampled.2, h.sampled.3, h.sampled.4⟩ }
  | adapter request masterL =>
    exact { h with silent := fun hzero => absurd hzero (hfits request masterL (by simp)) }

theorem owned_run {devices : Devices ρ} {bus : Bus ρ} (h : bus.Owned) {events : List (Event ρ)}
    (hfits : Fits bus.master.drq events) : (bus.run devices events).Owned := by
  induction events generalizing bus with
  | nil => exact h
  | cons event events ih =>
    refine ih (owned_handle h fun request masterL hmem => hfits request masterL ?_) ?_
    · rw [List.mem_singleton.mp hmem]
      exact List.mem_cons_self
    · rw [drq_handle]
      exact fun request masterL hmem => hfits request masterL (List.mem_cons_of_mem _ hmem)

/-! ## The last request withdrawn -/

/-- Nothing asks at a clock: the adapter drives neither signal, and the poll, if there is one, finds
no channel pending. -/
def Withdrawn (devices : Devices ρ) (bus : Bus ρ) : Prop :=
  bus.master.request = false ∧ bus.master.masterL = false ∧
    (bus.parts.dmaPossible = true →
      ((poll devices bus.parts).dma 1).servicePending = none)

/-- Every clock of a run of events finds nothing asking. -/
def Quiet (devices : Devices ρ) : Bus ρ → List (Event ρ) → Prop
  | _, [] => True
  | bus, event :: events =>
    (event.isTick = true → bus.Withdrawn devices) ∧ Quiet devices (bus.handle devices event) events

instance (devices : Devices ρ) (bus : Bus ρ) : Decidable (bus.Withdrawn devices) :=
  inferInstanceAs (Decidable (_ ∧ _ ∧ (_ → _)))

instance Quiet.decidable (devices : Devices ρ) :
    (bus : Bus ρ) → (events : List (Event ρ)) → Decidable (Quiet devices bus events)
  | _, [] => isTrue trivial
  | bus, event :: events =>
    @instDecidableAnd _ _ (inferInstanceAs (Decidable (_ → _)))
      (Quiet.decidable devices (bus.handle devices event) events)

theorem arbitrate_arbiter {bus : Bus ρ} (hrequest : bus.master.request = false)
    (hmasterL : bus.master.masterL = false) :
    bus.arbitrate.arbiter = bus.arbiter.tick.setRequest bus.master.drq false := by
  show Arbiter.setRequest _ _ (_ || _) = _
  rw [MasterPort.claiming, hrequest, hmasterL, Bool.or_false, Bool.and_false, Bool.false_and,
    Bool.or_false]

/-- The arbiter after a clock at which nothing asks: the lines it saw are those that asked before,
without the DMA's. -/
theorem arbiter_tick_withdrawn {devices : Devices ρ} {bus : Bus ρ} (h : bus.Owned)
    (hwithdrawn : bus.Withdrawn devices) :
    ∃ asked : Arbiter, asked.cpu = bus.arbiter.cpu ∧ asked.master = bus.arbiter.master ∧
      (∀ line, asked.asks line = true → line ≠ 0 ∧ bus.arbiter.asks line = true) ∧
      (bus.tick devices).2.arbiter = asked.tick.setRequest bus.master.drq false := by
  obtain ⟨hrequest, hmasterL, hpoll⟩ := hwithdrawn
  cases hpossible : bus.parts.dmaPossible with
  | false =>
    refine ⟨bus.arbiter, rfl, rfl, fun line hasks => ⟨?_, hasks⟩, ?_⟩
    · rintro rfl
      rw [h.guarded hpossible] at hasks
      exact Bool.false_ne_true hasks
    · rw [tick_down devices hpossible, arbitrate_arbiter (by rw [refresh_master]; exact hrequest)
        (by rw [refresh_master]; exact hmasterL), refresh_arbiter, refresh_master]
  | true =>
    refine ⟨bus.arbiter.setRequest 0 false, Arbiter.setRequest_cpu _ _ _,
      Arbiter.setRequest_master _ _ _, fun line hasks => ?_, ?_⟩
    · rw [Arbiter.asks_setRequest] at hasks
      split_ifs at hasks with hzero
      exact ⟨fun hline => hzero (by rw [hline]; rfl), hasks⟩
    · have hmaster : (bus.polled devices).master = bus.master := refresh_master bus
      rw [(tick_up_frame devices hpossible).1, arbitrate_arbiter (by rw [hmaster]; exact hrequest)
        (by rw [hmaster]; exact hmasterL), hmaster]
      have hnone : ((poll devices bus.parts).dma 1).servicePending.isSome = false := by
        rw [hpoll hpossible]
        rfl
      show (Arbiter.setRequest _ 0 _).tick.setRequest _ _ = _
      rw [hnone]

end Bus

/-- What the arbiter has done with a bus that nothing asks for, after a number of clocks: every line
is low after one; nobody holds it after two; the processor's unit has seen both after three, and is
at home after seven. -/
structure Released (clocks : Nat) (arbiter : Arbiter) : Prop where
  silent : 1 ≤ clocks → ∀ line, arbiter.asks line = false
  returned : 2 ≤ clocks → arbiter.master = none ∧ arbiter.cpu.brSync.getLsbD 0 = false ∧
    arbiter.cpu.bgackSync.getLsbD 0 = false
  seen : 3 ≤ clocks → arbiter.cpu.r = false ∧ arbiter.cpu.a = false
  near : 3 ≤ clocks → Arb.statesLeft arbiter.cpu.state ≤ 7 - clocks

theorem released_zero (arbiter : Arbiter) : Released 0 arbiter :=
  ⟨by omega, by omega, by omega, by omega⟩

namespace Bus

variable {ρ : Type}

theorem released_tick {devices : Devices ρ} {bus : Bus ρ} (h : bus.Owned)
    (hwithdrawn : bus.Withdrawn devices) {clocks : Nat} (hreleased : Released clocks bus.arbiter) :
    Released (clocks + 1) (bus.tick devices).2.arbiter := by
  obtain ⟨asked, hcpu, hmaster, hasks, htick⟩ := arbiter_tick_withdrawn h hwithdrawn
  have hclock : asked.tick.cpu =
      (asked.cpu.driven asked.highestRequester.isSome asked.nextMaster.isSome).advance :=
    Arbiter.cpu_tick (by rw [hcpu]; exact h.sampled) (by rw [hcpu, hmaster]; exact h.acknowledged)
  have hasking : 1 ≤ clocks → asked.highestRequester = none ∧ asked.nextMaster = none := by
    intro hclocks
    have hlow (line : Fin 8) : asked.asks line = false := by
      rw [← Bool.not_eq_true]
      intro hline
      exact Bool.false_ne_true ((hreleased.silent hclocks line).symm.trans (hasks line hline).2)
    have hnone : asked.highestRequester = none := by
      rw [← Option.not_isSome_iff_eq_none, Arbiter.highestRequester_isSome]
      rintro ⟨line, hline⟩
      exact Bool.false_ne_true ((hlow line).symm.trans hline)
    refine ⟨hnone, ?_⟩
    unfold Arbiter.nextMaster
    rw [hnone]
    cases asked.master with
    | none => simp
    | some line => simp [hlow line]
  rw [htick]
  refine ⟨fun _ line => ?_, fun hclocks => ?_, fun hclocks => ?_, fun hclocks => ?_⟩
  · rw [Arbiter.asks_setRequest, Arbiter.asks_tick]
    split_ifs with hdrq
    · rfl
    · rw [← Bool.not_eq_true]
      intro hline
      obtain ⟨hzero, hbefore⟩ := hasks line hline
      exact (h.lines line hbefore).elim hzero hdrq
  · obtain ⟨hhighest, hnext⟩ := hasking (by omega)
    rw [Arbiter.setRequest_master, Arbiter.setRequest_cpu, Arbiter.master_tick, hclock, hhighest,
      hnext]
    exact ⟨rfl, Arb.syncAdvance_zero _ _, Arb.syncAdvance_zero _ _⟩
  · obtain ⟨-, hbrSync, hbgackSync⟩ := hreleased.returned (by omega)
    rw [Arbiter.setRequest_cpu, hclock, hcpu]
    exact ⟨(Arb.syncAdvance_one _ _).trans hbrSync, (Arb.syncAdvance_one _ _).trans hbgackSync⟩
  · rw [Arbiter.setRequest_cpu, hclock, hcpu]
    show Arb.statesLeft (Arb.nextState _) ≤ _
    rcases Nat.lt_or_ge clocks 3 with hthree | hthree
    · have hleft := Arb.statesLeft_le (Arb.nextState
        (bus.arbiter.cpu.driven asked.highestRequester.isSome asked.nextMaster.isSome))
      omega
    · obtain ⟨hr, ha⟩ := hreleased.seen hthree
      have hnear := hreleased.near hthree
      have hnext : Arb.statesLeft (Arb.nextState
          (bus.arbiter.cpu.driven asked.highestRequester.isSome asked.nextMaster.isSome)) =
          Arb.statesLeft bus.arbiter.cpu.state - 1 :=
        Arb.statesLeft_nextState hr ha
      omega

theorem released_run {devices : Devices ρ} {bus : Bus ρ} (h : bus.Owned)
    {events : List (Event ρ)} (hfits : Fits bus.master.drq events)
    (hquiet : Quiet devices bus events) {clocks : Nat} (hreleased : Released clocks bus.arbiter) :
    Released (clocks + events.countP Event.isTick) (bus.run devices events).arbiter := by
  induction events generalizing bus clocks with
  | nil => exact hreleased
  | cons event events ih =>
    have howned : (bus.handle devices event).Owned :=
      owned_handle h fun request masterL hmem => hfits request masterL (by
        rw [List.mem_singleton.mp hmem]
        exact List.mem_cons_self)
    have hfits : Fits (bus.handle devices event).master.drq events := by
      rw [drq_handle]
      exact fun request masterL hmem => hfits request masterL (List.mem_cons_of_mem _ hmem)
    have hrest (more : Nat) (hmore : Released (clocks + more) (bus.handle devices event).arbiter) :=
      ih howned hfits hquiet.2 hmore
    rw [List.countP_cons, ← Nat.add_assoc, Nat.add_right_comm]
    cases event with
    | tick => exact hrest 1 (released_tick h (hquiet.1 rfl) hreleased)
    | access dma touched rest => exact hrest 0 hreleased
    | rmc rmc => exact hrest 0 ⟨hreleased.1, hreleased.2, hreleased.3, hreleased.4⟩
    | committed cycleCommitted => exact hrest 0 ⟨hreleased.1, hreleased.2, hreleased.3, hreleased.4⟩
    | adapter request masterL => exact hrest 0 hreleased

/-- SEVEN CLOCKS GIVE THE BUS BACK. -/
theorem processorMayRun_of_released {bus : Bus ρ} (h : bus.Owned) {clocks : Nat}
    (hclocks : 7 ≤ clocks) (hreleased : Released clocks bus.arbiter) :
    bus.arbiter.processorMayRun = true := by
  have hstate : bus.arbiter.cpu.state = .state0 :=
    Arb.state_of_statesLeft (by have hnear := hreleased.near (by omega); omega)
  unfold Arbiter.processorMayRun Arb.processorIsMaster
  rw [h.sampled.threeState, hstate, (hreleased.returned (by omega)).1]
  rfl

theorem refreshHolding_tick (devices : Devices ρ) {bus : Bus ρ} (h : bus.Owned)
    (hholding : bus.refreshHolding = true) : (bus.tick devices).2.refreshHolding = false := by
  have hinterval := h.interval
  have hleft := h.refreshed hholding
  have hrefresh : bus.refresh.refreshHolding = false := by
    unfold refresh
    dsimp only
    rw [if_neg (show bus.refreshIntervalTicks ≠ 0 by omega),
      if_neg (show bus.refreshTicksLeft ≠ 0 by omega),
      if_neg (show bus.refreshTicksLeft - 1 ≠ 0 by omega)]
  cases hpossible : bus.parts.dmaPossible with
  | false =>
    rw [tick_down devices hpossible]
    exact hrefresh
  | true =>
    rw [(tick_up_frame devices hpossible).2.2]
    exact hrefresh

/-- Nothing asks on the DMA's line at a clock: there is no poll, or it finds no channel pending. -/
def DmaWithdrawn (devices : Devices ρ) (bus : Bus ρ) : Prop :=
  bus.parts.dmaPossible = true → ((poll devices bus.parts).dma 1).servicePending = none

theorem master_tick_dmaWithdrawn {devices : Devices ρ} {bus : Bus ρ} (h : bus.Owned)
    (hmaster : bus.arbiter.master = some 0) (hwithdrawn : bus.DmaWithdrawn devices) :
    (bus.tick devices).2.arbiter.master = none := by
  have hnext {asked : Arbiter} (hheld : asked.master = some 0) (hlow : asked.asks 0 = false) :
      asked.nextMaster = none := by
    unfold Arbiter.nextMaster
    rw [hheld]
    simp [hlow]
  cases hpossible : bus.parts.dmaPossible with
  | false =>
    rw [tick_down devices hpossible]
    show (Arbiter.setRequest _ _ _).master = none
    rw [Arbiter.setRequest_master, Arbiter.master_tick, refresh_arbiter]
    exact hnext hmaster (h.guarded hpossible)
  | true =>
    rw [(tick_up_frame devices hpossible).1]
    show (Arbiter.setRequest _ _ _).master = none
    rw [Arbiter.setRequest_master, Arbiter.master_tick]
    refine hnext ?_ ?_
    · exact (Arbiter.setRequest_master _ _ _).trans hmaster
    · show (Arbiter.setRequest _ 0 _).asks 0 = false
      rw [Arbiter.asks_setRequest, hwithdrawn hpossible]
      rfl

theorem master_of_transfer {devices : Devices ρ} {bus : Bus ρ} {cycle : Fin 2 × DmaCycle}
    (h : (bus.tick devices).1 = some cycle) : (bus.tick devices).2.arbiter.master = some 0 := by
  cases hpossible : bus.parts.dmaPossible with
  | false =>
    rw [tick_down devices hpossible] at h
    exact nomatch h
  | true =>
    rw [(tick_up_frame devices hpossible).1]
    rw [tick_up devices hpossible] at h
    by_contra hother
    unfold serve at h
    rw [if_pos hother] at h
    exact nomatch h

/-- OWNERSHIP IS EXCLUSIVE, A TRANSFER HAS THE BUS, AND THE BUS COMES BACK. -/
theorem ownership (devices : Devices ρ) (cpuHz : { hz // hz ∈ modelHz }) (channel : Fin 4)
    (drq : Nat) (rest : ρ) (events : List (Event ρ)) (hfits : Fits drq events) :
    let bus := (init cpuHz channel drq rest).run devices events
    (bus.processorMayRun = true → bus.arbiter.master = none ∧ bus.master.ownsBus = false) ∧
    (bus.master.ownsBus = true →
      bus.arbiter.master ≠ some 0 ∧ bus.arbiter.master.map Fin.val = some drq) ∧
    (∀ cycle, (bus.tick devices).1 = some cycle →
      (bus.tick devices).2.arbiter.master = some 0) ∧
    (bus.arbiter.master = some 0 → bus.DmaWithdrawn devices →
      (bus.tick devices).2.arbiter.master = none) ∧
    ∀ later, Fits drq later → Quiet devices bus later → 7 ≤ later.countP Event.isTick →
      let freed := bus.run devices later
      freed.arbiter.processorMayRun = true ∧
        (freed.processorMayRun = true ∨
          (freed.Withdrawn devices → (freed.tick devices).2.processorMayRun = true)) := by
  intro bus
  have howned : bus.Owned := owned_run (owned_init cpuHz channel drq rest) hfits
  have hdrq : bus.master.drq = drq := drq_run devices (init cpuHz channel drq rest) events
  refine ⟨fun hrun => ?_, fun howns => ?_, fun cycle => master_of_transfer,
    master_tick_dmaWithdrawn howned, fun later hlater hquiet hclocks => ?_⟩
  · have hnone : bus.arbiter.master = none := by
      simp only [processorMayRun, Arbiter.processorMayRun, Bool.and_eq_true,
        Option.isNone_iff_eq_none] at hrun
      exact hrun.2.2
    refine ⟨hnone, ?_⟩
    rw [← Bool.not_eq_true]
    intro howns
    obtain ⟨line, -, hmaster, -⟩ := howned.held (.inr (of_decide_eq_true howns))
    rw [hnone] at hmaster
    exact nomatch hmaster
  · obtain ⟨line, hline, hmaster, -⟩ := howned.held (.inr (of_decide_eq_true howns))
    rw [hmaster]
    refine ⟨?_, by rw [← hdrq, ← hline]; rfl⟩
    intro hzero
    have hstate := (howned.silent (by rw [← hline, Option.some.inj hzero]; rfl)).2.2
    exact absurd (hstate.symm.trans (of_decide_eq_true howns)) (by decide)
  · intro freed
    have hlater : Fits bus.master.drq later := by rw [hdrq]; exact hlater
    have hfreed : freed.Owned := owned_run howned hlater
    have hreleased : Released (0 + later.countP Event.isTick) freed.arbiter :=
      released_run howned hlater hquiet (released_zero _)
    have hmay := processorMayRun_of_released hfreed (by omega) hreleased
    refine ⟨hmay, ?_⟩
    unfold processorMayRun
    cases hholding : freed.refreshHolding with
    | false => exact .inl (by rw [hmay]; rfl)
    | true =>
      refine .inr fun hwithdrawn => ?_
      rw [refreshHolding_tick devices hfreed hholding,
        processorMayRun_of_released (owned_tick hfreed) (by omega)
          (released_tick hfreed hwithdrawn hreleased)]
      rfl

/-! ## A board whose devices ask for nothing -/

/-- Devices that never ask, and accesses that change nothing. -/
def quietDevices : Devices Unit where
  tapeDmaRequest _ := false
  tapeReading _ := false
  diskDmaRequest _ := false
  fdcDmaRequest _ := false
  ethernetDmaRequest rest := (false, rest)
  bus _ :=
    { memoryRead := fun parts _ => (0, parts)
      memoryWrite := fun parts _ _ => parts
      deviceRead := fun parts _ => (0, parts)
      deviceWrite := fun parts _ _ => parts }
  bus_keeps _ := ⟨fun _ _ _ h => h, fun _ _ _ _ h => h, fun _ _ h => h, fun _ _ _ h => h⟩
  terminalCount _ _ rest := rest

/-- A clock of the board at 25 MHz. -/
def clock25 : { hz // hz ∈ modelHz } := ⟨25000000, by decide⟩

/-- Both cascades open: the adapter asks through channel 0 of the first controller, and that through
channel 0 of the second. -/
def cascaded : Fin 2 → I8237 := fun unit =>
  if unit = 0 then (I8237.reset.writeRegister 11 0xC0).writeRegister 10 0x00
  else (I8237.reset.writeRegister 11 0xC0).writeRegister 10 0x00

/-- A run in which the adapter, on line 3, is granted the bus, takes it and gives it back. -/
def handover : List (Event Unit) :=
  [.access cascaded true (), .adapter true true] ++ List.replicate 8 .tick ++
    [.adapter false false]

/-- The same with the second controller's channel masked, and both requests up. -/
def masked : Fin 2 → I8237 := fun unit =>
  if unit = 0 then { cascaded 0 with dreq := 1 }
  else { I8237.reset.writeRegister 11 0xC0 with dreq := 1 }

/-- `ownership` on the handover. -/
theorem ownership_handover :
    Fits 3 handover ∧
      (((init clock25 0 3 ()).run quietDevices (handover.take 10)).master.ownsBus = true ∧
        Quiet quietDevices ((init clock25 0 3 ()).run quietDevices handover)
          (List.replicate 7 .tick) ∧
        (((init clock25 0 3 ()).run quietDevices handover).run quietDevices
          (List.replicate 7 .tick)).arbiter.processorMayRun = true) := by
  have hfits : Fits 3 handover := fun _ _ _ => by decide
  have hquiet : Quiet quietDevices ((init clock25 0 3 ()).run quietDevices handover)
      (List.replicate 7 .tick) := by decide +kernel
  refine ⟨hfits, by decide +kernel, hquiet, ?_⟩
  exact ((ownership quietDevices clock25 0 3 () handover hfits).2.2.2.2 (List.replicate 7 .tick)
    (fun _ _ _ => by decide) hquiet (by decide)).1

/-- The second controller's channel 1 asked by software, in block mode, for the illegal transfer. -/
def refused : Fin 2 → I8237 := fun unit =>
  if unit = 1 then (I8237.reset.writeRegister 11 0x8D).writeRegister 9 0x05 else I8237.reset

/-- The board once the refused request is there: the parts and the port no longer change, and the
arbiter's DMA line is driven at every clock. -/
theorem tick_refused {bus : Bus Unit} (hparts : bus.parts = ⟨refused, true, ()⟩)
    (hmaster : bus.master = MasterPort.init 0 0) :
    (bus.tick quietDevices).1 = none ∧
      (bus.tick quietDevices).2.parts = ⟨refused, true, ()⟩ ∧
      (bus.tick quietDevices).2.master = MasterPort.init 0 0 ∧
      (bus.tick quietDevices).2.arbiter =
        (bus.arbiter.setRequest 0 true).tick.setRequest 0 false := by
  have hpoll : poll quietDevices ⟨refused, true, ()⟩ = ⟨refused, true, ()⟩ := by
    refine congrArg (Parts.mk · true ()) (funext fun unit => ?_)
    fin_cases unit <;> rfl
  have hset : (controller 0).set ⟨refused, true, ()⟩ ((refused 0).setRequestPin 0 false) =
      (⟨refused, true, ()⟩ : Parts Unit) := by
    refine congrArg (Parts.mk · true ()) (funext fun unit => ?_)
    fin_cases unit <;> rfl
  have hpossible : bus.parts.dmaPossible = true := by rw [hparts]
  have hpolled : bus.polled quietDevices =
      { bus.refresh with
        parts := ⟨refused, true, ()⟩
        arbiter := bus.arbiter.setRequest 0 true } := by
    unfold polled
    rw [hparts, hpoll]
    rfl
  have harbitrated : (bus.polled quietDevices).arbitrate =
      { bus.refresh with
        parts := ⟨refused, true, ()⟩
        master := MasterPort.init 0 0
        arbiter := (bus.arbiter.setRequest 0 true).tick.setRequest 0 false } := by
    rw [hpolled]
    unfold arbitrate
    dsimp only
    rw [refresh_master, hmaster]
    show Bus.mk ((controller 0).set _ ((refused 0).setRequestPin 0 false)) _ _ _ _ _ _ _ = _
    rw [hset]
    rfl
  have htransfer : (controller 1).transfer (quietDevices.bus 1) ⟨refused, true, ()⟩ =
      (none, (⟨refused, true, ()⟩ : Parts Unit)) := rfl
  have hunit : transferUnit (⟨refused, true, ()⟩ : Parts Unit) (some 1) = 1 := rfl
  rw [tick_up quietDevices hpossible, harbitrated, hparts, hpoll,
    show (I8237.servicePending (refused 1)) = some 1 from rfl]
  unfold serve
  dsimp only
  rw [hunit, htransfer]
  split_ifs <;> exact ⟨rfl, rfl, rfl, rfl⟩

/-- The refused request's run: one access, and then clocks. -/
def refusedRun (clocks : Nat) : Bus Unit :=
  (init clock25 0 0 ()).run quietDevices (.access refused true () :: List.replicate clocks .tick)

theorem refusedRun_succ (clocks : Nat) :
    refusedRun (clocks + 1) = ((refusedRun clocks).tick quietDevices).2 := by
  unfold refusedRun run
  rw [List.replicate_succ', ← List.cons_append, List.foldl_append]
  rfl

theorem refusedRun_spec (clocks : Nat) :
    (refusedRun clocks).parts = ⟨refused, true, ()⟩ ∧
      (refusedRun clocks).master = MasterPort.init 0 0 := by
  induction clocks with
  | zero => exact ⟨rfl, rfl⟩
  | succ clocks ih =>
    obtain ⟨-, hparts, hmaster, -⟩ := tick_refused ih.1 ih.2
    rw [refusedRun_succ]
    exact ⟨hparts, hmaster⟩

theorem refusedRun_master (clocks : Nat) :
    (refusedRun (4 + clocks)).arbiter.master = some 0 := by
  induction clocks with
  | zero => decide +kernel
  | succ clocks ih =>
    obtain ⟨hparts, hmaster⟩ := refusedRun_spec (4 + clocks)
    rw [← Nat.add_assoc, refusedRun_succ, (tick_refused hparts hmaster).2.2.2,
      Arbiter.setRequest_master, Arbiter.master_tick, Arbiter.nextMaster,
      Arbiter.setRequest_master, ih]
    exact if_pos (by rw [Arbiter.asks_setRequest]; rfl)

/-- The run that leaves a port of the DMA's line the bus. -/
def sharedRun : Bus Unit :=
  (init clock25 0 0 ()).run quietDevices
    ([.access cascaded true (), .adapter true true] ++ List.replicate 8 .tick ++
      [.access masked true ()] ++ List.replicate 5 .tick)

/-- A refused request keeps the bus for as long as it is there, and a port on the DMA's line owns a
bus the processor runs on. -/
theorem not_ownership :
    (∀ clocks : Nat, (refusedRun (4 + clocks)).arbiter.master = some 0 ∧
      (refusedRun (4 + clocks)).processorMayRun = false ∧
      ((refusedRun (4 + clocks)).tick quietDevices).1 = none) ∧
    sharedRun.processorMayRun = true ∧ sharedRun.master.ownsBus = true := by
  refine ⟨fun clocks => ?_, by decide +kernel, by decide +kernel⟩
  obtain ⟨hparts, hmaster⟩ := refusedRun_spec (4 + clocks)
  have hheld := refusedRun_master clocks
  refine ⟨hheld, ?_, (tick_refused hparts hmaster).1⟩
  unfold processorMayRun Arbiter.processorMayRun
  rw [hheld, Option.isNone_some, Bool.and_false, Bool.and_false]

end Bus

end Apollo.Board
