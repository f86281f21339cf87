import Mathlib
import Apollo.M68030.Arb
import Apollo.Device.I8237

/-!
# The arbiter and the AT bus master's port

`src/core/board/ap_arbiter.c`: eight request lines of which the lowest is the first served, and the
handshake with the processor's arbitration unit. `src/core/board/ap_master.c`: an adapter that asks
through a channel of a DMA controller and owns the bus until it lets both its signals go.
-/

namespace Apollo.Board

open M68030 Device

/-- `ap_arbiter_t`; no line is the processor. -/
structure Arbiter where
  cpu : Arb
  request : BitVec 8
  selected : Option (Fin 8)
  master : Option (Fin 8)
deriving DecidableEq

namespace Arbiter

/-- `ap_arbiter_reset`. -/
def reset : Arbiter := ⟨Arb.init, 0, none, none⟩

/-- Whether a line asks. -/
def asks (arbiter : Arbiter) (drq : Fin 8) : Bool := arbiter.request.getLsbD drq.val

/-- `ap_arbiter_request`. -/
def setRequest (arbiter : Arbiter) (drq : Nat) (asserted : Bool) : Arbiter :=
  if 8 ≤ drq then arbiter
  else
    let bit := 1#8 <<< drq
    { arbiter with
      request := if asserted then arbiter.request ||| bit else arbiter.request &&& ~~~bit }

/-- `ap_arbiter_highest_requester`. -/
def highestRequester (arbiter : Arbiter) : Option (Fin 8) := (List.finRange 8).find? arbiter.asks

/-- `ap_arbiter_processor_may_run`. -/
def processorMayRun (arbiter : Arbiter) : Bool :=
  arbiter.cpu.processorIsMaster && arbiter.master.isNone

/-- `ap_arbiter_tick`. -/
def tick (arbiter : Arbiter) : Arbiter :=
  let asking := arbiter.highestRequester
  let arbiter := { arbiter with cpu := { arbiter.cpu with br := asking.isSome } }
  let arbiter :=
    match arbiter.master with
    | none =>
      if arbiter.cpu.busGrant && asking.isSome then
        { arbiter with
          selected := asking, master := asking, cpu := { arbiter.cpu with bgack := true } }
      else arbiter
    | some line =>
      if arbiter.asks line then arbiter
      else
        { arbiter with
          selected := none, master := none, cpu := { arbiter.cpu with bgack := false } }
  { arbiter with cpu := arbiter.cpu.tick }

end Arbiter

/-- `ap_master_state_t`. -/
inductive PortState
  | idle
  | requesting
  | acknowledged
  | owns
deriving DecidableEq

/-- `ap_master_t`; the board hands it the first controller whatever its unit. -/
structure MasterPort where
  channel : Fin 4
  drq : Nat
  request : Bool
  masterL : Bool
  state : PortState

namespace MasterPort

/-- `ap_master_init`. -/
def init (channel : Fin 4) (drq : Nat) : MasterPort := ⟨channel, drq, false, false, .idle⟩

/-- `ap_master_owns_bus`. -/
def ownsBus (port : MasterPort) : Bool := port.state = .owns

/-- Whether the adapter claims the bus it was acknowledged. -/
def claiming (port : MasterPort) : Bool :=
  (port.state = .acknowledged ∨ port.state = .owns) && (port.request || port.masterL)

/-- The state after a clock, by whether the channel is selected and in cascade mode and the adapter's
line holds the bus. -/
def nextState (port : MasterPort) (selected inCascade holds : Bool) : PortState :=
  match port.state with
  | .idle => if port.request then .requesting else .idle
  | .requesting =>
    if !port.request then .idle else if holds && selected then .acknowledged else .requesting
  | .acknowledged =>
    if port.masterL && inCascade then .owns
    else if !port.request && !port.masterL then .idle else .acknowledged
  | .owns => if !port.request && !port.masterL then .idle else .owns

/-- `ap_master_tick`: the port, the controller and the arbiter. -/
def tick (port : MasterPort) (dma : I8237) (arbiter : Arbiter) : MasterPort × I8237 × Arbiter :=
  let dma := dma.setRequestPin port.channel port.request
  let selected : Bool := dma.servicePending = some port.channel
  let inCascade : Bool := (dma.channel port.channel).modeOf = .cascade
  let arbiter := arbiter.setRequest port.drq (port.claiming || port.request && selected)
  let holds : Bool := arbiter.master.map Fin.val = some port.drq
  ({ port with state := port.nextState selected inCascade holds }, dma, arbiter)

end MasterPort

end Apollo.Board

/-!
## A clock of the bus

`ap_board_bus_tick` of `src/core/board/ap_board.c`: a refresh, the poll of the request lines when a
DMA may be possible, the arbiter, the AT bus master's port, and a transfer when the DMA line holds
the bus. The devices, the memory and the translation are parameters: a transfer's accesses may
change them, the controllers and the guard, and nothing else of the bus.
-/

namespace Apollo.Board

open Device

/-- The part of the board that an access may change: the controllers, the guard of the poll, and
the rest of the machine. -/
structure Parts (ρ : Type) where
  dma : Fin 2 → I8237
  dmaPossible : Bool
  rest : ρ

/-- A controller of the board. -/
def controller {ρ : Type} (unit : Fin 2) : DmaPart (Parts ρ) where
  get parts := parts.dma unit
  set parts dma := { parts with dma := Function.update parts.dma unit dma }

/-- What the clock asks of the devices, and a transfer of the machine. -/
structure Devices (ρ : Type) where
  /-- `ap_tape_dma_request`. -/
  tapeDmaRequest : ρ → Bool
  /-- `board->tape.drive.reading`. -/
  tapeReading : ρ → Bool
  /-- `ap_omti_disk_dma_request`. -/
  diskDmaRequest : ρ → Bool
  /-- `ap_omti_fdc_dma_request`. -/
  fdcDmaRequest : ρ → Bool
  /-- `board->ethernet_present && ap_3c505_dma_request`, which moves the card on. -/
  ethernetDmaRequest : ρ → Bool × ρ
  /-- The accesses of a transfer on a controller. -/
  bus : Fin 2 → DmaBus (Parts ρ)
  /-- An access raises the guard of the poll or leaves it. -/
  bus_keeps : ∀ unit, (bus unit).Keeps (fun _ => True) fun parts => parts.dmaPossible = true
  /-- What the device of a channel is told at the terminal count. -/
  terminalCount : Fin 2 → Fin 4 → ρ → ρ

/-- The bus of the board. -/
structure Bus (ρ : Type) where
  parts : Parts ρ
  arbiter : Arbiter
  master : MasterPort
  refreshIntervalTicks : Nat
  refreshTicksLeft : Nat
  refreshHolding : Bool
  dmaTransferTicks : Nat
  dmaTransferTicksLeft : Nat

namespace Bus

variable {ρ : Type}

/-- `ap_board_processor_may_run`. -/
def processorMayRun (bus : Bus ρ) : Bool := !bus.refreshHolding && bus.arbiter.processorMayRun

/-- The refresh of a clock; the counter is of 32 bits. -/
def refresh (bus : Bus ρ) : Bus ρ :=
  if bus.refreshIntervalTicks = 0 then { bus with refreshHolding := false }
  else
    let left := if bus.refreshTicksLeft = 0 then 2 ^ 32 - 1 else bus.refreshTicksLeft - 1
    if left = 0 then
      { bus with refreshHolding := true, refreshTicksLeft := bus.refreshIntervalTicks }
    else { bus with refreshHolding := false, refreshTicksLeft := left }

/-- A request pin of a controller driven. -/
def drivePin (parts : Parts ρ) (unit : Fin 2) (channel : Fin 4) (asserted : Bool) : Parts ρ :=
  (controller unit).modify parts (·.setRequestPin channel asserted)

/-- The poll of the request lines, with the first controller's request on the second's channel 0. -/
def poll (devices : Devices ρ) (parts : Parts ρ) : Parts ρ :=
  let parts := drivePin parts 0 1 (devices.tapeDmaRequest parts.rest)
  let parts := drivePin parts 1 3 (devices.diskDmaRequest parts.rest)
  let parts := drivePin parts 0 2 (devices.fdcDmaRequest parts.rest)
  let (asserted, rest) := devices.ethernetDmaRequest parts.rest
  let parts := drivePin { parts with rest := rest } 1 2 asserted
  drivePin parts 1 0 (parts.dma 0).servicePending.isSome

/-- Whether the poll is kept alive: a channel was selected, or a request line or bit is still up, or
the tape is reading. -/
def stillPossible (devices : Devices ρ) (parts : Parts ρ) : Bool :=
  (parts.dma 1).servicePending.isSome ||
    ((parts.dma 0).dreq != 0 || (parts.dma 0).request != 0) ||
    ((parts.dma 1).dreq != 0 || (parts.dma 1).request != 0) || devices.tapeReading parts.rest

/-- The arbiter's clock, and then the port's. -/
def arbitrate (bus : Bus ρ) : Bus ρ :=
  let (master, dma, arbiter) := bus.master.tick (bus.parts.dma 0) bus.arbiter.tick
  { bus with
    master := master
    arbiter := arbiter
    parts := (controller 0).set bus.parts dma }

/-- The controller whose turn it is: the first, if the second selected its cascade channel. -/
def transferUnit (parts : Parts ρ) (selected : Option (Fin 4)) : Fin 2 :=
  if selected = some 0 ∧ ((parts.dma 1).channel 0).modeOf = .cascade then 0 else 1

/-- What follows a transfer on a controller: the states left of it, and the terminal count. -/
def finish (devices : Devices ρ) (bus : Bus ρ) (unit : Fin 2) :
    Option DmaCycle × Parts ρ → Option (Fin 2 × DmaCycle) × Bus ρ
  | (none, parts) => (none, { bus with parts := parts })
  | (some cycle, parts) =>
    let left :=
      if 1 < bus.dmaTransferTicks then bus.dmaTransferTicks - 1 else bus.dmaTransferTicksLeft
    let rest :=
      if cycle.terminalCount then devices.terminalCount unit cycle.channel parts.rest
      else parts.rest
    (some (unit, cycle),
      { bus with parts := { parts with rest := rest }, dmaTransferTicksLeft := left })

/-- A transfer, by the line that holds the bus and the states left of the last one. -/
def serve (devices : Devices ρ) (bus : Bus ρ) (selected : Option (Fin 4)) :
    Option (Fin 2 × DmaCycle) × Bus ρ :=
  if bus.arbiter.master ≠ some 0 then (none, bus)
  else if 0 < bus.dmaTransferTicksLeft then
    (none, { bus with dmaTransferTicksLeft := bus.dmaTransferTicksLeft - 1 })
  else
    let unit := transferUnit bus.parts selected
    bus.finish devices unit ((controller unit).transfer (devices.bus unit) bus.parts)

/-- `ap_board_bus_tick`: the transfer that ran, if one did. -/
def tick (devices : Devices ρ) (bus : Bus ρ) : Option (Fin 2 × DmaCycle) × Bus ρ :=
  let bus := bus.refresh
  if !bus.parts.dmaPossible then (none, bus.arbitrate)
  else
    let parts := poll devices bus.parts
    let selected := (parts.dma 1).servicePending
    let bus :=
      { bus with
        parts := { parts with dmaPossible := stillPossible devices parts }
        arbiter := bus.arbiter.setRequest 0 selected.isSome }
    serve devices bus.arbitrate selected

end Bus

end Apollo.Board
