import Mathlib
import Apollo.Board.Map
import Apollo.Board.Arbiter

/-!
# The accesses of a transfer

The board's callbacks of a transfer, `dma_memory_read` and its three siblings of `ap_board.c`, on a
machine whose memory and devices are parameters; and the same with every access written down. A
traced clock is a clock: `tick_traced`.
-/

namespace Apollo.Board

open Device

/-- The machine around the bus: what the clock asks of the devices, `ap_board_read` and
`ap_board_write` at the instant of the board, the devices that answer a DACK, and the translation
map. An access outside the registers of the controllers, the map and the board leaves both. -/
structure Machine (ρ : Type) where
  tapeDmaRequest : ρ → Bool
  tapeReading : ρ → Bool
  diskDmaRequest : ρ → Bool
  fdcDmaRequest : ρ → Bool
  ethernetDmaRequest : ρ → Bool × ρ
  map : ρ → AtMap
  read : Parts ρ → BitVec 32 → BitVec 8 × Parts ρ
  write : Parts ρ → BitVec 32 → BitVec 8 → Parts ρ
  deviceRead : Fin 2 → ρ → Fin 4 → BitVec 8 × ρ
  deviceWrite : Fin 2 → ρ → Fin 4 → BitVec 8 → ρ
  terminalCount : Fin 2 → Fin 4 → ρ → ρ
  /-- Whether an address is one of the registers that program a transfer. -/
  register : BitVec 32 → Bool
  read_possible : ∀ parts physical, parts.dmaPossible = true →
    (read parts physical).2.dmaPossible = true
  write_possible : ∀ parts physical value, parts.dmaPossible = true →
    (write parts physical value).dmaPossible = true
  read_elsewhere : ∀ parts physical, register physical = false →
    (read parts physical).2.dma = parts.dma ∧ map (read parts physical).2.rest = map parts.rest
  write_elsewhere : ∀ parts physical value, register physical = false →
    (write parts physical value).dma = parts.dma ∧
      map (write parts physical value).rest = map parts.rest
  map_ethernet : ∀ rest, map (ethernetDmaRequest rest).2 = map rest
  map_deviceRead : ∀ unit rest channel, map (deviceRead unit rest channel).2 = map rest
  map_deviceWrite : ∀ unit rest channel value, map (deviceWrite unit rest channel value) = map rest

/-- An access of a transfer. -/
inductive DmaAccess
  | memoryRead (physical : BitVec 32) (value : BitVec 8)
  | memoryWrite (physical : BitVec 32) (value : BitVec 8)
  | deviceRead (unit : Fin 2) (channel : Fin 4) (value : BitVec 8)
  | deviceWrite (unit : Fin 2) (channel : Fin 4) (value : BitVec 8)
deriving DecidableEq

namespace Parts

variable {ρ : Type}

/-- The parts with the accesses of the clock so far. -/
def traced (parts : Parts ρ) (accesses : List DmaAccess) : Parts (ρ × List DmaAccess) :=
  ⟨parts.dma, parts.dmaPossible, (parts.rest, accesses)⟩

/-- The parts without them. -/
def untraced (parts : Parts (ρ × List DmaAccess)) : Parts ρ :=
  ⟨parts.dma, parts.dmaPossible, parts.rest.1⟩

end Parts

namespace Machine

variable {ρ : Type} (machine : Machine ρ)

/-- The callbacks of a transfer on a controller. -/
def bus (unit : Fin 2) : DmaBus (Parts ρ) where
  memoryRead parts address :=
    machine.read parts ((machine.map parts.rest).dmaPhysical unit address)
  memoryWrite parts address value :=
    machine.write parts ((machine.map parts.rest).dmaPhysical unit address) value
  deviceRead parts channel :=
    let (value, rest) := machine.deviceRead unit parts.rest channel
    (value, { parts with rest := rest })
  deviceWrite parts channel value :=
    { parts with rest := machine.deviceWrite unit parts.rest channel value }

/-- The callbacks, with every access written down. -/
def tracedBus (unit : Fin 2) : DmaBus (Parts (ρ × List DmaAccess)) where
  memoryRead parts address :=
    let physical := (machine.map parts.rest.1).dmaPhysical unit address
    let (value, after) := (machine.bus unit).memoryRead parts.untraced address
    (value, after.traced (parts.rest.2 ++ [.memoryRead physical value]))
  memoryWrite parts address value :=
    let physical := (machine.map parts.rest.1).dmaPhysical unit address
    ((machine.bus unit).memoryWrite parts.untraced address value).traced
      (parts.rest.2 ++ [.memoryWrite physical value])
  deviceRead parts channel :=
    let (value, after) := (machine.bus unit).deviceRead parts.untraced channel
    (value, after.traced (parts.rest.2 ++ [.deviceRead unit channel value]))
  deviceWrite parts channel value :=
    ((machine.bus unit).deviceWrite parts.untraced channel value).traced
      (parts.rest.2 ++ [.deviceWrite unit channel value])

/-- The devices of the clock. -/
def devices : Devices ρ where
  tapeDmaRequest := machine.tapeDmaRequest
  tapeReading := machine.tapeReading
  diskDmaRequest := machine.diskDmaRequest
  fdcDmaRequest := machine.fdcDmaRequest
  ethernetDmaRequest := machine.ethernetDmaRequest
  bus := machine.bus
  bus_keeps _ :=
    { memoryRead := fun parts _ _ h => machine.read_possible parts _ h
      memoryWrite := fun parts _ value _ h => machine.write_possible parts _ value h
      deviceRead := fun _ _ h => h
      deviceWrite := fun _ _ _ h => h }
  terminalCount := machine.terminalCount

/-- The devices of a traced clock. -/
def tracedDevices : Devices (ρ × List DmaAccess) where
  tapeDmaRequest rest := machine.tapeDmaRequest rest.1
  tapeReading rest := machine.tapeReading rest.1
  diskDmaRequest rest := machine.diskDmaRequest rest.1
  fdcDmaRequest rest := machine.fdcDmaRequest rest.1
  ethernetDmaRequest rest :=
    let (asserted, after) := machine.ethernetDmaRequest rest.1
    (asserted, (after, rest.2))
  bus := machine.tracedBus
  bus_keeps _ :=
    { memoryRead := fun parts _ _ h => machine.read_possible parts.untraced _ h
      memoryWrite := fun parts _ value _ h => machine.write_possible parts.untraced _ value h
      deviceRead := fun _ _ h => h
      deviceWrite := fun _ _ _ h => h }
  terminalCount unit channel rest := (machine.terminalCount unit channel rest.1, rest.2)

theorem tracedBus_maps (unit : Fin 2) :
    (machine.tracedBus unit).Maps (machine.bus unit) Parts.untraced where
  memoryRead _ _ := rfl
  memoryWrite _ _ _ := rfl
  deviceRead _ _ := rfl
  deviceWrite _ _ _ := rfl

theorem controller_maps (unit : Fin 2) :
    (controller unit : DmaPart (Parts (ρ × List DmaAccess))).Maps (controller unit)
      Parts.untraced where
  get _ := rfl
  set _ _ := rfl

end Machine

namespace Bus

variable {ρ : Type} (machine : Machine ρ)

/-- The bus with the accesses of the clock so far. -/
def traced (bus : Bus ρ) (accesses : List DmaAccess) : Bus (ρ × List DmaAccess) :=
  { bus with parts := bus.parts.traced accesses }

/-- The bus without them. -/
def untraced (bus : Bus (ρ × List DmaAccess)) : Bus ρ := { bus with parts := bus.parts.untraced }

theorem refresh_untraced (bus : Bus (ρ × List DmaAccess)) :
    bus.untraced.refresh = bus.refresh.untraced := by
  unfold refresh untraced
  dsimp only
  split_ifs <;> rfl

theorem finish_untraced (bus : Bus (ρ × List DmaAccess)) (unit : Fin 2) (ran : Option DmaCycle)
    (parts : Parts (ρ × List DmaAccess)) :
    bus.untraced.finish machine.devices unit (ran, parts.untraced) =
      ((bus.finish machine.tracedDevices unit (ran, parts)).1,
        (bus.finish machine.tracedDevices unit (ran, parts)).2.untraced) := by
  cases ran with
  | none => rfl
  | some cycle =>
    unfold finish
    dsimp only
    cases cycle.terminalCount <;> rfl

theorem serve_untraced (bus : Bus (ρ × List DmaAccess)) (selected : Option (Fin 4)) :
    bus.untraced.serve machine.devices selected =
      ((bus.serve machine.tracedDevices selected).1,
        (bus.serve machine.tracedDevices selected).2.untraced) := by
  have htransfer (unit : Fin 2) : (controller unit).transfer (machine.devices.bus unit)
      bus.untraced.parts = _ :=
    DmaPart.transfer_maps (Machine.controller_maps unit) (machine.tracedBus_maps unit) bus.parts
  have hunit : transferUnit bus.untraced.parts selected = transferUnit bus.parts selected := rfl
  unfold serve
  rw [hunit]
  dsimp only
  rw [htransfer, finish_untraced]
  split_ifs <;> first | rfl | contradiction

/-- A TRACED CLOCK IS A CLOCK. -/
theorem tick_traced (bus : Bus (ρ × List DmaAccess)) :
    bus.untraced.tick machine.devices =
      ((bus.tick machine.tracedDevices).1, (bus.tick machine.tracedDevices).2.untraced) := by
  unfold tick
  rw [refresh_untraced]
  dsimp only
  generalize bus.refresh = bus
  have hpossible : bus.untraced.parts.dmaPossible = bus.parts.dmaPossible := rfl
  rw [hpossible]
  cases bus.parts.dmaPossible with
  | false => rfl
  | true =>
    rw [if_neg (by decide), if_neg (by decide), ← serve_untraced]
    rfl

end Bus

end Apollo.Board
