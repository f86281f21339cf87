import Apollo.Lib.Sizes
import Mathlib

/-!
# The 8237A DMA controller

`src/core/device/ap_i8237.c`: four channels with a base and a current address and count, a mode
each, and the request, mask and command registers they share. A transfer reaches memory and the
device through the board, whose accesses may change the part itself; `Bus` has them as functions
on the board's state, in which `DmaPart` is where the controller is kept.
-/

namespace Apollo.Device

/-- `ap_i8237_mode_t`. -/
inductive DmaMode
  | demand
  | single
  | block
  | cascade
deriving DecidableEq

/-- `ap_i8237_transfer_t`. -/
inductive DmaDirection
  | verify
  | write
  | read
  | illegal
deriving DecidableEq

/-- `ap_i8237_channel_t`. -/
structure DmaChannel where
  baseAddress : BitVec 16
  baseCount : BitVec 16
  currentAddress : BitVec 16
  currentCount : BitVec 16
  mode : BitVec 8
deriving DecidableEq

namespace DmaChannel

/-- `ap_i8237_mode_of`: bits 7 and 6. -/
def modeOf (ch : DmaChannel) : DmaMode :=
  match ch.mode.getLsbD 7, ch.mode.getLsbD 6 with
  | false, false => .demand
  | false, true => .single
  | true, false => .block
  | true, true => .cascade

/-- `ap_i8237_transfer_of`: bits 3 and 2. -/
def transferOf (ch : DmaChannel) : DmaDirection :=
  match ch.mode.getLsbD 3, ch.mode.getLsbD 2 with
  | false, false => .verify
  | false, true => .write
  | true, false => .read
  | true, true => .illegal

/-- `AP_I8237_MODE_AUTOINIT`. -/
def autoinit (ch : DmaChannel) : Bool := ch.mode.getLsbD 4

/-- The address after a transfer, by `AP_I8237_MODE_DECREMENT`. -/
def nextAddress (ch : DmaChannel) : BitVec 16 :=
  if ch.mode.getLsbD 5 then ch.currentAddress - 1 else ch.currentAddress + 1

end DmaChannel

/-- `ap_i8237_t`. -/
structure I8237 where
  channel : Fin 4 → DmaChannel
  command : BitVec 8
  status : BitVec 8
  request : BitVec 8
  mask : BitVec 8
  temporary : BitVec 8
  highByte : Bool
  dreq : BitVec 8

namespace I8237

/-- `1u << channel` as a byte. -/
def bit (channel : Fin 4) : BitVec 8 := 1#8 <<< channel.val

/-- `ap_i8237_reset`: everything is zero but the mask. -/
def reset : I8237 :=
  { channel := fun _ => ⟨0, 0, 0, 0, 0⟩, command := 0, status := 0, request := 0, mask := 0x0F
    temporary := 0, highByte := false, dreq := 0 }

/-- A channel changed. -/
def setChannel (dma : I8237) (channel : Fin 4) (ch : DmaChannel) : I8237 :=
  { dma with channel := Function.update dma.channel channel ch }

/-- Whether a channel asks: by its pin, if it is not masked, or by software in block mode. -/
def asks (dma : I8237) (channel : Fin 4) : Bool :=
  dma.dreq.getLsbD channel.val && !dma.mask.getLsbD channel.val ||
    dma.request.getLsbD channel.val && (dma.channel channel).modeOf == .block

/-- `ap_i8237_service_pending`: the lowest channel that asks, if the controller is enabled. -/
def servicePending (dma : I8237) : Option (Fin 4) :=
  if dma.command.getLsbD 2 then none else (List.finRange 4).find? dma.asks

/-- `ap_i8237_set_request_pin`. -/
def setRequestPin (dma : I8237) (channel : Fin 4) (asserted : Bool) : I8237 :=
  { dma with dreq := if asserted then dma.dreq ||| bit channel else dma.dreq &&& ~~~bit channel }

/-- `ap_i8237_terminal_count`. -/
def terminalCount (dma : I8237) (channel : Fin 4) : I8237 :=
  let dma := { dma with
    status := dma.status ||| bit channel
    request := dma.request &&& ~~~bit channel }
  let ch := dma.channel channel
  if ch.autoinit then
    dma.setChannel channel
      { ch with currentAddress := ch.baseAddress, currentCount := ch.baseCount }
  else { dma with mask := dma.mask ||| bit channel }

/-- A byte put into the high or the low half of a register. -/
def putByte (register : BitVec 16) (high : Bool) (value : BitVec 8) : BitVec 16 :=
  if high then register &&& 0x00FF ||| value.setWidth 16 <<< 8
  else register &&& 0xFF00 ||| value.setWidth 16

/-- `ap_i8237_write`. -/
def writeRegister (dma : I8237) (reg : Fin 16) (value : BitVec 8) : I8237 :=
  let named : Fin 4 := (value.extractLsb' 0 2).toFin
  if reg.val < 8 then
    let channel : Fin 4 := Fin.ofNat 4 (reg.val / 2)
    let ch := dma.channel channel
    let ch :=
      if reg.val % 2 = 1 then
        let base := putByte ch.baseCount dma.highByte value
        { ch with baseCount := base, currentCount := base }
      else
        let base := putByte ch.baseAddress dma.highByte value
        { ch with baseAddress := base, currentAddress := base }
    { dma.setChannel channel ch with highByte := !dma.highByte }
  else if reg = 8 then { dma with command := value }
  else if reg = 9 then
    { dma with request := if value.getLsbD 2 then dma.request ||| bit named
        else dma.request &&& ~~~bit named }
  else if reg = 10 then
    { dma with mask := if value.getLsbD 2 then dma.mask ||| bit named
        else dma.mask &&& ~~~bit named }
  else if reg = 11 then dma.setChannel named { dma.channel named with mode := value }
  else if reg = 12 then { dma with highByte := false }
  else if reg = 13 then reset
  else if reg = 14 then { dma with mask := 0 }
  else { dma with mask := value &&& 0x0F }

/-- Whether a transfer may use a channel: it asks, or the controller is in memory to memory. -/
def active (dma : I8237) (channel : Fin 4) : Bool := dma.asks channel || dma.command.getLsbD 0

theorem asks_of_servicePending {dma : I8237} {channel : Fin 4}
    (h : dma.servicePending = some channel) : dma.asks channel = true := by
  unfold servicePending at h
  split_ifs at h
  exact List.find?_some h

/-- The address and the count of a channel after a transfer, and the end of its block. -/
def countDown (dma : I8237) (channel : Fin 4) : Bool × I8237 :=
  let dma := dma.setChannel channel
    { dma.channel channel with currentAddress := (dma.channel channel).nextAddress }
  let expired := (dma.channel channel).currentCount == 0
  let dma := dma.setChannel channel
    { dma.channel channel with currentCount := (dma.channel channel).currentCount - 1 }
  (expired, if expired then dma.terminalCount channel else dma)

end I8237

/-- Where a controller is kept in a state. -/
structure DmaPart (σ : Type) where
  get : σ → I8237
  set : σ → I8237 → σ

/-- `ap_i8237_bus_t`: the accesses of a transfer, on the state the controller is part of. -/
structure DmaBus (σ : Type) where
  memoryRead : σ → BitVec 16 → BitVec 8 × σ
  memoryWrite : σ → BitVec 16 → BitVec 8 → σ
  deviceRead : σ → Fin 4 → BitVec 8 × σ
  deviceWrite : σ → Fin 4 → BitVec 8 → σ

/-- A property of the state that every access at the addresses given leaves true. -/
structure DmaBus.Keeps {σ : Type} (bus : DmaBus σ) (A : BitVec 16 → Prop) (P : σ → Prop) :
    Prop where
  memoryRead : ∀ s address, A address → P s → P (bus.memoryRead s address).2
  memoryWrite : ∀ s address value, A address → P s → P (bus.memoryWrite s address value)
  deviceRead : ∀ s channel, P s → P (bus.deviceRead s channel).2
  deviceWrite : ∀ s channel value, P s → P (bus.deviceWrite s channel value)

/-- A function of the state that keeps what the accesses answer and do. -/
structure DmaBus.Maps {σ τ : Type} (bus : DmaBus σ) (bus' : DmaBus τ) (f : σ → τ) : Prop where
  memoryRead : ∀ s address, bus'.memoryRead (f s) address =
    ((bus.memoryRead s address).1, f (bus.memoryRead s address).2)
  memoryWrite : ∀ s address value,
    bus'.memoryWrite (f s) address value = f (bus.memoryWrite s address value)
  deviceRead : ∀ s channel, bus'.deviceRead (f s) channel =
    ((bus.deviceRead s channel).1, f (bus.deviceRead s channel).2)
  deviceWrite : ∀ s channel value,
    bus'.deviceWrite (f s) channel value = f (bus.deviceWrite s channel value)

/-- `ap_i8237_cycle_t` of a cycle that ran. -/
structure DmaCycle where
  channel : Fin 4
  address : BitVec 16
  wroteMemory : Bool
  terminalCount : Bool
deriving DecidableEq

namespace DmaPart

variable {σ : Type}

/-- The controller changed in place. -/
def modify (part : DmaPart σ) (s : σ) (f : I8237 → I8237) : σ := part.set s (f (part.get s))

/-- `memory_to_memory`. -/
def memoryToMemory (part : DmaPart σ) (bus : DmaBus σ) (s : σ) : Option DmaCycle × σ :=
  let dma := part.get s
  if dma.command.getLsbD 2 || !dma.asks 0 then (none, s)
  else
    let fromAddress := (dma.channel 0).currentAddress
    let toAddress := (dma.channel 1).currentAddress
    let (value, s) := bus.memoryRead s fromAddress
    let s := part.modify s fun dma => { dma with temporary := value }
    let s := bus.memoryWrite s toAddress (part.get s).temporary
    let s := part.modify s fun dma =>
      if dma.command.getLsbD 1 then dma
      else
        let source := dma.channel 0
        dma.setChannel 0 { source with
          currentAddress := if source.mode.getLsbD 5 then fromAddress - 1 else fromAddress + 1 }
    let s := part.modify s fun dma =>
      let destination := dma.channel 1
      dma.setChannel 1 { destination with
        currentAddress := if destination.mode.getLsbD 5 then toAddress - 1 else toAddress + 1 }
    let expired := ((part.get s).channel 1).currentCount == 0
    let s := part.modify s fun dma =>
      let destination := dma.channel 1
      dma.setChannel 1 { destination with currentCount := destination.currentCount - 1 }
    let s := if expired then
        part.modify s fun dma =>
          let dma := dma.terminalCount 1
          { dma with request := dma.request &&& ~~~I8237.bit 0 }
      else s
    (some ⟨1, toAddress, true, expired⟩, s)

/-- The data of a transfer, by its direction. -/
def moveData (bus : DmaBus σ) (channel : Fin 4) (address : BitVec 16) (s : σ) :
    DmaDirection → σ
  | .write =>
    let (value, s) := bus.deviceRead s channel
    bus.memoryWrite s address value
  | .read =>
    let (value, s) := bus.memoryRead s address
    bus.deviceWrite s channel value
  | .verify => s
  | .illegal => s

/-- The count and address of a channel after a transfer, and the end of the block. -/
def countDown (part : DmaPart σ) (channel : Fin 4) (s : σ) : Bool × σ :=
  let s := part.modify s fun dma =>
    let ch := dma.channel channel
    dma.setChannel channel { ch with currentAddress := ch.nextAddress }
  let expired := ((part.get s).channel channel).currentCount == 0
  let s := part.modify s fun dma =>
    let ch := dma.channel channel
    dma.setChannel channel { ch with currentCount := ch.currentCount - 1 }
  (expired, if expired then part.modify s fun dma => dma.terminalCount channel else s)

/-- `ap_i8237_transfer`: the cycle, if one ran. -/
def transfer (part : DmaPart σ) (bus : DmaBus σ) (s : σ) : Option DmaCycle × σ :=
  let dma := part.get s
  if dma.command.getLsbD 0 then part.memoryToMemory bus s
  else
    match dma.servicePending with
    | none => (none, s)
    | some channel =>
      let ch := dma.channel channel
      if ch.modeOf = .cascade then (none, s)
      else if ch.transferOf = .illegal then (none, s)
      else
        let s := moveData bus channel ch.currentAddress s ch.transferOf
        let (expired, s) := part.countDown channel s
        (some ⟨channel, ch.currentAddress, ch.transferOf == .write, expired⟩, s)

/-! ## What a transfer leaves true -/

variable {part : DmaPart σ} {bus : DmaBus σ} {A : BitVec 16 → Prop} {P : σ → Prop}

theorem modify_keeps (hset : ∀ s dma, P s → P (part.set s dma)) {s : σ} (f : I8237 → I8237)
    (h : P s) : P (part.modify s f) := hset _ _ h

theorem memoryToMemory_keeps (hset : ∀ s dma, P s → P (part.set s dma)) (hbus : bus.Keeps A P)
    {s : σ} (hsource : A ((part.get s).channel 0).currentAddress)
    (hdestination : A ((part.get s).channel 1).currentAddress) (h : P s) :
    P (part.memoryToMemory bus s).2 := by
  unfold memoryToMemory
  dsimp only
  split
  · exact h
  · split_ifs
    · dsimp only
      refine modify_keeps hset _ (modify_keeps hset _ (modify_keeps hset _ (modify_keeps hset _ ?_)))
      exact hbus.memoryWrite _ _ _ hdestination (modify_keeps hset _ (hbus.memoryRead _ _ hsource h))
    · dsimp only
      refine modify_keeps hset _ (modify_keeps hset _ (modify_keeps hset _ ?_))
      exact hbus.memoryWrite _ _ _ hdestination (modify_keeps hset _ (hbus.memoryRead _ _ hsource h))

theorem moveData_keeps (hbus : bus.Keeps A P) {s : σ} (channel : Fin 4) {address : BitVec 16}
    (haddress : A address) (direction : DmaDirection) (h : P s) :
    P (moveData bus channel address s direction) := by
  cases direction with
  | write => exact hbus.memoryWrite _ _ _ haddress (hbus.deviceRead _ _ h)
  | read => exact hbus.deviceWrite _ _ _ (hbus.memoryRead _ _ haddress h)
  | verify => exact h
  | illegal => exact h

theorem countDown_keeps (hset : ∀ s dma, P s → P (part.set s dma)) {s : σ} (channel : Fin 4)
    (h : P s) : P (part.countDown channel s).2 := by
  unfold countDown
  dsimp only
  split <;> repeat apply modify_keeps hset
  all_goals exact h

theorem transfer_keeps (hset : ∀ s dma, P s → P (part.set s dma)) (hbus : bus.Keeps A P) {s : σ}
    (haddress : ∀ channel, (part.get s).active channel = true →
      A ((part.get s).channel channel).currentAddress)
    (h : P s) : P (part.transfer bus s).2 := by
  unfold transfer
  dsimp only
  split
  · rename_i hmemory
    refine memoryToMemory_keeps hset hbus (haddress 0 ?_) (haddress 1 ?_) h <;>
      exact Bool.or_eq_true_iff.mpr (.inr hmemory)
  · split
    · exact h
    · rename_i channel hpending
      have hactive := haddress channel
        (Bool.or_eq_true_iff.mpr (.inl (I8237.asks_of_servicePending hpending)))
      split
      · exact h
      · split
        · exact h
        · exact countDown_keeps hset _ (moveData_keeps hbus _ hactive _ h)

/-! ## A transfer on the controller alone -/

/-- A controller that is kept as it was put, and put over what was kept. -/
structure Lawful (part : DmaPart σ) : Prop where
  get_set : ∀ s dma, part.get (part.set s dma) = dma
  set_set : ∀ s dma dma', part.set (part.set s dma) dma' = part.set s dma'

theorem countDown_eq (hlawful : part.Lawful) (channel : Fin 4) (s : σ) :
    part.countDown channel s =
      (((part.get s).countDown channel).1, part.set s ((part.get s).countDown channel).2) := by
  unfold countDown I8237.countDown modify
  simp only [hlawful.get_set, hlawful.set_set]
  split_ifs <;> rfl

theorem transfer_of_pending (hlawful : part.Lawful) {s : σ}
    (hmemory : (part.get s).command.getLsbD 0 = false) {channel : Fin 4}
    (hpending : (part.get s).servicePending = some channel)
    (hmode : ((part.get s).channel channel).modeOf ≠ .cascade)
    (hdirection : ((part.get s).channel channel).transferOf ≠ .illegal) :
    part.transfer bus s =
      let ch := (part.get s).channel channel
      let moved := moveData bus channel ch.currentAddress s ch.transferOf
      let counted := (part.get moved).countDown channel
      (some ⟨channel, ch.currentAddress, ch.transferOf == .write, counted.1⟩,
        part.set moved counted.2) := by
  unfold transfer
  simp only [hmemory, hpending, countDown_eq hlawful, if_neg hmode, if_neg hdirection,
    Bool.false_eq_true, if_false]

theorem pending_of_transfer {s : σ} (hmemory : (part.get s).command.getLsbD 0 = false)
    {cycle : DmaCycle} (hran : (part.transfer bus s).1 = some cycle) :
    (part.get s).servicePending = some cycle.channel ∧
      ((part.get s).channel cycle.channel).modeOf ≠ .cascade ∧
      ((part.get s).channel cycle.channel).transferOf ≠ .illegal := by
  unfold transfer at hran
  simp only [hmemory, Bool.false_eq_true, if_false] at hran
  split at hran
  · exact nomatch hran
  · rename_i channel hpending
    split_ifs at hran with hmode hdirection
    simp only [Option.some.injEq] at hran
    subst hran
    exact ⟨hpending, hmode, hdirection⟩

theorem transfer_none {s : σ} (hran : (part.transfer bus s).1 = none) :
    (part.transfer bus s).2 = s := by
  revert hran
  unfold transfer memoryToMemory
  dsimp only
  split
  · split
    · exact fun _ => rfl
    · exact fun hran => nomatch hran
  · split
    · exact fun _ => rfl
    · split
      · exact fun _ => rfl
      · split
        · exact fun _ => rfl
        · exact fun hran => nomatch hran

/-! ## A transfer seen through a part of the state -/

variable {τ : Type} {part' : DmaPart τ} {bus' : DmaBus τ} {f : σ → τ}

/-- A function of the state that keeps the controller. -/
structure Maps (part : DmaPart σ) (part' : DmaPart τ) (f : σ → τ) : Prop where
  get : ∀ s, part'.get (f s) = part.get s
  set : ∀ s dma, part'.set (f s) dma = f (part.set s dma)

theorem modify_maps (hpart : part.Maps part' f) (s : σ) (change : I8237 → I8237) :
    part'.modify (f s) change = f (part.modify s change) := by
  unfold modify
  rw [hpart.get, hpart.set]

theorem memoryToMemory_maps (hpart : part.Maps part' f) (hbus : bus.Maps bus' f) (s : σ) :
    part'.memoryToMemory bus' (f s) =
      ((part.memoryToMemory bus s).1, f (part.memoryToMemory bus s).2) := by
  unfold memoryToMemory
  simp only [hpart.get, hbus.memoryRead, hbus.memoryWrite, modify_maps hpart]
  split_ifs <;> rfl

theorem moveData_maps (hbus : bus.Maps bus' f) (channel : Fin 4) (address : BitVec 16) (s : σ)
    (direction : DmaDirection) :
    moveData bus' channel address (f s) direction =
      f (moveData bus channel address s direction) := by
  cases direction with
  | write => simp only [moveData, hbus.deviceRead, hbus.memoryWrite]
  | read => simp only [moveData, hbus.memoryRead, hbus.deviceWrite]
  | verify => rfl
  | illegal => rfl

theorem countDown_maps (hpart : part.Maps part' f) (channel : Fin 4) (s : σ) :
    part'.countDown channel (f s) = ((part.countDown channel s).1, f (part.countDown channel s).2) := by
  unfold countDown
  simp only [hpart.get, modify_maps hpart]
  split_ifs <;> rfl

theorem transfer_maps (hpart : part.Maps part' f) (hbus : bus.Maps bus' f) (s : σ) :
    part'.transfer bus' (f s) = ((part.transfer bus s).1, f (part.transfer bus s).2) := by
  unfold transfer
  simp only [hpart.get, memoryToMemory_maps hpart hbus, moveData_maps hbus, countDown_maps hpart]
  split
  · rfl
  · split
    · rfl
    · split_ifs <;> rfl

end DmaPart

end Apollo.Device
