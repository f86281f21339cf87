import Mathlib
import Apollo.Board.Ownership
import Apollo.Board.DmaTrace

/-!
# A block of a channel

A run of the board writes down every transfer: its controller and cycle, the translation map, the
accesses, and the controller after it. `movesBlock_iff` says when a channel moves its block whole:
every unit of data from the device to the translated address or back, byte by byte and in order, the
terminal count at the last, and the channel then masked or reloaded. A channel of the second
controller counts words and moves one byte of each.
-/

namespace Apollo.Device

namespace DmaChannel

/-- The address of a block's transfer, counted from zero. -/
def addressAt (block : DmaChannel) (n : Nat) : BitVec 16 :=
  if block.mode.getLsbD 5 then block.baseAddress - BitVec.ofNat 16 n
  else block.baseAddress + BitVec.ofNat 16 n

/-- A channel after a number of transfers of its block. -/
def after (block : DmaChannel) (n : Nat) : DmaChannel :=
  { block with
    currentAddress := block.addressAt n
    currentCount := block.baseCount - BitVec.ofNat 16 n }

theorem after_zero (block : DmaChannel) :
    block.after 0 =
      { block with currentAddress := block.baseAddress, currentCount := block.baseCount } := by
  simp [after, addressAt]

theorem nextAddress_after (block : DmaChannel) (n : Nat) :
    (block.after n).nextAddress = block.addressAt (n + 1) := by
  unfold nextAddress after addressAt
  dsimp only
  split_ifs
  · rw [BitVec.ofNat_add, BitVec.sub_sub]
    rfl
  · rw [BitVec.ofNat_add, BitVec.add_assoc]
    rfl

theorem currentCount_after {block : DmaChannel} {n : Nat} (h : n ≤ block.baseCount.toNat) :
    (block.after n).currentCount = 0 ↔ n = block.baseCount.toNat := by
  have hlt := block.baseCount.isLt
  show block.baseCount - BitVec.ofNat 16 n = 0 ↔ _
  rw [sub_eq_zero, BitVec.toNat_eq, BitVec.toNat_ofNat, Nat.mod_eq_of_lt (by omega)]
  exact eq_comm

end DmaChannel

namespace I8237

/-- The end of a channel's block: its software request is clear, and it is masked or, with
autoinitialise, as it was programmed. -/
def Ended (dma : I8237) (channel : Fin 4) (block : DmaChannel) : Prop :=
  dma.request.getLsbD channel.val = false ∧
    if block.autoinit then dma.channel channel = block.after 0
    else dma.mask.getLsbD channel.val = true

theorem terminalCount_request (dma : I8237) (channel : Fin 4) :
    (dma.terminalCount channel).request.getLsbD channel.val = false := by
  unfold terminalCount setChannel bit
  dsimp only
  split_ifs <;> fin_cases channel <;> simp

theorem terminalCount_mask {dma : I8237} {channel : Fin 4}
    (h : (dma.channel channel).autoinit = false) :
    (dma.terminalCount channel).mask.getLsbD channel.val = true := by
  unfold terminalCount bit
  simp only [h, Bool.false_eq_true, if_false]
  fin_cases channel <;> simp

theorem terminalCount_channel {dma : I8237} {channel : Fin 4}
    (h : (dma.channel channel).autoinit = true) :
    (dma.terminalCount channel).channel channel = 
      { dma.channel channel with
        currentAddress := (dma.channel channel).baseAddress
        currentCount := (dma.channel channel).baseCount } := by
  unfold terminalCount setChannel
  simp [h]

theorem terminalCount_other {dma : I8237} {channel other : Fin 4} (h : other ≠ channel) :
    (dma.terminalCount channel).channel other = dma.channel other := by
  unfold terminalCount setChannel
  dsimp only
  split_ifs
  · exact Function.update_of_ne h _ _
  · rfl

theorem terminalCount_command (dma : I8237) (channel : Fin 4) :
    (dma.terminalCount channel).command = dma.command := by
  unfold terminalCount setChannel
  dsimp only
  split_ifs <;> rfl

/-! ## The count of a transfer -/

/-- The channel with its address and count moved on, before the end of a block is looked at. -/
def counted (dma : I8237) (channel : Fin 4) : I8237 :=
  dma.setChannel channel
    { dma.channel channel with
      currentAddress := (dma.channel channel).nextAddress
      currentCount := (dma.channel channel).currentCount - 1 }

theorem countDown_eq (dma : I8237) (channel : Fin 4) :
    dma.countDown channel =
      ((dma.channel channel).currentCount == 0,
        if (dma.channel channel).currentCount == 0 then (dma.counted channel).terminalCount channel
        else dma.counted channel) := by
  unfold countDown counted setChannel
  simp only [Function.update_self, Function.update_idem]

theorem countDown_other {dma : I8237} {channel other : Fin 4} (h : other ≠ channel) :
    (dma.countDown channel).2.channel other = dma.channel other := by
  have hcounted : (dma.counted channel).channel other = dma.channel other :=
    Function.update_of_ne h _ _
  rw [countDown_eq]
  dsimp only
  split_ifs
  · rw [terminalCount_other h, hcounted]
  · exact hcounted

theorem countDown_command (dma : I8237) (channel : Fin 4) :
    (dma.countDown channel).2.command = dma.command := by
  rw [countDown_eq]
  dsimp only
  split_ifs
  · exact terminalCount_command _ _
  · rfl

theorem countDown_after {dma : I8237} {channel : Fin 4} {block : DmaChannel} {n : Nat}
    (hchannel : dma.channel channel = block.after n) (h : n < block.baseCount.toNat) :
    (dma.countDown channel).1 = false ∧
      (dma.countDown channel).2.channel channel = block.after (n + 1) := by
  have hcount : ((dma.channel channel).currentCount == 0) = false := by
    rw [beq_eq_false_iff_ne, hchannel, ne_eq, DmaChannel.currentCount_after h.le]
    exact h.ne
  rw [countDown_eq, hcount]
  refine ⟨rfl, ?_⟩
  show Function.update _ channel _ channel = _
  rw [Function.update_self, hchannel, DmaChannel.nextAddress_after]
  unfold DmaChannel.after
  rw [BitVec.ofNat_add, ← BitVec.sub_sub]
  rfl

theorem countDown_ended {dma : I8237} {channel : Fin 4} {block : DmaChannel}
    (hchannel : dma.channel channel = block.after block.baseCount.toNat) :
    (dma.countDown channel).1 = true ∧ (dma.countDown channel).2.Ended channel block := by
  have hcount : ((dma.channel channel).currentCount == 0) = true := by
    rw [beq_iff_eq, hchannel]
    exact (DmaChannel.currentCount_after le_rfl).mpr rfl
  have hcounted : (dma.counted channel).channel channel =
      { block.after block.baseCount.toNat with
        currentAddress := (dma.channel channel).nextAddress
        currentCount := (dma.channel channel).currentCount - 1 } := by
    show Function.update _ channel _ channel = _
    rw [Function.update_self, hchannel]
  rw [countDown_eq, hcount]
  refine ⟨rfl, terminalCount_request _ _, ?_⟩
  cases hauto : block.autoinit with
  | true =>
    rw [if_pos rfl, if_pos rfl, terminalCount_channel (by rw [hcounted]; exact hauto), hcounted,
      DmaChannel.after_zero]
    rfl
  | false =>
    rw [if_neg (by decide), if_pos rfl]
    exact terminalCount_mask (by rw [hcounted]; exact hauto)

end I8237

end Apollo.Device

namespace Apollo.Board

open Device

/-- The accesses that move a byte of a channel. -/
def byteMove (unit : Fin 2) (channel : Fin 4) :
    DmaDirection → BitVec 32 → BitVec 8 → List DmaAccess
  | .write, physical, value => [.deviceRead unit channel value, .memoryWrite physical value]
  | .read, physical, value => [.memoryRead physical value, .deviceWrite unit channel value]
  | .verify, _, _ => []
  | .illegal, _, _ => []

/-- The bytes of a unit of data of a controller. -/
def width (unit : Fin 2) : Nat := if unit = 0 then 1 else 2

/-- The accesses that move a unit of data: each of its bytes, in order, at its address. -/
def Whole (unit : Fin 2) (channel : Fin 4) (direction : DmaDirection) (physical : BitVec 32)
    (accesses : List DmaAccess) : Prop :=
  ∃ bytes : List (BitVec 8), bytes.length = width unit ∧
    accesses = bytes.zipIdx.flatMap fun (value, k) =>
      byteMove unit channel direction (physical + BitVec.ofNat 32 k) value

theorem whole_byteMove_iff {unit : Fin 2} {channel : Fin 4} {direction : DmaDirection}
    {physical : BitVec 32} {value : BitVec 8} (hlegal : direction ≠ .illegal) :
    Whole unit channel direction physical (byteMove unit channel direction physical value) ↔
      unit = 0 ∨ direction = .verify := by
  have hmoves (value : BitVec 8) (physical : BitVec 32) (hverify : direction ≠ .verify) :
      (byteMove unit channel direction physical value).length = 2 := by
    cases direction <;> first | rfl | contradiction
  constructor
  · rintro ⟨bytes, hlength, hmove⟩
    by_contra hneither
    obtain ⟨hunit, hverify⟩ := not_or.mp hneither
    rw [width, if_neg hunit] at hlength
    obtain ⟨first, second, rfl⟩ := List.length_eq_two.mp hlength
    have htwo := congrArg List.length hmove
    simp only [List.zipIdx_cons, List.zipIdx_nil, List.flatMap_cons, List.flatMap_nil,
      List.length_append, List.length_nil, hmoves _ _ hverify] at htwo
    omega
  · rintro (hunit | hverify)
    · subst hunit
      refine ⟨[value], rfl, ?_⟩
      simp
    · subst hverify
      refine ⟨List.replicate (width unit) value, List.length_replicate, ?_⟩
      simp [byteMove]

/-- A transfer of a run. -/
structure DmaRecord where
  unit : Fin 2
  cycle : DmaCycle
  /-- The translation map at the clock of the transfer. -/
  map : AtMap
  accesses : List DmaAccess
  /-- The controller after it. -/
  after : I8237

/-- Whether a transfer is a channel's. -/
def DmaRecord.isOf (unit : Fin 2) (channel : Fin 4) (record : DmaRecord) : Bool :=
  record.unit = unit ∧ record.cycle.channel = channel

namespace Machine

variable {ρ : Type} (machine : Machine ρ)

/-- A clock of the bus, and the transfer that ran. -/
def tick (bus : Bus ρ) : List DmaRecord × Bus ρ :=
  let (ran, traced) := (bus.traced []).tick machine.tracedDevices
  (ran.toList.map fun (unit, cycle) =>
      ⟨unit, cycle, machine.map bus.parts.rest, traced.parts.rest.2, traced.parts.dma unit⟩,
    traced.untraced)

/-- A run of the board, and its transfers. -/
def run (bus : Bus ρ) : List (Event ρ) → List DmaRecord × Bus ρ
  | [] => ([], bus)
  | .tick :: events =>
    let (records, bus) := machine.tick bus
    let (more, bus) := run bus events
    (records ++ more, bus)
  | event :: events => run (bus.handle machine.devices event) events

theorem tick_snd (bus : Bus ρ) : (machine.tick bus).2 = (bus.tick machine.devices).2 :=
  (congrArg Prod.snd (Bus.tick_traced machine (bus.traced []))).symm

/-! ## The bus when a transfer may run -/

/-- The bus of a clock when the arbiter has answered. -/
def serving (bus : Bus ρ) : Bus ρ := (bus.polled machine.devices).arbitrate

theorem drivePin_channel (parts : Parts ρ) (unit driven : Fin 2) (channel : Fin 4)
    (asserted : Bool) :
    ((Bus.drivePin parts driven channel asserted).dma unit).channel = (parts.dma unit).channel ∧
      ((Bus.drivePin parts driven channel asserted).dma unit).command =
        (parts.dma unit).command := by
  show (Function.update parts.dma driven _ unit).channel = _ ∧
    (Function.update parts.dma driven _ unit).command = _
  by_cases h : unit = driven
  · subst h
    rw [Function.update_self]
    exact ⟨rfl, rfl⟩
  · rw [Function.update_of_ne h]
    exact ⟨rfl, rfl⟩

theorem serving_dma (bus : Bus ρ) (unit : Fin 2) :
    (((machine.serving bus).parts.dma unit).channel = (bus.parts.dma unit).channel) ∧
      ((machine.serving bus).parts.dma unit).command = (bus.parts.dma unit).command := by
  have hport (parts : Parts ρ) (channel : Fin 4) (asserted : Bool) :
      (controller 0).set parts ((parts.dma 0).setRequestPin channel asserted) =
        Bus.drivePin parts 0 channel asserted := rfl
  have hserving : (machine.serving bus).parts =
      Bus.drivePin (bus.polled machine.devices).parts 0 bus.refresh.master.channel
        bus.refresh.master.request := rfl
  have hpoll : (Bus.poll machine.devices bus.parts).dma = (bus.polled machine.devices).parts.dma :=
    rfl
  rw [hserving, (drivePin_channel _ _ _ _ _).1, (drivePin_channel _ _ _ _ _).2, ← hpoll]
  unfold Bus.poll
  dsimp only
  simp only [drivePin_channel, and_self]

theorem serving_map (bus : Bus ρ) :
    machine.map (machine.serving bus).parts.rest = machine.map bus.parts.rest :=
  machine.map_ethernet bus.parts.rest

theorem tick_serving {bus : Bus ρ} (h : bus.parts.dmaPossible = true) :
    (bus.traced []).tick machine.tracedDevices =
      ((machine.serving bus).traced []).serve machine.tracedDevices
        ((Bus.poll machine.devices bus.parts).dma 1).servicePending := by
  have hrefresh : (bus.traced []).refresh = bus.refresh.traced [] := by
    unfold Bus.refresh Bus.traced
    dsimp only
    split_ifs <;> rfl
  have hpolled : (bus.traced []).polled machine.tracedDevices =
      (bus.polled machine.devices).traced [] := by
    unfold Bus.polled
    rw [hrefresh]
    rfl
  have hup : (bus.traced []).parts.dmaPossible = true := h
  rw [Bus.tick_up machine.tracedDevices hup, hpolled]
  rfl

/-! ## The accesses of a transfer -/

/-- A transfer of a channel whose address is no register: the controllers and the map stay, and a
byte moves. -/
theorem moveData_traced {unit : Fin 2} (channel : Fin 4) {address : BitVec 16}
    {parts : Parts ρ} (hclear : machine.register
      ((machine.map parts.rest).dmaPhysical unit address) = false) (direction : DmaDirection) :
    let moved := DmaPart.moveData (machine.tracedBus unit) channel address (parts.traced []) direction
    moved.dma = parts.dma ∧ machine.map moved.rest.1 = machine.map parts.rest ∧
      ∃ value, moved.rest.2 = byteMove unit channel direction
        ((machine.map parts.rest).dmaPhysical unit address) value := by
  cases direction with
  | write =>
    have hmap := machine.map_deviceRead unit parts.rest channel
    obtain ⟨hdma, hafter⟩ := machine.write_elsewhere
      { parts with rest := (machine.deviceRead unit parts.rest channel).2 } _
      (machine.deviceRead unit parts.rest channel).1 hclear
    rw [← hmap] at hdma hafter
    refine ⟨hdma, hafter.trans hmap, (machine.deviceRead unit parts.rest channel).1, ?_⟩
    show [] ++ [_] ++ [DmaAccess.memoryWrite (AtMap.dmaPhysical (machine.map _) _ _) _] = _
    rw [← hmap]
    rfl
  | read =>
    obtain ⟨hdma, hafter⟩ := machine.read_elsewhere parts _ hclear
    exact ⟨hdma, (machine.map_deviceWrite _ _ _ _).trans hafter, _, rfl⟩
  | verify => exact ⟨rfl, rfl, 0, rfl⟩
  | illegal => exact ⟨rfl, rfl, 0, rfl⟩

theorem controller_lawful {σ : Type} (unit : Fin 2) :
    (controller unit : DmaPart (Parts σ)).Lawful where
  get_set parts dma := by
    show Function.update parts.dma unit dma unit = dma
    rw [Function.update_self]
  set_set parts dma dma' := by
    show Parts.mk (Function.update (Function.update parts.dma unit dma) unit dma') _ _ = _
    rw [Function.update_idem]
    rfl

theorem transfer_own {unit : Fin 2} {parts : Parts ρ}
    (hmemory : (parts.dma unit).command.getLsbD 0 = false)
    (hclear : ∀ channel, (parts.dma unit).active channel = true → machine.register
      ((machine.map parts.rest).dmaPhysical unit
        ((parts.dma unit).channel channel).currentAddress) = false)
    {cycle : DmaCycle}
    (hran : ((controller unit).transfer (machine.tracedBus unit) (parts.traced [])).1 =
      some cycle) :
    let after := ((controller unit).transfer (machine.tracedBus unit) (parts.traced [])).2
    let ch := (parts.dma unit).channel cycle.channel
    cycle.terminalCount = ((parts.dma unit).countDown cycle.channel).1 ∧
      after.dma unit = ((parts.dma unit).countDown cycle.channel).2 ∧
      ch.transferOf ≠ .illegal ∧
      ∃ value, after.rest.2 = byteMove unit cycle.channel ch.transferOf
        ((machine.map parts.rest).dmaPhysical unit ch.currentAddress) value := by
  have hcommand : ((controller unit : DmaPart (Parts (ρ × List DmaAccess))).get
      (parts.traced [])).command.getLsbD 0 = false := hmemory
  obtain ⟨hpending, hmode, hdirection⟩ := DmaPart.pending_of_transfer hcommand hran
  have hactive : (parts.dma unit).active cycle.channel = true :=
    Bool.or_eq_true_iff.mpr (.inl (I8237.asks_of_servicePending hpending))
  obtain ⟨hdma, -, hmoved⟩ := machine.moveData_traced cycle.channel
    (hclear _ hactive) ((parts.dma unit).channel cycle.channel).transferOf
  have htransfer : (controller unit).transfer (machine.tracedBus unit) (parts.traced []) = _ :=
    DmaPart.transfer_of_pending (controller_lawful unit) hcommand hpending hmode hdirection
  intro after ch
  have hget : (controller unit).get (DmaPart.moveData (machine.tracedBus unit) cycle.channel
      ch.currentAddress (parts.traced []) ch.transferOf) = parts.dma unit :=
    congrFun hdma unit
  have hcycle : cycle.terminalCount = ((parts.dma unit).countDown cycle.channel).1 := by
    rw [htransfer] at hran
    have hran := congrArg DmaCycle.terminalCount (Option.some.inj hran)
    rw [← hran, ← hget]
    rfl
  have hafter : after = (controller unit).set
      (DmaPart.moveData (machine.tracedBus unit) cycle.channel ch.currentAddress (parts.traced [])
        ch.transferOf) ((parts.dma unit).countDown cycle.channel).2 := by
    rw [← hget]
    exact congrArg Prod.snd htransfer
  refine ⟨hcycle, ?_, hdirection, ?_⟩
  · rw [hafter]
    exact (controller_lawful unit).get_set _ _
  · rw [hafter]
    exact hmoved

/-- The accesses leave a channel's device alone. -/
def Untouched (unit : Fin 2) (channel : Fin 4) (accesses : List DmaAccess) : Prop :=
  ∀ value, .deviceRead unit channel value ∉ accesses ∧ .deviceWrite unit channel value ∉ accesses

theorem Untouched.append {unit : Fin 2} {channel : Fin 4} {accesses : List DmaAccess}
    (h : Untouched unit channel accesses) {access : DmaAccess}
    (hread : ∀ value, access ≠ .deviceRead unit channel value)
    (hwrite : ∀ value, access ≠ .deviceWrite unit channel value) :
    Untouched unit channel (accesses ++ [access]) := by
  intro value
  rw [List.mem_append, List.mem_append, List.mem_singleton, List.mem_singleton, not_or, not_or]
  exact ⟨⟨(h value).1, (hread value).symm⟩, (h value).2, (hwrite value).symm⟩

theorem untouched_byteMove {unit : Fin 2} {channel moved : Fin 4} (h : moved ≠ channel)
    (direction : DmaDirection) (physical : BitVec 32) (value : BitVec 8) :
    Untouched unit channel (byteMove unit moved direction physical value) := by
  intro other
  cases direction <;> simp [byteMove, h.symm]

theorem transfer_other {unit other : Fin 2} (hother : other ≠ unit) (channel : Fin 4)
    {parts : Parts ρ}
    (hclear : ∀ channel, (parts.dma other).active channel = true → machine.register
      ((machine.map parts.rest).dmaPhysical other
        ((parts.dma other).channel channel).currentAddress) = false) :
    let after := ((controller other).transfer (machine.tracedBus other) (parts.traced [])).2
    after.dma unit = parts.dma unit ∧ Untouched unit channel after.rest.2 := by
  refine (@DmaPart.transfer_keeps _ (controller other) (machine.tracedBus other)
    (fun address =>
      machine.register ((machine.map parts.rest).dmaPhysical other address) = false)
    (fun after => machine.map after.rest.1 = machine.map parts.rest ∧
      after.dma unit = parts.dma unit ∧ Untouched unit channel after.rest.2)
    ?_ ?_ (parts.traced []) hclear ⟨rfl, rfl, ?_⟩).2
  · rintro after dma ⟨hmap, hdma, huntouched⟩
    refine ⟨hmap, ?_, huntouched⟩
    exact (Function.update_of_ne hother.symm _ _).trans hdma
  · refine ⟨?_, ?_, ?_, ?_⟩
    · rintro after address hregister ⟨hmap, hdma, huntouched⟩
      rw [← hmap] at hregister
      obtain ⟨hcontrollers, hafter⟩ := machine.read_elsewhere after.untraced _ hregister
      exact ⟨hafter.trans hmap, (congrFun hcontrollers unit).trans hdma,
        huntouched.append (by simp) (by simp)⟩
    · rintro after address value hregister ⟨hmap, hdma, huntouched⟩
      rw [← hmap] at hregister
      obtain ⟨hcontrollers, hafter⟩ := machine.write_elsewhere after.untraced _ value hregister
      exact ⟨hafter.trans hmap, (congrFun hcontrollers unit).trans hdma,
        huntouched.append (by simp) (by simp)⟩
    · rintro after served ⟨hmap, hdma, huntouched⟩
      exact ⟨(machine.map_deviceRead _ _ _).trans hmap, hdma,
        huntouched.append (by simp [hother]) (by simp)⟩
    · rintro after served value ⟨hmap, hdma, huntouched⟩
      exact ⟨(machine.map_deviceWrite _ _ _ _).trans hmap, hdma,
        huntouched.append (by simp) (by simp [hother])⟩
  · exact fun value => ⟨List.not_mem_nil, List.not_mem_nil⟩

/-! ## A clock, for a channel -/

/-- No channel that a transfer may use has an address that is translated to a register. -/
def Clear (bus : Bus ρ) : Prop :=
  bus.parts.dmaPossible = true → ∀ unit channel,
    ((machine.serving bus).parts.dma unit).active channel = true →
      machine.register ((machine.map bus.parts.rest).dmaPhysical unit
        ((bus.parts.dma unit).channel channel).currentAddress) = false

/-- The channel of a clock that transfers nothing for it: it stays as it was, and its device is left
alone. -/
structure Spared (unit : Fin 2) (channel : Fin 4) (bus : Bus ρ) (out : List DmaRecord × Bus ρ) :
    Prop where
  records : ∀ record ∈ out.1, record.isOf unit channel = false ∧
    Untouched unit channel record.accesses
  channel : (out.2.parts.dma unit).channel channel = (bus.parts.dma unit).channel channel
  command : (out.2.parts.dma unit).command = (bus.parts.dma unit).command

/-- The channel of a clock that transfers for it: one record, of a byte at its address, after which
the controller has counted. -/
structure Served (unit : Fin 2) (channel : Fin 4) (table : AtMap) (bus : Bus ρ)
    (out : List DmaRecord × Bus ρ) (record : DmaRecord) (dma : I8237) : Prop where
  records : out.1 = [record]
  isOf : record.isOf unit channel = true
  map : record.map = table
  before : dma.channel channel = (bus.parts.dma unit).channel channel ∧
    dma.command = (bus.parts.dma unit).command
  terminal : record.cycle.terminalCount = (dma.countDown channel).1
  after : record.after = (dma.countDown channel).2
  controller : out.2.parts.dma unit = record.after
  legal : (dma.channel channel).transferOf ≠ .illegal
  accesses : ∃ value, record.accesses = byteMove unit channel (dma.channel channel).transferOf
    (table.dmaPhysical unit (dma.channel channel).currentAddress) value

theorem tick_ran {bus : Bus ρ} {serving : Bus (ρ × List DmaAccess)} {served : Fin 2}
    {cycle : DmaCycle} {after : Parts (ρ × List DmaAccess)}
    (h : (bus.traced []).tick machine.tracedDevices =
      serving.finish machine.tracedDevices served (some cycle, after)) :
    (machine.tick bus).1 =
        [⟨served, cycle, machine.map bus.parts.rest, after.rest.2, after.dma served⟩] ∧
      (machine.tick bus).2.parts.dma = after.dma := by
  unfold tick
  rw [h]
  unfold Bus.finish
  dsimp only
  cases cycle.terminalCount <;> exact ⟨rfl, rfl⟩

theorem tick_channel {bus : Bus ρ} (hclear : machine.Clear bus) {unit : Fin 2} (channel : Fin 4)
    (hmemory : (bus.parts.dma unit).command.getLsbD 0 = false) :
    Spared unit channel bus (machine.tick bus) ∨
      ∃ record dma, Served unit channel (machine.map bus.parts.rest) bus (machine.tick bus) record
        dma := by
  cases hpossible : bus.parts.dmaPossible with
  | false =>
    have hdown : (bus.traced []).parts.dmaPossible = false := hpossible
    have htick := Bus.tick_down machine.tracedDevices hdown
    have hafter : (machine.tick bus).2.parts =
        Bus.drivePin bus.parts 0 bus.refresh.master.channel bus.refresh.master.request := by
      rw [tick_snd, Bus.tick_down machine.devices hpossible, ← Bus.refresh_parts bus]
      rfl
    obtain ⟨hchannel, hcommand⟩ := drivePin_channel bus.parts unit 0 bus.refresh.master.channel
      bus.refresh.master.request
    refine .inl ⟨fun record hrecord => ?_, ?_, ?_⟩
    · unfold tick at hrecord
      rw [htick] at hrecord
      exact absurd hrecord List.not_mem_nil
    · rw [hafter, hchannel]
    · rw [hafter, hcommand]
  | true =>
    have htick := machine.tick_serving hpossible
    obtain ⟨hchannel, hcommand⟩ := machine.serving_dma bus unit
    have hspared (left : Nat) (h : (bus.traced []).tick machine.tracedDevices =
        (none, { (machine.serving bus).traced [] with dmaTransferTicksLeft := left })) :
        Spared unit channel bus (machine.tick bus) := by
      unfold tick
      rw [h]
      exact ⟨fun record hrecord => absurd hrecord List.not_mem_nil, congrFun hchannel channel,
        hcommand⟩
    unfold Bus.serve at htick
    split_ifs at htick with hmaster hleft
    · exact .inl (hspared _ htick)
    · exact .inl (hspared _ htick)
    · dsimp only at htick
      generalize Bus.transferUnit ((machine.serving bus).traced []).parts _ = served at htick
      have hcleared (channel : Fin 4) (hactive : ((machine.serving bus).parts.dma served).active
          channel = true) : machine.register
          ((machine.map (machine.serving bus).parts.rest).dmaPhysical served
            (((machine.serving bus).parts.dma served).channel channel).currentAddress) = false := by
        rw [serving_map, (machine.serving_dma bus served).1]
        exact hclear hpossible served channel hactive
      generalize hafter : ((controller served).transfer (machine.tracedBus served)
        ((machine.serving bus).parts.traced [])).2 = after
      cases hran : ((controller served).transfer (machine.tracedBus served)
          ((machine.serving bus).parts.traced [])).1 with
      | none =>
        have hsame : after = (machine.serving bus).parts.traced [] :=
          hafter.symm.trans (DmaPart.transfer_none hran)
        refine .inl (hspared (machine.serving bus).dmaTransferTicksLeft (htick.trans ?_))
        exact congrArg (Bus.finish machine.tracedDevices ((machine.serving bus).traced []) served)
          (Prod.ext hran (hafter.trans hsame) : _ =
            ((none, (machine.serving bus).parts.traced []) :
              Option DmaCycle × Parts (ρ × List DmaAccess)))
      | some cycle =>
        obtain ⟨hrecords, hdma⟩ := machine.tick_ran (htick.trans
          (congrArg (Bus.finish machine.tracedDevices ((machine.serving bus).traced []) served)
            (Prod.ext hran hafter : _ = ((some cycle, after) :
              Option DmaCycle × Parts (ρ × List DmaAccess)))))
        by_cases hserved : served = unit
        · subst hserved
          have hmemory : ((machine.serving bus).parts.dma served).command.getLsbD 0 = false := by
            rw [hcommand]
            exact hmemory
          obtain ⟨hterminal, hcontroller, hlegal, hmoved⟩ :=
            machine.transfer_own hmemory hcleared hran
          rw [hafter] at hcontroller hmoved
          by_cases hcycle : cycle.channel = channel
          · subst hcycle
            refine .inr ⟨_, (machine.serving bus).parts.dma served, hrecords, ?_, rfl,
              ⟨congrFun hchannel _, hcommand⟩, hterminal, hcontroller, ?_, hlegal, ?_⟩
            · simp [DmaRecord.isOf]
            · rw [hdma]
            · rw [← serving_map]
              exact hmoved
          · refine .inl ⟨fun record hrecord => ?_, ?_, ?_⟩
            · rw [hrecords, List.mem_singleton] at hrecord
              subst hrecord
              obtain ⟨value, hmoved⟩ := hmoved
              refine ⟨by simp [DmaRecord.isOf, hcycle], ?_⟩
              show Untouched served channel after.rest.2
              rw [hmoved]
              exact untouched_byteMove hcycle _ _ _
            · rw [hdma, hcontroller, I8237.countDown_other (Ne.symm hcycle), hchannel]
            · rw [hdma, hcontroller, I8237.countDown_command, hcommand]
        · obtain ⟨hcontroller, huntouched⟩ :=
            machine.transfer_other hserved channel hcleared
          rw [hafter] at hcontroller huntouched
          refine .inl ⟨fun record hrecord => ?_, ?_, ?_⟩
          · rw [hrecords, List.mem_singleton] at hrecord
            subst hrecord
            exact ⟨by simp [DmaRecord.isOf, hserved], huntouched⟩
          · rw [hdma, hcontroller, hchannel]
          · rw [hdma, hcontroller, hcommand]

/-! ## A run, for a channel -/

/-- A run that leaves a channel's programming alone: no access writes the channel or puts its
controller in memory to memory, and no transfer is translated to a register. -/
def Undisturbed (unit : Fin 2) (channel : Fin 4) : Bus ρ → List (Event ρ) → Prop
  | _, [] => True
  | bus, .tick :: events =>
    machine.Clear bus ∧ Undisturbed unit channel (machine.tick bus).2 events
  | bus, .access dma touched rest :: events =>
    ((dma unit).channel channel = (bus.parts.dma unit).channel channel ∧
      (dma unit).command.getLsbD 0 = false) ∧
      Undisturbed unit channel (bus.handle machine.devices (.access dma touched rest)) events
  | bus, event :: events =>
    Undisturbed unit channel (bus.handle machine.devices event) events

/-- A transfer of a block, counted from zero: a byte moved at its address, the terminal count if it
is the last, and then the end of the block. -/
structure TransferOf (unit : Fin 2) (channel : Fin 4) (block : DmaChannel) (n : Nat)
    (record : DmaRecord) : Prop where
  legal : block.transferOf ≠ .illegal
  accesses : ∃ value, record.accesses = byteMove unit channel block.transferOf
    (record.map.dmaPhysical unit (block.addressAt n)) value
  terminal : record.cycle.terminalCount = true ↔ n = block.baseCount.toNat
  ended : n = block.baseCount.toNat → record.after.Ended channel block

theorem Served.transferOf {unit : Fin 2} {channel : Fin 4} {table : AtMap} {bus : Bus ρ}
    {out : List DmaRecord × Bus ρ} {record : DmaRecord} {dma : I8237}
    (h : Served unit channel table bus out record dma) {block : DmaChannel} {n : Nat}
    (hn : n ≤ block.baseCount.toNat)
    (hchannel : (bus.parts.dma unit).channel channel = block.after n) :
    TransferOf unit channel block n record ∧ (n + 1 ≤ block.baseCount.toNat →
      (out.2.parts.dma unit).channel channel = block.after (n + 1)) := by
  have hbefore : dma.channel channel = block.after n := h.before.1.trans hchannel
  have hlegal : block.transferOf ≠ .illegal := by
    have hlegal := h.legal
    rw [hbefore] at hlegal
    exact hlegal
  have hmoved : ∃ value, record.accesses = byteMove unit channel block.transferOf
      (record.map.dmaPhysical unit (block.addressAt n)) value := by
    have haccesses := h.accesses
    rw [hbefore, ← h.map] at haccesses
    exact haccesses
  rcases Nat.lt_or_eq_of_le hn with hlt | rfl
  · obtain ⟨hterminal, hafter⟩ := I8237.countDown_after hbefore hlt
    refine ⟨⟨hlegal, hmoved, ?_, fun hlast => absurd hlast hlt.ne⟩, fun _ => ?_⟩
    · rw [h.terminal, hterminal]
      exact ⟨fun hfalse => absurd hfalse (by decide), fun hlast => absurd hlast hlt.ne⟩
    · rw [h.controller, h.after, hafter]
  · obtain ⟨hterminal, hended⟩ := I8237.countDown_ended hbefore
    refine ⟨⟨hlegal, hmoved, ?_, fun _ => ?_⟩, fun hless => absurd hless (by omega)⟩
    · rw [h.terminal, hterminal]
      exact ⟨fun _ => rfl, fun _ => rfl⟩
    · rw [h.after]
      exact hended

theorem run_transfers {unit : Fin 2} {channel : Fin 4} {block : DmaChannel} {bus : Bus ρ}
    {events : List (Event ρ)} (hundisturbed : machine.Undisturbed unit channel bus events)
    (hmemory : (bus.parts.dma unit).command.getLsbD 0 = false) {n : Nat}
    (hchannel : n ≤ block.baseCount.toNat →
      (bus.parts.dma unit).channel channel = block.after n) :
    (∀ i (h : i < ((machine.run bus events).1.filter (·.isOf unit channel)).length),
      n + i ≤ block.baseCount.toNat → TransferOf unit channel block (n + i)
        (((machine.run bus events).1.filter (·.isOf unit channel)).get ⟨i, h⟩)) ∧
    ∀ record ∈ (machine.run bus events).1, record.isOf unit channel = false →
      Untouched unit channel record.accesses := by
  induction events generalizing bus n with
  | nil => exact ⟨fun i h => absurd h (Nat.not_lt_zero i), fun _ h => absurd h List.not_mem_nil⟩
  | cons event events ih =>
    cases event with
    | tick =>
      obtain ⟨hclear, hrest⟩ := hundisturbed
      have hrun : (machine.run bus (.tick :: events)).1 =
          (machine.tick bus).1 ++ (machine.run (machine.tick bus).2 events).1 := rfl
      rw [hrun, List.filter_append]
      rcases machine.tick_channel hclear channel hmemory with hspared | ⟨record, dma, hserved⟩
      · have hnone : (machine.tick bus).1.filter (·.isOf unit channel) = [] :=
          List.filter_eq_nil_iff.mpr fun record hrecord => by
            rw [(hspared.records record hrecord).1]
            decide
        obtain ⟨hmoved, huntouched⟩ := ih hrest (by rw [hspared.command]; exact hmemory)
          fun hn => hspared.channel.trans (hchannel hn)
        rw [hnone, List.nil_append]
        refine ⟨hmoved, fun record hrecord hother => ?_⟩
        rcases List.mem_append.mp hrecord with hfirst | hlater
        · exact (hspared.records record hfirst).2
        · exact huntouched record hlater hother
      · have hcommand : ((machine.tick bus).2.parts.dma unit).command.getLsbD 0 = false := by
          rw [hserved.controller, hserved.after, I8237.countDown_command, hserved.before.2]
          exact hmemory
        have hone : (machine.tick bus).1.filter (·.isOf unit channel) = [record] := by
          rw [hserved.records, List.filter_singleton, hserved.isOf]
          rfl
        obtain ⟨hmoved, huntouched⟩ := ih hrest hcommand (n := n + 1)
          fun hn => (hserved.transferOf (by omega) (hchannel (by omega))).2 hn
        rw [hone, List.singleton_append]
        refine ⟨fun i hi hn => ?_, fun record' hrecord hother => ?_⟩
        · cases i with
          | zero => exact (hserved.transferOf hn (hchannel hn)).1
          | succ i =>
            have hlater := hmoved i (Nat.lt_of_succ_lt_succ hi) (by omega)
            rw [show n + (i + 1) = n + 1 + i by omega]
            exact hlater
        · rcases List.mem_append.mp hrecord with hfirst | hlater
          · rw [hserved.records, List.mem_singleton] at hfirst
            subst hfirst
            exact absurd (hserved.isOf.symm.trans hother) (by decide)
          · exact huntouched record' hlater hother
    | access dma touched rest =>
      obtain ⟨⟨hkept, hcommand⟩, hrest⟩ := hundisturbed
      exact ih hrest hcommand fun hn => hkept.trans (hchannel hn)
    | rmc rmc => exact ih hundisturbed hmemory hchannel
    | committed cycleCommitted => exact ih hundisturbed hmemory hchannel
    | adapter request masterL => exact ih hundisturbed hmemory hchannel

/-- A block moved whole: the i-th transfer of the channel moves the i-th unit of data at the i-th
address, the terminal count is at the last and the channel ends as its mode says, and no other
transfer takes from the channel's device or gives to it. -/
structure MovesBlock (unit : Fin 2) (channel : Fin 4) (block : DmaChannel)
    (records : List DmaRecord) : Prop where
  moved : ∀ i (h : i < (records.filter (·.isOf unit channel)).length),
    i ≤ block.baseCount.toNat →
      let record := (records.filter (·.isOf unit channel)).get ⟨i, h⟩
      Whole unit channel block.transferOf (record.map.dmaPhysical unit (block.addressAt i))
          record.accesses ∧
        (record.cycle.terminalCount = true ↔ i = block.baseCount.toNat) ∧
        (i = block.baseCount.toNat → record.after.Ended channel block)
  untouched : ∀ record ∈ records, record.isOf unit channel = false →
    Untouched unit channel record.accesses

/-- A BLOCK IS MOVED WHOLE EXACTLY WHEN A BYTE IS ITS UNIT: on the first controller, or when no byte
moves. -/
theorem movesBlock_iff {unit : Fin 2} {channel : Fin 4} {block : DmaChannel} {bus : Bus ρ}
    (hprogrammed : (bus.parts.dma unit).channel channel = block.after 0)
    (hmemory : (bus.parts.dma unit).command.getLsbD 0 = false) {events : List (Event ρ)}
    (hundisturbed : machine.Undisturbed unit channel bus events) :
    MovesBlock unit channel block (machine.run bus events).1 ↔
      unit = 0 ∨ block.transferOf = .verify ∨
        (machine.run bus events).1.filter (·.isOf unit channel) = [] := by
  obtain ⟨hmoved, huntouched⟩ := machine.run_transfers hundisturbed hmemory (n := 0)
    fun _ => hprogrammed
  simp only [Nat.zero_add] at hmoved
  constructor
  · intro h
    by_cases hnone : (machine.run bus events).1.filter (·.isOf unit channel) = []
    · exact .inr (.inr hnone)
    · have hfirst := List.length_pos_of_ne_nil hnone
      obtain ⟨value, hvalue⟩ := (hmoved 0 hfirst (Nat.zero_le _)).accesses
      have hwhole := (h.moved 0 hfirst (Nat.zero_le _)).1
      rw [hvalue] at hwhole
      rcases (whole_byteMove_iff (hmoved 0 hfirst (Nat.zero_le _)).legal).mp hwhole with
        hunit | hverify
      · exact .inl hunit
      · exact .inr (.inl hverify)
  · intro h
    refine ⟨fun i hi hcount => ?_, huntouched⟩
    have htransfer := hmoved i hi hcount
    refine ⟨?_, htransfer.terminal, htransfer.ended⟩
    obtain ⟨value, hvalue⟩ := htransfer.accesses
    rw [hvalue, whole_byteMove_iff htransfer.legal]
    rcases h with hunit | hverify | hnone
    · exact .inl hunit
    · exact .inr hverify
    · rw [hnone] at hi
      exact absurd hi (Nat.not_lt_zero i)

end Machine

/-! ## Blocks of one and of two -/

/-- A machine of zeros whose devices answer `A5`. -/
def zeroMachine : Machine Unit where
  tapeDmaRequest _ := false
  tapeReading _ := false
  diskDmaRequest _ := false
  fdcDmaRequest _ := false
  ethernetDmaRequest rest := (false, rest)
  map _ := ⟨fun _ => 0⟩
  read parts _ := (0, parts)
  write parts _ _ := parts
  deviceRead _ rest _ := (0xA5, rest)
  deviceWrite _ rest _ _ := rest
  terminalCount _ _ rest := rest
  register _ := false
  read_possible _ _ h := h
  write_possible _ _ _ h := h
  read_elsewhere _ _ _ := ⟨rfl, rfl⟩
  write_elsewhere _ _ _ _ := ⟨rfl, rfl⟩
  map_ethernet _ := rfl
  map_deviceRead _ _ _ := rfl
  map_deviceWrite _ _ _ _ := rfl

/-- Channel 2 programmed to write one unit of data at 0100 in block mode. -/
def oneUnit : DmaChannel := ⟨0x0100, 0, 0x0100, 0, 0x86⟩

/-- A controller so programmed, and asked by software. -/
def askedOnce : I8237 :=
  (((((I8237.reset.writeRegister 11 0x86).writeRegister 4 0x00).writeRegister 4 0x01).writeRegister 5
    0x00).writeRegister 5 0x00).writeRegister 9 0x06

/-- The board whose controller of a unit is so programmed, the other's cascade being open. -/
def askedBus (unit : Fin 2) : Bus Unit :=
  (Bus.init Bus.clock25 0 0 ()).handle zeroMachine.devices
    (.access (fun other => if other = unit then askedOnce else Bus.cascaded 1) true ())

theorem undisturbed_ticks (unit : Fin 2) (channel : Fin 4) (bus : Bus Unit) (clocks : Nat) :
    zeroMachine.Undisturbed unit channel bus (List.replicate clocks .tick) := by
  induction clocks generalizing bus with
  | zero => trivial
  | succ clocks ih => exact ⟨fun _ _ _ _ => rfl, ih _⟩

/-- Channel 2 programmed to write two units of data in block mode. -/
def twoUnits : DmaChannel := ⟨0x0100, 1, 0x0100, 1, 0x86⟩

/-- The board whose first controller is so programmed and asked by software, nine clocks before its
next refresh. -/
def twoUnitsBus : Bus Unit :=
  let dma := (((((I8237.reset.writeRegister 11 0x86).writeRegister 4 0x00).writeRegister 4
    0x01).writeRegister 5 0x01).writeRegister 5 0x00).writeRegister 9 0x06
  { (Bus.init Bus.clock25 0 0 ()).handle zeroMachine.devices
      (.access (fun other => if other = 0 then dma else Bus.cascaded 1) true ()) with
    refreshTicksLeft := 9 }

/-- `Machine.movesBlock_iff` on two bytes of the first controller, a refresh between them. -/
theorem movesBlock_twoUnits :
    (zeroMachine.run twoUnitsBus (List.replicate 9 .tick)).2.refreshHolding = true ∧
      ((zeroMachine.run twoUnitsBus (List.replicate 9 .tick)).1.map (·.accesses) =
        [[.deviceRead 0 2 0xA5, .memoryWrite 0x100 0xA5]]) ∧
      ((zeroMachine.run twoUnitsBus (List.replicate 40 .tick)).1.map
          (fun record => (record.accesses, record.cycle.terminalCount)) =
        [([.deviceRead 0 2 0xA5, .memoryWrite 0x100 0xA5], false),
          ([.deviceRead 0 2 0xA5, .memoryWrite 0x101 0xA5], true)]) ∧
      Machine.MovesBlock 0 2 twoUnits (zeroMachine.run twoUnitsBus (List.replicate 40 .tick)).1 :=
  ⟨by decide +kernel, by decide +kernel, by decide +kernel,
    (zeroMachine.movesBlock_iff (by decide +kernel) (by decide +kernel)
      (undisturbed_ticks 0 2 twoUnitsBus 40)).mpr (.inl rfl)⟩

/-- The word of the second controller's channel is moved by half. -/
theorem not_movesBlock :
    (zeroMachine.run (askedBus 1) (List.replicate 8 .tick)).1.map (·.accesses) =
        [[.deviceRead 1 2 0xA5, .memoryWrite 0x200 0xA5]] ∧
      ¬ Machine.MovesBlock 1 2 oneUnit
        (zeroMachine.run (askedBus 1) (List.replicate 8 .tick)).1 := by
  refine ⟨by decide +kernel, fun h => ?_⟩
  have hlength : 0 < ((zeroMachine.run (askedBus 1) (List.replicate 8 .tick)).1.filter
      (·.isOf 1 2)).length := by decide +kernel
  have haccesses : (((zeroMachine.run (askedBus 1) (List.replicate 8 .tick)).1.filter
      (·.isOf 1 2)).get ⟨0, hlength⟩).accesses.length = 2 := by
    revert hlength
    decide +kernel
  obtain ⟨bytes, htwo, hwhole⟩ := (h.moved 0 hlength (Nat.zero_le _)).1
  obtain ⟨first, second, rfl⟩ := List.length_eq_two.mp htwo
  rw [hwhole] at haccesses
  exact absurd haccesses (show ¬4 = 2 by decide)

end Apollo.Board
