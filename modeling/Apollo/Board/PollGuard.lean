import Mathlib
import Apollo.Board.Ownership
import Apollo.Device.Tape
import Apollo.Device.Mailbox

/-!
# The guard of the poll

`ap_board_bus_tick` does not poll the request lines while `dma_possible` is down. A run here has the
devices that ask: the tape, the two halves of the disk controller, and the Ethernet card. What
raises the guard is an access to one of their regions or to the controllers'; the clock of the board
moves the tape and the disk controller, the pump the card's command register, and neither raises a
request.

THE GUARD IS NOT INVISIBLE. The Ethernet card does not answer the poll that finds it owing a pause,
and if nothing else asks, no later poll is made. It is invisible in every run that is spared three
things (`Spared`): that pause; a word at the fixed disk's data port, which does not raise the guard,
leaving the disk asking; and an adapter that asks while the guard is down.
-/

namespace Apollo.Device.I8237

/-! ## The request pins -/

theorem bit_getLsbD (channel : Fin 4) (i : Nat) :
    (bit channel).getLsbD i = decide (i = channel.val) := by
  unfold bit
  rw [← BitVec.twoPow_eq, BitVec.getLsbD_twoPow]
  simp [eq_comm, show channel.val < 8 by omega]

theorem dreq_setRequestPin (dma : I8237) (channel : Fin 4) (asserted : Bool) {i : Nat}
    (hi : i < 8) :
    (dma.setRequestPin channel asserted).dreq.getLsbD i =
      if i = channel.val then asserted else dma.dreq.getLsbD i := by
  unfold setRequestPin
  cases asserted with
  | true =>
    simp only [if_true, BitVec.getLsbD_or, bit_getLsbD]
    by_cases h : i = channel.val <;> simp [h]
  | false =>
    simp only [Bool.false_eq_true, if_false, BitVec.getLsbD_and, BitVec.getLsbD_not, bit_getLsbD,
      hi, decide_true, Bool.true_and]
    by_cases h : i = channel.val <;> simp [h]

theorem setRequestPin_low {dma : I8237} {channel : Fin 4}
    (h : dma.dreq.getLsbD channel.val = false) : dma.setRequestPin channel false = dma := by
  have hdreq : (dma.setRequestPin channel false).dreq = dma.dreq := by
    refine BitVec.eq_of_getLsbD_eq fun i hi => ?_
    rw [dreq_setRequestPin dma channel false hi]
    split_ifs with hchannel
    · rw [hchannel, h]
    · rfl
  show { dma with dreq := (dma.setRequestPin channel false).dreq } = dma
  rw [hdreq]

theorem servicePending_of_not_asks {dma : I8237} (h : ∀ channel, dma.asks channel = false) :
    dma.servicePending = none := by
  unfold servicePending
  split_ifs
  · rfl
  · exact List.find?_eq_none.mpr fun channel _ => by rw [h]; decide

theorem servicePending_of_idle {dma : I8237} (hdreq : dma.dreq = 0) (hrequest : dma.request = 0) :
    dma.servicePending = none :=
  servicePending_of_not_asks fun channel => by simp [asks, hdreq, hrequest]

/-- The channel is one a request on whose pin is served. -/
def served (dma : I8237) (channel : Fin 4) : Bool :=
  !dma.command.getLsbD 2 && !dma.mask.getLsbD channel.val

theorem servicePending_setRequestPin {dma : I8237} {channel : Fin 4} {asserted : Bool}
    (hpending : dma.servicePending = none) (hunseen : (asserted && dma.served channel) = false) :
    (dma.setRequestPin channel asserted).servicePending = none := by
  unfold servicePending at hpending ⊢
  show (if dma.command.getLsbD 2 = true then none else _) = none
  split_ifs with hdisabled
  · rfl
  · rw [if_neg hdisabled] at hpending
    refine List.find?_eq_none.mpr fun i hi => ?_
    have hasks : dma.asks i = false := by simpa using List.find?_eq_none.mp hpending i hi
    obtain ⟨hpin, hsoftware⟩ := Bool.or_eq_false_iff.mp hasks
    show ¬ ((dma.setRequestPin channel asserted).dreq.getLsbD i.val && !dma.mask.getLsbD i.val ||
      dma.request.getLsbD i.val && (dma.channel i).modeOf == .block) = true
    rw [hsoftware, dreq_setRequestPin dma channel asserted (by omega)]
    by_cases h : i = channel
    · subst h
      unfold served at hunseen
      rw [Bool.eq_false_iff.mpr hdisabled] at hunseen
      simpa using hunseen
    · simpa [Fin.val_inj, h] using hpin

end Apollo.Device.I8237

namespace Apollo.Board

open Device

/-! ## The devices that ask -/

/-- The devices that ask for DMA, and the rest of the machine. -/
structure Askers (κ : Type) where
  tape : Tape
  disk : Omti
  ethernetPresent : Bool
  ethernet : Etherlink
  rest : κ

/-- The Ethernet slot polled. -/
def Askers.ethernetDmaRequest {κ : Type} (askers : Askers κ) : Bool × Askers κ :=
  if askers.ethernetPresent then
    let (asserted, card) := askers.ethernet.dmaRequest
    (asserted, { askers with ethernet := card })
  else (false, askers)

/-- The Ethernet slot goes unanswered at one poll and would not at the next. -/
def Askers.pausesReady {κ : Type} (askers : Askers κ) : Bool :=
  askers.ethernetPresent && askers.ethernet.pausesReady

/-- The accesses of a transfer, and what a device is told at its end. -/
structure Transfers (κ : Type) where
  bus : Fin 2 → DmaBus (Parts (Askers κ))
  bus_keeps : ∀ unit, (bus unit).Keeps (fun _ => True) fun parts => parts.dmaPossible = true
  terminalCount : Fin 2 → Fin 4 → Askers κ → Askers κ

/-- What the clock asks of them. -/
def Transfers.devices {κ : Type} (transfers : Transfers κ) : Devices (Askers κ) where
  tapeDmaRequest askers := askers.tape.dmaRequest
  tapeReading askers := askers.tape.drive.reading
  diskDmaRequest askers := askers.disk.disk.dmaRequest
  fdcDmaRequest askers := askers.disk.fdc.dmaRequest
  ethernetDmaRequest := Askers.ethernetDmaRequest
  bus := transfers.bus
  bus_keeps := transfers.bus_keeps
  terminalCount := transfers.terminalCount

theorem Askers.ethernetDmaRequest_again {κ : Type} {askers : Askers κ}
    (hquiet : askers.ethernetDmaRequest.1 = false) (hready : askers.pausesReady = false) :
    askers.ethernetDmaRequest.2.ethernetDmaRequest = (false, askers.ethernetDmaRequest.2) := by
  unfold ethernetDmaRequest at hquiet ⊢
  unfold pausesReady at hready
  cases hpresent : askers.ethernetPresent with
  | false => simp [hpresent]
  | true =>
    rw [hpresent] at hquiet hready
    have hagain := Etherlink.dmaRequest_again hquiet (by simpa using hready)
    simp [hagain]

namespace Bus

variable {ρ : Type}

/-- `ap_board_bus_tick` without its guard. -/
def tickUnguarded (devices : Devices ρ) (bus : Bus ρ) : Option (Fin 2 × DmaCycle) × Bus ρ :=
  let bus := bus.refresh
  let parts := poll devices bus.parts
  let selected := (parts.dma 1).servicePending
  let bus :=
    { bus with
      parts := { parts with dmaPossible := stillPossible devices parts }
      arbiter := bus.arbiter.setRequest 0 selected.isSome }
  serve devices bus.arbitrate selected

/-- The bus but for the guard. -/
def forgetGuard (bus : Bus ρ) : Bus ρ := { bus with parts.dmaPossible := false }

/-- The guard cannot be seen: with it down no device asks, the poll would change nothing, and the
clock is the one without the guard. -/
def Invisible (devices : Devices ρ) (bus : Bus ρ) : Prop :=
  bus.parts.dmaPossible = false →
    (devices.tapeDmaRequest bus.parts.rest = false ∧ devices.diskDmaRequest bus.parts.rest = false ∧
      devices.fdcDmaRequest bus.parts.rest = false ∧
      (devices.ethernetDmaRequest bus.parts.rest).1 = false) ∧
    poll devices bus.parts = bus.parts ∧
    (bus.tick devices).1 = (bus.tickUnguarded devices).1 ∧
    (bus.tick devices).2.forgetGuard = (bus.tickUnguarded devices).2.forgetGuard

theorem tickUnguarded_eq (devices : Devices ρ) (bus : Bus ρ) :
    bus.tickUnguarded devices =
      (bus.polled devices).arbitrate.serve devices
        ((poll devices bus.parts).dma 1).servicePending := by
  unfold tickUnguarded polled
  simp

/-! ## Parts in which nothing is asked -/

/-- Nothing is asked and nothing will be by time alone: the devices are quiet, their pins and the
requests by software are low, and a pin of the first controller that is not one of theirs is high
only on a channel that is not served. -/
structure Asleep (devices : Devices ρ) (parts : Parts ρ) : Prop where
  reading : devices.tapeReading parts.rest = false
  tape : devices.tapeDmaRequest parts.rest = false
  disk : devices.diskDmaRequest parts.rest = false
  fdc : devices.fdcDmaRequest parts.rest = false
  ethernet : devices.ethernetDmaRequest parts.rest = (false, parts.rest)
  tapePin : (parts.dma 0).dreq.getLsbD 1 = false
  fdcPin : (parts.dma 0).dreq.getLsbD 2 = false
  request : (parts.dma 0).request = 0
  pending : (parts.dma 0).servicePending = none
  second : (parts.dma 1).dreq = 0
  secondRequest : (parts.dma 1).request = 0

theorem drivePin_low {parts : Parts ρ} {unit : Fin 2} {channel : Fin 4}
    (h : (parts.dma unit).dreq.getLsbD channel.val = false) :
    drivePin parts unit channel false = parts := by
  unfold drivePin DmaPart.modify controller
  dsimp only
  rw [I8237.setRequestPin_low h, Function.update_eq_self]

theorem poll_eq (devices : Devices ρ) (parts : Parts ρ) :
    poll devices parts =
      let lines := drivePin (drivePin (drivePin parts 0 1 (devices.tapeDmaRequest parts.rest)) 1 3
        (devices.diskDmaRequest parts.rest)) 0 2 (devices.fdcDmaRequest parts.rest)
      let asked := drivePin { lines with rest := (devices.ethernetDmaRequest parts.rest).2 } 1 2
        (devices.ethernetDmaRequest parts.rest).1
      drivePin asked 1 0 (asked.dma 0).servicePending.isSome := rfl

theorem poll_asleep {devices : Devices ρ} {parts : Parts ρ} (h : Asleep devices parts) :
    poll devices parts = parts := by
  have hsecond (channel : Fin 4) : (parts.dma 1).dreq.getLsbD channel.val = false := by
    rw [h.second]
    exact BitVec.getLsbD_zero
  have htape : drivePin parts 0 1 false = parts := drivePin_low h.tapePin
  have hfdc : drivePin parts 0 2 false = parts := drivePin_low h.fdcPin
  rw [poll_eq, h.tape, htape, h.disk, drivePin_low (hsecond 3), h.fdc, hfdc, h.ethernet]
  dsimp only
  rw [drivePin_low (hsecond 2), h.pending]
  exact drivePin_low (hsecond 0)

theorem servicePending_asleep {devices : Devices ρ} {parts : Parts ρ} (h : Asleep devices parts) :
    (parts.dma 1).servicePending = none :=
  I8237.servicePending_of_idle h.second h.secondRequest

/-! ## The clock while nothing is asked -/

theorem setRequest_low {arbiter : Arbiter} (h : arbiter.asks 0 = false) :
    arbiter.setRequest 0 false = arbiter := by
  have hrequest : (arbiter.setRequest 0 false).request = arbiter.request := by
    refine BitVec.eq_of_getLsbD_eq fun i hi => ?_
    have hline : (arbiter.setRequest 0 false).asks ⟨i, hi⟩ = _ := Arbiter.asks_setRequest
    refine hline.trans ?_
    split_ifs with hzero
    · have hzero : i = 0 := hzero
      subst hzero
      exact h.symm
    · rfl
  show { arbiter with request := (arbiter.setRequest 0 false).request } = arbiter
  rw [hrequest]

theorem asks_of_master_tick {arbiter : Arbiter} {line : Fin 8}
    (h : arbiter.tick.master = some line) : arbiter.asks line = true := by
  rw [Arbiter.master_tick] at h
  unfold Arbiter.nextMaster at h
  split at h
  · split_ifs at h
    exact List.find?_some h
  · split_ifs at h with hasks
    rw [← Option.some.inj h]
    exact hasks

theorem serve_arbitrate_low (devices : Devices ρ) {bus : Bus ρ} (h : bus.arbiter.asks 0 = false)
    (selected : Option (Fin 4)) :
    bus.arbitrate.serve devices selected = (none, bus.arbitrate) := by
  have hmaster : bus.arbitrate.arbiter.master ≠ some 0 := by
    intro hmaster
    have hmaster : (Arbiter.setRequest _ _ _).master = some 0 := hmaster
    rw [Arbiter.setRequest_master] at hmaster
    exact absurd (asks_of_master_tick hmaster) (by rw [h]; decide)
  unfold serve
  rw [if_pos hmaster]

/-- NOTHING ASKED, THE GUARD CANNOT BE SEEN. -/
theorem invisible_of_asleep {devices : Devices ρ} {bus : Bus ρ} (howned : bus.Owned)
    (hasleep : bus.parts.dmaPossible = false → Asleep devices bus.parts) :
    bus.Invisible devices := by
  intro hdown
  have h := hasleep hdown
  have hline := howned.guarded hdown
  have hpolled : bus.polled devices =
      { bus.refresh with parts.dmaPossible := stillPossible devices bus.parts } := by
    unfold polled
    dsimp only
    rw [poll_asleep h, servicePending_asleep h, Option.isSome_none, setRequest_low hline,
      refresh_parts, refresh_arbiter]
  have hlow : (bus.polled devices).arbiter.asks 0 = false := by
    rw [hpolled]
    simpa using hline
  refine ⟨⟨h.tape, h.disk, h.fdc, by rw [h.ethernet]⟩, poll_asleep h, ?_⟩
  rw [tick_down devices hdown, tickUnguarded_eq, serve_arbitrate_low devices hlow, hpolled]
  exact ⟨rfl, rfl⟩

/-! ## What a poll that finds nothing leaves -/

theorem poll_dma_zero (devices : Devices ρ) (parts : Parts ρ) :
    (poll devices parts).dma 0 =
      ((parts.dma 0).setRequestPin 1 (devices.tapeDmaRequest parts.rest)).setRequestPin 2
        (devices.fdcDmaRequest parts.rest) := by
  rw [poll_eq]
  simp [drivePin, DmaPart.modify, controller]

theorem poll_dma_one (devices : Devices ρ) (parts : Parts ρ) :
    (poll devices parts).dma 1 =
      (((parts.dma 1).setRequestPin 3 (devices.diskDmaRequest parts.rest)).setRequestPin 2
        (devices.ethernetDmaRequest parts.rest).1).setRequestPin 0
        ((poll devices parts).dma 0).servicePending.isSome := by
  rw [poll_dma_zero, poll_eq]
  simp [drivePin, DmaPart.modify, controller]

theorem poll_pin_zero (devices : Devices ρ) (parts : Parts ρ) {i : Nat} (hi : i < 8) :
    ((poll devices parts).dma 0).dreq.getLsbD i =
      if i = 2 then devices.fdcDmaRequest parts.rest
      else if i = 1 then devices.tapeDmaRequest parts.rest else (parts.dma 0).dreq.getLsbD i := by
  rw [poll_dma_zero, I8237.dreq_setRequestPin _ _ _ hi, I8237.dreq_setRequestPin _ _ _ hi]
  rfl

theorem poll_pin_one (devices : Devices ρ) (parts : Parts ρ) {i : Nat} (hi : i < 8) :
    ((poll devices parts).dma 1).dreq.getLsbD i =
      if i = 0 then ((poll devices parts).dma 0).servicePending.isSome
      else if i = 2 then (devices.ethernetDmaRequest parts.rest).1
      else if i = 3 then devices.diskDmaRequest parts.rest
      else (parts.dma 1).dreq.getLsbD i := by
  rw [poll_dma_one, I8237.dreq_setRequestPin _ _ _ hi, I8237.dreq_setRequestPin _ _ _ hi,
    I8237.dreq_setRequestPin _ _ _ hi]
  rfl

theorem poll_rest (devices : Devices ρ) (parts : Parts ρ) :
    (poll devices parts).rest = (devices.ethernetDmaRequest parts.rest).2 := rfl

/-- The pins that the poll does not drive: the adapter's on the first controller. -/
def otherPins (parts : Parts ρ) : Bool :=
  (parts.dma 0).dreq &&& ~~~0x06#8 != 0 || (parts.dma 1).dreq &&& ~~~0x0D#8 != 0

/-- Something but the Ethernet card keeps the poll alive. -/
def otherwiseAsking (devices : Devices ρ) (parts : Parts ρ) : Bool :=
  devices.tapeReading parts.rest || devices.diskDmaRequest parts.rest ||
    devices.fdcDmaRequest parts.rest || (parts.dma 0).request != 0 || (parts.dma 1).request != 0 ||
    otherPins parts

theorem low_of_stillPossible {devices : Devices ρ} {parts : Parts ρ}
    (h : stillPossible devices parts = false) :
    (parts.dma 0).dreq = 0 ∧ (parts.dma 0).request = 0 ∧ (parts.dma 1).dreq = 0 ∧
      (parts.dma 1).request = 0 ∧ devices.tapeReading parts.rest = false := by
  unfold stillPossible at h
  simp only [Bool.or_eq_false_iff, bne_eq_false_iff_eq] at h
  exact ⟨h.1.1.2.1, h.1.1.2.2, h.1.2.1, h.1.2.2, h.2⟩

theorem masked_eq_zero {dreq mask : BitVec 8}
    (h : ∀ i, i < 8 → mask.getLsbD i = false → dreq.getLsbD i = false) : dreq &&& ~~~mask = 0 := by
  refine BitVec.eq_of_getLsbD_eq fun i hi => ?_
  rw [BitVec.getLsbD_and, BitVec.getLsbD_not]
  cases hmask : mask.getLsbD i with
  | true => simp
  | false => rw [h i hi hmask]; simp

variable {κ : Type}

@[simp] theorem ethernetDmaRequest_tape (askers : Askers κ) :
    askers.ethernetDmaRequest.2.tape = askers.tape := by
  unfold Askers.ethernetDmaRequest
  split_ifs <;> rfl

@[simp] theorem ethernetDmaRequest_disk (askers : Askers κ) :
    askers.ethernetDmaRequest.2.disk = askers.disk := by
  unfold Askers.ethernetDmaRequest
  split_ifs <;> rfl

theorem quiet_of_stillPossible {transfers : Transfers κ} {parts : Parts (Askers κ)}
    (h : stillPossible transfers.devices (poll transfers.devices parts) = false) :
    otherwiseAsking transfers.devices parts = false ∧
      (transfers.devices.ethernetDmaRequest parts.rest).1 = false := by
  obtain ⟨hpins, hrequest, hsecond, hsecondRequest, hreading⟩ := low_of_stillPossible h
  have hzero {i : Nat} (hi : i < 8) := poll_pin_zero transfers.devices parts hi
  have hone {i : Nat} (hi : i < 8) := poll_pin_one transfers.devices parts hi
  rw [hpins] at hzero
  rw [hsecond] at hone
  have hfdc : transfers.devices.fdcDmaRequest parts.rest = false := (hzero (i := 2) (by decide)).symm
  have hethernet : (transfers.devices.ethernetDmaRequest parts.rest).1 = false :=
    (hone (i := 2) (by decide)).symm
  have hdisk : transfers.devices.diskDmaRequest parts.rest = false :=
    (hone (i := 3) (by decide)).symm
  have hfirst : (parts.dma 0).dreq &&& ~~~0x06#8 = 0 := by
    refine masked_eq_zero fun i hi hmask => ?_
    have hpolled : i ≠ 1 ∧ i ≠ 2 := by
      constructor <;> (rintro rfl; exact absurd hmask (by decide))
    have hlow := hzero hi
    rw [if_neg hpolled.2, if_neg hpolled.1] at hlow
    exact hlow.symm.trans BitVec.getLsbD_zero
  have hother : (parts.dma 1).dreq &&& ~~~0x0D#8 = 0 := by
    refine masked_eq_zero fun i hi hmask => ?_
    have hpolled : i ≠ 0 ∧ i ≠ 2 ∧ i ≠ 3 := by
      refine ⟨?_, ?_, ?_⟩ <;> (rintro rfl; exact absurd hmask (by decide))
    have hlow := hone hi
    rw [if_neg hpolled.1, if_neg hpolled.2.1, if_neg hpolled.2.2] at hlow
    exact hlow.symm.trans BitVec.getLsbD_zero
  have hread : transfers.devices.tapeReading parts.rest = false := by
    rw [poll_rest] at hreading
    show parts.rest.tape.drive.reading = false
    rw [← ethernetDmaRequest_tape]
    exact hreading
  have hsoftware : (parts.dma 0).request = 0 := by
    rw [poll_dma_zero] at hrequest
    exact hrequest
  have hsecondSoftware : (parts.dma 1).request = 0 := by
    rw [poll_dma_one] at hsecondRequest
    exact hsecondRequest
  refine ⟨?_, hethernet⟩
  unfold otherwiseAsking otherPins
  rw [hread, hdisk, hfdc, hsoftware, hsecondSoftware, hfirst, hother]
  rfl

theorem asleep_poll {transfers : Transfers κ} {parts : Parts (Askers κ)}
    (h : stillPossible transfers.devices (poll transfers.devices parts) = false)
    (hready : parts.rest.pausesReady = false) :
    Asleep transfers.devices (poll transfers.devices parts) := by
  obtain ⟨hpins, hrequest, hsecond, hsecondRequest, hreading⟩ := low_of_stillPossible h
  obtain ⟨hother, hethernet⟩ := quiet_of_stillPossible h
  unfold otherwiseAsking at hother
  simp only [Bool.or_eq_false_iff] at hother
  obtain ⟨⟨⟨⟨⟨-, hdisk⟩, hfdc⟩, -⟩, -⟩, -⟩ := hother
  exact
    { reading := hreading
      tape := Tape.dmaRequest_of_not_reading hreading
      disk := by
        rw [poll_rest]
        show (Askers.ethernetDmaRequest parts.rest).2.disk.disk.dmaRequest = false
        rw [ethernetDmaRequest_disk]
        exact hdisk
      fdc := by
        rw [poll_rest]
        show (Askers.ethernetDmaRequest parts.rest).2.disk.fdc.dmaRequest = false
        rw [ethernetDmaRequest_disk]
        exact hfdc
      ethernet := Askers.ethernetDmaRequest_again hethernet hready
      tapePin := by rw [hpins]; rfl
      fdcPin := by rw [hpins]; rfl
      request := hrequest
      pending := I8237.servicePending_of_idle hpins hrequest
      second := hsecond
      secondRequest := hsecondRequest }

/-! ## The adapter's pin -/

/-- The adapter asks where it is heard: on a channel that is served, or on one that is the tape's
or the floppy's. -/
def adapterHeard (bus : Bus ρ) : Bool :=
  bus.master.request &&
    (bus.master.channel = 1 || bus.master.channel = 2 ||
      (bus.parts.dma 0).served bus.master.channel)

theorem asleep_drivePin {devices : Devices ρ} {parts : Parts ρ} (h : Asleep devices parts)
    {channel : Fin 4} {asserted : Bool}
    (hunheard : (asserted && (channel = 1 || channel = 2 || (parts.dma 0).served channel)) = false) :
    Asleep devices (drivePin parts 0 channel asserted) := by
  have hzero : (drivePin parts 0 channel asserted).dma 0 =
      (parts.dma 0).setRequestPin channel asserted := by
    simp [drivePin, DmaPart.modify, controller]
  have hone : (drivePin parts 0 channel asserted).dma 1 = parts.dma 1 := by
    simp [drivePin, DmaPart.modify, controller]
  have hlow (i : Fin 4) (hpin : (parts.dma 0).dreq.getLsbD i.val = false)
      (hpolled : channel = i → asserted = false) :
      ((drivePin parts 0 channel asserted).dma 0).dreq.getLsbD i.val = false := by
    rw [hzero, I8237.dreq_setRequestPin _ _ _ (by omega)]
    split_ifs with hi
    · exact hpolled (Fin.ext hi.symm)
    · exact hpin
  have hpolled (hchannel : channel = 1 ∨ channel = 2) : asserted = false := by
    rcases hchannel with rfl | rfl <;> simpa using hunheard
  exact
    { reading := h.reading
      tape := h.tape
      disk := h.disk
      fdc := h.fdc
      ethernet := h.ethernet
      tapePin := hlow 1 h.tapePin fun hchannel => hpolled (.inl hchannel)
      fdcPin := hlow 2 h.fdcPin fun hchannel => hpolled (.inr hchannel)
      request := by rw [hzero]; exact h.request
      pending := by
        rw [hzero]
        refine I8237.servicePending_setRequestPin h.pending ?_
        cases asserted with
        | false => rfl
        | true => exact (Bool.or_eq_false_iff.mp hunheard).2
      second := by rw [hone]; exact h.second
      secondRequest := by rw [hone]; exact h.secondRequest }

theorem Asleep.guard {devices : Devices ρ} {parts : Parts ρ} (h : Asleep devices parts)
    (possible : Bool) : Asleep devices { parts with dmaPossible := possible } :=
  ⟨h.reading, h.tape, h.disk, h.fdc, h.ethernet, h.tapePin, h.fdcPin, h.request, h.pending,
    h.second, h.secondRequest⟩

end Bus

/-! ## A run of the board with the devices that ask -/

/-- What happens to the board: a clock; the board, or the tape or the disk controller of it, carried
to an instant; an access to the controllers or to the region of a device that can ask, whatever it
does; one elsewhere; a word moved at the fixed disk's data port; the reset of the on-board devices;
a byte of the Ethernet card's command register moved, its adapter in any state; and the processor's
and the AT-bus adapter's signals. -/
inductive Happening (κ : Type)
  | tick
  | advance (tape disk : Bool) (now : Time) (rest : κ)
  | access (dma : Fin 2 → I8237) (askers : Askers κ)
  | elsewhere (rest : κ)
  | dataPort (disk : OmtiDisk)
  | resetDevices (rest : κ)
  | pump (adapter : Adapter) (rest : κ)
  | rmc (rmc : M68030.Rmc)
  | committed (cycleCommitted : Bool)
  | adapter (request masterL : Bool)

namespace Askers

variable {κ : Type}

/-- `ap_board_advance`, or `ap_board_advance_one` of a device, on the devices that ask. -/
def advance (askers : Askers κ) (tape disk : Bool) (now : Time) (rest : κ) : Askers κ :=
  { askers with
    tape := if tape then askers.tape.advance now else askers.tape
    disk := if disk then askers.disk.advance now else askers.disk
    rest := rest }

theorem advance_reading {askers : Askers κ} (h : askers.tape.drive.reading = false)
    (tape disk : Bool) (now : Time) (rest : κ) :
    (askers.advance tape disk now rest).tape.drive.reading = false := by
  cases tape with
  | false => exact h
  | true => exact Tape.reading_advance now h

theorem advance_disk {askers : Askers κ} (h : askers.disk.disk.dmaRequest = false)
    (tape disk : Bool) (now : Time) (rest : κ) :
    (askers.advance tape disk now rest).disk.disk.dmaRequest = false := by
  cases disk with
  | false => exact h
  | true => exact OmtiDisk.dmaRequest_advance now h

theorem advance_fdc {askers : Askers κ} (h : askers.disk.fdc.dmaRequest = false)
    (tape disk : Bool) (now : Time) (rest : κ) :
    (askers.advance tape disk now rest).disk.fdc.dmaRequest = false := by
  cases disk with
  | false => exact h
  | true => exact OmtiFdc.dmaRequest_advance now h

theorem ethernetDmaRequest_quiet {askers askers' : Askers κ}
    (hpresent : askers'.ethernetPresent = askers.ethernetPresent)
    (hcard : askers.ethernet.SameDma askers'.ethernet)
    (h : askers.ethernetDmaRequest = (false, askers)) :
    askers'.ethernetDmaRequest = (false, askers') := by
  unfold ethernetDmaRequest at h ⊢
  rw [hpresent]
  cases hfitted : askers.ethernetPresent with
  | false => rfl
  | true =>
    rw [hfitted] at h
    simp only [if_true] at h ⊢
    have hasked : askers.ethernet.dmaRequest.1 = false := congrArg Prod.fst h
    have hkept : askers.ethernet.dmaRequest.2 = askers.ethernet :=
      congrArg (Askers.ethernet ∘ Prod.snd) h
    rw [hcard.quiet (Prod.ext hasked hkept), ← hfitted, ← hpresent]

/-- `ap_3c505_pump` of the card, with the adapter behind it. -/
def pump (askers : Askers κ) (adapter : Adapter) (rest : κ) : Askers κ :=
  { askers with
    ethernet := (Mailbox.pump ⟨askers.ethernet, adapter⟩).2.card
    rest := rest }

end Askers

namespace Bus

variable {κ : Type}

/-- What happens, as an event of the bus. -/
def eventOf (bus : Bus (Askers κ)) : Happening κ → Event (Askers κ)
  | .tick => .tick
  | .advance tape disk now rest =>
    .access bus.parts.dma false (bus.parts.rest.advance tape disk now rest)
  | .access dma askers => .access dma true askers
  | .elsewhere rest => .access bus.parts.dma false { bus.parts.rest with rest := rest }
  | .dataPort disk =>
    .access bus.parts.dma false
      { bus.parts.rest with disk := { bus.parts.rest.disk with disk := disk } }
  | .resetDevices rest => .access (fun _ => I8237.reset) false { bus.parts.rest with rest := rest }
  | .pump adapter rest => .access bus.parts.dma false (bus.parts.rest.pump adapter rest)
  | .rmc rmc => .rmc rmc
  | .committed cycleCommitted => .committed cycleCommitted
  | .adapter request masterL => .adapter request masterL

/-- The board after what happens. -/
def meet (transfers : Transfers κ) (bus : Bus (Askers κ)) (happening : Happening κ) :
    Bus (Askers κ) :=
  bus.handle transfers.devices (bus.eventOf happening)

/-- The board after all of it. -/
def live (transfers : Transfers κ) (bus : Bus (Askers κ)) (happenings : List (Happening κ)) :
    Bus (Askers κ) :=
  happenings.foldl (meet transfers) bus

/-- What happens spares the guard: no clock polls the Ethernet card in a pause it could ask in,
unless something else asks; none finds the adapter heard while the guard is down or comes down; no
word at the data port leaves the disk asking while the guard is down; and the adapter does not sit
on the DMA's own line. -/
def Spares (transfers : Transfers κ) (bus : Bus (Askers κ)) : Happening κ → Prop
  | .tick =>
    (bus.parts.dmaPossible = true ∧ bus.parts.rest.pausesReady = true →
      otherwiseAsking transfers.devices bus.parts = true) ∧
    (bus.adapterHeard = true → bus.parts.dmaPossible = true ∧
      (otherwiseAsking transfers.devices bus.parts = true ∨
        (transfers.devices.ethernetDmaRequest bus.parts.rest).1 = true))
  | .dataPort disk => disk.dmaRequest = true → bus.parts.dmaPossible = true
  | .adapter _ _ => bus.master.drq ≠ 0
  | _ => True

/-- Everything that happens does. -/
def Spared (transfers : Transfers κ) : Bus (Askers κ) → List (Happening κ) → Prop
  | _, [] => True
  | bus, happening :: happenings =>
    Spares transfers bus happening ∧ Spared transfers (bus.meet transfers happening) happenings

instance (transfers : Transfers κ) (bus : Bus (Askers κ)) :
    (happening : Happening κ) → Decidable (Spares transfers bus happening)
  | .tick => inferInstanceAs (Decidable ((_ → _) ∧ (_ → _)))
  | .dataPort _ => inferInstanceAs (Decidable (_ → _))
  | .adapter _ _ => inferInstanceAs (Decidable (_ ≠ _))
  | .advance _ _ _ _ => isTrue trivial
  | .access _ _ => isTrue trivial
  | .elsewhere _ => isTrue trivial
  | .resetDevices _ => isTrue trivial
  | .pump _ _ => isTrue trivial
  | .rmc _ => isTrue trivial
  | .committed _ => isTrue trivial

instance Spared.decidable (transfers : Transfers κ) :
    (bus : Bus (Askers κ)) → (happenings : List (Happening κ)) →
      Decidable (Spared transfers bus happenings)
  | _, [] => isTrue trivial
  | bus, happening :: happenings =>
    @instDecidableAnd _ _ inferInstance
      (Spared.decidable transfers (bus.meet transfers happening) happenings)

/-! ## One step -/

/-- A guard that is down stays on parts in which nothing is asked. -/
def Guarded (transfers : Transfers κ) (bus : Bus (Askers κ)) : Prop :=
  bus.parts.dmaPossible = false → Asleep transfers.devices bus.parts

theorem arbitrate_parts {ρ : Type} (bus : Bus ρ) :
    bus.arbitrate.parts = drivePin bus.parts 0 bus.master.channel bus.master.request := rfl

theorem guarded_tick_down {transfers : Transfers κ} {bus : Bus (Askers κ)}
    (hdown : bus.parts.dmaPossible = false) (h : bus.Guarded transfers)
    (hspares : Spares transfers bus .tick) :
    Guarded transfers (bus.tick transfers.devices).2 := by
  intro _
  rw [tick_down _ hdown, arbitrate_parts, refresh_parts, refresh_master]
  refine asleep_drivePin (h hdown) ?_
  cases hheard : bus.adapterHeard with
  | false => exact hheard
  | true => exact absurd (hspares.2 hheard).1 (by rw [hdown]; decide)

theorem guarded_tick_up {transfers : Transfers κ} {bus : Bus (Askers κ)} (howned : bus.Owned)
    (hup : bus.parts.dmaPossible = true) (hspares : Spares transfers bus .tick) :
    Guarded transfers (bus.tick transfers.devices).2 := by
  intro hdown
  obtain ⟨parts, left, hserve, hkept⟩ := serve_frame transfers.devices
    (bus.polled transfers.devices).arbitrate
    ((poll transfers.devices bus.parts).dma 1).servicePending
  have hstill : stillPossible transfers.devices (poll transfers.devices bus.parts) = false := by
    by_contra hpossible
    rw [tick_up _ hup, hserve] at hdown
    have hpossible : (bus.polled transfers.devices).arbitrate.parts.dmaPossible = true :=
      Bool.not_eq_false _ ▸ hpossible
    exact absurd (hkept hpossible)
      (by rw [show parts.dmaPossible = false from hdown]; decide)
  obtain ⟨hother, hethernet⟩ := quiet_of_stillPossible hstill
  have hready : bus.parts.rest.pausesReady = false := by
    by_contra hpauses
    exact absurd (hspares.1 ⟨hup, by simpa using hpauses⟩) (by rw [hother]; decide)
  have hunheard : bus.adapterHeard = false := by
    by_contra hheard
    rcases (hspares.2 (by simpa using hheard)).2 with hasks | hasks
    · exact absurd hasks (by rw [hother]; decide)
    · exact absurd hasks (by rw [hethernet]; decide)
  have hlow : (bus.polled transfers.devices).arbiter.asks 0 = false :=
    (owned_polled transfers.devices howned).guarded hstill
  rw [tick_up _ hup, serve_arbitrate_low transfers.devices hlow, arbitrate_parts]
  have hmaster : (bus.polled transfers.devices).master = bus.master := refresh_master bus
  rw [hmaster]
  refine asleep_drivePin ((asleep_poll hstill hready).guard _) ?_
  have hserved : ((poll transfers.devices bus.parts).dma 0).served bus.master.channel =
      (bus.parts.dma 0).served bus.master.channel := by rw [poll_dma_zero]; rfl
  show (_ && (_ || _ || ((poll transfers.devices bus.parts).dma 0).served _)) = false
  rw [hserved]
  exact hunheard

theorem guarded_access {transfers : Transfers κ} {bus : Bus (Askers κ)}
    (h : bus.Guarded transfers) {askers : Askers κ}
    (hreading : bus.parts.rest.tape.drive.reading = false → askers.tape.drive.reading = false)
    (hdisk : bus.parts.dmaPossible = false → bus.parts.rest.disk.disk.dmaRequest = false →
      askers.disk.disk.dmaRequest = false)
    (hfdc : bus.parts.rest.disk.fdc.dmaRequest = false → askers.disk.fdc.dmaRequest = false)
    (hpresent : askers.ethernetPresent = bus.parts.rest.ethernetPresent)
    (hcard : bus.parts.rest.ethernet.SameDma askers.ethernet) :
    Guarded transfers (bus.handle transfers.devices (.access bus.parts.dma false askers)) := by
  intro hdown
  have hdown : bus.parts.dmaPossible = false := (Bool.or_eq_false_iff.mp hdown).1
  have hasleep := h hdown
  exact
    { hasleep with
      reading := hreading hasleep.reading
      tape := Tape.dmaRequest_of_not_reading (hreading hasleep.reading)
      disk := hdisk hdown hasleep.disk
      fdc := hfdc hasleep.fdc
      ethernet := Askers.ethernetDmaRequest_quiet hpresent hcard hasleep.ethernet }

/-- Controllers that are reset are asked for nothing. -/
theorem guarded_resetDevices {transfers : Transfers κ} {bus : Bus (Askers κ)}
    (h : bus.Guarded transfers) (rest : κ) :
    Guarded transfers (bus.handle transfers.devices
      (.access (fun _ => I8237.reset) false { bus.parts.rest with rest := rest })) := by
  intro hdown
  have hasleep := h (Bool.or_eq_false_iff.mp hdown).1
  have hethernet : Askers.ethernetDmaRequest { bus.parts.rest with rest := rest } =
      (false, { bus.parts.rest with rest := rest }) :=
    @Askers.ethernetDmaRequest_quiet _ bus.parts.rest _ rfl ⟨rfl, rfl, rfl, rfl⟩ hasleep.ethernet
  exact
    { reading := hasleep.reading
      tape := hasleep.tape
      disk := hasleep.disk
      fdc := hasleep.fdc
      ethernet := hethernet
      tapePin := BitVec.getLsbD_zero
      fdcPin := BitVec.getLsbD_zero
      request := rfl
      pending := I8237.servicePending_of_idle rfl rfl
      second := rfl
      secondRequest := rfl }

/-- ONE STEP THAT SPARES THE GUARD. -/
theorem guarded_meet {transfers : Transfers κ} {bus : Bus (Askers κ)} (howned : bus.Owned)
    (h : bus.Guarded transfers) {happening : Happening κ}
    (hspares : Spares transfers bus happening) : Guarded transfers (bus.meet transfers happening) := by
  cases happening with
  | tick =>
    cases hpossible : bus.parts.dmaPossible with
    | false => exact guarded_tick_down hpossible h hspares
    | true => exact guarded_tick_up howned hpossible hspares
  | advance tape disk now rest =>
    exact guarded_access h (fun hreading => Askers.advance_reading hreading tape disk now rest)
      (fun _ hdisk => Askers.advance_disk hdisk tape disk now rest)
      (fun hfdc => Askers.advance_fdc hfdc tape disk now rest) rfl ⟨rfl, rfl, rfl, rfl⟩
  | access dma askers => exact fun hdown => absurd hdown (by simp [meet, eventOf, handle])
  | elsewhere rest => exact guarded_access h id (fun _ => id) id rfl ⟨rfl, rfl, rfl, rfl⟩
  | dataPort disk =>
    refine guarded_access h id (fun hdown _ => ?_) id rfl ⟨rfl, rfl, rfl, rfl⟩
    by_contra hasks
    exact absurd (hspares (by simpa using hasks)) (by rw [hdown]; decide)
  | resetDevices rest => exact guarded_resetDevices h rest
  | pump adapter rest =>
    exact guarded_access h id (fun _ => id) id rfl (Mailbox.pump_sameDma ⟨_, adapter⟩)
  | rmc rmc => exact h
  | committed cycleCommitted => exact h
  | adapter request masterL => exact h

theorem owned_meet {transfers : Transfers κ} {bus : Bus (Askers κ)} (howned : bus.Owned)
    {happening : Happening κ} (hspares : Spares transfers bus happening) :
    (bus.meet transfers happening).Owned := by
  refine owned_handle howned fun request masterL hmem => ?_
  cases happening with
  | adapter request masterL => exact hspares
  | tick => simp [eventOf] at hmem
  | advance tape disk now rest => simp [eventOf] at hmem
  | access dma askers => simp [eventOf] at hmem
  | elsewhere rest => simp [eventOf] at hmem
  | dataPort disk => simp [eventOf] at hmem
  | resetDevices rest => simp [eventOf] at hmem
  | pump adapter rest => simp [eventOf] at hmem
  | rmc rmc => simp [eventOf] at hmem
  | committed cycleCommitted => simp [eventOf] at hmem

/-! ## Every run -/

theorem guarded_live {transfers : Transfers κ} {bus : Bus (Askers κ)} (howned : bus.Owned)
    (h : bus.Guarded transfers) {happenings : List (Happening κ)}
    (hspared : Spared transfers bus happenings) :
    (bus.live transfers happenings).Owned ∧ (bus.live transfers happenings).Guarded transfers := by
  induction happenings generalizing bus with
  | nil => exact ⟨howned, h⟩
  | cons happening happenings ih =>
    exact ih (owned_meet howned hspared.1) (guarded_meet howned h hspared.1) hspared.2

/-- THE GUARD IS INVISIBLE IN EVERY RUN THAT SPARES IT. -/
theorem live_invisible (transfers : Transfers κ) (cpuHz : { hz // hz ∈ modelHz })
    (channel : Fin 4) (drq : Nat) (askers : Askers κ) (happenings : List (Happening κ))
    (hspared : Spared transfers (init cpuHz channel drq askers) happenings) :
    ((init cpuHz channel drq askers).live transfers happenings).Invisible transfers.devices := by
  obtain ⟨howned, hguarded⟩ := guarded_live (owned_init cpuHz channel drq askers)
    (fun hdown => nomatch hdown) hspared
  exact invisible_of_asleep howned hguarded

/-! ## A block for the Ethernet card -/

/-- A machine whose memory reads as zero, with nothing on the DMA channels but the card. -/
def cardTransfers : Transfers Unit where
  bus unit :=
    { memoryRead := fun parts _ => (0, parts)
      memoryWrite := fun parts _ _ => parts
      deviceRead := fun parts _ => (0xFF, parts)
      deviceWrite := fun parts channel value =>
        if unit = 1 ∧ channel = 2 then
          { parts with rest.ethernet := parts.rest.ethernet.dmaWrite value }
        else parts }
  bus_keeps unit := by
    refine ⟨fun _ _ _ h => h, fun _ _ _ _ h => h, fun _ _ h => h, fun parts channel value h => ?_⟩
    dsimp only
    split_ifs
    · exact h
    · exact h
  terminalCount unit channel askers :=
    if unit = 1 ∧ channel = 2 then { askers with ethernet := askers.ethernet.dmaTerminalCount }
    else askers

/-- The tape and the disk controller as they are reset, and the card with what was written to its
auxiliary DMA register and its control register. -/
def cardAskers (auxDma hcr : BitVec 8) : Askers Unit where
  tape :=
    { controller := ⟨0, 0, false, false, true, false, false, 0, false, 0, false, false, 0, false,
        false, 0, false, 0, false, 0, .ready⟩
      drive := ⟨[], false, false, false, false, 0, false, false⟩
      blockValid := false, offset := 0, nextByteAt := 0, markByteSent := false }
  disk :=
    { now := 0
      disk := ⟨0xC0, 0, .idle, 0, 0, 0⟩
      fdc := ⟨0, .idle, 0, 0, 0, 0, 0, 0, 0, 0, timeNever, fun _ => ⟨timeNever, false, false, 0⟩⟩ }
  ethernetPresent := true
  ethernet := ((Etherlink.reset ⟨0, 0, 0, 0, false, 0, false, [], false, 0, false, false, true,
    false⟩).write 2 auxDma).write 6 hcr
  rest := ()

/-- Channel 2 of the second controller programmed to read a block of memory on demand. -/
def cardBlock (count : BitVec 8) : Fin 2 → I8237 := fun unit =>
  if unit = 1 then
    ((((I8237.reset.writeRegister 11 0x0A).writeRegister 12 0x00).writeRegister 5 count).writeRegister
      5 0x00).writeRegister 10 0x02
  else I8237.reset

/-- The block programmed and the card enabled, and then clocks. -/
def cardRun (auxDma count : BitVec 8) (clocks : Nat) : List (Happening Unit) :=
  .access (cardBlock count) (cardAskers auxDma 0x20) :: List.replicate clocks .tick

/-- A clock of the board at 12 MHz. -/
def clock12 : { hz // hz ∈ modelHz } := ⟨12000000, by decide⟩

/-- A burst of two bytes spares the guard, which comes down after it and stays unseen. -/
theorem live_invisible_burst :
    Spared cardTransfers (init clock12 0 0 (cardAskers 0 0))
        (cardRun 0x01 0x01 24 ++ [.advance true true 1000 (), .elsewhere (), .tick]) ∧
      ((init clock12 0 0 (cardAskers 0 0)).live cardTransfers
        (cardRun 0x01 0x01 24 ++ [.advance true true 1000 (), .elsewhere (), .tick])).Invisible
          cardTransfers.devices := by
  have hspared : Spared cardTransfers (init clock12 0 0 (cardAskers 0 0))
      (cardRun 0x01 0x01 24 ++ [.advance true true 1000 (), .elsewhere (), .tick]) := by
    decide +kernel
  exact ⟨hspared, live_invisible cardTransfers clock12 0 0 (cardAskers 0 0) _ hspared⟩

/-- In demand mode the card pauses after nine bytes of a block of 32, and the guard hides that it
asks again. -/
theorem not_live_invisible :
    ¬ ((init clock12 0 0 (cardAskers 0 0)).live cardTransfers (cardRun 0x00 0x1F 133)).Invisible
      cardTransfers.devices := by
  intro h
  have hdown : ((init clock12 0 0 (cardAskers 0 0)).live cardTransfers
      (cardRun 0x00 0x1F 133)).parts.dmaPossible = false := by decide +kernel
  have hasks : (cardTransfers.devices.ethernetDmaRequest ((init clock12 0 0 (cardAskers 0 0)).live
      cardTransfers (cardRun 0x00 0x1F 133)).parts.rest).1 = true := by decide +kernel
  rw [(h hdown).1.2.2.2] at hasks
  exact absurd hasks (by decide)

end Bus

end Apollo.Board
