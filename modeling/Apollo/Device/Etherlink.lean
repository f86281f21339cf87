import Apollo.Lib.Sizes
import Mathlib

/-!
# The Ethernet card's host side

`src/core/device/ap_3c505.c`: the command and data registers between the host and the adapter, and
the DMA request. In demand mode the card lets go of the channel for one poll after nine transfers,
and it is the poll that pays: `dmaRequest` changes the card.
-/

namespace Apollo.Device

/-- `ap_3c505_t`. -/
structure Etherlink where
  hcr : BitVec 8
  acr : BitVec 8
  auxDma : BitVec 8
  toAdapter : BitVec 8
  toAdapterFull : Bool
  toHost : BitVec 8
  toHostFull : Bool
  fifo : List (BitVec 8)
  dmaDone : Bool
  dmaSincePause : Nat
  dmaPauseOwed : Bool
  testJumper : Bool
  sixteenBit : Bool
  adapterInitialising : Bool
deriving DecidableEq

namespace Etherlink

/-- `AP_3C505_DATA_FIFO`. -/
def dataFifo : Nat := 20

/-- `AP_3C505_DMA_DEMAND_BURST`. -/
def demandBurst : Nat := 9

/-- `ap_3c505_reset`: everything but the strapping. -/
def reset (card : Etherlink) : Etherlink :=
  { hcr := 0, acr := 0, auxDma := 0, toAdapter := 0, toAdapterFull := false, toHost := 0
    toHostFull := false, fifo := [], dmaDone := false, dmaSincePause := 0, dmaPauseOwed := false
    testJumper := card.testJumper, sixteenBit := card.sixteenBit, adapterInitialising := false }

/-- `host_to_adapter`. -/
def hostToAdapter (card : Etherlink) : Bool := !card.hcr.getLsbD 4

/-- `AP_3C505_HSR_HRDY`: room to put a byte one way, a byte to take the other. -/
def hrdy (card : Etherlink) : Bool :=
  if card.hostToAdapter then card.fifo.length < dataFifo else 0 < card.fifo.length

/-- `AP_3C505_HCR_DMAE`. -/
def dmae (card : Etherlink) : Bool := card.hcr.getLsbD 5

/-- A bit of a register. -/
def flag (asserted : Bool) (bits : BitVec 8) : BitVec 8 := if asserted then bits else 0

/-- `ap_3c505_host_status`. -/
def hostStatus (card : Etherlink) : BitVec 8 :=
  card.acr &&& 0x07 ||| flag card.dmaDone 0x08 ||| flag (card.hcr.getLsbD 4) 0x10 |||
    flag card.toHostFull 0x20 ||| flag (!card.toAdapterFull) 0x40 ||| flag card.hrdy 0x80

/-- `ap_3c505_read`, by the offset of the register. -/
def read (card : Etherlink) (offset : Nat) : BitVec 8 × Etherlink :=
  match offset with
  | 0 => (card.toHost, { card with toHostFull := false })
  | 2 => (card.hostStatus, card)
  | 4 =>
    if card.hostToAdapter then (0xFF, card)
    else
      match card.fifo with
      | [] => (0xFF, card)
      | value :: rest => (value, { card with fifo := rest })
  | 6 => (card.hcr, card)
  | _ => (0xFF, card)

/-- A write of the control register. -/
def writeControl (card : Etherlink) (value : BitVec 8) : Etherlink :=
  let previous := card.hcr
  let card := { card with hcr := value }
  if value &&& 0xC0 = 0xC0 then
    { card.reset with hcr := value, adapterInitialising := true, acr := 0x03 }
  else
    let card := if value.getLsbD 6 then { card with fifo := [] } else card
    let card :=
      if (previous ^^^ value).getLsbD 4 then { card with fifo := [] } else card
    if previous.getLsbD 5 && !value.getLsbD 5 then
      { card with dmaDone := false, dmaSincePause := 0, dmaPauseOwed := false }
    else card

/-- `ap_3c505_write`, by the offset of the register. -/
def write (card : Etherlink) (offset : Nat) (value : BitVec 8) : Etherlink :=
  match offset with
  | 0 => { card with toAdapter := value, toAdapterFull := true }
  | 2 => { card with auxDma := value }
  | 4 =>
    if !card.hostToAdapter || decide (dataFifo ≤ card.fifo.length) then card
    else { card with fifo := card.fifo ++ [value] }
  | 6 => card.writeControl value
  | _ => card

/-! ## The DMA request -/

/-- The card when it has paused. -/
def paused (card : Etherlink) : Etherlink := { card with dmaPauseOwed := false, dmaSincePause := 0 }

/-- `ap_3c505_dma_request`: what is asked, and the card that has been asked. -/
def dmaRequest (card : Etherlink) : Bool × Etherlink :=
  if !card.dmae then (false, card)
  else if card.dmaDone then (false, card)
  else if card.dmaPauseOwed then (false, card.paused)
  else (card.hrdy, card)

/-- `dma_cycle_ran`: without `AP_3C505_AUX_BRST` the ninth transfer owes a pause. -/
def dmaCycleRan (card : Etherlink) : Etherlink :=
  if card.auxDma.getLsbD 0 then card
  else
    { card with
      dmaSincePause := card.dmaSincePause + 1
      dmaPauseOwed := card.dmaPauseOwed || decide (demandBurst ≤ card.dmaSincePause + 1) }

/-- `ap_3c505_dma_write`. -/
def dmaWrite (card : Etherlink) (value : BitVec 8) : Etherlink := (card.write 4 value).dmaCycleRan

/-- `ap_3c505_dma_terminal_count`. -/
def dmaTerminalCount (card : Etherlink) : Etherlink := { card with dmaDone := true }

theorem dmaRequest_off {card : Etherlink} (h : (card.dmae && !card.dmaDone) = false) :
    card.dmaRequest = (false, card) := by
  unfold dmaRequest
  cases hdmae : card.dmae <;> cases hdone : card.dmaDone <;> simp_all

theorem dmaRequest_owed {card : Etherlink} (hon : (card.dmae && !card.dmaDone) = true)
    (howed : card.dmaPauseOwed = true) : card.dmaRequest = (false, card.paused) := by
  simp only [Bool.and_eq_true, Bool.not_eq_true'] at hon
  simp [dmaRequest, hon, howed]

theorem dmaRequest_free {card : Etherlink} (hon : (card.dmae && !card.dmaDone) = true)
    (howed : card.dmaPauseOwed = false) : card.dmaRequest = (card.hrdy, card) := by
  simp only [Bool.and_eq_true, Bool.not_eq_true'] at hon
  simp [dmaRequest, hon, howed]

/-- A poll of the card goes unanswered and the next one would not: it pauses, and it is ready. -/
def pausesReady (card : Etherlink) : Bool :=
  card.dmae && !card.dmaDone && card.dmaPauseOwed && card.hrdy

/-- A card that does not ask, and does not pause while it is ready, will not ask when it is polled
again, and the next poll leaves it as it is. -/
theorem dmaRequest_again {card : Etherlink} (hquiet : card.dmaRequest.1 = false)
    (hready : card.pausesReady = false) :
    card.dmaRequest.2.dmaRequest = (false, card.dmaRequest.2) := by
  cases hon : card.dmae && !card.dmaDone with
  | false => rw [dmaRequest_off hon, dmaRequest_off hon]
  | true =>
    cases howed : card.dmaPauseOwed with
    | true =>
      have hrdy : card.hrdy = false := by simpa [pausesReady, hon, howed] using hready
      rw [dmaRequest_owed hon howed, @dmaRequest_free card.paused hon rfl]
      exact congrArg (·, card.paused) hrdy
    | false =>
      rw [dmaRequest_free hon howed] at hquiet ⊢
      rw [dmaRequest_free hon howed]
      exact congrArg (·, card) hquiet

/-- A card that a poll finds quiet and leaves alone. -/
theorem dmaRequest_quiet_iff {card : Etherlink} : card.dmaRequest = (false, card) ↔
    card.dmae = false ∨ card.dmaDone = true ∨ (card.dmaPauseOwed = false ∧ card.hrdy = false) := by
  unfold dmaRequest
  cases hdmae : card.dmae with
  | false => simp
  | true =>
    cases hdone : card.dmaDone with
    | true => simp
    | false =>
      cases howed : card.dmaPauseOwed with
      | false => simp
      | true =>
        have hpaused : card.paused ≠ card := fun h =>
          absurd ((congrArg dmaPauseOwed h).trans howed) Bool.false_ne_true
        simp [hpaused]

/-- Two states of a card that ask for DMA alike. -/
structure SameDma (card card' : Etherlink) : Prop where
  hcr : card'.hcr = card.hcr
  fifo : card'.fifo = card.fifo
  dmaDone : card'.dmaDone = card.dmaDone
  dmaPauseOwed : card'.dmaPauseOwed = card.dmaPauseOwed

theorem SameDma.quiet {card card' : Etherlink} (h : card.SameDma card')
    (hquiet : card.dmaRequest = (false, card)) : card'.dmaRequest = (false, card') := by
  rw [dmaRequest_quiet_iff] at hquiet ⊢
  unfold dmae hrdy hostToAdapter at hquiet ⊢
  rw [h.hcr, h.fifo, h.dmaDone, h.dmaPauseOwed]
  exact hquiet

end Etherlink

end Apollo.Device
