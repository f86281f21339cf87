import Mathlib
import Apollo.Device.Omti

/-!
# The tape in time

`src/core/board/ap_tape.c` with the card and the drive behind it, `ap_sc499.c` and `ap_qic.c`: the
command handshake's edges, the ending of a read at a file mark or at the end of the medium, and the
paced DMA request. ONLY A DRIVE THAT IS READING ASKS, and time only ends a read.
-/

namespace Apollo.Device

/-- `ap_sc499_entry_t`. -/
inductive Sc499Entry
  | ready
  | exception
  | direction
  | dataBlock
deriving DecidableEq

/-- `ap_sc499_t`. -/
structure Sc499 where
  control : BitVec 8
  data : BitVec 8
  ready : Bool
  exception : Bool
  done : Bool
  direction : Bool
  dmaActive : Bool
  now : Time
  executing : Bool
  readyAt : Time
  resetArming : Bool
  resetPending : Bool
  exceptionAt : Time
  holdDating : Bool
  holdDated : Bool
  heldSince : Time
  closing : Bool
  closeAt : Time
  reopening : Bool
  reopenAt : Time
  entry : Sc499Entry

namespace Sc499

/-- `AP_SC499_T_RESET_TO_EXCEPTION`. -/
def resetToException : Time := timeBaseHz / 1000000 * 200000

/-- The clock of the card, which does not go back. -/
def carry (card : Sc499) (now : Time) : Sc499 := if card.now < now then { card with now := now } else card

/-- The hold of the reset dated, and its exception dated and raised. -/
def advanceReset (card : Sc499) : Sc499 :=
  let card :=
    if card.holdDating then { card with holdDating := false, holdDated := true, heldSince := card.now }
    else card
  if card.resetArming then
    { card with
      resetArming := false, resetPending := true, exceptionAt := card.now + resetToException }
  else if card.resetPending ∧ card.exceptionAt ≤ card.now then
    { card with resetPending := false, exception := true }
  else card

/-- The end of a command's handshake. -/
def advanceCommand (card : Sc499) : Sc499 :=
  if card.executing ∧ card.readyAt ≤ card.now then
    let card := if card.entry = .exception then { card with exception := false } else card
    let card := if card.entry = .direction then { card with direction := false } else card
    { card with ready := card.ready || !card.exception, executing := false }
  else card

/-- The edges of READY after a command. -/
def advanceReady (card : Sc499) : Sc499 :=
  let card :=
    if card.closing ∧ card.closeAt ≤ card.now then { card with closing := false, ready := false }
    else card
  if card.reopening ∧ card.reopenAt ≤ card.now then
    { card with reopening := false, ready := card.ready || !card.exception }
  else card

/-- `ap_sc499_advance`. -/
def advance (card : Sc499) (now : Time) : Sc499 :=
  (((card.carry now).advanceReset).advanceCommand).advanceReady

/-- `ap_sc499_set_exception`. -/
def setException (card : Sc499) (asserted : Bool) : Sc499 :=
  { card with exception := asserted, ready := card.ready && !asserted }

/-- `ap_sc499_dma_ended`. -/
def dmaEnded (card : Sc499) : Sc499 := { card with dmaActive := false, done := true }

end Sc499

/-- `ap_ct_t`: the blocks of a cartridge, each of 512 bytes; no image is a cartridge without any. -/
abbrev Cartridge := List (Vector (BitVec 8) 512)

/-- `ap_ct_block_is_file_mark`: every word of the block is `AP_CT_FILE_MARK_WORD`. -/
def Cartridge.blockIsFileMark (image : Cartridge) (index : Nat) : Bool :=
  match image[index]? with
  | none => false
  | some block => block.toList == (List.replicate 128 [0xDE, 0xAF, 0xFA, 0xED]).flatten

/-- `ap_qic_t`. -/
structure Qic where
  image : Cartridge
  loaded : Bool
  selected : Bool
  reading : Bool
  writing : Bool
  position : Nat
  fileMark : Bool
  noData : Bool

namespace Qic

/-- Whether the drive can read at all. -/
def underWay (qic : Qic) : Bool := qic.reading && qic.loaded && qic.selected

/-- `ap_qic_at_file_mark`. -/
def atFileMark (qic : Qic) : Bool := qic.underWay && qic.image.blockIsFileMark qic.position

/-- `ap_qic_read_exhausted`. -/
def readExhausted (qic : Qic) : Bool :=
  qic.underWay && (qic.image.blockIsFileMark qic.position || qic.image.length ≤ qic.position)

/-- `ap_qic_end_read`. -/
def endRead (qic : Qic) : Qic :=
  if !qic.readExhausted then qic
  else if qic.image.blockIsFileMark qic.position then
    { qic with fileMark := true, position := qic.position + 1, reading := false }
  else { qic with noData := true, reading := false }

theorem reading_endRead {qic : Qic} (h : qic.reading = false) : qic.endRead.reading = false := by
  unfold endRead
  split_ifs
  · exact h
  · rfl
  · rfl

end Qic

/-- `ap_tape_t`. -/
structure Tape where
  controller : Sc499
  drive : Qic
  blockValid : Bool
  offset : Nat
  nextByteAt : Time
  markByteSent : Bool

namespace Tape

/-- `needs_block`. -/
def needsBlock (tape : Tape) : Bool := !(tape.blockValid && decide (tape.offset < 512))

/-- `ap_tape_dma_request`. -/
def dmaRequest (tape : Tape) : Bool :=
  if !tape.drive.reading then false
  else if tape.controller.now < tape.nextByteAt then false
  else if !tape.needsBlock then true
  else if tape.drive.atFileMark then tape.controller.dmaActive && !tape.markByteSent
  else !tape.drive.readExhausted

/-- The ending of a read that the tape has come to. -/
def reachEnd (tape : Tape) : Tape :=
  let atMark := tape.drive.atFileMark
  let controller := tape.controller.setException true
  { tape with
    markByteSent := false
    drive := tape.drive.endRead
    controller := if atMark then { controller with direction := false } else controller.dmaEnded }

/-- A DMAGO that the drive cannot answer ends. -/
def orphanDmago (tape : Tape) : Tape :=
  if tape.controller.dmaActive && !tape.drive.reading && !tape.drive.writing &&
      !tape.controller.exception then
    { tape with controller := tape.controller.dmaEnded }
  else tape

/-- `ap_tape_advance`. -/
def advance (tape : Tape) (now : Time) : Tape :=
  let tape := { tape with controller := tape.controller.advance now }
  if tape.needsBlock && tape.drive.readExhausted then
    if tape.drive.atFileMark && tape.controller.dmaActive && !tape.markByteSent then tape
    else tape.reachEnd.orphanDmago
  else tape.orphanDmago

/-! ## Only a drive that is reading asks -/

theorem dmaRequest_of_not_reading {tape : Tape} (h : tape.drive.reading = false) :
    tape.dmaRequest = false := by
  unfold dmaRequest
  simp [h]

@[simp] theorem orphanDmago_drive (tape : Tape) : tape.orphanDmago.drive = tape.drive := by
  unfold orphanDmago
  split_ifs <;> rfl

/-- THE CLOCK DOES NOT MAKE THE TAPE READ. -/
theorem reading_advance {tape : Tape} (now : Time) (h : tape.drive.reading = false) :
    (tape.advance now).drive.reading = false := by
  unfold advance
  dsimp only
  split_ifs
  · exact h
  · rw [orphanDmago_drive]
    exact Qic.reading_endRead h
  · rw [orphanDmago_drive]
    exact h

end Tape

end Apollo.Device
