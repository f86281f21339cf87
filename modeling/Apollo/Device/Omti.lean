import Mathlib
import Apollo.Time.Clock

/-!
# The fixed disk and floppy controller in time

`src/core/device/ap_omti.c`: two controllers on one board, each with a command that ends at a
deadline. What a register access does is not here; `ap_omti_advance`, which ends what a register
began, and the two DMA requests are. TIME RAISES NEITHER REQUEST: a data phase is entered by a
register, and a command that ends by the clock ends in its status phase.
-/

namespace Apollo.Device

/-- `AP_TIME_NEVER`. -/
def timeNever : Time := BitVec.allOnes 64

/-- `ap_omti_phase_t`. -/
inductive OmtiPhase
  | idle
  | command
  | dataIn
  | dataOut
  | status
  | executing
  | reset
deriving DecidableEq

/-- The fixed disk's half of `ap_omti_t`. -/
structure OmtiDisk where
  status : BitVec 8
  mask : BitVec 8
  phase : OmtiPhase
  completionAt : Time
  bufferIndex : Nat
  blocksLeft : Nat

/-- A drive of the floppy's half: its seek, and what SENSE INTERRUPT STATUS will say of it. -/
structure FdcSeek where
  seekAt : Time
  done : Bool
  fail : Bool
  st0 : BitVec 8

/-- The floppy's half of `ap_omti_t`. -/
structure OmtiFdc where
  dor : BitVec 8
  phase : OmtiPhase
  completionAt : Time
  status : BitVec 8
  commandLength : Nat
  commandIndex : Nat
  resultLength : Nat
  resultIndex : Nat
  bufferIndex : Nat
  bufferLength : Nat
  resetInterruptAt : Time
  seek : Fin 2 → FdcSeek

/-- `ap_omti_t`. -/
structure Omti where
  now : Time
  disk : OmtiDisk
  fdc : OmtiFdc

/-! ## The requests -/

/-- `ap_omti_disk_dma_request`: `AP_OMTI_ST_DREQ`. -/
def OmtiDisk.dmaRequest (disk : OmtiDisk) : Bool := disk.status.getLsbD 4

/-- `ap_omti_fdc_dma_request`: a data phase, behind `AP_OMTI_DOR_INT_DMA`. -/
def OmtiFdc.dmaRequest (fdc : OmtiFdc) : Bool :=
  fdc.dor.getLsbD 3 && (fdc.phase = .dataIn || fdc.phase = .dataOut)

/-! ## The clock -/

/-- `complete`: the status phase, in which there is no DMA cycle. -/
def OmtiDisk.complete (disk : OmtiDisk) : OmtiDisk :=
  let status := disk.status ||| 0x07
  let status := if disk.mask.getLsbD 1 then status ||| 0x20 else status
  { disk with phase := .status, bufferIndex := 0, blocksLeft := 0, status := status &&& ~~~0x10 }

/-- The fixed disk's share of `ap_omti_advance`. -/
def OmtiDisk.advance (disk : OmtiDisk) (now : Time) : OmtiDisk :=
  match disk.phase with
  | .reset => if disk.completionAt ≤ now then { disk with phase := .idle, completionAt := 0 } else disk
  | .executing => if disk.completionAt ≤ now then disk.complete else disk
  | _ => disk

namespace OmtiFdc

/-- `fdc_idle`. -/
def idle (fdc : OmtiFdc) : OmtiFdc :=
  { fdc with
    phase := .idle, commandLength := 0, commandIndex := 0, resultLength := 0, resultIndex := 0
    bufferIndex := 0, bufferLength := 0, status := 0x80 }

/-- `fdc_complete`: the result phase, or idle when the command has no result. -/
def complete (fdc : OmtiFdc) : OmtiFdc :=
  let fdc := { fdc with completionAt := 0 }
  if fdc.resultLength = 0 then fdc.idle
  else { fdc with phase := .status, resultIndex := 0, status := 0xD0 }

/-- The reset's ready-change interrupt. -/
def advanceReset (fdc : OmtiFdc) (now : Time) : OmtiFdc :=
  if fdc.resetInterruptAt ≠ timeNever ∧ fdc.resetInterruptAt ≤ now then
    { fdc with
      resetInterruptAt := timeNever
      seek := Function.update fdc.seek 0 { fdc.seek 0 with done := true, st0 := 0xC0 } }
  else fdc

/-- A drive that reaches its cylinder. -/
def advanceSeek (now : Time) (unit : Fin 2) (seek : FdcSeek) : FdcSeek :=
  if seek.seekAt = timeNever ∨ now < seek.seekAt then seek
  else
    { seekAt := timeNever, done := true, fail := false
      st0 := (if seek.fail then 0x70 else 0x20) ||| BitVec.ofNat 8 unit }

/-- The floppy's share of `ap_omti_advance`. -/
def advance (fdc : OmtiFdc) (now : Time) : OmtiFdc :=
  let fdc := fdc.advanceReset now
  let fdc := { fdc with seek := fun unit => advanceSeek now unit (fdc.seek unit) }
  if fdc.phase = .executing ∧ fdc.completionAt ≤ now then fdc.complete else fdc

end OmtiFdc

/-- `ap_omti_advance`. -/
def Omti.advance (omti : Omti) (now : Time) : Omti :=
  { now := now, disk := omti.disk.advance now, fdc := omti.fdc.advance now }

/-! ## Time raises neither request -/

theorem OmtiDisk.dmaRequest_complete (disk : OmtiDisk) : disk.complete.dmaRequest = false := by
  unfold complete dmaRequest
  simp

/-- THE CLOCK DOES NOT MAKE THE FIXED DISK ASK. -/
theorem OmtiDisk.dmaRequest_advance {disk : OmtiDisk} (now : Time)
    (h : disk.dmaRequest = false) : (disk.advance now).dmaRequest = false := by
  unfold advance
  split
  · split_ifs
    · exact h
    · exact h
  · split_ifs
    · exact disk.dmaRequest_complete
    · exact h
  · exact h

@[simp] theorem OmtiFdc.advanceReset_dmaRequest (fdc : OmtiFdc) (now : Time) :
    (fdc.advanceReset now).dmaRequest = fdc.dmaRequest := by
  unfold advanceReset
  split_ifs <;> rfl

theorem OmtiFdc.dmaRequest_complete (fdc : OmtiFdc) : fdc.complete.dmaRequest = false := by
  unfold complete idle dmaRequest
  dsimp only
  split_ifs <;> simp

/-- THE CLOCK DOES NOT MAKE THE FLOPPY ASK. -/
theorem OmtiFdc.dmaRequest_advance {fdc : OmtiFdc} (now : Time)
    (h : fdc.dmaRequest = false) : (fdc.advance now).dmaRequest = false := by
  unfold advance
  dsimp only
  split_ifs
  · exact OmtiFdc.dmaRequest_complete _
  · rw [← fdc.advanceReset_dmaRequest now] at h
    exact h

end Apollo.Device
