import Mathlib
import Apollo.Device.Wd7000

/-!
# What the ports and the time do to the SCSI adapter

The functions of the adapter, written as what becomes of it: a START of a mailbox
(`startOgmb_cases`), a write of the control register (`writeControl_eq`), the time
(`advance_eq`) and the acknowledgement of an interrupt that is not awaited.
-/

namespace Apollo.Device.Wd7000

open Lib

variable {δ : Type} {asc after : Wd7000 δ}

/-! ## Blocks -/

variable [ScsiTarget δ]

/-- The block that a full mailbox points to. -/
def scbOf (asc : Wd7000 δ) (n : Nat) : BitVec 32 := asc.readMemory24 (asc.ogmbAddress n + 1)

/-- The adapter once the block of a full mailbox was run, and its completion code. -/
def ran (asc : Wd7000 δ) (n : Nat) : BitVec 8 × Wd7000 δ :=
  (asc.takeMail n).runBlock (asc.scbOf n) fun i => asc.memory (asc.scbOf n + BitVec.ofNat 32 i)

theorem startOgmb_cases (asc : Wd7000 δ) (n : Nat) :
    ((!asc.initialized || asc.ogmbCount ≤ n || !asc.canMaster) = true ∧ asc.startOgmb n = (false, asc)) ∨
      (asc.initialized = true ∧ n < asc.ogmbCount ∧ asc.canMaster = true ∧
        ((asc.memory (asc.ogmbAddress n) = 0 ∧
            asc.startOgmb n = (false, (asc.postIcmb icmbCompleteError icmbNoAddress).2)) ∨
          (asc.memory (asc.ogmbAddress n) ≠ 0 ∧
            asc.startOgmb n = (true, ((asc.ran n).2.postIcmb (asc.ran n).1 (asc.scbOf n)).2)))) := by
  unfold startOgmb
  by_cases hrefused : (!asc.initialized || asc.ogmbCount ≤ n || !asc.canMaster) = true
  · exact .inl ⟨hrefused, if_pos hrefused⟩
  · refine .inr ?_
    rw [if_neg hrefused]
    rw [Bool.or_eq_true, Bool.or_eq_true, not_or, not_or, Bool.not_eq_true', Bool.not_eq_true',
      Bool.not_eq_false, Bool.not_eq_false, decide_eq_true_eq, not_le] at hrefused
    refine ⟨hrefused.1.1, hrefused.1.2, hrefused.2, ?_⟩
    by_cases hempty : asc.memory (asc.ogmbAddress n) = 0
    · exact .inl ⟨hempty, if_pos hempty⟩
    · exact .inr ⟨hempty, if_neg hempty⟩

/-! ## Scans -/

theorem scanBoxes_succ (asc : Wd7000 δ) (count : Nat) :
    asc.scanBoxes (count + 1) = (asc.scanBoxes count).scanBox count := by
  rw [scanBoxes, List.range_succ, List.foldl_append]
  rfl

/-! ## The ports -/

/-- The reset line is held. -/
def held (asc : Wd7000 δ) : Wd7000 δ :=
  { asc with
    inReset := true, holdDating := true, holdDated := false, ready := false, rejected := false
    interrupt := false, busy := false }

/-- The reset line is let go. -/
def released (asc : Wd7000 δ) : Wd7000 δ := { asc with inReset := false, holdDating := false, holdDated := false }

/-- The host control register holds this. -/
def controlled (asc : Wd7000 δ) (control : BitVec 8) : Wd7000 δ := { asc with control }

theorem writeControl_eq (asc : Wd7000 δ) (value : BitVec 8) :
    asc.writeControl value =
      if value.getLsbD 0 && !asc.control.getLsbD 0 then (asc.controlBus value).held
      else if !value.getLsbD 0 && asc.control.getLsbD 0 then
        if asc.longEnough then (asc.controlBus value).released.clear.controlled (value &&& ~~~0x01)
        else (asc.controlBus value).released
      else asc.controlBus value := rfl

/-! ## The time -/

/-- The part's time, and the moment from which a reset is held. -/
def dated (asc : Wd7000 δ) (now : Nat) : Wd7000 δ :=
  if asc.holdDating then
    { asc with now := max asc.now now, holdDating := false, holdDated := true, heldSince := max asc.now now }
  else { asc with now := max asc.now now }

/-- A diagnostic that is over. -/
def diagnosed (asc : Wd7000 δ) : Wd7000 δ :=
  { asc with diagnosing := false, intStatus := diagOk, poweredOn := true, ready := true }

/-- The diagnostic ends when its time has come. -/
def diagnose (asc : Wd7000 δ) : Wd7000 δ :=
  if asc.diagnosing && asc.diagnoseAt ≤ asc.now then asc.diagnosed else asc

/-- A command that is over. -/
def idle (asc : Wd7000 δ) : Wd7000 δ := { asc with busy := false, ready := true }

omit [ScsiTarget δ] in
theorem advance_eq (asc : Wd7000 δ) (now : Nat) :
    asc.advance now =
      if (asc.dated now).inReset then asc.dated now
      else if (asc.dated now).diagnose.busy && (asc.dated now).diagnose.readyAt ≤ (asc.dated now).diagnose.now then
        (asc.dated now).diagnose.idle
      else (asc.dated now).diagnose := by
  unfold advance dated
  cases asc.holdDating <;> rfl

/-! ## Runs -/

theorem run_cons (asc : Wd7000 δ) (event : Event δ) (events : List (Event δ)) :
    asc.run (event :: events) = (asc.step event).run events := rfl

/-! ## The acknowledgement -/

omit [ScsiTarget δ] in
theorem acknowledge_idle (hawaiting : asc.awaitingAck = false) :
    asc.acknowledge = { asc with interrupt := false } := by
  rw [acknowledge, hawaiting]
  rfl

end Apollo.Device.Wd7000
