import Apollo.Lib.Sizes
import Mathlib
import Apollo.Lib.Rotating

/-!
# The 8259A interrupt controller

`src/core/device/ap_i8259.c`: eight request lines, their mask and the levels in service, with a
priority that rotates. The registers are bytes with one bit for a level; `resolve` walks the levels
from the highest priority down.
-/

namespace Apollo.Device

open Lib.Rotating

/-- `1u << level` as a byte. -/
def bit (level : Fin 8) : BitVec 8 := 1#8 <<< level.val

/-- `(register & bit) != 0u`. -/
def has (register : BitVec 8) (level : Fin 8) : Bool := register.getLsbD level.val

variable {register other : BitVec 8} {level a b : Fin 8}

@[simp] theorem has_zero : has 0#8 a = false := BitVec.getLsbD_zero

@[simp] theorem has_or : has (register ||| other) a = (has register a || has other a) :=
  BitVec.getLsbD_or

@[simp] theorem has_and : has (register &&& other) a = (has register a && has other a) :=
  BitVec.getLsbD_and

@[simp] theorem has_not : has (~~~register) a = !has register a := by
  simp only [has, BitVec.getLsbD_not, a.isLt, decide_true, Bool.true_and]

@[simp] theorem has_bit : has (bit a) b = decide (b = a) := by
  revert a b
  decide

theorem eq_of_has (h : ∀ level, has register level = has other level) : register = other :=
  BitVec.eq_of_getLsbD_eq fun i hi => h ⟨i, hi⟩

theorem eq_zero_iff : register = 0#8 ↔ ∀ level, has register level = false := by
  refine ⟨fun h level => h ▸ has_zero, fun h => eq_of_has fun level => ?_⟩
  rw [h level, has_zero]

/-- `ap_i8259_init_t`. -/
inductive Init
  | ready
  | icw2
  | icw3
  | icw4
deriving DecidableEq

/-- `ap_i8259_t`. -/
structure I8259 where
  irr : BitVec 8
  isr : BitVec 8
  imr : BitVec 8
  pins : BitVec 8
  highestPriority : Fin 8
  vectorBase : BitVec 8
  cascade : BitVec 8
  single : Bool
  levelTriggered : Bool
  autoEoi : Bool
  x86Mode : Bool
  buffered : Bool
  master : Bool
  specialFullyNested : Bool
  autoRotate : Bool
  specialMask : Bool
  readIsr : Bool
  pollPending : Bool
  initState : Init
  expectIcw4 : Bool
  acknowledging : Bool
  acknowledgedLevel : Fin 8
deriving DecidableEq

namespace I8259

/-- `ap_i8259_init`: everything is zero but the mask. -/
def init : I8259 :=
  { irr := 0, isr := 0, imr := 0xFF, pins := 0, highestPriority := 0, vectorBase := 0
    cascade := 0, single := false, levelTriggered := false, autoEoi := false, x86Mode := false
    buffered := false, master := false, specialFullyNested := false, autoRotate := false
    specialMask := false, readIsr := false, pollPending := false, initState := .icw2
    expectIcw4 := false, acknowledging := false, acknowledgedLevel := 0 }

/-- `begin_initialization`. -/
def beginInitialization (pic : I8259) (value : BitVec 8) : I8259 :=
  let ic4 := value.getLsbD 0
  { pic with
    levelTriggered := value.getLsbD 3
    single := value.getLsbD 1
    expectIcw4 := ic4
    irr := 0
    imr := 0
    highestPriority := 0
    cascade := 7
    specialMask := false
    readIsr := false
    autoEoi := ic4 && pic.autoEoi
    x86Mode := ic4 && pic.x86Mode
    buffered := ic4 && pic.buffered
    master := ic4 && pic.master
    specialFullyNested := ic4 && pic.specialFullyNested
    isr := 0
    autoRotate := false
    pollPending := false
    acknowledging := false
    initState := .icw2 }

/-- `after_icw2`. -/
def afterIcw2 (pic : I8259) (ic4 : Bool) : Init :=
  if !pic.single then .icw3 else if ic4 then .icw4 else .ready

/-- `ap_i8259_set_request`: whether the wire moved, and the part. -/
def setRequest (pic : I8259) (line : Nat) (asserted : Bool) : Bool × I8259 :=
  if h : line < 8 then
    let level : Fin 8 := ⟨line, h⟩
    let wasHigh := has pic.pins level
    let moved := asserted != wasHigh
    let pins := if asserted then pic.pins ||| bit level else pic.pins &&& ~~~bit level
    let irr :=
      if pic.levelTriggered then
        if asserted then pic.irr ||| bit level else pic.irr &&& ~~~bit level
      else if asserted then
        if wasHigh then pic.irr else pic.irr ||| bit level
      else pic.irr &&& ~~~bit level
    (moved, { pic with pins := pins, irr := irr })
  else (false, pic)

/-- `refresh_level_requests`. -/
def refreshLevelRequests (pic : I8259) : I8259 :=
  if pic.levelTriggered then { pic with irr := pic.irr ||| pic.pins } else pic

/-- The levels that ask and are not masked. -/
def requests (pic : I8259) : BitVec 8 := pic.irr &&& ~~~pic.imr

/-- The levels in service that keep those at or below them out. -/
def blocking (pic : I8259) : BitVec 8 :=
  if pic.specialMask then pic.isr &&& ~~~pic.imr else pic.isr

/-- The loop of `resolve`, over the levels from the highest priority down. -/
def resolveFrom (nested : Bool) (requests blocking : BitVec 8) : List (Fin 8) → Option (Fin 8)
  | [] => none
  | level :: rest =>
    if has blocking level then
      if nested && has requests level then some level else none
    else if has requests level then some level
    else resolveFrom nested requests blocking rest

/-- `resolve`; also `ap_i8259_poll_level`. -/
def resolve (pic : I8259) : Option (Fin 8) :=
  if pic.requests = 0 then none
  else resolveFrom pic.specialFullyNested pic.requests pic.blocking (order pic.highestPriority)

/-- `ap_i8259_interrupt_pending`. -/
def interruptPending (pic : I8259) : Bool := pic.resolve.isSome

/-- `rotate_to_bottom`. -/
def rotateToBottom (pic : I8259) (level : Fin 8) : I8259 :=
  { pic with highestPriority := level + 1 }

/-- `highest_in_service`. -/
def highestInService (pic : I8259) : Option (Fin 8) :=
  first pic.highestPriority (has pic.blocking)

/-- What an end of interrupt does to the level it is for. -/
def endInterrupt (pic : I8259) (target : Option (Fin 8)) (rotate : Bool) : I8259 :=
  match target with
  | none => pic
  | some target =>
    let pic := { pic with isr := pic.isr &&& ~~~bit target }
    if rotate then pic.rotateToBottom target else pic

/-- `write_ocw2`. -/
def writeOcw2 (pic : I8259) (value : BitVec 8) : I8259 :=
  let rotate := value.getLsbD 7
  let specific := value.getLsbD 6
  let eoi := value.getLsbD 5
  let level : Fin 8 := (value.extractLsb' 0 3).toFin
  if eoi then pic.endInterrupt (if specific then some level else pic.highestInService) rotate
  else if rotate && specific then pic.rotateToBottom level
  else if rotate then { pic with autoRotate := true }
  else if !specific then { pic with autoRotate := false }
  else pic

/-- `write_ocw3`. -/
def writeOcw3 (pic : I8259) (value : BitVec 8) : I8259 :=
  let pic := if value.getLsbD 6 then { pic with specialMask := value.getLsbD 5 } else pic
  if value.getLsbD 2 then { pic with pollPending := true }
  else if value.getLsbD 1 then { pic with readIsr := value.getLsbD 0 }
  else pic

/-- `ap_i8259_write`. -/
def write (pic : I8259) (a0 : Bool) (value : BitVec 8) : I8259 :=
  if !a0 && value.getLsbD 4 then pic.beginInitialization value
  else if a0 then
    match pic.initState with
    | .icw2 =>
      { pic with vectorBase := value &&& 0xF8, initState := pic.afterIcw2 pic.expectIcw4 }
    | .icw3 => { pic with cascade := value, initState := if pic.expectIcw4 then .icw4 else .ready }
    | .icw4 =>
      { pic with
        x86Mode := value.getLsbD 0
        autoEoi := value.getLsbD 1
        buffered := value.getLsbD 3
        master := value.getLsbD 2
        specialFullyNested := value.getLsbD 4
        initState := .ready }
    | .ready => { pic with imr := value }
  else if value.getLsbD 3 then pic.writeOcw3 value
  else pic.writeOcw2 value

/-- What a poll and an acknowledge do to the level they find: it goes into service. -/
def serve (pic : I8259) (level : Fin 8) : I8259 :=
  refreshLevelRequests
    { pic with isr := pic.isr ||| bit level, irr := pic.irr &&& ~~~bit level }

/-- `ap_i8259_read`: the byte, and the part. -/
def read (pic : I8259) (a0 : Bool) : BitVec 8 × I8259 :=
  if a0 then (pic.imr, pic)
  else if pic.pollPending then
    let pic := { pic with pollPending := false }
    match pic.resolve with
    | none => (0, pic)
    | some level => (0x80#8 ||| BitVec.ofNat 8 level.val, pic.serve level)
  else (if pic.readIsr then pic.isr else pic.irr, pic)

/-- `ap_i8259_acknowledge_first`. -/
def acknowledgeFirst (pic : I8259) : Fin 8 × I8259 :=
  match pic.resolve with
  | none => (7, { pic with acknowledging := true, acknowledgedLevel := 7 })
  | some level =>
    (level, { pic.serve level with acknowledging := true, acknowledgedLevel := level })

/-- `ap_i8259_acknowledge_second`. -/
def acknowledgeSecond (pic : I8259) : BitVec 8 × I8259 :=
  let level := pic.acknowledgedLevel
  let pic := { pic with acknowledging := false }
  let pic := if pic.autoEoi then pic.endInterrupt pic.highestInService pic.autoRotate else pic
  (pic.vectorBase ||| BitVec.ofNat 8 level.val, pic)

/-! ## What the walks find -/

variable {pic : I8259}

theorem resolveFrom_eq (nested : Bool) (requests blocking : BitVec 8) (levels : List (Fin 8)) :
    resolveFrom nested requests blocking levels =
      (levels.find? fun level => has blocking level || has requests level).filter
        fun level => !has blocking level || nested && has requests level := by
  induction levels with
  | nil => rfl
  | cons level rest ih =>
    rw [resolveFrom, List.find?_cons, ih]
    cases hblocking : has blocking level <;> cases hrequests : has requests level <;>
      simp [Option.filter_some, hblocking, hrequests]

theorem resolve_eq (pic : I8259) :
    pic.resolve = (first pic.highestPriority fun level =>
      has pic.blocking level || has pic.requests level).filter fun level =>
        !has pic.blocking level || pic.specialFullyNested && has pic.requests level := by
  rw [resolve, resolveFrom_eq]
  split
  · rename_i hrequests
    have hnone : ∀ level, has pic.requests level = false := eq_zero_iff.mp hrequests
    refine (Option.filter_eq_none_iff.mpr fun level hfirst => ?_).symm
    have hfound := List.find?_some hfirst
    simp only [hnone, Bool.or_false] at hfound
    simp only [hnone, hfound, Bool.and_false, Bool.or_false, Bool.not_true, Bool.false_eq_true,
      not_false_eq_true]
  · rfl

theorem resolve_eq_some (hnested : pic.specialFullyNested = false) :
    pic.resolve = some level ↔
      has pic.requests level = true ∧ has pic.blocking level = false ∧
      ∀ b, rank pic.highestPriority b < rank pic.highestPriority level →
        has pic.blocking b = false ∧ has pic.requests b = false := by
  simp only [resolve_eq, Option.filter_eq_some_iff, first_eq_some, hnested, Bool.false_and,
    Bool.or_false, Bool.or_eq_true, Bool.or_eq_false_iff, Bool.not_eq_true']
  constructor
  · rintro ⟨⟨hfound, habove⟩, hblocking⟩
    exact ⟨hfound.resolve_left (by rw [hblocking]; exact Bool.false_ne_true), hblocking, habove⟩
  · rintro ⟨hrequests, hblocking, habove⟩
    exact ⟨⟨.inr hrequests, habove⟩, hblocking⟩

end I8259

/-!
## The request lines of an 8259A

An 8259A seen from its lines: each is a wire with a pin and a latch, and the part asks when the
latch of a level it admits is set. Which levels it admits depends on the mask, the levels in
service, the priorities and the modes, and no line changes these.
-/

/-- A request line: the pin as it is driven, and whether a request is latched. -/
structure Wire where
  pin : Bool
  latch : Bool
deriving DecidableEq

/-- Drive a line. It latches a request while it is up, or only at its rise if it is not level
triggered; when it is let down the request is withdrawn. -/
def Wire.drive (levelTriggered : Bool) (wire : Wire) (asserted : Bool) : Wire :=
  ⟨asserted, asserted && (levelTriggered || wire.latch || !wire.pin)⟩

namespace I8259

variable {pic : I8259} {level : Fin 8} {asserted : Bool}

/-- One line of the part. -/
def wire (pic : I8259) (level : Fin 8) : Wire := ⟨has pic.pins level, has pic.irr level⟩

/-- A request of this level would be served: it is unmasked, and above all that block. In the
special fully nested mode a level in service does not block its own requests. -/
def admits (pic : I8259) (level : Fin 8) : Bool :=
  !has pic.imr level && (List.finRange 8).all fun b =>
    !has pic.blocking b || decide (rank pic.highestPriority level < rank pic.highestPriority b) ||
      pic.specialFullyNested && b == level

/-- Whether the part asks, with its lines as given. -/
def asks (pic : I8259) (wires : Fin 8 → Wire) : Bool :=
  (List.finRange 8).any fun level => (wires level).latch && pic.admits level

theorem admits_iff : pic.admits level = true ↔
    has pic.imr level = false ∧ ∀ b, has pic.blocking b = true →
      rank pic.highestPriority level < rank pic.highestPriority b ∨
        pic.specialFullyNested = true ∧ b = level := by
  simp only [admits, Bool.and_eq_true, Bool.not_eq_true', List.all_eq_true, List.mem_finRange,
    true_imp_iff, Bool.or_eq_true, decide_eq_true_iff, beq_iff_eq]
  refine and_congr_right fun _ => forall_congr' fun b => ?_
  rw [or_assoc, ← Bool.not_eq_true, imp_iff_not_or]

theorem asks_iff {wires : Fin 8 → Wire} :
    pic.asks wires = true ↔ ∃ level, (wires level).latch = true ∧ pic.admits level = true := by
  simp only [asks, List.any_eq_true, List.mem_finRange, true_and, Bool.and_eq_true]

theorem interruptPending_eq (pic : I8259) : pic.interruptPending = pic.asks pic.wire := by
  rw [Bool.eq_iff_iff, asks_iff, interruptPending, Option.isSome_iff_exists]
  simp only [resolve_eq, Option.filter_eq_some_iff, first_eq_some, Bool.or_eq_true,
    Bool.or_eq_false_iff, Bool.and_eq_true, Bool.not_eq_true', admits_iff, wire, requests, has_and,
    has_not]
  constructor
  · rintro ⟨level, ⟨hfound, habove⟩, hserved⟩
    have hrequest : has pic.irr level = true ∧ has pic.imr level = false := by
      obtain hidle | ⟨_, hrequest⟩ := hserved
      · exact hfound.resolve_left (by rw [hidle]; exact Bool.false_ne_true)
      · exact hrequest
    refine ⟨level, hrequest.1, hrequest.2, fun b hb => ?_⟩
    obtain hlt | hge := lt_or_ge (rank pic.highestPriority level) (rank pic.highestPriority b)
    · exact .inl hlt
    · obtain hlt | heq := hge.lt_or_eq
      · exact absurd ((habove b hlt).1.symm.trans hb) Bool.false_ne_true
      · obtain rfl := rank_inj.mp heq
        exact .inr ⟨(hserved.resolve_left (by rw [hb]; exact Bool.noConfusion)).1, rfl⟩
  · rintro ⟨level, hlatch, hmask, hadmits⟩
    have hfirst : first pic.highestPriority (fun b =>
        has pic.blocking b || has pic.irr b && !has pic.imr b) ≠ none := by
      intro hnone
      have hlevel := first_eq_none.mp hnone level
      simp only [hlatch, hmask, Bool.not_false, Bool.and_self, Bool.or_true] at hlevel
      exact absurd hlevel Bool.noConfusion
    obtain ⟨top, htop⟩ := Option.ne_none_iff_exists'.mp hfirst
    obtain ⟨hfound, habove⟩ := first_eq_some.mp htop
    simp only [Bool.or_eq_true, Bool.and_eq_true, Bool.not_eq_true', Bool.or_eq_false_iff]
      at hfound habove
    refine ⟨top, ⟨hfound, habove⟩, ?_⟩
    cases hblocks : has pic.blocking top with
    | false => exact .inl rfl
    | true =>
      obtain hlt | ⟨hnested, rfl⟩ := hadmits top hblocks
      · have habsent := (habove level hlt).2
        rw [hlatch, hmask] at habsent
        exact absurd habsent Bool.noConfusion
      · exact .inr ⟨hnested, hlatch, hmask⟩

/-! ## Driving a line -/

theorem wire_setRequest (pic : I8259) (level b : Fin 8) (asserted : Bool) :
    (pic.setRequest level.val asserted).2.wire b =
      if b = level then (pic.wire level).drive pic.levelTriggered asserted else pic.wire b := by
  rw [setRequest, dif_pos level.isLt]
  by_cases hb : b = level
  · subst hb
    cases asserted <;> cases pic.levelTriggered <;> cases hpin : has pic.pins b <;>
      simp [wire, Wire.drive, hpin]
  · cases asserted <;> cases pic.levelTriggered <;> cases hpin : has pic.pins level <;>
      simp [wire, hb, hpin]

theorem setRequest_moved (pic : I8259) (level : Fin 8) (asserted : Bool) :
    (pic.setRequest level.val asserted).1 = (asserted != (pic.wire level).pin) := by
  rw [setRequest, dif_pos level.isLt]
  rfl

@[simp] theorem setRequest_levelTriggered (pic : I8259) (line : Nat) (asserted : Bool) :
    (pic.setRequest line asserted).2.levelTriggered = pic.levelTriggered := by
  rw [setRequest]
  split <;> rfl

theorem admits_setRequest (pic : I8259) (line : Nat) (asserted : Bool) :
    (pic.setRequest line asserted).2.admits = pic.admits := by
  rw [setRequest]
  split <;> rfl

theorem asks_setRequest (pic : I8259) (line : Nat) (asserted : Bool) :
    (pic.setRequest line asserted).2.asks = pic.asks := by
  funext wires
  simp only [asks, admits_setRequest]

end I8259

end Apollo.Device
