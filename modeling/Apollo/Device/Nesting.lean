import Mathlib
import Apollo.Device.I8259

/-!
# Priority nesting

What one controller in the fully nested mode puts into service and takes out of it, in every state
that a run from power-on can reach. A run may rotate the priorities and end levels out of turn, so
it carries a record of the levels in service, the latest on top, each with whether the priorities
have moved since it went in.

An acknowledge that finds nothing to serve answers level 7 and puts nothing into service. Its
second cycle nevertheless ends the highest level in service when ends are automatic, so the nesting
holds exactly in the states where that cannot happen.
-/

namespace Apollo.Device.I8259

open Lib.Rotating

/-- The entry points of the part. -/
inductive Operation
  | setRequest (line : Nat) (asserted : Bool)
  | write (a0 : Bool) (value : BitVec 8)
  | read (a0 : Bool)
  | acknowledgeFirst
  | acknowledgeSecond

/-- The part after an operation. -/
def Operation.run (pic : I8259) : Operation → I8259
  | .setRequest line asserted => (pic.setRequest line asserted).2
  | .write a0 value => pic.write a0 value
  | .read a0 => (pic.read a0).2
  | .acknowledgeFirst => pic.acknowledgeFirst.2
  | .acknowledgeSecond => pic.acknowledgeSecond.2

/-- The two cycles of an acknowledge, as `ap_intr_acknowledge` runs them. -/
def acknowledge (pic : I8259) : BitVec 8 × I8259 := pic.acknowledgeFirst.2.acknowledgeSecond

variable {pic : I8259} {stack : List (Entry 8)} {level : Fin 8}

/-- Neither the special mask mode nor the special fully nested mode is on. -/
structure FullyNested (pic : I8259) : Prop where
  specialMask : pic.specialMask = false
  specialFullyNested : pic.specialFullyNested = false

/-- The level is unmasked, latched, and above every level in service. -/
structure Candidate (pic : I8259) (level : Fin 8) : Prop where
  latched : has pic.irr level = true
  unmasked : has pic.imr level = false
  above : ∀ b, has pic.isr b = true →
    rank pic.highestPriority level < rank pic.highestPriority b

/-- The highest of the candidates. -/
structure Best (pic : I8259) (level : Fin 8) : Prop extends Candidate pic level where
  highest : ∀ b, Candidate pic b → rank pic.highestPriority level ≤ rank pic.highestPriority b

/-- The highest of the levels in service. -/
structure Top (pic : I8259) (level : Fin 8) : Prop where
  inService : has pic.isr level = true
  highest : ∀ b, has pic.isr b = true →
    rank pic.highestPriority level ≤ rank pic.highestPriority b

/-- A level goes into service. -/
def Enters (before after : I8259) (level : Fin 8) : Prop :=
  has before.isr level = false ∧ has after.isr level = true

/-- A level goes out of service. -/
def Leaves (before after : I8259) (level : Fin 8) : Prop :=
  has before.isr level = true ∧ has after.isr level = false

/-- An OCW2 that ends an interrupt and names no level, with or without a rotation. -/
def NonSpecificEoi (value : BitVec 8) : Prop :=
  value.getLsbD 3 = false ∧ value.getLsbD 4 = false ∧ value.getLsbD 5 = true ∧
    value.getLsbD 6 = false

/-- The record of the levels in service, the latest on top, as an operation changes it. -/
def watch (before after : I8259) (stack : List (Entry 8)) : List (Entry 8) :=
  (((List.finRange 8).filter fun level => has after.isr level && !has before.isr level).map
    fun level => ⟨level, false⟩) ++
  (age (decide (before.highestPriority ≠ after.highestPriority)) stack).filter
    fun entry => has after.isr entry.level

/-- The states of the runs that stay in the fully nested mode, each with the record of the levels
in service. -/
inductive Run : I8259 → List (Entry 8) → Prop
  | init : Run init []
  | step {pic : I8259} {stack : List (Entry 8)} (h : Run pic stack) (operation : Operation)
      (hnested : (operation.run pic).FullyNested) :
      Run (operation.run pic) (watch pic (operation.run pic) stack)

/-! ## What is served -/

theorem FullyNested.blocking (h : pic.FullyNested) : pic.blocking = pic.isr := by
  rw [I8259.blocking, h.specialMask, if_neg Bool.false_ne_true]

theorem has_requests :
    has pic.requests level = true ↔ has pic.irr level = true ∧ has pic.imr level = false := by
  rw [requests, has_and, has_not, Bool.and_eq_true, Bool.not_eq_true']

theorem FullyNested.resolve_eq_some (h : pic.FullyNested) :
    pic.resolve = some level ↔ pic.Best level := by
  rw [I8259.resolve_eq_some h.specialFullyNested, h.blocking]
  constructor
  · rintro ⟨hasks, hidle, habove⟩
    obtain ⟨hlatched, hunmasked⟩ := has_requests.mp hasks
    refine ⟨⟨hlatched, hunmasked, fun b hb => ?_⟩, fun b hb => ?_⟩
    · refine lt_of_not_ge fun hle => ?_
      obtain hlt | heq := hle.lt_or_eq
      · exact Bool.false_ne_true ((habove b hlt).1.symm.trans hb)
      · exact Bool.false_ne_true (hidle.symm.trans (rank_inj.mp heq ▸ hb))
    · refine le_of_not_gt fun hlt => ?_
      exact Bool.false_ne_true ((habove b hlt).2.symm.trans
        (has_requests.mpr ⟨hb.latched, hb.unmasked⟩))
  · intro hbest
    refine ⟨has_requests.mpr ⟨hbest.latched, hbest.unmasked⟩, ?_, fun b hlt => ⟨?_, ?_⟩⟩
    · exact Bool.eq_false_iff.mpr fun hb => lt_irrefl _ (hbest.above level hb)
    · exact Bool.eq_false_iff.mpr fun hb => lt_asymm hlt (hbest.above b hb)
    · refine Bool.eq_false_iff.mpr fun hb => not_le_of_gt hlt (hbest.highest b ?_)
      obtain ⟨hlatched, hunmasked⟩ := has_requests.mp hb
      exact ⟨hlatched, hunmasked, fun c hc => hlt.trans (hbest.above c hc)⟩

theorem Best.idle (h : pic.Best level) : has pic.isr level = false :=
  Bool.eq_false_iff.mpr fun hb => lt_irrefl _ (h.above level hb)

theorem exists_best (h : pic.Candidate level) : ∃ best, pic.Best best := by
  classical
  obtain ⟨best, hbest, hle⟩ := Finset.exists_min_image (Finset.univ.filter pic.Candidate)
    (rank pic.highestPriority) ⟨level, Finset.mem_filter.mpr ⟨Finset.mem_univ _, h⟩⟩
  exact ⟨best, (Finset.mem_filter.mp hbest).2, fun b hb =>
    hle b (Finset.mem_filter.mpr ⟨Finset.mem_univ _, hb⟩)⟩

theorem FullyNested.resolve_eq_none (h : pic.FullyNested) :
    pic.resolve = none ↔ ∀ level, ¬pic.Candidate level := by
  rw [Option.eq_none_iff_forall_ne_some]
  refine ⟨fun hnone level hcandidate => ?_, fun hnone level hsome => ?_⟩
  · obtain ⟨best, hbest⟩ := exists_best hcandidate
    exact hnone best (h.resolve_eq_some.mpr hbest)
  · exact hnone level (h.resolve_eq_some.mp hsome).toCandidate

theorem FullyNested.highestInService_eq_some (h : pic.FullyNested) :
    pic.highestInService = some level ↔ pic.Top level := by
  rw [highestInService, h.blocking, first_eq_some]
  refine ⟨fun ⟨hin, habove⟩ => ⟨hin, fun b hb => le_of_not_gt fun hlt => ?_⟩,
    fun htop => ⟨htop.inService, fun b hlt => Bool.eq_false_iff.mpr fun hb => ?_⟩⟩
  · exact Bool.false_ne_true ((habove b hlt).symm.trans hb)
  · exact not_le_of_gt hlt (htop.highest b hb)

theorem FullyNested.highestInService_eq_none (h : pic.FullyNested) :
    pic.highestInService = none ↔ pic.isr = 0#8 := by
  rw [highestInService, h.blocking, first_eq_none, eq_zero_iff]

/-! ## What the operations do to the levels in service -/

@[simp] theorem refreshLevelRequests_isr (pic : I8259) :
    pic.refreshLevelRequests.isr = pic.isr := by
  rw [refreshLevelRequests]
  split <;> rfl

@[simp] theorem refreshLevelRequests_highestPriority (pic : I8259) :
    pic.refreshLevelRequests.highestPriority = pic.highestPriority := by
  rw [refreshLevelRequests]
  split <;> rfl

@[simp] theorem serve_isr (pic : I8259) (level : Fin 8) :
    (pic.serve level).isr = pic.isr ||| bit level :=
  refreshLevelRequests_isr _

@[simp] theorem serve_highestPriority (pic : I8259) (level : Fin 8) :
    (pic.serve level).highestPriority = pic.highestPriority :=
  refreshLevelRequests_highestPriority _

theorem endInterrupt_isr (pic : I8259) (target : Option (Fin 8)) (rotate : Bool) (level : Fin 8) :
    has (pic.endInterrupt target rotate).isr level =
      (has pic.isr level && !decide (target = some level)) := by
  cases target with
  | none => simp [endInterrupt]
  | some target =>
    have hisr : (pic.endInterrupt (some target) rotate).isr = pic.isr &&& ~~~bit target := by
      cases rotate <;> rfl
    simp [hisr, eq_comm]

/-- What an operation can do to the levels in service: one goes in, the highest candidate, or none
does. -/
inductive Change (before after : I8259) : Prop
  | enters (level : Fin 8) (hbest : before.Best level) (hisr : after.isr = before.isr ||| bit level)
      (hhighest : after.highestPriority = before.highestPriority)
  | none (hisr : ∀ level, has after.isr level = true → has before.isr level = true)

theorem change_setRequest (pic : I8259) (line : Nat) (asserted : Bool) :
    Change pic (pic.setRequest line asserted).2 := by
  refine .none fun level hlevel => ?_
  rw [setRequest] at hlevel
  split at hlevel <;> exact hlevel

theorem change_endInterrupt (pic : I8259) (target : Option (Fin 8)) (rotate : Bool) :
    Change pic (pic.endInterrupt target rotate) := by
  refine .none fun level hlevel => ?_
  rw [endInterrupt_isr, Bool.and_eq_true] at hlevel
  exact hlevel.1

theorem change_write (pic : I8259) (a0 : Bool) (value : BitVec 8) :
    Change pic (pic.write a0 value) := by
  have hsame : ∀ {after : I8259}, after.isr = pic.isr → Change pic after :=
    fun h => .none fun level hlevel => h ▸ hlevel
  rw [write]
  split
  · refine .none fun level hlevel => ?_
    rw [show (pic.beginInitialization value).isr = 0#8 from rfl, has_zero] at hlevel
    exact absurd hlevel Bool.false_ne_true
  · split
    · split <;> exact hsame rfl
    · split
      · refine hsame ?_
        simp only [writeOcw3, apply_ite I8259.isr, ite_self]
      · rw [writeOcw2]
        split
        · exact change_endInterrupt ..
        · refine hsame ?_
          simp only [apply_ite I8259.isr, rotateToBottom, ite_self]

theorem FullyNested.change_read (h : pic.FullyNested) (a0 : Bool) :
    Change pic (pic.read a0).2 := by
  have hsame : ∀ {after : I8259}, after.isr = pic.isr → Change pic after :=
    fun h => .none fun level hlevel => h ▸ hlevel
  rw [read]
  split
  · exact hsame rfl
  · split
    · dsimp only
      split
      · exact hsame rfl
      · rename_i level hresolve
        refine .enters level (h.resolve_eq_some.mp hresolve) ?_ ?_
        · rw [serve_isr]
        · rw [serve_highestPriority]
    · exact hsame rfl

theorem FullyNested.change_acknowledgeFirst (h : pic.FullyNested) :
    Change pic pic.acknowledgeFirst.2 := by
  rw [acknowledgeFirst]
  split
  · exact .none fun level hlevel => hlevel
  · rename_i level hresolve
    exact .enters level (h.resolve_eq_some.mp hresolve) (serve_isr pic level)
      (serve_highestPriority pic level)

theorem change_acknowledgeSecond (pic : I8259) : Change pic pic.acknowledgeSecond.2 := by
  refine .none fun level hlevel => ?_
  rw [acknowledgeSecond] at hlevel
  dsimp only at hlevel
  split at hlevel
  · rw [endInterrupt_isr, Bool.and_eq_true] at hlevel
    exact hlevel.1
  · exact hlevel

theorem FullyNested.change_run (h : pic.FullyNested) (operation : Operation) :
    Change pic (operation.run pic) := by
  cases operation with
  | setRequest line asserted => exact change_setRequest pic line asserted
  | write a0 value => exact change_write pic a0 value
  | read a0 => exact h.change_read a0
  | acknowledgeFirst => exact h.change_acknowledgeFirst
  | acknowledgeSecond => exact change_acknowledgeSecond pic

/-! ## The record of the levels in service -/

/-- The record has the levels in service, and each that went in since the priorities last moved is
above those that were there before it. -/
structure Recorded (pic : I8259) (stack : List (Entry 8)) : Prop where
  levels : ∀ level, (∃ entry ∈ stack, entry.level = level) ↔ has pic.isr level = true
  nested : Nested pic.highestPriority stack

theorem recorded_init : Recorded init [] :=
  ⟨fun level => by simp [init], nested_nil _⟩

theorem Recorded.watch_none (h : Recorded pic stack) {after : I8259}
    (hisr : ∀ level, has after.isr level = true → has pic.isr level = true) :
    Recorded after (watch pic after stack) := by
  have hnone : ((List.finRange 8).filter fun level => has after.isr level && !has pic.isr level)
      = [] := by
    refine List.filter_eq_nil_iff.mpr fun level _ => ?_
    rw [Bool.and_eq_true, Bool.not_eq_true']
    exact fun ⟨hafter, hbefore⟩ => Bool.false_ne_true (hbefore.symm.trans (hisr level hafter))
  rw [watch, hnone, List.map_nil, List.nil_append]
  refine ⟨fun level => ?_, (h.nested.age after.highestPriority).filter _⟩
  constructor
  · rintro ⟨entry, hentry, rfl⟩
    exact (List.mem_filter.mp hentry).2
  · intro hafter
    obtain ⟨entry, hentry, rfl⟩ := mem_age.mpr ((h.levels level).mpr (hisr level hafter))
    exact ⟨entry, List.mem_filter.mpr ⟨hentry, hafter⟩, rfl⟩

theorem Recorded.watch_enters (h : Recorded pic stack) {after : I8259} (hbest : pic.Best level)
    (hisr : after.isr = pic.isr ||| bit level)
    (hhighest : after.highestPriority = pic.highestPriority) :
    Recorded after (watch pic after stack) := by
  have hone : ((List.finRange 8).filter fun b => has after.isr b && !has pic.isr b) = [level] := by
    have hsingle : ∀ level : Fin 8, ((List.finRange 8).filter (· = level)) = [level] := by decide
    rw [← hsingle level]
    refine List.filter_congr fun b _ => ?_
    rw [hisr, has_or, has_bit]
    by_cases hb : b = level
    · rw [hb, hbest.idle, decide_eq_true rfl]
      rfl
    · rw [decide_eq_false hb, Bool.or_false, Bool.and_not_self]
  have hage := (h.nested.age after.highestPriority).filter fun entry => has after.isr entry.level
  rw [watch, hone]
  refine ⟨fun b => ?_, hage.cons fun entry hentry => ?_⟩
  · have hafter : has after.isr b = true ↔ has pic.isr b = true ∨ b = level := by
      rw [hisr, has_or, has_bit, Bool.or_eq_true, decide_eq_true_iff]
    constructor
    · rintro ⟨entry, hentry, rfl⟩
      obtain rfl | hkept := List.mem_cons.mp hentry
      · exact hafter.mpr (.inr rfl)
      · exact (List.mem_filter.mp hkept).2
    · intro hb
      obtain hbefore | hnew := hafter.mp hb
      · obtain ⟨entry, hentry, rfl⟩ := mem_age.mpr ((h.levels b).mpr hbefore)
        exact ⟨entry, List.mem_cons_of_mem _ (List.mem_filter.mpr ⟨hentry, hb⟩), rfl⟩
      · exact ⟨_, List.mem_cons_self .., hnew.symm⟩
  · rw [hhighest]
    exact hbest.above _ ((h.levels _).mp (mem_age.mp ⟨entry, (List.mem_filter.mp hentry).1, rfl⟩))

theorem Recorded.step (h : Recorded pic stack) {after : I8259} (hchange : Change pic after) :
    Recorded after (watch pic after stack) := by
  cases hchange with
  | enters level hbest hisr hhighest => exact h.watch_enters hbest hisr hhighest
  | none hisr => exact h.watch_none hisr

theorem Run.fullyNested (h : Run pic stack) : pic.FullyNested := by
  cases h with
  | init => exact ⟨rfl, rfl⟩
  | step _ _ hnested => exact hnested

theorem Run.recorded (h : Run pic stack) : Recorded pic stack := by
  induction h with
  | init => exact recorded_init
  | step hrun operation _ ih => exact ih.step (hrun.fullyNested.change_run operation)

/-! ## The nesting -/

/-- What priority nesting asks for in one state of a run, with the record of the levels in
service. -/
structure PriorityNesting (pic : I8259) (stack : List (Entry 8)) : Prop where
  /-- Whatever goes into service is the highest of the levels that are unmasked, latched and above
  all in service. -/
  enters : ∀ (operation : Operation) level, Enters pic (operation.run pic) level → pic.Best level
  /-- An acknowledge serves that level. -/
  acknowledged : ∀ level, pic.Best level →
    pic.acknowledgeFirst.1 = level ∧ Enters pic pic.acknowledgeFirst.2 level
  /-- A poll serves that level. -/
  polled : pic.pollPending = true → ∀ level, pic.Best level →
    (pic.read false).1 = 0x80#8 ||| BitVec.ofNat 8 level.val ∧ Enters pic (pic.read false).2 level
  /-- A non-specific end takes the highest level out of service and no other. -/
  ends : ∀ value, NonSpecificEoi value → ∀ level,
    Leaves pic (pic.write false value) level ↔ pic.Top level
  /-- That is the level that went in last, if the priorities have not moved since. -/
  latest : ∀ entry rest, stack = entry :: rest → entry.moved = false → pic.Top entry.level
  /-- An acknowledge with nothing to serve answers level 7 and changes no request and nothing in
  service. -/
  spurious : (∀ level, ¬pic.Candidate level) →
    pic.acknowledgeFirst.1 = 7 ∧ pic.acknowledge.1 = pic.vectorBase ||| 7#8 ∧
      pic.acknowledge.2.irr = pic.irr ∧ pic.acknowledge.2.isr = pic.isr

theorem Change.best {after : I8259} (h : Change pic after) (henters : Enters pic after level) :
    pic.Best level := by
  cases h with
  | enters best hbest hisr =>
    have hlevel := henters.2
    rw [hisr, has_or, henters.1, Bool.false_or, has_bit, decide_eq_true_iff] at hlevel
    exact hlevel ▸ hbest
  | none hisr => exact absurd (henters.1.symm.trans (hisr level henters.2)) Bool.false_ne_true

theorem Best.enters_serve (h : pic.Best level) {after : I8259}
    (hisr : after.isr = pic.isr ||| bit level) : Enters pic after level := by
  refine ⟨h.idle, ?_⟩
  rw [hisr, has_or, has_bit, decide_eq_true rfl, Bool.or_true]

theorem FullyNested.acknowledgeFirst_eq (h : pic.FullyNested) (hbest : pic.Best level) :
    pic.acknowledgeFirst.1 = level ∧ Enters pic pic.acknowledgeFirst.2 level := by
  rw [acknowledgeFirst, h.resolve_eq_some.mpr hbest]
  exact ⟨rfl, hbest.enters_serve (serve_isr pic level)⟩

theorem FullyNested.read_eq (h : pic.FullyNested) (hpoll : pic.pollPending = true)
    (hbest : pic.Best level) :
    (pic.read false).1 = 0x80#8 ||| BitVec.ofNat 8 level.val ∧
      Enters pic (pic.read false).2 level := by
  have hresolve : ({ pic with pollPending := false } : I8259).resolve = some level :=
    h.resolve_eq_some.mpr hbest
  rw [read, if_neg Bool.false_ne_true, if_pos hpoll]
  simp only [hresolve]
  exact ⟨trivial, hbest.enters_serve (serve_isr _ level)⟩

theorem write_nonSpecificEoi {value : BitVec 8} (h : NonSpecificEoi value) :
    pic.write false value = pic.endInterrupt pic.highestInService (value.getLsbD 7) := by
  obtain ⟨hocw2, hicw1, heoi, hspecific⟩ := h
  simp only [write, hocw2, hicw1, writeOcw2, heoi, hspecific, Bool.not_false, Bool.and_false,
    Bool.false_eq_true, if_true, if_false]

theorem FullyNested.leaves_iff (h : pic.FullyNested) {value : BitVec 8}
    (heoi : NonSpecificEoi value) :
    Leaves pic (pic.write false value) level ↔ pic.Top level := by
  rw [Leaves, write_nonSpecificEoi heoi, endInterrupt_isr, ← h.highestInService_eq_some]
  constructor
  · rintro ⟨hbefore, hafter⟩
    rw [hbefore, Bool.true_and, Bool.not_eq_false', decide_eq_true_iff] at hafter
    exact hafter
  · intro htop
    refine ⟨(h.highestInService_eq_some.mp htop).inService, ?_⟩
    rw [htop, decide_eq_true rfl, Bool.not_true, Bool.and_false]

theorem Recorded.top {entry : Entry 8} (h : Recorded pic (entry :: stack))
    (hmoved : entry.moved = false) : pic.Top entry.level := by
  refine ⟨(h.levels _).mp ⟨entry, List.mem_cons_self .., rfl⟩, fun b hb => ?_⟩
  obtain ⟨other, hother, rfl⟩ := (h.levels b).mpr hb
  exact h.nested.le_head hmoved other hother

@[simp] theorem endInterrupt_irr (pic : I8259) (target : Option (Fin 8)) (rotate : Bool) :
    (pic.endInterrupt target rotate).irr = pic.irr := by
  cases target <;> cases rotate <;> rfl

@[simp] theorem endInterrupt_vectorBase (pic : I8259) (target : Option (Fin 8)) (rotate : Bool) :
    (pic.endInterrupt target rotate).vectorBase = pic.vectorBase := by
  cases target <;> cases rotate <;> rfl

/-- The part between the two cycles of an acknowledge that found nothing, without its flag. -/
def foundNothing (pic : I8259) : I8259 :=
  { pic with acknowledging := false, acknowledgedLevel := 7 }

theorem acknowledgeFirst_of_none (h : pic.resolve = none) :
    pic.acknowledgeFirst = (7, { pic.foundNothing with acknowledging := true }) := by
  rw [acknowledgeFirst, h]
  rfl

theorem acknowledge_of_none (h : pic.resolve = none) :
    pic.acknowledge = (pic.vectorBase ||| 7#8,
      if pic.autoEoi then pic.foundNothing.endInterrupt pic.highestInService pic.autoRotate
      else pic.foundNothing) := by
  rw [acknowledge, acknowledgeFirst_of_none h, acknowledgeSecond, Prod.mk.injEq]
  refine ⟨?_, rfl⟩
  dsimp only
  split
  · rw [endInterrupt_vectorBase]
    rfl
  · rfl

theorem FullyNested.acknowledge_spurious (h : pic.FullyNested)
    (hnone : ∀ level, ¬pic.Candidate level) :
    pic.acknowledgeFirst.1 = 7 ∧ pic.acknowledge.1 = pic.vectorBase ||| 7#8 ∧
      pic.acknowledge.2.irr = pic.irr ∧
      (pic.acknowledge.2.isr = pic.isr ↔ ¬(pic.autoEoi = true ∧ pic.isr ≠ 0#8)) := by
  have hresolve := h.resolve_eq_none.mpr hnone
  rw [acknowledge_of_none hresolve, acknowledgeFirst_of_none hresolve]
  refine ⟨rfl, rfl, ?_⟩
  cases hauto : pic.autoEoi with
  | false => exact ⟨rfl, iff_of_true rfl fun hboth => Bool.false_ne_true hboth.1⟩
  | true =>
    simp only [if_true, true_and, not_not, endInterrupt_irr]
    refine ⟨rfl, fun hsame => ?_, fun hzero => ?_⟩
    · refine h.highestInService_eq_none.mp (Option.eq_none_iff_forall_ne_some.mpr fun top htop => ?_)
      have hleft : has (pic.foundNothing.endInterrupt pic.highestInService pic.autoRotate).isr top
          = false := by
        rw [endInterrupt_isr, htop, decide_eq_true rfl, Bool.not_true, Bool.and_false]
      rw [hsame, (h.highestInService_eq_some.mp htop).inService] at hleft
      exact Bool.false_ne_true hleft.symm
    · rw [h.highestInService_eq_none.mpr hzero]
      rfl

end Apollo.Device.I8259
