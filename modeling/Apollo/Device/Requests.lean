import Mathlib
import Apollo.Lib.EachStep
import Apollo.Device.Nesting
import Apollo.Device.I8259

/-!
# Requests of an 8259A

What becomes of a request from the rise of its line to its acknowledge, in any mode and under any
operation. A line that is up is heard while its request is latched, and attended to while it is
latched or in service. An edge-triggered part stops hearing a line when it takes it, and attends to
it until the service is ended or the part started over.

A PART TAKES A REQUEST NO OFTENER THAN ITS LINE HAS RISEN: always while it is edge triggered, and
while it is level triggered if no line is up when its service ends (`Punctual`).
-/

namespace Apollo.Device.I8259

open Lib.Rotating

variable {pic after : I8259} {level : Fin 8}

/-- A request is latched only while its line is up. -/
def Latched (pic : I8259) : Prop := ∀ level, has pic.irr level = true → has pic.pins level = true

/-- A line that is up has its request latched. -/
def Heard (pic : I8259) (level : Fin 8) : Prop :=
  has pic.pins level = true → has pic.irr level = true

/-- Every line that is up has its request latched. -/
def Settled (pic : I8259) : Prop := ∀ level, pic.Heard level

instance (pic : I8259) (level : Fin 8) : Decidable (pic.Heard level) :=
  inferInstanceAs (Decidable (_ → _))

instance (pic : I8259) : Decidable pic.Settled := inferInstanceAs (Decidable (∀ _, _))

/-- A line that is up has its request latched or in service. -/
def Attended (pic : I8259) (level : Fin 8) : Prop :=
  has pic.pins level = true → has pic.irr level = true ∨ has pic.isr level = true

/-- The level an operation takes: an acknowledge or a poll of the level that is resolved. -/
def taken (pic : I8259) : Operation → Option (Fin 8)
  | .acknowledgeFirst => pic.resolve
  | .read a0 => if !a0 && pic.pollPending then pic.resolve else none
  | _ => none

/-- The level that an OCW2 ends, if it ends one. -/
def endedBy (pic : I8259) (value : BitVec 8) : Option (Fin 8) :=
  if value.getLsbD 5 then
    if value.getLsbD 6 then some (value.extractLsb' 0 3).toFin else pic.highestInService
  else none

/-- ICW1, which starts the part over. -/
def Operation.starts : Operation → Bool
  | .write a0 value => !a0 && value.getLsbD 4
  | _ => false

/-- An operation that drives a line up. -/
def Operation.raises (level : Fin 8) : Operation → Bool
  | .setRequest line asserted => asserted && line == level.val
  | _ => false

/-- An operation that ends the service of a level: an OCW2, or the second cycle of an acknowledge
when ends are automatic. -/
def ends (pic : I8259) (level : Fin 8) : Operation → Bool
  | .write a0 value =>
    !a0 && !value.getLsbD 4 && !value.getLsbD 3 && pic.endedBy value == some level
  | .acknowledgeSecond => pic.autoEoi && pic.highestInService == some level
  | _ => false

/-- What an operation can do to the lines and to the levels in service. -/
inductive Effect (before after : I8259) (operation : Operation) : Prop
  | drives (level : Fin 8) (asserted : Bool) (hdrives : operation = .setRequest level.val asserted)
      (hmode : after.levelTriggered = before.levelTriggered) (hisr : after.isr = before.isr)
      (hwire : ∀ b, after.wire b =
        if b = level then (before.wire level).drive before.levelTriggered asserted
        else before.wire b)
  | serves (level : Fin 8) (htaken : before.taken operation = some level)
      (hlatched : has before.irr level = true)
      (hmode : after.levelTriggered = before.levelTriggered) (hpins : after.pins = before.pins)
      (hisr : after.isr = before.isr ||| bit level)
      (hirr : ∀ b, has after.irr b =
        (has before.irr b && !decide (b = level) || before.levelTriggered && has before.pins b))
  | ends (htaken : before.taken operation = none)
      (hmode : after.levelTriggered = before.levelTriggered)
      (hpins : after.pins = before.pins) (hirr : after.irr = before.irr)
      (hisr : ∀ b, has before.isr b = true →
        has after.isr b = true ∨ before.ends b operation = true)
  | restarts (htaken : before.taken operation = none) (hstarts : operation.starts = true)
      (hpins : after.pins = before.pins) (hirr : after.irr = 0#8)

/-! ## What each operation does -/

theorem asks_of_resolve (h : pic.resolve = some level) :
    has pic.irr level = true ∧ has pic.imr level = false := by
  rw [resolve_eq, Option.filter_eq_some_iff] at h
  obtain ⟨hfirst, hserved⟩ := h
  have hfound := (first_eq_some.mp hfirst).1
  have hrequest : has pic.requests level = true := by
    cases hblocks : has pic.blocking level with
    | false => simpa [hblocks] using hfound
    | true => exact (Bool.and_eq_true_iff.mp (by simpa [hblocks] using hserved)).2
  exact has_requests.mp hrequest

theorem serve_pins (pic : I8259) (level : Fin 8) : (pic.serve level).pins = pic.pins := by
  rw [serve, refreshLevelRequests]
  split <;> rfl

theorem serve_levelTriggered (pic : I8259) (level : Fin 8) :
    (pic.serve level).levelTriggered = pic.levelTriggered := by
  rw [serve, refreshLevelRequests]
  split <;> rfl

theorem serve_irr (pic : I8259) (level b : Fin 8) :
    has (pic.serve level).irr b =
      (has pic.irr b && !decide (b = level) || pic.levelTriggered && has pic.pins b) := by
  rw [serve, refreshLevelRequests]
  cases pic.levelTriggered <;> simp

theorem effect_of_serve {operation : Operation} (htaken : pic.taken operation = some level)
    (hresolve : pic.resolve = some level)
    (hmode : after.levelTriggered = (pic.serve level).levelTriggered)
    (hpins : after.pins = (pic.serve level).pins) (hisr : after.isr = (pic.serve level).isr)
    (hirr : after.irr = (pic.serve level).irr) : Effect pic after operation :=
  .serves level htaken (asks_of_resolve hresolve).1 (hmode.trans (serve_levelTriggered pic level))
    (hpins.trans (serve_pins pic level)) (hisr.trans (serve_isr pic level))
    fun b => by rw [hirr, serve_irr]

theorem effect_of_same {operation : Operation} (htaken : pic.taken operation = none)
    (hmode : after.levelTriggered = pic.levelTriggered)
    (hpins : after.pins = pic.pins) (hirr : after.irr = pic.irr) (hisr : after.isr = pic.isr) :
    Effect pic after operation :=
  .ends htaken hmode hpins hirr fun _ h => .inl (by rw [hisr]; exact h)

theorem setRequest_isr (pic : I8259) (line : Nat) (asserted : Bool) :
    (pic.setRequest line asserted).2.isr = pic.isr := by
  rw [setRequest]
  split <;> rfl

theorem effect_setRequest (pic : I8259) (line : Nat) (asserted : Bool) :
    Effect pic (pic.setRequest line asserted).2 (.setRequest line asserted) := by
  by_cases hline : line < 8
  · exact .drives ⟨line, hline⟩ asserted rfl (setRequest_levelTriggered pic line asserted)
      (setRequest_isr pic line asserted) fun b => wire_setRequest pic ⟨line, hline⟩ b asserted
  · rw [setRequest, dif_neg hline]
    exact effect_of_same rfl rfl rfl rfl rfl

theorem endInterrupt_pins (pic : I8259) (target : Option (Fin 8)) (rotate : Bool) :
    (pic.endInterrupt target rotate).pins = pic.pins := by
  cases target <;> cases rotate <;> rfl

theorem endInterrupt_levelTriggered (pic : I8259) (target : Option (Fin 8)) (rotate : Bool) :
    (pic.endInterrupt target rotate).levelTriggered = pic.levelTriggered := by
  cases target <;> cases rotate <;> rfl

theorem effect_endInterrupt {same : I8259} {operation : Operation}
    (htaken : pic.taken operation = none) (hmode : same.levelTriggered = pic.levelTriggered)
    (hpins : same.pins = pic.pins) (hirr : same.irr = pic.irr) (hisr : same.isr = pic.isr)
    (target : Option (Fin 8)) (rotate : Bool)
    (hends : ∀ b, target = some b → pic.ends b operation = true) :
    Effect pic (same.endInterrupt target rotate) operation := by
  refine .ends htaken ((endInterrupt_levelTriggered ..).trans hmode)
    ((endInterrupt_pins ..).trans hpins) ((endInterrupt_irr ..).trans hirr) fun b hb => ?_
  rw [endInterrupt_isr, hisr, hb, Bool.true_and]
  by_cases htarget : target = some b
  · exact .inr (hends b htarget)
  · exact .inl (by rw [decide_eq_false htarget]; rfl)

theorem effect_write (pic : I8259) (a0 : Bool) (value : BitVec 8) :
    Effect pic (pic.write a0 value) (.write a0 value) := by
  rw [write]
  split
  · rename_i hinit
    exact .restarts rfl hinit rfl rfl
  · rename_i hstarted
    split
    · split <;> exact effect_of_same rfl rfl rfl rfl rfl
    · rename_i hlow
      split
      · refine effect_of_same rfl ?_ ?_ ?_ ?_ <;>
          simp only [writeOcw3, apply_ite I8259.levelTriggered, apply_ite I8259.pins,
            apply_ite I8259.irr, apply_ite I8259.isr, ite_self]
      · rename_i hocw2
        rw [writeOcw2]
        split
        · rename_i heoi
          refine effect_endInterrupt rfl rfl rfl rfl rfl _ _ fun b htarget => ?_
          have hended : pic.endedBy value = some b := by
            rw [endedBy, if_pos heoi]
            exact htarget
          have hmarker : value.getLsbD 3 = false := Bool.eq_false_iff.mpr hocw2
          have hfalse : a0 = false := Bool.eq_false_iff.mpr hlow
          have hstart : value.getLsbD 4 = false := by simpa [hfalse] using hstarted
          rw [ends, hended, hmarker, hfalse, hstart, beq_self_eq_true]
          rfl
        · refine effect_of_same rfl ?_ ?_ ?_ ?_ <;>
            simp only [apply_ite I8259.levelTriggered, apply_ite I8259.pins, apply_ite I8259.irr,
              apply_ite I8259.isr, rotateToBottom, ite_self]

theorem effect_read (pic : I8259) (a0 : Bool) : Effect pic (pic.read a0).2 (.read a0) := by
  rw [read]
  cases a0 with
  | true => exact effect_of_same rfl rfl rfl rfl rfl
  | false =>
    cases hpoll : pic.pollPending with
    | false => exact effect_of_same (by simp [taken, hpoll]) rfl rfl rfl rfl
    | true =>
      have htaken : pic.taken (.read false) = pic.resolve := by simp [taken, hpoll]
      have hsame : I8259.resolve { pic with pollPending := false } = pic.resolve := rfl
      simp only [Bool.false_eq_true, if_false, if_true, hsame]
      cases hresolve : pic.resolve with
      | none => exact effect_of_same (htaken.trans hresolve) rfl rfl rfl rfl
      | some level =>
        exact .serves level (htaken.trans hresolve) (asks_of_resolve hresolve).1
          (serve_levelTriggered ..) (serve_pins ..) (serve_isr ..)
          (serve_irr { pic with pollPending := false } level)

theorem effect_acknowledgeFirst (pic : I8259) :
    Effect pic pic.acknowledgeFirst.2 .acknowledgeFirst := by
  rw [acknowledgeFirst]
  cases hresolve : pic.resolve with
  | none => exact effect_of_same hresolve rfl rfl rfl rfl
  | some level => exact effect_of_serve hresolve hresolve rfl rfl rfl rfl

theorem effect_acknowledgeSecond (pic : I8259) :
    Effect pic pic.acknowledgeSecond.2 .acknowledgeSecond := by
  rw [acknowledgeSecond]
  cases hauto : pic.autoEoi with
  | false =>
    simp only [Bool.false_eq_true, if_false]
    exact effect_of_same rfl rfl rfl rfl rfl
  | true =>
    simp only [if_true]
    refine effect_endInterrupt rfl ?_ ?_ ?_ ?_ _ _ fun b htarget => ?_
    iterate 4 rfl
    have hhighest : pic.highestInService = some b := htarget
    rw [ends, hauto, hhighest, beq_self_eq_true, Bool.and_self]

/-- WHAT A STEP CAN DO TO THE REQUESTS. -/
theorem effect_run (pic : I8259) (operation : Operation) :
    Effect pic (operation.run pic) operation := by
  cases operation with
  | setRequest line asserted => exact effect_setRequest pic line asserted
  | write a0 value => exact effect_write pic a0 value
  | read a0 => exact effect_read pic a0
  | acknowledgeFirst => exact effect_acknowledgeFirst pic
  | acknowledgeSecond => exact effect_acknowledgeSecond pic

theorem pins_run {operation : Operation} (h : ∀ asserted, operation ≠ .setRequest level.val asserted) :
    has (operation.run pic).pins level = has pic.pins level := by
  cases effect_run pic operation with
  | drives line asserted hdrives hmode hisr hwire =>
    have hline : level ≠ line := fun heq => h asserted (heq ▸ hdrives)
    have hwire := hwire level
    rw [if_neg hline] at hwire
    exact congrArg Wire.pin hwire
  | serves served htaken hlatched hmode hpins hisr hirr => rw [hpins]
  | ends htaken hmode hpins hirr hisr => rw [hpins]
  | restarts htaken hstarts hpins hirr => rw [hpins]

/-! ## A line that is up is attended to -/

theorem latched_init : init.Latched := fun _ h =>
  absurd (has_zero.symm.trans h) Bool.false_ne_true

theorem latched_run (h : pic.Latched) (operation : Operation) : (operation.run pic).Latched := by
  intro b hb
  cases effect_run pic operation with
  | drives level asserted hdrives hmode hisr hwire =>
    have hlatch := congrArg Wire.latch (hwire b)
    have hpin := congrArg Wire.pin (hwire b)
    by_cases hlevel : b = level
    · rw [if_pos hlevel] at hlatch hpin
      exact hpin.trans (Bool.and_eq_true_iff.mp (hlatch.symm.trans hb)).1
    · rw [if_neg hlevel] at hlatch hpin
      exact hpin.trans (h b (hlatch.symm.trans hb))
  | serves level htaken hlatched hmode hpins hisr hirr =>
    rw [hirr, Bool.or_eq_true, Bool.and_eq_true, Bool.and_eq_true] at hb
    rw [hpins]
    obtain ⟨hbefore, -⟩ | ⟨-, hup⟩ := hb
    · exact h b hbefore
    · exact hup
  | ends htaken hmode hpins hirr hisr =>
    rw [hpins]
    exact h b (hirr ▸ hb)
  | restarts htaken hstarts hpins hirr =>
    rw [hirr, has_zero] at hb
    exact absurd hb Bool.false_ne_true

theorem Heard.attended (h : pic.Heard level) : pic.Attended level := fun hup => .inl (h hup)

/-- AN OPERATION LEAVES A LINE HEARD, unless it starts the part over while the line is up, or takes
the line while the part is edge triggered. -/
theorem heard_run (h : pic.Heard level) (operation : Operation)
    (hstart : operation.starts = true → has pic.pins level = false)
    (htake : pic.taken operation = some level → pic.levelTriggered = true) :
    (operation.run pic).Heard level := by
  intro hup
  cases effect_run pic operation with
  | drives line asserted hdrives hmode hisr hwire =>
    have hlatch := congrArg Wire.latch (hwire level)
    have hpin := congrArg Wire.pin (hwire level)
    by_cases hline : level = line
    · subst hline
      rw [if_pos rfl] at hlatch hpin
      have hasserted : asserted = true := hpin.symm.trans hup
      refine hlatch.trans ?_
      unfold Wire.drive wire
      dsimp only
      rw [hasserted]
      cases hbefore : has pic.pins level with
      | false => simp
      | true => rw [h hbefore]; simp
    · rw [if_neg hline] at hlatch hpin
      exact hlatch.trans (h (hpin.symm.trans hup))
  | serves served htaken hlatched hmode hpins hisr hirr =>
    rw [hpins] at hup
    rw [hirr, h hup, hup]
    by_cases hserved : level = served
    · rw [htake (htaken.trans (congrArg some hserved.symm)), Bool.and_self, Bool.or_true]
    · rw [decide_eq_false hserved]
      rfl
  | ends htaken hmode hpins hirr hisr =>
    rw [hirr]
    exact h (hpins ▸ hup)
  | restarts htaken hstarts hpins hirr =>
    exact absurd ((hpins ▸ hup).symm.trans (hstart hstarts)) Bool.false_ne_true.symm

/-- AN OPERATION LEAVES A LINE ATTENDED TO, unless it starts the part over while the line is up, or
ends its service while the line is not heard. -/
theorem attended_run (h : pic.Attended level) (operation : Operation)
    (hstart : operation.starts = true → has pic.pins level = false)
    (hends : pic.ends level operation = true → pic.Heard level) :
    (operation.run pic).Attended level := by
  intro hup
  cases effect_run pic operation with
  | drives line asserted hdrives hmode hisr hwire =>
    have hlatch := congrArg Wire.latch (hwire level)
    have hpin := congrArg Wire.pin (hwire level)
    rw [hisr]
    by_cases hline : level = line
    · subst hline
      rw [if_pos rfl] at hlatch hpin
      have hasserted : asserted = true := hpin.symm.trans hup
      cases hbefore : has pic.pins level with
      | false =>
        refine .inl (hlatch.trans ?_)
        simp [Wire.drive, wire, hasserted, hbefore]
      | true =>
        refine (h hbefore).imp_left fun hlatched => hlatch.trans ?_
        simp [Wire.drive, wire, hasserted, hlatched]
    · rw [if_neg hline] at hlatch hpin
      exact (h (hpin.symm.trans hup)).imp_left fun hlatched => hlatch.trans hlatched
  | serves served htaken hlatched hmode hpins hisr hirr =>
    rw [hirr, hisr, has_or, has_bit]
    rw [hpins] at hup
    by_cases hserved : level = served
    · exact .inr (by rw [decide_eq_true hserved, Bool.or_true])
    · refine (h hup).imp (fun hbefore => ?_) fun hservice => ?_
      · rw [hbefore, decide_eq_false hserved]
        rfl
      · rw [hservice, Bool.true_or]
  | ends htaken hmode hpins hirr hisr =>
    rw [hirr]
    have hbefore := hpins ▸ hup
    obtain hlatched | hservice := h hbefore
    · exact .inl hlatched
    · exact (hisr level hservice).symm.imp (fun hended => hends hended hbefore) id
  | restarts htaken hstarts hpins hirr =>
    exact absurd ((hpins ▸ hup).symm.trans (hstart hstarts)) Bool.false_ne_true.symm

/-! ## The cycles of an acknowledge -/

theorem acknowledgeFirst_autoEoi (pic : I8259) : pic.acknowledgeFirst.2.autoEoi = pic.autoEoi := by
  rw [acknowledgeFirst]
  cases pic.resolve with
  | none => rfl
  | some level =>
    dsimp only
    rw [serve, refreshLevelRequests]
    split <;> rfl

theorem acknowledgeFirst_isr {b : Fin 8} (h : has pic.acknowledgeFirst.2.isr b = true) :
    has pic.isr b = true ∨ pic.resolve = some b := by
  rw [acknowledgeFirst] at h
  cases hresolve : pic.resolve with
  | none =>
    rw [hresolve] at h
    exact .inl h
  | some level =>
    rw [hresolve] at h
    dsimp only at h
    rw [serve_isr, has_or, has_bit, Bool.or_eq_true, decide_eq_true_iff] at h
    exact h.imp_right fun heq => congrArg some heq.symm

theorem heard_acknowledgeFirst (hmode : pic.levelTriggered = true) (hresolve : pic.resolve = some level)
    (b : Fin 8) : pic.acknowledgeFirst.2.Heard b := by
  rw [acknowledgeFirst, hresolve]
  dsimp only [Heard]
  rw [serve_pins, serve_irr, hmode, Bool.true_and]
  intro hup
  rw [hup, Bool.or_true]

theorem isr_of_highestInService (h : pic.highestInService = some level) :
    has pic.isr level = true := by
  have hblocking := (first_eq_some.mp h).1
  unfold blocking at hblocking
  split at hblocking
  · exact (Bool.and_eq_true_iff.mp (has_and.symm.trans hblocking)).1
  · exact hblocking

/-! ## An acknowledge that leaves nothing asking -/

/-- The registers that a round of service leaves alone. -/
structure SameControls (before after : I8259) : Prop where
  imr : after.imr = before.imr
  levelTriggered : after.levelTriggered = before.levelTriggered
  autoEoi : after.autoEoi = before.autoEoi
  specialMask : after.specialMask = before.specialMask
  specialFullyNested : after.specialFullyNested = before.specialFullyNested
  vectorBase : after.vectorBase = before.vectorBase

theorem SameControls.trans {a b c : I8259} (h : SameControls a b) (h' : SameControls b c) :
    SameControls a c :=
  ⟨h'.imr.trans h.imr, h'.levelTriggered.trans h.levelTriggered, h'.autoEoi.trans h.autoEoi,
    h'.specialMask.trans h.specialMask, h'.specialFullyNested.trans h.specialFullyNested,
    h'.vectorBase.trans h.vectorBase⟩

theorem sameControls_setRequest (pic : I8259) (line : Nat) (asserted : Bool) :
    SameControls pic (pic.setRequest line asserted).2 := by
  rw [setRequest]
  split <;> exact ⟨rfl, rfl, rfl, rfl, rfl, rfl⟩

theorem sameControls_endInterrupt (pic : I8259) (target : Option (Fin 8)) (rotate : Bool) :
    SameControls pic (pic.endInterrupt target rotate) := by
  cases target <;> cases rotate <;> exact ⟨rfl, rfl, rfl, rfl, rfl, rfl⟩

theorem sameControls_serve (pic : I8259) (level : Fin 8) : SameControls pic (pic.serve level) := by
  rw [serve, refreshLevelRequests]
  split <;> exact ⟨rfl, rfl, rfl, rfl, rfl, rfl⟩

/-- Once the level that is resolved is in service, the part is silent: what it holds above that
level it held before, and the level itself asks again in the special fully nested mode only. -/
theorem not_pending_of_serving (hresolve : pic.resolve = some level)
    (hcontrols : SameControls pic after) (hhighest : after.highestPriority = pic.highestPriority)
    (hisr : has after.isr level = true)
    (hirr : ∀ b, has after.irr b = true → has pic.irr b = true)
    (hserved : after.specialFullyNested = true → has after.irr level = false) :
    after.interruptPending = false := by
  obtain ⟨-, hunmasked⟩ := asks_of_resolve hresolve
  rw [resolve_eq, Option.filter_eq_some_iff] at hresolve
  have habove := (first_eq_some.mp hresolve.1).2
  have hblocks : has after.blocking level = true := by
    have hmask : has after.imr level = false := by rw [hcontrols.imr]; exact hunmasked
    unfold blocking
    split
    · rw [has_and, has_not, hisr, hmask]
      rfl
    · exact hisr
  refine Bool.eq_false_iff.mpr fun hpending => ?_
  rw [interruptPending_eq, asks_iff] at hpending
  obtain ⟨b, hlatch, hadmits⟩ := hpending
  obtain ⟨hmask, hadmitted⟩ := admits_iff.mp hadmits
  obtain hlt | ⟨hnested, heq⟩ := hadmitted level hblocks
  · rw [hhighest] at hlt
    have hrequest := (Bool.or_eq_false_iff.mp (habove b hlt)).2
    rw [hcontrols.imr] at hmask
    exact Bool.eq_false_iff.mp hrequest (has_requests.mpr ⟨hirr b hlatch, hmask⟩)
  · rw [heq] at hserved
    exact Bool.false_ne_true ((hserved hnested).symm.trans hlatch)

/-- Conditions on a part under which it is silent after an acknowledge: it keeps what it takes in
service, and does not ask for it again; or what it takes was all it had. -/
def Lowers (pic : I8259) : Prop :=
  pic.autoEoi = false ∧
      (pic.levelTriggered = false ∨ pic.specialFullyNested = false ∧ pic.Settled) ∨
    pic.levelTriggered = false ∧
      ∀ b, has pic.irr b = true → has pic.imr b = false → pic.resolve = some b

instance (pic : I8259) : Decidable pic.Lowers := inferInstanceAs (Decidable (_ ∨ _))

theorem not_pending_of_masked (h : ∀ b, has pic.irr b = true → has pic.imr b = true) :
    pic.interruptPending = false := by
  refine Bool.eq_false_iff.mpr fun hpending => ?_
  rw [interruptPending_eq, asks_iff] at hpending
  obtain ⟨b, hlatch, hadmits⟩ := hpending
  exact Bool.false_ne_true ((admits_iff.mp hadmits).1.symm.trans (h b hlatch))

theorem acknowledge_irr (pic : I8259) : pic.acknowledge.2.irr = pic.acknowledgeFirst.2.irr := by
  rw [acknowledge, acknowledgeSecond]
  dsimp only
  split
  · exact endInterrupt_irr ..
  · rfl

theorem acknowledge_imr (pic : I8259) : pic.acknowledge.2.imr = pic.imr := by
  have hfirst : pic.acknowledgeFirst.2.imr = pic.imr := by
    rw [acknowledgeFirst]
    cases pic.resolve with
    | none => rfl
    | some level => exact (sameControls_serve pic level).imr
  rw [acknowledge, acknowledgeSecond]
  dsimp only
  split
  · exact (sameControls_endInterrupt ..).imr.trans hfirst
  · exact hfirst

/-- AN ACKNOWLEDGE UNDER THESE CONDITIONS LEAVES NOTHING ASKING. -/
theorem Lowers.not_pending (h : pic.Lowers) : pic.acknowledge.2.interruptPending = false := by
  obtain ⟨hauto, hagain⟩ | ⟨hedge, hall⟩ := h
  · cases hresolve : pic.resolve with
    | none =>
      have hsame : pic.acknowledge.2 = { pic with acknowledging := false, acknowledgedLevel := 7 } := by
        rw [acknowledge, acknowledgeFirst, hresolve, acknowledgeSecond]
        dsimp only
        rw [hauto, if_neg Bool.false_ne_true]
      rw [hsame]
      exact congrArg Option.isSome hresolve
    | some level =>
      have hcontrols := sameControls_serve pic level
      have hserved : pic.acknowledge.2 =
          { pic.serve level with acknowledging := false, acknowledgedLevel := level } := by
        rw [acknowledge, acknowledgeFirst, hresolve, acknowledgeSecond]
        dsimp only
        rw [hcontrols.autoEoi, hauto, if_neg Bool.false_ne_true]
      rw [hserved]
      refine not_pending_of_serving hresolve
        ⟨hcontrols.1, hcontrols.2, hcontrols.3, hcontrols.4, hcontrols.5, hcontrols.6⟩
        (serve_highestPriority pic level) ?_ (fun b hb => ?_) fun hnested => ?_
      · rw [serve_isr, has_or, has_bit, decide_eq_true rfl, Bool.or_true]
      · rw [serve_irr, Bool.or_eq_true, Bool.and_eq_true, Bool.and_eq_true] at hb
        obtain ⟨hbefore, -⟩ | ⟨hmode, hup⟩ := hb
        · exact hbefore
        · have hsettled := (hagain.resolve_left (by rw [hmode]; exact Bool.false_ne_true.symm)).2
          exact hsettled b hup
      · have hedge : pic.levelTriggered = false := hagain.resolve_right fun hlevel => by
          rw [hcontrols.specialFullyNested, hlevel.1] at hnested
          exact Bool.false_ne_true hnested
        rw [serve_irr, hedge, decide_eq_true rfl]
        simp
  · refine not_pending_of_masked fun b hb => ?_
    rw [acknowledge_irr, acknowledgeFirst] at hb
    rw [acknowledge_imr]
    refine Bool.eq_true_of_not_eq_false fun hunmasked => ?_
    cases hresolve : pic.resolve with
    | none =>
      rw [hresolve] at hb
      cases hresolve.symm.trans (hall b hb hunmasked)
    | some level =>
      rw [hresolve] at hb
      dsimp only at hb
      rw [serve_irr, hedge, Bool.false_and, Bool.or_false, Bool.and_eq_true] at hb
      have heq := Option.some.inj (hresolve.symm.trans (hall b hb.1 hunmasked))
      rw [heq, decide_eq_true rfl] at hb
      exact Bool.false_ne_true hb.2

/-! ## A request is taken once -/

/-- How often each line has risen, and each level been taken. -/
structure Ledger where
  rises : Fin 8 → Nat
  takes : Fin 8 → Nat

/-- An empty ledger. -/
def Ledger.empty : Ledger := ⟨fun _ => 0, fun _ => 0⟩

/-- What an operation enters in the ledger. -/
def Ledger.enter (ledger : Ledger) (pic : I8259) (operation : Operation) : Ledger where
  rises level := ledger.rises level +
    (has (operation.run pic).pins level && !has pic.pins level).toNat
  takes level := ledger.takes level + (pic.taken operation == some level).toNat

/-- A request that waits to be taken. A level-triggered part latches the line again as it takes it,
and that does not wait. -/
def waiting (pic : I8259) (level : Fin 8) : Bool :=
  has pic.irr level && !(pic.levelTriggered && has pic.isr level)

/-- A level has been taken no oftener than its line rose, and once less if its request waits. -/
def Accounted (pic : I8259) (ledger : Ledger) : Prop :=
  ∀ level, ledger.takes level + (pic.waiting level).toNat ≤ ledger.rises level

/-- What an edge-triggered part needs no condition for. A line that is up without its request is not
driven up again; a level is taken when it is not in service and no line is up without its request;
and its line is down when its service ends. -/
structure Orderly (pic : I8259) (operation : Operation) : Prop where
  driven : ∀ b, operation.raises b = true → pic.Heard b
  taken : ∀ b, pic.taken operation = some b → has pic.isr b = false ∧ pic.Settled
  ended : ∀ b, has pic.isr b = true → pic.ends b operation = true → has pic.irr b = false

/-- An operation after which a level-triggered part does not take a request again. -/
def Punctual (pic : I8259) (operation : Operation) : Prop :=
  pic.levelTriggered = true → pic.Orderly operation

instance (pic : I8259) (operation : Operation) : Decidable (pic.Orderly operation) :=
  decidable_of_iff
    ((∀ b, operation.raises b = true → pic.Heard b) ∧
      (∀ b, pic.taken operation = some b → has pic.isr b = false ∧ pic.Settled) ∧
      ∀ b, has pic.isr b = true → pic.ends b operation = true → has pic.irr b = false)
    ⟨fun h => ⟨h.1, h.2.1, h.2.2⟩, fun h => ⟨h.driven, h.taken, h.ended⟩⟩

instance (pic : I8259) (operation : Operation) : Decidable (pic.Punctual operation) :=
  inferInstanceAs (Decidable (_ → _))

theorem accounted_init : init.Accounted .empty := fun level => by
  simp [Ledger.empty, init, waiting]

/-- AN OPERATION KEEPS THE ACCOUNT. -/
theorem accounted_run {ledger : Ledger} (h : pic.Accounted ledger) {operation : Operation}
    (hpunctual : pic.Punctual operation) :
    (operation.run pic).Accounted (ledger.enter pic operation) := by
  intro b
  have hb := h b
  unfold waiting at hb ⊢
  unfold Ledger.enter
  dsimp only
  cases effect_run pic operation with
  | drives level asserted hdrives hmode hisr hwire =>
    have hlatch : has (operation.run pic).irr b = _ := congrArg Wire.latch (hwire b)
    have hpin : has (operation.run pic).pins b = _ := congrArg Wire.pin (hwire b)
    have htaken : pic.taken operation = none := by rw [hdrives]; rfl
    rw [htaken, hmode, hisr, hlatch, hpin]
    by_cases hlevel : b = level
    · subst hlevel
      have hheard : pic.levelTriggered = true → asserted = true → pic.Heard b :=
        fun hlevel hasserted => (hpunctual hlevel).driven b (by
          rw [hdrives, hasserted, Operation.raises, beq_self_eq_true]
          rfl)
      rw [if_pos rfl]
      unfold Heard at hheard
      simp only [Wire.drive, wire]
      revert hb hheard
      cases pic.levelTriggered <;> cases asserted <;> cases has pic.irr b <;>
        cases has pic.pins b <;> cases has pic.isr b <;> simp <;> omega
    · rw [if_neg hlevel]
      simp only [wire]
      simpa using hb
  | serves level htaken hlatched hmode hpins hisr hirr =>
    rw [htaken, hmode, hpins, hirr, hisr, has_or, has_bit]
    by_cases hlevel : b = level
    · subst hlevel
      have hidle : pic.levelTriggered = true → has pic.isr b = false := fun hmode =>
        ((hpunctual hmode).taken b htaken).1
      rw [hlatched] at hb ⊢
      revert hb hidle
      cases pic.levelTriggered <;> cases has pic.isr b <;> simp
    · have hheard : pic.levelTriggered = true → pic.Heard b := fun hmode =>
        ((hpunctual hmode).taken level htaken).2 b
      unfold Heard at hheard
      have hother : (some level == some b) = false := by
        rw [beq_eq_false_iff_ne]
        exact fun heq => hlevel (Option.some.inj heq).symm
      rw [hother, decide_eq_false hlevel]
      revert hb hheard
      cases pic.levelTriggered <;> cases has pic.irr b <;> cases has pic.pins b <;> simp
  | ends htaken hmode hpins hirr hisr =>
    have hended : pic.levelTriggered = true → has pic.isr b = true →
        has (operation.run pic).isr b = true ∨ has pic.irr b = false := fun hlevel hservice =>
      (hisr b hservice).imp_right fun hends =>
        (hpunctual hlevel).ended b hservice hends
    rw [htaken, hmode, hpins, hirr]
    revert hb hended
    cases pic.levelTriggered <;> cases has pic.irr b <;> cases has pic.isr b <;>
      cases has (operation.run pic).isr b <;> simp
    omega
  | restarts htaken hstarts hpins hirr =>
    rw [htaken, hpins, hirr, has_zero]
    simp
    omega

/-! ## Runs -/

/-- A part after some operations. -/
def runs (pic : I8259) (operations : List Operation) : I8259 := operations.foldl Operation.run pic

/-- What several operations enter in a ledger. -/
def Ledger.enterAll (ledger : Ledger) (pic : I8259) : List Operation → Ledger
  | [] => ledger
  | operation :: rest => (ledger.enter pic operation).enterAll (operation.run pic) rest

theorem latched_runs (h : pic.Latched) (operations : List Operation) :
    (pic.runs operations).Latched := by
  induction operations generalizing pic with
  | nil => exact h
  | cons operation rest ih => exact ih (latched_run h operation)

theorem accounted_runs {ledger : Ledger} (h : pic.Accounted ledger) {operations : List Operation}
    (hpunctual : Lib.EachStep Operation.run Punctual pic operations) :
    (pic.runs operations).Accounted (ledger.enterAll pic operations) := by
  induction operations generalizing pic ledger with
  | nil => exact h
  | cons operation rest ih => exact ih (accounted_run h hpunctual.1) hpunctual.2

theorem pins_runs {operations : List Operation}
    (h : ∀ asserted, .setRequest level.val asserted ∉ operations) :
    has (pic.runs operations).pins level = has pic.pins level := by
  induction operations generalizing pic with
  | nil => rfl
  | cons operation rest ih =>
    have hfirst : ∀ asserted, operation ≠ .setRequest level.val asserted := fun asserted heq =>
      h asserted (heq ▸ List.mem_cons_self ..)
    exact (ih fun asserted hmem => h asserted (List.mem_cons_of_mem _ hmem)).trans (pins_run hfirst)

end Apollo.Device.I8259
