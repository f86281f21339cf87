import Mathlib

/-!
# Cyclic redundancy checks

A register of `w` bits that is shifted left, most significant bit first, and takes the generator's low
terms whenever the bit that leaves differs from the one that comes. The check is LINEAR, so an error is
seen or missed by itself, whatever it falls on. With a constant term in the generator no burst as short
as the register is missed; with an even number of terms none that flips an odd number of bits is.
-/

namespace Apollo.Lib

namespace CyclicCheck

variable {w : Nat} (p : BitVec w)

/-- One bit enters the register. -/
def step (c : BitVec w) (bit : Bool) : BitVec w :=
  if c.msb ^^ bit then c <<< 1 ^^^ p else c <<< 1

/-- The register after these bits. -/
def check (c : BitVec w) (bits : List Bool) : BitVec w := bits.foldl (step p) c

theorem check_append (c : BitVec w) (as bs : List Bool) :
    check p c (as ++ bs) = check p (check p c as) bs := List.foldl_append ..

/-- The places where two lines differ. -/
def errors (as bs : List Bool) : List Bool := List.zipWith xor as bs

/-! ## Linearity -/

/-- The generator, when it is taken. -/
def gate (taken : Bool) : BitVec w := if taken then p else 0

theorem gate_xor (x y : Bool) : gate p (x ^^ y) = gate p x ^^^ gate p y := by
  cases x <;> cases y <;> simp [gate]

theorem step_eq (c : BitVec w) (bit : Bool) : step p c bit = c <<< 1 ^^^ gate p (c.msb ^^ bit) := by
  unfold step gate
  split
  · rfl
  · exact (BitVec.xor_zero).symm

theorem step_xor (a b : BitVec w) (x y : Bool) :
    step p (a ^^^ b) (x ^^ y) = step p a x ^^^ step p b y := by
  have htop : ((a ^^^ b).msb ^^ (x ^^ y)) = ((a.msb ^^ x) ^^ (b.msb ^^ y)) := by
    rw [BitVec.msb_xor, Bool.xor_assoc, Bool.xor_assoc, Bool.xor_left_comm b.msb]
  rw [step_eq, step_eq, step_eq, htop, gate_xor, BitVec.shiftLeft_xor_distrib]
  ac_rfl

/-- THE CHECK OF THE ERRORS is the difference of the checks. -/
theorem check_xor {as bs : List Bool} (hlength : as.length = bs.length) (a b : BitVec w) :
    check p (a ^^^ b) (errors as bs) = check p a as ^^^ check p b bs := by
  induction as generalizing bs a b with
  | nil =>
    cases bs with
    | nil => rfl
    | cons => exact nomatch hlength
  | cons x as ih =>
    cases bs with
    | nil => exact nomatch hlength
    | cons y bs =>
      show check p (step p (a ^^^ b) (x ^^ y)) (errors as bs) = _
      rw [step_xor]
      exact ih (Nat.succ.inj hlength) _ _

/-! ## Bursts -/

section Burst

variable {p}

theorem step_injective (hp : p.getLsbD 0 = true) {a b : BitVec w} {bit : Bool}
    (h : step p a bit = step p b bit) : a = b := by
  have hwidth : 0 < w := BitVec.lt_of_getLsbD hp
  have hlow (c : BitVec w) : (step p c bit).getLsbD 0 = (c.msb ^^ bit) := by
    rw [step_eq, BitVec.getLsbD_xor, BitVec.getLsbD_shiftLeft]
    cases hgate : (c.msb ^^ bit) <;> simp [gate, hp]
  have htop : a.msb = b.msb := by
    have hbit := congrArg (BitVec.getLsbD · 0) h
    simp only [hlow] at hbit
    exact Bool.xor_left_inj.mp hbit
  have hshift : a <<< 1 = b <<< 1 := by
    rw [step_eq, step_eq, htop] at h
    exact BitVec.xor_left_inj _ |>.mp h
  refine BitVec.eq_of_getLsbD_eq fun i hi => ?_
  by_cases hlast : i = w - 1
  · rw [hlast, ← BitVec.msb_eq_getLsbD_last, ← BitVec.msb_eq_getLsbD_last, htop]
  · have hbit := congrArg (BitVec.getLsbD · (i + 1)) hshift
    simp only [BitVec.getLsbD_shiftLeft, decide_eq_true (show i + 1 < w by omega), Bool.true_and,
      decide_eq_false (show ¬ i + 1 < 1 by omega), Bool.not_false, Nat.add_sub_cancel] at hbit
    exact hbit

theorem check_injective (hp : p.getLsbD 0 = true) {a b : BitVec w} {bits : List Bool}
    (h : check p a bits = check p b bits) : a = b := by
  induction bits generalizing a b with
  | nil => exact h
  | cons bit bits ih => exact step_injective hp (ih h)

/-- The register holds these bits at its top, the first of them at the very top, and zeros below. -/
def Aligned (c : BitVec w) (bits : List Bool) : Prop := ∀ i < w, c.getLsbD (w - 1 - i) = bits.getD i false

theorem exists_aligned (bits : List Bool) : ∃ c : BitVec w, Aligned c bits := by
  refine ⟨BitVec.ofFnLE fun i => bits.getD (w - 1 - i) false, fun i hi => ?_⟩
  rw [BitVec.getLsbD_ofFnLE, dif_pos (by omega)]
  have hplace : w - 1 - (w - 1 - i) = i := by omega
  exact congrArg (bits.getD · false) hplace

/-- THE BITS THAT STAND AT THE TOP are taken off by the same bits. -/
theorem check_aligned {c : BitVec w} {bits : List Bool} (hlength : bits.length ≤ w) (h : Aligned c bits) :
    check p c bits = 0 := by
  induction bits generalizing c with
  | nil =>
    refine BitVec.eq_of_getLsbD_eq fun i hi => ?_
    have hbit := h (w - 1 - i) (by omega)
    rw [show w - 1 - (w - 1 - i) = i by omega] at hbit
    exact hbit.trans BitVec.getLsbD_zero.symm
  | cons bit bits ih =>
    rw [List.length_cons] at hlength
    have htop : c.msb = bit := by
      rw [BitVec.msb_eq_getLsbD_last]
      exact h 0 (by omega)
    have hstep : step p c bit = c <<< 1 := by
      rw [step_eq, htop, Bool.xor_self]
      exact BitVec.xor_zero
    show check p (step p c bit) bits = 0
    rw [hstep]
    refine ih (by omega) fun i hi => ?_
    rw [BitVec.getLsbD_shiftLeft, decide_eq_true (show w - 1 - i < w by omega), Bool.true_and]
    by_cases hlast : w - 1 - i < 1
    · rw [decide_eq_true hlast, Bool.not_true, Bool.false_and, List.getD_eq_default _ _ (by omega)]
    · have hbit := h (i + 1) (by omega)
      rw [decide_eq_false hlast, Bool.not_false, Bool.true_and, show w - 1 - i - 1 = w - 1 - (i + 1) by omega,
        hbit, List.getD_cons_succ]

/-- NO BURST as short as the register is missed. -/
theorem check_burst (hp : p.getLsbD 0 = true) {bits : List Bool} (hlength : bits.length ≤ w)
    (h : check p 0 bits = 0) : ∀ bit ∈ bits, bit = false := by
  obtain ⟨c, hc⟩ := exists_aligned (w := w) bits
  have hzero : c = 0 := check_injective hp ((check_aligned hlength hc).trans h.symm)
  intro bit hbit
  obtain ⟨i, hi, rfl⟩ := List.getElem_of_mem hbit
  have haligned := hc i (by omega)
  rw [hzero, List.getD_eq_getElem _ _ hi] at haligned
  exact haligned.symm.trans BitVec.getLsbD_zero

theorem check_zeros {bits : List Bool} (h : ∀ bit ∈ bits, bit = false) : check p 0 bits = 0 := by
  induction bits with
  | nil => rfl
  | cons bit bits ih =>
    have hbit := h bit (List.mem_cons_self ..)
    have hstep : step p 0 false = 0 := by simp [step_eq, gate]
    show check p (step p 0 bit) bits = 0
    rw [hbit, hstep]
    exact ih fun bit hmem => h bit (List.mem_cons_of_mem _ hmem)

/-- AN ERROR THAT IS CONFINED to as many bits as the register has is seen, wherever it stands. -/
theorem check_confined (hp : p.getLsbD 0 = true) {start : Nat} {bits : List Bool}
    (hconfined : ∀ i (hi : i < bits.length), bits[i] = true → start ≤ i ∧ i < start + w)
    (h : check p 0 bits = 0) : ∀ bit ∈ bits, bit = false := by
  have hfalse (i : Nat) (hi : i < bits.length) (hout : ¬ (start ≤ i ∧ i < start + w)) : bits[i] = false :=
    Bool.eq_false_of_not_eq_true fun htrue => hout (hconfined i hi htrue)
  obtain ⟨hbefore, hbehind⟩ :
      (∀ bit ∈ bits.take start, bit = false) ∧ ∀ bit ∈ (bits.drop start).drop w, bit = false := by
    constructor
    · intro bit hbit
      obtain ⟨i, hi, rfl⟩ := List.getElem_of_mem hbit
      rw [List.length_take] at hi
      rw [List.getElem_take]
      exact hfalse i (by omega) (by omega)
    · intro bit hbit
      obtain ⟨i, hi, rfl⟩ := List.getElem_of_mem hbit
      rw [List.length_drop, List.length_drop] at hi
      rw [List.getElem_drop, List.getElem_drop]
      exact hfalse _ (by omega) (by omega)
  have hsplit : bits = bits.take start ++ ((bits.drop start).take w ++ (bits.drop start).drop w) := by
    rw [List.take_append_drop, List.take_append_drop]
  rw [hsplit, check_append, check_append, check_zeros hbefore] at h
  have hburst : check p 0 ((bits.drop start).take w) = 0 :=
    check_injective hp (h.trans (check_zeros hbehind).symm)
  have hinside := check_burst hp (List.length_take_le ..) hburst
  intro bit hbit
  rw [hsplit, List.mem_append, List.mem_append] at hbit
  obtain hin | hin | hin := hbit
  · exact hbefore bit hin
  · exact hinside bit hin
  · exact hbehind bit hin

end Burst

/-! ## Parity -/

/-- Whether an odd number of these is true. -/
def odd (bits : List Bool) : Bool := bits.foldr xor false

/-- Whether an odd number of the register's bits is set. -/
def parity (c : BitVec w) : Bool := odd ((List.range w).map c.getLsbD)

theorem odd_cons (bit : Bool) (bits : List Bool) : odd (bit :: bits) = (bit ^^ odd bits) := rfl

theorem odd_append (as bs : List Bool) : odd (as ++ bs) = (odd as ^^ odd bs) := by
  induction as with
  | nil => exact (Bool.false_xor _).symm
  | cons bit as ih => rw [List.cons_append, odd_cons, odd_cons, ih, Bool.xor_assoc]

theorem odd_map_xor {α : Type} (f g : α → Bool) (l : List α) :
    odd (l.map fun a => f a ^^ g a) = (odd (l.map f) ^^ odd (l.map g)) := by
  induction l with
  | nil => rfl
  | cons a l ih =>
    rw [List.map_cons, List.map_cons, List.map_cons, odd_cons, odd_cons, odd_cons, ih, Bool.xor_assoc,
      Bool.xor_assoc, Bool.xor_left_comm (g a)]

theorem odd_eq_count (bits : List Bool) : odd bits = decide (bits.count true % 2 = 1) := by
  induction bits with
  | nil => rfl
  | cons bit bits ih =>
    rw [odd_cons, ih, List.count_cons]
    cases bit with
    | false => simp
    | true =>
      have hone : (if (true == true) = true then 1 else 0) = 1 := rfl
      rw [Bool.true_xor, hone, ← decide_not]
      exact decide_eq_decide.mpr (by omega)

theorem parity_xor (a b : BitVec w) : parity (a ^^^ b) = (parity a ^^ parity b) := by
  rw [parity, parity, parity, ← odd_map_xor]
  exact congrArg odd (List.map_congr_left fun i _ => BitVec.getLsbD_xor)

theorem parity_zero : parity (0 : BitVec w) = false := by
  have hself := parity_xor (0 : BitVec w) 0
  rwa [BitVec.xor_self, Bool.xor_self] at hself

theorem parity_shift (c : BitVec w) : parity (c <<< 1) = (parity c ^^ c.msb) := by
  cases w with
  | zero =>
    rw [BitVec.msb_eq_getLsbD_last, BitVec.getLsbD_of_ge c _ (Nat.zero_le _)]
    rfl
  | succ w =>
    have hshift : (List.range (w + 1)).map (c <<< 1).getLsbD = false :: (List.range w).map c.getLsbD := by
      rw [List.range_succ_eq_map, List.map_cons, List.map_map]
      congr 1
      · simp
      · refine List.map_congr_left fun i hi => ?_
        have hlt := List.mem_range.mp hi
        rw [Function.comp_apply, BitVec.getLsbD_shiftLeft, decide_eq_true (Nat.succ_lt_succ hlt)]
        rfl
    rw [parity, hshift, parity, List.range_succ, List.map_append, odd_append, odd_cons, Bool.false_xor,
      BitVec.msb_eq_getLsbD_last]
    simp [odd]

theorem parity_step (hp : parity p = true) (c : BitVec w) (bit : Bool) :
    parity (step p c bit) = (parity c ^^ bit) := by
  have hgate (taken : Bool) : parity (gate p taken) = taken := by
    cases taken with
    | true => exact hp
    | false => exact parity_zero
  rw [step_eq, parity_xor, parity_shift, hgate]
  cases parity c <;> cases c.msb <;> cases bit <;> rfl

theorem parity_check (hp : parity p = true) (c : BitVec w) (bits : List Bool) :
    parity (check p c bits) = (parity c ^^ odd bits) := by
  induction bits generalizing c with
  | nil => exact (Bool.xor_false _).symm
  | cons bit bits ih =>
    show parity (check p (step p c bit) bits) = _
    rw [ih, parity_step p hp, odd_cons, Bool.xor_assoc]

/-- AN ODD NUMBER OF ERRORS is seen. -/
theorem check_odd (hp : parity p = true) {bits : List Bool} (hodd : bits.count true % 2 = 1) :
    check p 0 bits ≠ 0 := by
  intro h
  have hparity := parity_check p hp 0 bits
  rw [h, parity_zero, Bool.false_xor, odd_eq_count, decide_eq_true hodd] at hparity
  exact nomatch hparity

end CyclicCheck

end Apollo.Lib
