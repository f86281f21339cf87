import Mathlib

/-!
# Rotating priorities

Levels in a ring, one of which is the highest; going round from it each is lower than the one
before. `rank` is how far down a level is, `first` a search from the highest down, and
`first_eq_some` says what it finds without mentioning the search.

`Nested` is a stack of levels in which each stands above those that were there before it, as long
as the priorities have not moved since it was put on. Taking levels out keeps it, and so does
putting on one that is above all the others.
-/

namespace Apollo.Lib.Rotating

variable {n : Nat} [NeZero n] {highest a b : Fin n}

/-- How far below the highest level a level is. -/
def rank (highest level : Fin n) : Fin n := level - highest

/-- The levels from the highest down. -/
def order (highest : Fin n) : List (Fin n) := (List.finRange n).map (highest + ·)

theorem rank_inj : rank highest a = rank highest b ↔ a = b := sub_left_inj

theorem mem_order (highest a : Fin n) : a ∈ order highest :=
  List.mem_map.mpr ⟨rank highest a, List.mem_finRange _, add_sub_cancel highest a⟩

theorem pairwise_order (highest : Fin n) :
    (order highest).Pairwise fun a b => rank highest a < rank highest b := by
  rw [order, List.pairwise_map]
  refine (List.pairwise_lt_finRange n).imp fun {i j} hij => ?_
  rw [rank, rank, add_sub_cancel_left, add_sub_cancel_left]
  exact hij

/-- The highest level that satisfies a test. -/
def first (highest : Fin n) (p : Fin n → Bool) : Option (Fin n) := (order highest).find? p

variable {p : Fin n → Bool}

theorem first_eq_none : first highest p = none ↔ ∀ a, p a = false := by
  simp only [first, List.find?_eq_none, mem_order, true_imp_iff, Bool.not_eq_true]

theorem first_eq_some : first highest p = some a ↔
    p a = true ∧ ∀ b, rank highest b < rank highest a → p b = false := by
  rw [first, List.find?_eq_some_iff_append]
  have hsorted := pairwise_order highest
  constructor
  · rintro ⟨hp, above, below, hsplit, habove⟩
    refine ⟨hp, fun b hb => ?_⟩
    have hmem := mem_order highest b
    rw [hsplit] at hmem hsorted
    obtain habove' | hbelow := List.mem_append.mp hmem
    · simpa using habove b habove'
    · have hbelow' := (List.pairwise_append.mp hsorted).2.1
      obtain rfl | hrest := List.mem_cons.mp hbelow
      · exact absurd hb (lt_irrefl _)
      · exact absurd hb (lt_asymm ((List.pairwise_cons.mp hbelow').1 b hrest))
  · rintro ⟨hp, habove⟩
    obtain ⟨above, below, hsplit⟩ := List.append_of_mem (mem_order highest a)
    refine ⟨hp, above, below, hsplit, fun b hb => ?_⟩
    rw [hsplit] at hsorted
    have hlt := (List.pairwise_append.mp hsorted).2.2 b hb a (List.mem_cons_self ..)
    rw [habove b hlt]
    rfl

/-! ## Stacks -/

/-- A level on a stack, and whether the priorities have moved since it was put there. -/
structure Entry (n : Nat) where
  level : Fin n
  moved : Bool

/-- The stack when the priorities may have moved. -/
def age (moved : Bool) (stack : List (Entry n)) : List (Entry n) :=
  stack.map fun entry => { entry with moved := entry.moved || moved }

/-- A level that has stayed since before the priorities last moved stands above those under it. -/
def Nested (highest : Fin n) (stack : List (Entry n)) : Prop :=
  stack.Pairwise fun a b => a.moved = false → rank highest a.level < rank highest b.level

omit [NeZero n] in
@[simp] theorem mem_age {moved : Bool} {stack : List (Entry n)} :
    (∃ entry ∈ age moved stack, entry.level = a) ↔ ∃ entry ∈ stack, entry.level = a := by
  simp only [age, List.mem_map, exists_exists_and_eq_and]

omit [NeZero n] in
theorem nested_nil (highest : Fin n) : Nested highest [] := List.Pairwise.nil

omit [NeZero n] in
theorem Nested.cons {stack : List (Entry n)} (h : Nested highest stack)
    (ha : ∀ entry ∈ stack, rank highest a < rank highest entry.level) :
    Nested highest (⟨a, false⟩ :: stack) :=
  List.pairwise_cons.mpr ⟨fun entry hentry _ => ha entry hentry, h⟩

omit [NeZero n] in
theorem Nested.filter {stack : List (Entry n)} (h : Nested highest stack) (q : Entry n → Bool) :
    Nested highest (stack.filter q) :=
  List.Pairwise.filter q h

omit [NeZero n] in
theorem Nested.age {stack : List (Entry n)} (h : Nested highest stack) (highest' : Fin n) :
    Nested highest' (age (decide (highest ≠ highest')) stack) := by
  rw [Nested, Rotating.age, List.pairwise_map]
  refine h.imp fun {a b} hab hmoved => ?_
  obtain ⟨ha, hsame⟩ := Bool.or_eq_false_iff.mp hmoved
  have hhighest : highest = highest' := not_not.mp (of_decide_eq_false hsame)
  exact hhighest ▸ hab ha

omit [NeZero n] in
theorem Nested.le_head {entry : Entry n} {stack : List (Entry n)}
    (h : Nested highest (entry :: stack)) (hmoved : entry.moved = false) :
    ∀ other ∈ entry :: stack, rank highest entry.level ≤ rank highest other.level := by
  intro other hother
  obtain rfl | hrest := List.mem_cons.mp hother
  · exact le_rfl
  · exact ((List.pairwise_cons.mp h).1 other hrest hmoved).le

end Apollo.Lib.Rotating
