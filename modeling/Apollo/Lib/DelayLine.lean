import Mathlib

/-!
# Delay lines in a circular buffer

A cable that stores `bits` cells is a queue whose length never changes: each
clock one cell goes in and the oldest comes out. The usual implementation keeps
the cells in a fixed array and moves an index, and a line of length zero is a
wire, whose output is its input in the same clock.

`DelayLine` is that implementation over any cell type. `contents` is the queue it
stands for, oldest cell first, and the two lemmas `through_eq` and
`contents_shift` say that the array does what the queue does, the wire included.

`delayed` is the trace such a line leaves: first what it held, and from then on what
went in `bits` clocks before. `through_trace` says so, and `delayed_append` that two
lines in a row are one line.
-/

namespace Apollo.Lib

/-- What comes out of a line that held `held` when `x t` goes in at clock `t`. -/
def delayed {α : Type} (held : List α) (x : Nat → α) (t : Nat) : α :=
  held[t]?.getD (x (t - held.length))

section Delayed

variable {α : Type} {held : List α} {x : Nat → α} {t : Nat}

theorem delayed_of_lt (h : t < held.length) : held[t]? = some (delayed held x t) := by
  rw [delayed, List.getElem?_eq_getElem h, Option.getD_some]

theorem delayed_of_le (h : held.length ≤ t) : delayed held x t = x (t - held.length) := by
  rw [delayed, List.getElem?_eq_none h, Option.getD_none]

theorem delayed_congr {y : Nat → α} (h : ∀ k ≤ t, x k = y k) :
    delayed held x t = delayed held y t := by
  rw [delayed, delayed, h _ (Nat.sub_le _ _)]

@[simp] theorem delayed_nil : delayed [] x = x := rfl

theorem delayed_append (as bs : List α) (x : Nat → α) :
    delayed (as ++ bs) x = delayed as (delayed bs x) := by
  funext t
  rcases Nat.lt_or_ge t as.length with h | h
  · rw [delayed, delayed, List.getElem?_append_left h, List.getElem?_eq_getElem h, Option.getD_some,
      Option.getD_some]
  · rw [delayed_of_le h, delayed, delayed, List.getElem?_append_right h, List.length_append,
      Nat.sub_add_eq]

end Delayed

/-- A line of `bits` cells in an array of `capacity`. `head` indexes the oldest. -/
structure DelayLine (α : Type) (capacity : Nat) where
  bits : Nat
  cells : Vector α capacity
  head : Nat
  fits : bits ≤ capacity
deriving DecidableEq

namespace DelayLine

variable {α : Type} {capacity : Nat}

/-- A line of no length. -/
def wire (x : α) : DelayLine α capacity :=
  { bits := 0, cells := Vector.replicate capacity x, head := 0, fits := Nat.zero_le _ }

theorem index_lt (d : DelayLine α capacity) (h : 0 < d.bits) (i : Nat) :
    i % d.bits < capacity :=
  Nat.lt_of_lt_of_le (Nat.mod_lt i h) d.fits

/-- The oldest cell. -/
def oldest (d : DelayLine α capacity) (h : 0 < d.bits) : α :=
  d.cells.get ⟨d.head % d.bits, d.index_lt h d.head⟩

/-- Replace the oldest cell by the newest and move on. -/
def push (d : DelayLine α capacity) (h : 0 < d.bits) (x : α) : DelayLine α capacity :=
  { d with
    cells := d.cells.set (d.head % d.bits) x (d.index_lt h d.head)
    head := (d.head % d.bits + 1) % d.bits }

/-- What comes out in the clock in which `x` goes in. -/
def through (d : DelayLine α capacity) (x : α) : α :=
  if h : 0 < d.bits then d.oldest h else x

/-- The line after that clock. -/
def shift (d : DelayLine α capacity) (x : α) : DelayLine α capacity :=
  if h : 0 < d.bits then d.push h x else d

/-- The queue the array stands for, oldest cell first. -/
def contents (d : DelayLine α capacity) : List α :=
  List.ofFn fun i : Fin d.bits =>
    d.cells.get ⟨(d.head + i) % d.bits, d.index_lt (Nat.zero_lt_of_lt i.isLt) _⟩

@[simp] theorem length_contents (d : DelayLine α capacity) : d.contents.length = d.bits :=
  List.length_ofFn

@[simp] theorem bits_shift (d : DelayLine α capacity) (x : α) : (d.shift x).bits = d.bits := by
  unfold shift
  split <;> rfl

theorem getElem?_contents (d : DelayLine α capacity) {i : Nat} (hi : i < d.bits) :
    d.contents[i]? = d.cells[(d.head + i) % d.bits]? := by
  rw [contents, List.getElem?_ofFn, dif_pos hi]
  exact (Vector.getElem?_eq_getElem (d.index_lt (Nat.zero_lt_of_lt hi) _)).symm

theorem contents_wire {d : DelayLine α capacity} (h : ¬ 0 < d.bits) : d.contents = [] := by
  rw [← List.length_eq_zero_iff, length_contents]
  omega

/-- What comes out is the head of the queue with the newest cell behind it, which
on a wire is that cell. -/
theorem through_eq (d : DelayLine α capacity) (x : α) :
    (d.contents ++ [x])[0]? = some (d.through x) := by
  unfold through
  split
  · next h =>
    rw [List.getElem?_append_left (by rwa [length_contents]), d.getElem?_contents h]
    exact Vector.getElem?_eq_getElem _
  · next h =>
    rw [contents_wire h]
    rfl

theorem index_push (head i n : Nat) : ((head % n + 1) % n + i) % n = (head + (i + 1)) % n := by
  have hmod : (head % n + 1) % n + i ≡ head + (i + 1) [MOD n] :=
    calc (head % n + 1) % n + i
        ≡ head % n + 1 + i [MOD n] := (Nat.mod_modEq _ _).add_right _
      _ ≡ head + 1 + i [MOD n] := ((Nat.mod_modEq _ _).add_right _).add_right _
      _ = head + (i + 1) := by ring
  exact hmod

theorem index_eq_head_iff {head i n : Nat} (hi : i < n) :
    head % n = (head + (i + 1)) % n ↔ i + 1 = n := by
  constructor
  · intro h
    have hdvd : n ∣ i + 1 := by
      have := (Nat.modEq_iff_dvd' (Nat.le_add_right head (i + 1))).mp h
      rwa [Nat.add_sub_cancel_left] at this
    have := Nat.le_of_dvd (Nat.succ_pos i) hdvd
    omega
  · intro h
    rw [h, Nat.add_mod_right]

theorem contents_shift (d : DelayLine α capacity) (x : α) :
    (d.shift x).contents = (d.contents ++ [x]).tail := by
  by_cases h : 0 < d.bits
  · have hshift : d.shift x = d.push h x := dif_pos h
    rw [hshift]
    apply List.ext_getElem?
    intro i
    rw [List.getElem?_tail]
    by_cases hi : i < d.bits
    · have hcell : (d.push h x).contents[i]? =
          if i + 1 = d.bits then some x else d.cells[(d.head + (i + 1)) % d.bits]? := by
        rw [(d.push h x).getElem?_contents hi]
        simp only [push, index_push, Vector.getElem?_set, index_eq_head_iff hi]
      rw [hcell]
      split
      · next hlast => rw [hlast, ← d.length_contents, List.getElem?_concat_length]
      · next hmore =>
        have hlt : i + 1 < d.bits := by omega
        rw [List.getElem?_append_left (by rwa [length_contents]), d.getElem?_contents hlt]
    · have hpast : (d.contents ++ [x]).length ≤ i + 1 := by
        rw [List.length_append, length_contents, List.length_singleton]
        omega
      rw [List.getElem?_eq_none ((d.push h x).length_contents ▸ Nat.le_of_not_lt hi),
        List.getElem?_eq_none hpast]
  · have hshift : d.shift x = d := dif_neg h
    rw [hshift, contents_wire h]
    rfl

/-- One clock of a line, as one list: what is fed stands behind what it holds, and the oldest
leaves in front. -/
theorem contents_concat (d : DelayLine α capacity) (x : α) :
    d.contents ++ [x] = d.through x :: (d.shift x).contents := by
  have hhead := d.through_eq x
  rw [d.contents_shift]
  cases h : d.contents ++ [x] with
  | nil => exact absurd h (List.append_ne_nil_of_right_ne_nil _ (List.cons_ne_nil _ _))
  | cons y ys =>
    rw [h, List.getElem?_cons_zero, Option.some.injEq] at hhead
    rw [hhead, List.tail_cons]

section Trace

variable {d : Nat → DelayLine α capacity} {x : Nat → α} {n : Nat}

/-- A run of the line: the queue at clock `t` is what it held and what went in,
less the `t` cells that came out. -/
theorem contents_trace (hstep : ∀ t, t + 1 < n → d (t + 1) = (d t).shift (x t)) {t : Nat}
    (ht : t < n) :
    (d t).contents = ((d 0).contents ++ (List.range t).map x).drop t := by
  induction t with
  | zero => simp only [List.range_zero, List.map_nil, List.append_nil, List.drop_zero]
  | succ t ih =>
    have hle : t ≤ ((d 0).contents ++ (List.range t).map x).length := by
      simp only [List.length_append, List.length_map, List.length_range]
      omega
    rw [hstep t ht, contents_shift, ih (Nat.lt_of_succ_lt ht), List.range_succ, List.map_append,
      List.map_singleton, ← List.append_assoc, ← List.drop_append_of_le_length hle, List.tail_drop]

/-- THE DELAY: a line hands out what it held, in order, and from then on what
went in `bits` clocks before. -/
theorem through_trace (hstep : ∀ t, t + 1 < n → d (t + 1) = (d t).shift (x t)) {t : Nat}
    (ht : t < n) : (d t).through (x t) = delayed (d 0).contents x t := by
  have hle : t ≤ ((d 0).contents ++ (List.range t).map x).length := by
    rw [List.length_append, List.length_map, List.length_range]
    omega
  have hqueue : ((d 0).contents ++ (List.range (t + 1)).map x)[t]? = some ((d t).through (x t)) := by
    rw [← through_eq, contents_trace hstep ht, List.range_succ, List.map_append,
      List.map_singleton, ← List.append_assoc, ← List.drop_append_of_le_length hle,
      List.getElem?_drop, Nat.add_zero]
  unfold delayed
  rcases Nat.lt_or_ge t (d 0).contents.length with h | h
  · rw [List.getElem?_append_left h] at hqueue
    rw [hqueue, Option.getD_some]
  · rw [List.getElem?_append_right h, List.getElem?_map,
      List.getElem?_range (by omega), Option.map_some, Option.some.injEq] at hqueue
    rw [List.getElem?_eq_none h, Option.getD_none, hqueue]

end Trace

end DelayLine

end Apollo.Lib
