import Mathlib

/-!
# Recent elements

A ring of cells into which a stream is put, with a counter that wraps. The ring holds the last of
the stream, as many elements as it has cells: a cell named by an element's place in the stream holds
that element until the stream has gone round once more.
-/

namespace Apollo.Lib

/-- A ring of cells, and the counter of the elements put in. -/
structure Recent (α : Type) (n : Nat) where
  cells : Fin n → α
  written : Nat

namespace Recent

variable {α : Type} {n : Nat} [NeZero n] {turn : Nat} {blank : α} {stream : List α}

/-- The cell of a place in the stream. -/
def cell (ring : Recent α n) (place : Nat) : α := ring.cells (Fin.ofNat n place)

/-- Put an element in; the counter wraps at the turn. -/
def push (turn : Nat) (ring : Recent α n) (a : α) : Recent α n where
  cells := Function.update ring.cells (Fin.ofNat n ring.written) a
  written := (ring.written + 1) % turn

/-- A ring of blank cells. -/
def empty (blank : α) : Recent α n := ⟨fun _ => blank, 0⟩

/-- A stream put into a ring of blank cells. -/
def remember (turn : Nat) (blank : α) (stream : List α) : Recent α n :=
  stream.foldl (push turn) (empty blank)

theorem remember_concat (turn : Nat) (blank : α) (stream : List α) (a : α) :
    (remember turn blank (stream ++ [a]) : Recent α n) = (remember turn blank stream).push turn a :=
  List.foldl_concat ..

theorem written_remember (turn : Nat) (blank : α) (stream : List α) :
    (remember turn blank stream : Recent α n).written = stream.length % turn := by
  induction stream using List.reverseRecOn with
  | nil => exact (Nat.zero_mod turn).symm
  | append_singleton stream a ih =>
    rw [remember_concat]
    show ((remember turn blank stream : Recent α n).written + 1) % turn = _
    rw [ih, List.length_append, List.length_singleton, Nat.mod_add_mod]

theorem cell_congr (ring : Recent α n) {i j : Nat} (h : i % n = j % n) : ring.cell i = ring.cell j :=
  congrArg ring.cells (Fin.ext h)

/-- THE RING HOLDS THE LAST OF THE STREAM. -/
theorem cell_remember (hturn : n ∣ turn) {i : Nat} {a : α} (ha : stream[i]? = some a)
    (hrecent : stream.length ≤ i + n) :
    (remember turn blank stream : Recent α n).cell i = a := by
  have hplace : ∀ stream : List α, Fin.ofNat n (remember turn blank stream : Recent α n).written =
      Fin.ofNat n stream.length := fun stream => by
    rw [written_remember]
    exact Fin.ext (Nat.mod_mod_of_dvd _ hturn)
  induction stream using List.reverseRecOn with
  | nil => exact absurd ha (by simp)
  | append_singleton stream last ih =>
    rw [remember_concat, cell, push, hplace]
    rw [List.length_append, List.length_singleton] at hrecent
    obtain hlt | heq := (Nat.lt_succ_iff_lt_or_eq.mp
      (by simpa using (List.getElem?_eq_some_iff.mp ha).1 : i < stream.length + 1))
    · have hne : Fin.ofNat n i ≠ Fin.ofNat n stream.length := by
        intro hcells
        have hmod : i % n = stream.length % n := congrArg Fin.val hcells
        obtain ⟨k, hk⟩ := (Nat.modEq_iff_dvd' hlt.le).mp hmod
        have hkzero : k = 0 := by
          by_contra hpos
          have hle : n ≤ n * k := Nat.le_mul_of_pos_right n (Nat.pos_of_ne_zero hpos)
          omega
        rw [hkzero, Nat.mul_zero] at hk
        omega
      dsimp only
      rw [Function.update_of_ne hne]
      rw [List.getElem?_append_left hlt] at ha
      exact ih ha (by omega)
    · subst heq
      have hlast : last = a := by simpa using ha
      dsimp only
      rw [Function.update_self, hlast]

end Recent

end Apollo.Lib
