import Mathlib

/-!
# Circular queues

A queue in a ring of cells: a head, a count, and the cells in between. `toList` is the queue as it
is read from the front; putting an element in at the back adds it there as long as there is room,
and taking one out at the front takes it from there.
-/

namespace Apollo.Lib

/-- A ring of cells of which those from the head on are in use. -/
structure CircularQueue (α : Type) (n : Nat) where
  cells : Fin n → α
  head : Fin n
  count : Nat

namespace CircularQueue

variable {α : Type} {n : Nat} [NeZero n] {q : CircularQueue α n} {a : α}

/-- The cell a number of places behind the head. -/
def place (q : CircularQueue α n) (i : Nat) : Fin n := Fin.ofNat n (q.head.val + i)

/-- The queue from the front. -/
def toList (q : CircularQueue α n) : List α := (List.range q.count).map fun i => q.cells (q.place i)

/-- Put an element in at the back. -/
def push (q : CircularQueue α n) (a : α) : CircularQueue α n :=
  { q with cells := Function.update q.cells (q.place q.count) a, count := q.count + 1 }

/-- The element at the front. -/
def front (q : CircularQueue α n) : α := q.cells q.head

/-- Take the element at the front out. -/
def pop (q : CircularQueue α n) : CircularQueue α n :=
  { q with head := q.place 1, count := q.count - 1 }

@[simp] theorem length_toList (q : CircularQueue α n) : q.toList.length = q.count := by
  rw [toList, List.length_map, List.length_range]

@[simp] theorem count_push (q : CircularQueue α n) (a : α) : (q.push a).count = q.count + 1 := rfl

@[simp] theorem count_pop (q : CircularQueue α n) : q.pop.count = q.count - 1 := rfl

theorem place_ne {i j : Nat} (hij : i < j) (hj : j < n) : q.place i ≠ q.place j := by
  intro h
  have hval : (q.head.val + i) % n = (q.head.val + j) % n := congrArg Fin.val h
  have hmod : i % n = j % n := Nat.ModEq.add_left_cancel' q.head.val hval
  rw [Nat.mod_eq_of_lt (hij.trans hj), Nat.mod_eq_of_lt hj] at hmod
  omega

theorem toList_push (h : q.count < n) : (q.push a).toList = q.toList ++ [a] := by
  rw [toList, count_push, List.range_succ, List.map_append, toList]
  congr 1
  · refine List.map_congr_left fun i hi => ?_
    exact Function.update_of_ne (place_ne (List.mem_range.mp hi) h) _ _
  · rw [List.map_singleton]
    exact congrArg (fun b => [b]) (Function.update_self ..)

theorem toList_foldl_push {β : Type} (f : β → α) :
    ∀ (items : List β) (q : CircularQueue α n), q.count + items.length ≤ n →
      (items.foldl (fun q item => q.push (f item)) q).toList = q.toList ++ items.map f
  | [], q, _ => (List.append_nil q.toList).symm
  | item :: rest, q, hroom => by
    rw [List.length_cons] at hroom
    rw [List.foldl_cons, toList_foldl_push f rest _ (by rw [count_push]; omega),
      toList_push (by omega), List.append_assoc]
    rfl

theorem place_pop (q : CircularQueue α n) (i : Nat) : q.pop.place i = q.place (i + 1) := by
  refine Fin.ext ?_
  change ((q.head.val + 1) % n + i) % n = (q.head.val + (i + 1)) % n
  rw [Nat.mod_add_mod, Nat.add_assoc, Nat.add_comm 1 i]

theorem toList_eq_front_cons (h : q.count ≠ 0) : q.toList = q.front :: q.pop.toList := by
  obtain ⟨count, hcount⟩ := Nat.exists_eq_succ_of_ne_zero h
  have hplace : q.place 0 = q.head := Fin.ext (Nat.mod_eq_of_lt q.head.isLt)
  rw [toList, hcount, List.range_succ_eq_map, List.map_cons, List.map_map, hplace, toList,
    count_pop, hcount, Nat.succ_sub_one]
  refine congrArg (q.front :: ·) (List.map_congr_left fun i _ => ?_)
  exact congrArg q.cells (place_pop q i).symm

end CircularQueue

end Apollo.Lib
