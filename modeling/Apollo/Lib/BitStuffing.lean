import Mathlib

/-!
# Bit stuffing

A line code that reserves a run of more than `k` ones for its control
characters must break every such run in its data: the sender inserts a zero
after `k` successive ones and the receiver takes it out again. This module is
that codec over plain bit lists, for any threshold `k`.

The receiver `unstuff` is EAGER: having taken the `k`-th one of a run it looks at
the next bit at once, and discards it or reports the violation. It takes back
exactly what was stuffed (`unstuff_stuff`), and takes back nothing else, one
truncated ending apart (`unstuff_eq_some`).

`onesRun_prefix_stuff` is the reason the code works at all: no prefix of a
stuffed line carries a run longer than `k`, so a longer run is a mark.
-/

namespace Apollo.Lib

/-! ## The sender -/

/-- Stuff a bit list, given the run of ones already on the line: a zero follows
every `k`-th successive one. -/
def stuff (k : Nat) : Nat → List Bool → List Bool
  | _, [] => []
  | _, false :: bs => false :: stuff k 0 bs
  | r, true :: bs =>
    if k ≤ r + 1 then true :: false :: stuff k 0 bs else true :: stuff k (r + 1) bs

/-- The run of ones standing on the line after a stuffed list. -/
def runAfter (k : Nat) : Nat → List Bool → Nat
  | r, [] => r
  | _, false :: bs => runAfter k 0 bs
  | r, true :: bs => if k ≤ r + 1 then runAfter k 0 bs else runAfter k (r + 1) bs

theorem stuff_append (k r : Nat) (as bs : List Bool) :
    stuff k r (as ++ bs) = stuff k r as ++ stuff k (runAfter k r as) bs := by
  fun_induction stuff k r as with
  | case1 r => rfl
  | case2 r as ih => simp only [List.cons_append, stuff, runAfter, ih]
  | case3 r as h ih => simp only [List.cons_append, stuff, runAfter, if_pos h, ih]
  | case4 r as h ih => simp only [List.cons_append, stuff, runAfter, if_neg h, ih]

theorem runAfter_append (k r : Nat) (as bs : List Bool) :
    runAfter k r (as ++ bs) = runAfter k (runAfter k r as) bs := by
  fun_induction runAfter k r as with
  | case1 r => rfl
  | case2 r as ih => simp only [List.cons_append, runAfter, ih]
  | case3 r as h ih => simp only [List.cons_append, runAfter, if_pos h, ih]
  | case4 r as h ih => simp only [List.cons_append, runAfter, if_neg h, ih]

theorem runAfter_lt {k r : Nat} (hk : 0 < k) (hr : r < k) (bs : List Bool) :
    runAfter k r bs < k := by
  fun_induction runAfter k r bs with
  | case1 r => exact hr
  | case2 r bs ih => exact ih hk
  | case3 r bs h ih => exact ih hk
  | case4 r bs h ih => exact ih (Nat.lt_of_not_le h)

theorem length_le_length_stuff (k r : Nat) (bs : List Bool) :
    bs.length ≤ (stuff k r bs).length := by
  fun_induction stuff k r bs with
  | case1 r => exact Nat.le_refl _
  | case2 r bs ih => simpa only [List.length_cons, Nat.add_le_add_iff_right] using ih
  | case3 r bs h ih =>
    simp only [List.length_cons]
    omega
  | case4 r bs h ih => simpa only [List.length_cons, Nat.add_le_add_iff_right] using ih

theorem stuff_false_cons (k r : Nat) (bs : List Bool) :
    stuff k r (false :: bs) = false :: stuff k 0 bs := by
  simp only [stuff]

/-! ## Runs of ones -/

/-- The run of ones at the end of a list, given the run it started from. -/
def onesRun (r : Nat) (l : List Bool) : Nat :=
  l.foldl (fun n b => if b then n + 1 else 0) r

@[simp] theorem onesRun_nil (r : Nat) : onesRun r [] = r := rfl

@[simp] theorem onesRun_cons (r : Nat) (b : Bool) (l : List Bool) :
    onesRun r (b :: l) = onesRun (if b then r + 1 else 0) l := rfl

theorem onesRun_append (r : Nat) (as bs : List Bool) :
    onesRun r (as ++ bs) = onesRun (onesRun r as) bs := by
  simp only [onesRun, List.foldl_append]

@[simp] theorem onesRun_concat (r : Nat) (l : List Bool) (b : Bool) :
    onesRun r (l ++ [b]) = if b then onesRun r l + 1 else 0 := by
  simp only [onesRun_append, onesRun_cons, onesRun_nil]

theorem onesRun_prefix_stuff {k r : Nat} (hk : 0 < k) (hr : r < k) {bs p : List Bool}
    (hp : p <+: stuff k r bs) : onesRun r p ≤ k := by
  fun_induction stuff k r bs generalizing p with
  | case1 r =>
    rw [List.prefix_nil.mp hp]
    exact Nat.le_of_lt hr
  | case2 r bs ih =>
    rcases List.prefix_cons_iff.mp hp with rfl | ⟨q, rfl, hq⟩
    · exact Nat.le_of_lt hr
    · exact ih hk hq
  | case3 r bs h ih =>
    rcases List.prefix_cons_iff.mp hp with rfl | ⟨q, rfl, hq⟩
    · exact Nat.le_of_lt hr
    · rcases List.prefix_cons_iff.mp hq with rfl | ⟨q', rfl, hq'⟩
      · exact hr
      · exact ih hk hq'
  | case4 r bs h ih =>
    rcases List.prefix_cons_iff.mp hp with rfl | ⟨q, rfl, hq⟩
    · exact Nat.le_of_lt hr
    · exact ih (Nat.lt_of_not_le h) hq

/-- The run a stuffed list leaves is the run of ones on its line, once that run
has not just been broken. -/
theorem onesRun_stuff {k r : Nat} (hk : 0 < k) (hr : r < k) (bs : List Bool) :
    onesRun r (stuff k r bs) = runAfter k r bs := by
  fun_induction stuff k r bs with
  | case1 r => rfl
  | case2 r bs ih => exact ih hk
  | case3 r bs h ih => simpa only [onesRun_cons, runAfter, if_pos h, Bool.false_eq_true, if_false] using ih hk
  | case4 r bs h ih =>
    simpa only [onesRun_cons, runAfter, if_neg h, if_true] using ih (Nat.lt_of_not_le h)

/-- A stuffed line that still has data to carry cannot open with the ones that
would complete a run of `k + 1`. -/
theorem not_ones_prefix_stuff {k r : Nat} (hr : r < k) {bs t : List Bool}
    (hlen : k ≤ r + bs.length) :
    ¬ List.replicate (k - r + 1) true <+: stuff k r bs ++ t := by
  fun_induction stuff k r bs with
  | case1 r => exact absurd hlen (by simp only [List.length_nil]; omega)
  | case2 r bs ih =>
    intro h
    rw [List.replicate_succ, List.cons_append, List.cons_prefix_cons] at h
    exact absurd h.1 (by decide)
  | case3 r bs h ih =>
    intro hp
    have hone : k - r + 1 = 1 + 1 := by omega
    rw [hone, List.replicate_succ, List.replicate_succ, List.cons_append, List.cons_append,
      List.cons_prefix_cons, List.cons_prefix_cons] at hp
    exact absurd hp.2.1 (by decide)
  | case4 r bs h ih =>
    intro hp
    have hsucc : k - r + 1 = (k - (r + 1) + 1) + 1 := by omega
    rw [hsucc, List.replicate_succ, List.cons_append, List.cons_prefix_cons] at hp
    exact ih (Nat.lt_of_not_le h) (by simp only [List.length_cons] at hlen; omega) hp.2

/-! ## The eager receiver -/

/-- Take `n` data bits off the line, discarding each stuffed zero as soon as its
run is complete. The answer is the data, the rest of the line and the run left
standing; `none` is a line that ran out or a `k + 1`-th successive one. A line
that ends where a stuffed zero was due still yields its data. -/
def unstuff (k : Nat) : Nat → Nat → List Bool → Option (List Bool × List Bool × Nat)
  | 0, r, l => some ([], l, r)
  | _ + 1, _, [] => none
  | n + 1, _, false :: l => (unstuff k n 0 l).map fun (bs, t, r') => (false :: bs, t, r')
  | n + 1, r, true :: l =>
    if k ≤ r + 1 then
      match l with
      | [] => if n = 0 then some ([true], [], r + 1) else none
      | false :: l' => (unstuff k n 0 l').map fun (bs, t, r') => (true :: bs, t, r')
      | true :: _ => none
    else (unstuff k n (r + 1) l).map fun (bs, t, r') => (true :: bs, t, r')

/-- THE ROUND TRIP: the eager receiver takes back exactly what was stuffed, and
leaves the rest of the line alone. -/
theorem unstuff_stuff (k r : Nat) (bs t : List Bool) :
    unstuff k bs.length r (stuff k r bs ++ t) = some (bs, t, runAfter k r bs) := by
  fun_induction stuff k r bs with
  | case1 r => rfl
  | case2 r bs ih => simp only [List.length_cons, List.cons_append, unstuff, ih, Option.map_some,
      runAfter]
  | case3 r bs h ih => simp only [List.length_cons, List.cons_append, unstuff, if_pos h, ih,
      Option.map_some, runAfter]
  | case4 r bs h ih => simp only [List.length_cons, List.cons_append, unstuff, if_neg h, ih,
      Option.map_some, runAfter]

theorem replicate_runAfter_suffix (k : Nat) (bs : List Bool) :
    List.replicate (runAfter k 0 bs) true <:+ bs := by
  induction bs using List.reverseRecOn with
  | nil => exact List.nil_suffix
  | append_singleton bs b ih =>
    rw [runAfter_append]
    cases b with
    | false => exact List.nil_suffix
    | true =>
      simp only [runAfter]
      split
      · exact List.nil_suffix
      · obtain ⟨cs, hcs⟩ := ih
        exact ⟨cs, by rw [List.replicate_succ', ← List.append_assoc, hcs]⟩

/-- A line was cut off behind the `k`-th one of a run: the data is all there, and
only the stuffed zero is missing. -/
def CutShort (k r : Nat) (l bs : List Bool) : Prop :=
  ∃ cs, bs = cs ++ [true] ∧ k ≤ runAfter k r cs + 1 ∧ l = stuff k r cs ++ [true]

theorem CutShort.concat {k r : Nat} {l bs : List Bool} (h : CutShort k r l bs) :
    l ++ [false] = stuff k r bs := by
  obtain ⟨cs, rfl, hrun, rfl⟩ := h
  rw [stuff_append, List.append_assoc]
  simp only [stuff, if_pos hrun, List.singleton_append]

theorem CutShort.append {k r : Nat} {as l bs : List Bool}
    (h : CutShort k (runAfter k r as) l bs) : CutShort k r (stuff k r as ++ l) (as ++ bs) := by
  obtain ⟨cs, rfl, hrun, rfl⟩ := h
  refine ⟨as ++ cs, (List.append_assoc ..).symm, ?_, ?_⟩
  · rwa [runAfter_append]
  · rw [stuff_append, List.append_assoc]

theorem CutShort.ones {k : Nat} {l bs : List Bool} (h : CutShort k 0 l bs) :
    List.replicate k true <:+ bs := by
  obtain ⟨cs, rfl, hrun, -⟩ := h
  obtain ⟨ds, hds⟩ := replicate_runAfter_suffix k cs
  have hsplit : runAfter k 0 cs + 1 = (runAfter k 0 cs + 1 - k) + k := by omega
  refine ⟨ds ++ List.replicate (runAfter k 0 cs + 1 - k) true, ?_⟩
  calc ds ++ List.replicate (runAfter k 0 cs + 1 - k) true ++ List.replicate k true
      = ds ++ List.replicate (runAfter k 0 cs + 1) true := by
        rw [List.append_assoc, List.replicate_append_replicate, ← hsplit]
    _ = cs ++ [true] := by rw [List.replicate_succ', ← List.append_assoc, hds]

/-- CANONICITY: what the eager receiver takes is the stuffing of what it
answers. The one other case is a line that was cut short. -/
theorem unstuff_eq_some {k n r : Nat} {l bs t : List Bool} {r' : Nat}
    (h : unstuff k n r l = some (bs, t, r')) :
    bs.length = n ∧
      ((l = stuff k r bs ++ t ∧ r' = runAfter k r bs) ∨ (t = [] ∧ CutShort k r l bs)) := by
  fun_induction unstuff k n r l generalizing bs t r' with
  | case1 r l =>
    simp only [Option.some.injEq, Prod.mk.injEq] at h
    obtain ⟨rfl, rfl, rfl⟩ := h
    exact ⟨rfl, .inl ⟨rfl, rfl⟩⟩
  | case2 => cases h
  | case3 n r l ih =>
    obtain ⟨⟨cs, u, s⟩, hrec, heq⟩ := Option.map_eq_some_iff.mp h
    cases heq
    obtain ⟨hlen, hcan⟩ := ih hrec
    refine ⟨by rw [List.length_cons, hlen], ?_⟩
    rcases hcan with ⟨rfl, hr⟩ | ⟨ht, hcut⟩
    · exact .inl ⟨rfl, hr⟩
    · have hone : CutShort k (runAfter k r [false]) l cs := hcut
      exact .inr ⟨ht, hone.append⟩
  | case4 r hk =>
    simp only [Option.some.injEq, Prod.mk.injEq] at h
    obtain ⟨rfl, rfl, rfl⟩ := h
    exact ⟨rfl, .inr ⟨rfl, [], rfl, hk, rfl⟩⟩
  | case5 => cases h
  | case6 n r hk l ih =>
    obtain ⟨⟨cs, u, s⟩, hrec, heq⟩ := Option.map_eq_some_iff.mp h
    cases heq
    obtain ⟨hlen, hcan⟩ := ih hrec
    refine ⟨by rw [List.length_cons, hlen], ?_⟩
    rcases hcan with ⟨rfl, hr⟩ | ⟨ht, hcut⟩
    · exact .inl (by simp only [stuff, runAfter, if_pos hk, List.cons_append, hr, and_self])
    · have hone : CutShort k (runAfter k r [true]) l cs := by simpa only [runAfter, if_pos hk]
      have hcons := hone.append
      simp only [stuff, if_pos hk, List.cons_append, List.nil_append] at hcons
      exact .inr ⟨ht, hcons⟩
  | case7 => cases h
  | case8 n r l hk ih =>
    obtain ⟨⟨cs, u, s⟩, hrec, heq⟩ := Option.map_eq_some_iff.mp h
    cases heq
    obtain ⟨hlen, hcan⟩ := ih hrec
    refine ⟨by rw [List.length_cons, hlen], ?_⟩
    rcases hcan with ⟨rfl, hr⟩ | ⟨ht, hcut⟩
    · exact .inl (by simp only [stuff, runAfter, if_neg hk, List.cons_append, hr, and_self])
    · have hone : CutShort k (runAfter k r [true]) l cs := by simpa only [runAfter, if_neg hk]
      have hcons := hone.append
      simp only [stuff, if_neg hk, List.cons_append, List.nil_append] at hcons
      exact .inr ⟨ht, hcons⟩

end Apollo.Lib
