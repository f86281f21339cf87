import Mathlib

/-!
# Merging periodic clocks

A discrete-event loop that owns several periodic clocks fires, again and again, the
one due first, and a fixed order of the clocks breaks ties. This module says what
such a loop does, whatever it keeps its deadlines in: `Merging` is the invariant of
the log it has written, `Merging.fire` and `Merging.join` are what one turn and one
new clock do to it, and `Merging.exact` is the result. Up to time `t` a clock that
joined at `start` has fired `(t - start) / period` times, at its own multiples and
at no other time.

`remaining` is the measure that makes the loop end: every turn takes a deadline one
period closer to `t`.
-/

namespace Apollo.Lib

/-- A clock that joined at `start` and is due one period later for the first time. -/
structure PeriodicClock where
  start : Nat
  period : Nat
  positive : 0 < period

/-- When the clock is due for the `k`-th time, counted from zero. -/
def PeriodicClock.tick (c : PeriodicClock) (k : Nat) : Nat := c.start + (k + 1) * c.period

theorem PeriodicClock.tick_succ (c : PeriodicClock) (k : Nat) : c.tick (k + 1) = c.tick k + c.period := by
  unfold PeriodicClock.tick
  ring

theorem PeriodicClock.start_lt_tick (c : PeriodicClock) (k : Nat) : c.start < c.tick k := by
  have := c.positive
  unfold PeriodicClock.tick
  nlinarith [Nat.zero_le (k * c.period)]

section Merge

variable {ι : Type} [LinearOrder ι]

/-- Earlier, or at the same time and first in the order of the clocks. -/
def Before (e e' : Nat × ι) : Prop := e.1 < e'.1 ∨ (e.1 = e'.1 ∧ e.2 < e'.2)

theorem Before.trans {a b c : Nat × ι} (h : Before a b) (h' : Before b c) : Before a c := by
  rcases h with h | ⟨h, hi⟩ <;> rcases h' with h' | ⟨h', hi'⟩
  · exact .inl (h.trans h')
  · exact .inl (h' ▸ h)
  · exact .inl (h ▸ h')
  · exact .inr ⟨h.trans h', hi.trans hi'⟩

/-- The times at which one clock fired. -/
def firings (log : List (Nat × ι)) (i : ι) : List Nat :=
  (log.filter fun e => e.2 = i).map Prod.fst

theorem firings_append (log log' : List (Nat × ι)) (i : ι) :
    firings (log ++ log') i = firings log i ++ firings log' i := by
  simp only [firings, List.filter_append, List.map_append]

theorem firings_singleton (t : Nat) (i j : ι) :
    firings [(t, i)] j = if i = j then [t] else [] := by
  unfold firings
  rw [List.filter_singleton]
  by_cases h : i = j
  · simp only [h, decide_true, if_true, cond_true, List.map_cons, List.map_nil]
  · simp only [h, decide_false, if_false, cond_false, List.map_nil]

/-- The log of a loop over `clocks` in which clock `i` has fired `count i` times:
each has fired at its own ticks, the whole is in order, and nothing in it was late. -/
structure Merging (clocks : ι → Option PeriodicClock) (log : List (Nat × ι)) (count : ι → Nat) : Prop where
  ticks : ∀ i c, clocks i = some c → firings log i = (List.range (count i)).map c.tick
  absent : ∀ i, clocks i = none → firings log i = []
  sorted : log.Pairwise Before
  behind : ∀ e ∈ log, ∀ i c, clocks i = some c → Before e (c.tick (count i), i)

variable {clocks : ι → Option PeriodicClock} {log : List (Nat × ι)} {count : ι → Nat}

theorem Merging.nil : Merging (fun _ : ι => none) [] fun _ => 0 where
  ticks _ _ h := nomatch h
  absent _ _ := rfl
  sorted := .nil
  behind _ h := nomatch h

theorem Merging.fire (h : Merging clocks log count) {i : ι} {c : PeriodicClock} (hc : clocks i = some c)
    (hfirst : ∀ j d, clocks j = some d → j ≠ i →
      Before (c.tick (count i), i) (d.tick (count j), j)) :
    Merging clocks (log ++ [(c.tick (count i), i)]) (Function.update count i (count i + 1)) := by
  have hlater : Before (c.tick (count i), i) (c.tick (count i + 1), i) := by
    left
    have := c.positive
    rw [c.tick_succ]
    omega
  have hahead : ∀ j d, clocks j = some d →
      Before (c.tick (count i), i) (d.tick (Function.update count i (count i + 1) j), j) := by
    intro j d hd
    by_cases hj : j = i
    · subst hj
      cases hc.symm.trans hd
      rwa [Function.update_self]
    · rw [Function.update_of_ne hj]
      exact hfirst j d hd hj
  refine ⟨fun j d hd => ?_, fun j hj => ?_, ?_, fun e he j d hd => ?_⟩
  · rw [firings_append, firings_singleton, h.ticks j d hd]
    by_cases hj : i = j
    · subst hj
      cases hc.symm.trans hd
      rw [if_pos rfl, Function.update_self, List.range_succ, List.map_append, List.map_singleton]
    · rw [if_neg hj, List.append_nil, Function.update_of_ne (Ne.symm hj)]
  · have hne : i ≠ j := fun heq => by
      rw [heq, hj] at hc
      cases hc
    rw [firings_append, firings_singleton, h.absent j hj, if_neg hne, List.append_nil]
  · refine List.pairwise_append.mpr ⟨h.sorted, List.pairwise_singleton _ _, fun e he e' he' => ?_⟩
    rw [List.mem_singleton.mp he']
    exact h.behind e he i c hc
  · rcases List.mem_append.mp he with he | he
    · exact (h.behind e he i c hc).trans (hahead j d hd)
    · rw [List.mem_singleton.mp he]
      exact hahead j d hd

theorem Merging.join (h : Merging clocks log count) {i : ι} (hnew : clocks i = none) (c : PeriodicClock)
    (hlate : ∀ e ∈ log, e.1 ≤ c.start) :
    Merging (Function.update clocks i (some c)) log (Function.update count i 0) := by
  refine ⟨fun j d hd => ?_, fun j hj => ?_, h.sorted, fun e he j d hd => ?_⟩
  · by_cases hj : j = i
    · subst hj
      rw [Function.update_self, h.absent j hnew, List.range_zero, List.map_nil]
    · rw [Function.update_of_ne hj] at hd ⊢
      exact h.ticks j d hd
  · by_cases hi : j = i
    · subst hi
      exact h.absent j hnew
    · rw [Function.update_of_ne hi] at hj
      exact h.absent j hj
  · by_cases hj : j = i
    · subst hj
      rw [Function.update_self] at hd ⊢
      cases hd
      left
      exact Nat.lt_of_le_of_lt (hlate e he) (c.start_lt_tick 0)
    · rw [Function.update_of_ne hj] at hd ⊢
      exact h.behind e he j d hd

/-- THE MERGE IS EXACT: once no clock is due any more, each has fired once for
every period that has passed since it joined. -/
theorem Merging.exact (h : Merging clocks log count) {t : Nat} {i : ι} {c : PeriodicClock}
    (hc : clocks i = some c) (hdone : t < c.tick (count i)) (hstart : c.start ≤ t)
    (hpast : ∀ e ∈ log, e.1 ≤ t) :
    firings log i = (List.range ((t - c.start) / c.period)).map c.tick := by
  have hle : c.start + count i * c.period ≤ t := by
    rcases hcount : count i with _ | k
    · omega
    · have hmem : c.tick k ∈ firings log i := by
        rw [h.ticks i c hc, hcount]
        exact List.mem_map_of_mem (List.mem_range.mpr (Nat.lt_succ_self k))
      obtain ⟨e, he, heq⟩ := List.mem_map.mp hmem
      have hpast' := hpast e (List.mem_filter.mp he).1
      rwa [heq] at hpast'
  have hdiv : (t - c.start) / c.period = count i := by
    have := c.positive
    unfold PeriodicClock.tick at hdone
    exact Nat.div_eq_of_lt_le (by omega) (by omega)
  rw [hdiv]
  exact h.ticks i c hc

/-! ## Why the loop ends -/

/-- How far the deadlines of some clocks still are from passing `t`. -/
def remaining (clocks : ι → Option PeriodicClock) (count : ι → Nat) (t : Nat) (s : Finset ι) : Nat :=
  ∑ i ∈ s, ((clocks i).elim 0 fun c => t + 1 - c.tick (count i))

theorem remaining_fire {s : Finset ι} {t : Nat} {i : ι} {c : PeriodicClock} (hi : i ∈ s)
    (hc : clocks i = some c) (hdue : c.tick (count i) ≤ t) :
    remaining clocks (Function.update count i (count i + 1)) t s < remaining clocks count t s := by
  unfold remaining
  refine Finset.sum_lt_sum (fun j _ => ?_) ⟨i, hi, ?_⟩
  · by_cases hj : j = i
    · subst hj
      rw [Function.update_self, hc, Option.elim_some, Option.elim_some, c.tick_succ]
      omega
    · rw [Function.update_of_ne hj]
  · have := c.positive
    rw [Function.update_self, hc, Option.elim_some, Option.elim_some, c.tick_succ]
    omega

end Merge

end Apollo.Lib
