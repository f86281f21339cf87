import Mathlib

/-!
# A clock that is put forward and back once a year

`Changes` are the instants, one of each kind a year and well apart, at which a clock is put forward
by `shift` and at which it is put back. A clock is put back only the first time that it reaches the
instant: while it goes through the same time `again`, it remembers that.

`Changes.next` is one tick. Over any run the clock shows what an unchanged one would, moved by the
changes that were made (`total`), and every change that it has come past was made EXACTLY ONCE
(`forward_once`, `back_once`).
-/

namespace Apollo.Lib

/-- The changes of every year. -/
structure Changes where
  shift : Nat
  spring : Nat → Nat
  fall : Nat → Nat
  positive : 0 < shift
  fallAfter : ∀ y, spring y + 2 * shift < fall y
  springAfter : ∀ y, fall y + 2 * shift < spring (y + 1)

/-- What a clock shows, and whether it has shown it before. -/
structure ShownTime where
  time : Nat
  again : Bool

namespace Changes

variable (c : Changes)

open Classical in
/-- One tick. -/
noncomputable def next (s : ShownTime) : ShownTime :=
  if ∃ y, s.time + 1 = c.spring y then ⟨s.time + 1 + c.shift, false⟩
  else if ∃ y, s.time + 1 = c.fall y then
    if s.again then ⟨s.time + 1, false⟩ else ⟨s.time + 1 - c.shift, true⟩
  else ⟨s.time + 1, s.again⟩

/-- So many ticks. -/
noncomputable def run (s : ShownTime) (n : Nat) : ShownTime := c.next^[n] s

theorem run_zero (s : ShownTime) : c.run s 0 = s := rfl

theorem run_succ (s : ShownTime) (n : Nat) : c.run s (n + 1) = c.next (c.run s n) :=
  Function.iterate_succ_apply' _ _ _

/-- The tick after which the clock was put forward for a year. -/
def Forward (y : Nat) (s : ShownTime) : Prop := s.time + 1 = c.spring y

/-- The tick after which it was put back. -/
def Back (y : Nat) (s : ShownTime) : Prop := s.time + 1 = c.fall y ∧ s.again = false

/-! ## The order of the changes -/

theorem fall_lt_spring {y y' : Nat} (h : y < y') : c.fall y + 2 * c.shift < c.spring y' := by
  induction y', h using Nat.le_induction with
  | base => exact c.springAfter y
  | succ k hk ih =>
    have := c.fallAfter k
    have := c.springAfter k
    omega

theorem spring_lt_fall {y y' : Nat} (h : y ≤ y') : c.spring y + 2 * c.shift < c.fall y' := by
  rcases Nat.eq_or_lt_of_le h with rfl | hlt
  · exact c.fallAfter y
  · have := c.fallAfter y
    have := c.fallAfter y'
    have := c.fall_lt_spring hlt
    omega

theorem spring_lt_spring {y y' : Nat} (h : y < y') : c.spring y + 2 * c.shift < c.spring y' := by
  have := c.spring_lt_fall (le_refl y)
  have := c.fall_lt_spring h
  omega

theorem fall_lt_fall {y y' : Nat} (h : y < y') : c.fall y + 2 * c.shift < c.fall y' := by
  have := c.fall_lt_spring h
  have := c.spring_lt_fall (le_refl y')
  omega

theorem fall_eq {y y' : Nat} (h : c.fall y ≤ c.fall y' + 2 * c.shift)
    (h' : c.fall y' ≤ c.fall y + 2 * c.shift) : y = y' := by
  rcases Nat.lt_trichotomy y y' with hlt | heq | hlt
  · have := c.fall_lt_fall hlt
    omega
  · exact heq
  · have := c.fall_lt_fall hlt
    omega

theorem spring_apart (y y' : Nat) :
    c.spring y + 2 * c.shift < c.fall y' ∨ c.fall y' + 2 * c.shift < c.spring y := by
  rcases Nat.lt_or_ge y' y with hlt | hle
  · exact .inr (c.fall_lt_spring hlt)
  · exact .inl (c.spring_lt_fall hle)

/-! ## One tick -/

variable {c} {s : ShownTime}

theorem next_cases (s : ShownTime) :
    (∃ y, s.time + 1 = c.spring y ∧ c.next s = ⟨s.time + 1 + c.shift, false⟩) ∨
      (∃ y, s.time + 1 = c.fall y ∧ s.again = true ∧ c.next s = ⟨s.time + 1, false⟩) ∨
      (∃ y, s.time + 1 = c.fall y ∧ s.again = false ∧
        c.next s = ⟨s.time + 1 - c.shift, true⟩) ∨
      ((∀ y, s.time + 1 ≠ c.spring y) ∧ (∀ y, s.time + 1 ≠ c.fall y) ∧
        c.next s = ⟨s.time + 1, s.again⟩) := by
  unfold next
  by_cases hspring : ∃ y, s.time + 1 = c.spring y
  · obtain ⟨y, hy⟩ := hspring
    exact .inl ⟨y, hy, if_pos ⟨y, hy⟩⟩
  · rw [if_neg hspring]
    by_cases hfall : ∃ y, s.time + 1 = c.fall y
    · obtain ⟨y, hy⟩ := hfall
      rw [if_pos ⟨y, hy⟩]
      cases hagain : s.again with
      | true => exact .inr (.inl ⟨y, hy, rfl, if_pos rfl⟩)
      | false => exact .inr (.inr (.inl ⟨y, hy, rfl, if_neg (by decide)⟩))
    · rw [if_neg hfall]
      exact .inr (.inr (.inr ⟨fun y hy => hspring ⟨y, hy⟩, fun y hy => hfall ⟨y, hy⟩, rfl⟩))

/-- A clock in a run from a time: time goes by, and what is shown again was shown just before. -/
structure Since (c : Changes) (start : Nat) (s : ShownTime) : Prop where
  later : s.again = false → start ≤ s.time
  repeated : s.again = true → ∃ y, start < c.fall y ∧ s.time < c.fall y ∧ c.fall y ≤ s.time + c.shift

variable {start : Nat}

theorem Since.not_forward (h : Since c start s) {y : Nat} (hy : s.time + 1 = c.spring y) :
    s.again = false := by
  cases hagain : s.again with
  | false => rfl
  | true =>
    obtain ⟨y', -, hlt, hle⟩ := h.repeated hagain
    have := c.positive
    have := c.spring_apart y y'
    omega

theorem Since.next (h : Since c start s) : Since c start (c.next s) := by
  have hpos := c.positive
  obtain ⟨y, hy, hnext⟩ | ⟨y, hy, hagain, hnext⟩ | ⟨y, hy, hagain, hnext⟩ | ⟨-, hfall, hnext⟩ :=
    c.next_cases s
  · rw [hnext]
    refine ⟨fun _ => ?_, nofun⟩
    have := h.later (h.not_forward hy)
    show start ≤ s.time + 1 + c.shift
    omega
  · rw [hnext]
    refine ⟨fun _ => ?_, nofun⟩
    obtain ⟨y', hstart, hlt, hle⟩ := h.repeated hagain
    obtain rfl : y = y' := c.fall_eq (by omega) (by omega)
    show start ≤ s.time + 1
    omega
  · rw [hnext]
    refine ⟨nofun, fun _ => ⟨y, ?_, ?_, ?_⟩⟩
    · have := h.later hagain
      omega
    · show s.time + 1 - c.shift < c.fall y
      omega
    · show c.fall y ≤ s.time + 1 - c.shift + c.shift
      omega
  · rw [hnext]
    refine ⟨fun hagain => ?_, fun hagain => ?_⟩
    · have := h.later hagain
      show start ≤ s.time + 1
      omega
    · obtain ⟨y, hstart, hlt, hle⟩ := h.repeated hagain
      have hne := hfall y
      refine ⟨y, hstart, ?_, ?_⟩
      · show s.time + 1 < c.fall y
        omega
      · show c.fall y ≤ s.time + 1 + c.shift
        omega

/-- A clock has come past the change back of a year, or is on its way to it again. -/
def PastFall (c : Changes) (y : Nat) (s : ShownTime) : Prop :=
  c.fall y ≤ s.time ∨ (s.again = true ∧ c.fall y ≤ s.time + c.shift)

theorem spring_le_next (s : ShownTime) (y : Nat) :
    c.spring y ≤ (c.next s).time ↔ c.spring y ≤ s.time ∨ c.Forward y s := by
  have hpos := c.positive
  unfold Forward
  obtain ⟨y', hy, hnext⟩ | ⟨y', hy, hagain, hnext⟩ | ⟨y', hy, hagain, hnext⟩ | ⟨hspring, -, hnext⟩ :=
    c.next_cases s
  · rw [hnext]
    show c.spring y ≤ s.time + 1 + c.shift ↔ _
    rcases Nat.lt_trichotomy y y' with hlt | rfl | hlt
    · have := c.spring_lt_spring hlt
      omega
    · omega
    · have := c.spring_lt_spring hlt
      omega
  · rw [hnext]
    show c.spring y ≤ s.time + 1 ↔ _
    omega
  · rw [hnext]
    show c.spring y ≤ s.time + 1 - c.shift ↔ _
    have := c.spring_apart y y'
    omega
  · rw [hnext]
    show c.spring y ≤ s.time + 1 ↔ _
    omega

theorem pastFall_next (h : Since c start s) (y : Nat) :
    PastFall c y (c.next s) ↔ PastFall c y s ∨ c.Back y s := by
  have hpos := c.positive
  unfold PastFall Back
  obtain ⟨y', hy, hnext⟩ | ⟨y', hy, hagain, hnext⟩ | ⟨y', hy, hagain, hnext⟩ | ⟨-, hfall, hnext⟩ :=
    c.next_cases s
  · have hagain := h.not_forward hy
    have := c.spring_apart y' y
    rw [hnext, hagain]
    simp only [Bool.false_eq_true, false_and, or_false]
    omega
  · rw [hnext, hagain]
    have hyears : y ≤ y' ∨ c.fall y' + 2 * c.shift < c.fall y := by
      rcases Nat.lt_or_ge y' y with hlt | hle
      · exact .inr (c.fall_lt_fall hlt)
      · exact .inl hle
    have hle : y ≤ y' → c.fall y ≤ c.fall y' := by
      intro hle
      rcases Nat.eq_or_lt_of_le hle with rfl | hlt
      · exact le_refl _
      · have := c.fall_lt_fall hlt
        omega
    simp only [Bool.false_eq_true, false_and, or_false, true_and, reduceCtorEq, and_false]
    omega
  · rw [hnext, hagain]
    have hyears : y ≤ y' ∨ c.fall y' + 2 * c.shift < c.fall y := by
      rcases Nat.lt_or_ge y' y with hlt | hle
      · exact .inr (c.fall_lt_fall hlt)
      · exact .inl hle
    have hle : y ≤ y' → c.fall y ≤ c.fall y' := by
      intro hle
      rcases Nat.eq_or_lt_of_le hle with rfl | hlt
      · exact le_refl _
      · have := c.fall_lt_fall hlt
        omega
    simp only [Bool.false_eq_true, false_and, or_false, true_and, and_true]
    omega
  · rw [hnext]
    have hne := hfall y
    cases hagain : s.again with
    | false =>
      simp only [Bool.false_eq_true, false_and, or_false, and_true]
      omega
    | true =>
      obtain ⟨y'', -, hlt, hle⟩ := h.repeated hagain
      have hne' : c.fall y ≠ s.time + 1 + c.shift := by
        intro heq
        obtain rfl : y = y'' := c.fall_eq (by omega) (by omega)
        omega
      simp only [true_and, reduceCtorEq, and_false, or_false]
      omega

/-! ## A run -/

variable (c)

open Classical in
/-- How often something was so in a run. -/
noncomputable def times (p : ShownTime → Prop) (s : ShownTime) (n : Nat) : Nat :=
  Nat.count (fun k => p (c.run s k)) n

open Classical in
theorem times_zero (p : ShownTime → Prop) (s : ShownTime) : c.times p s 0 = 0 := by
  unfold times
  exact Nat.count_zero _

open Classical in
theorem times_succ (p : ShownTime → Prop) (s : ShownTime) (n : Nat) :
    c.times p s (n + 1) = c.times p s n + if p (c.run s n) then 1 else 0 :=
  Nat.count_succ _ _

variable {c}

theorem since_run (hagain : s.again = false) (n : Nat) : Since c s.time (c.run s n) := by
  induction n with
  | zero =>
    refine ⟨fun _ => le_refl _, fun h => ?_⟩
    rw [run_zero, hagain] at h
    cases h
  | succ n ih =>
    rw [run_succ]
    exact ih.next

/-- WHAT THE CLOCK SHOWS: the time that has gone by, and the changes. -/
theorem total (s : ShownTime) (n : Nat) :
    (c.run s n).time + c.shift * c.times (fun s => ∃ y, c.Back y s) s n =
      s.time + n + c.shift * c.times (fun s => ∃ y, c.Forward y s) s n := by
  induction n with
  | zero => rw [run_zero, times_zero, times_zero, Nat.add_zero]
  | succ n ih =>
    rw [run_succ, times_succ, times_succ]
    have hpos := c.positive
    generalize c.run s n = s' at *
    obtain ⟨y, hy, hnext⟩ | ⟨y, hy, hagain, hnext⟩ | ⟨y, hy, hagain, hnext⟩ | ⟨hspring, hfall, hnext⟩ :=
      c.next_cases s'
    · have hback : ¬ ∃ y, c.Back y s' := fun ⟨y', hy', _⟩ => by
        have := c.spring_apart y y'
        omega
      rw [hnext, if_neg hback, if_pos ⟨y, hy⟩, Nat.mul_add_one, Nat.mul_add, Nat.mul_zero]
      show s'.time + 1 + c.shift + _ = _
      omega
    · have hback : ¬ ∃ y, c.Back y s' := fun ⟨_, _, hfresh⟩ => by
        rw [hagain] at hfresh
        cases hfresh
      have hforward : ¬ ∃ y, c.Forward y s' := fun ⟨y', hy'⟩ => by
        have := c.spring_apart y' y
        unfold Forward at hy'
        omega
      rw [hnext, if_neg hback, if_neg hforward, Nat.mul_add, Nat.mul_add, Nat.mul_zero]
      show s'.time + 1 + _ = _
      omega
    · have hforward : ¬ ∃ y, c.Forward y s' := fun ⟨y', hy'⟩ => by
        have := c.spring_apart y' y
        unfold Forward at hy'
        omega
      have hlate : c.shift < c.fall y := by
        have := c.fallAfter y
        omega
      rw [hnext, if_neg hforward, if_pos ⟨y, hy, hagain⟩, Nat.mul_add_one, Nat.mul_add, Nat.mul_zero]
      show s'.time + 1 - c.shift + _ = _
      omega
    · have hback : ¬ ∃ y, c.Back y s' := fun ⟨y', hy', _⟩ => hfall y' hy'
      have hforward : ¬ ∃ y, c.Forward y s' := fun ⟨y', hy'⟩ => hspring y' hy'
      rw [hnext, if_neg hback, if_neg hforward, Nat.mul_add, Nat.mul_add, Nat.mul_zero]
      show s'.time + 1 + _ = _
      omega

open Classical in
/-- EVERY CHANGE FORWARD that the clock has come past was made once. -/
theorem forward_once (hagain : s.again = false) (y n : Nat) :
    c.times (c.Forward y) s n =
      if s.time < c.spring y ∧ c.spring y ≤ (c.run s n).time then 1 else 0 := by
  induction n with
  | zero =>
    rw [times_zero, run_zero, if_neg]
    omega
  | succ n ih =>
    have hsince := since_run (c := c) hagain n
    rw [times_succ, run_succ, ih]
    have hstep := spring_le_next (c := c) (c.run s n) y
    by_cases hforward : c.Forward y (c.run s n)
    · have hlater := hsince.later (hsince.not_forward hforward)
      have hpast := hstep.2 (.inr hforward)
      have hbefore : ¬ c.spring y ≤ (c.run s n).time := by
        unfold Forward at hforward
        omega
      rw [if_pos hforward, if_neg fun h => hbefore h.2, if_pos]
      unfold Forward at hforward
      exact ⟨by omega, hpast⟩
    · rw [if_neg hforward, Nat.add_zero]
      simp only [hstep, hforward, or_false]

open Classical in
/-- AND EVERY CHANGE BACK. -/
theorem back_once (hagain : s.again = false) (y n : Nat) :
    c.times (c.Back y) s n =
      if s.time < c.fall y ∧ PastFall c y (c.run s n) then 1 else 0 := by
  induction n with
  | zero =>
    rw [times_zero, run_zero, if_neg]
    rintro ⟨hlt, hle | ⟨hshown, -⟩⟩
    · omega
    · rw [hagain] at hshown
      cases hshown
  | succ n ih =>
    have hsince := since_run (c := c) hagain n
    rw [times_succ, run_succ, ih]
    have hstep := pastFall_next hsince y
    by_cases hback : c.Back y (c.run s n)
    · have hy := hback.1
      have hlater := hsince.later hback.2
      have hbefore : ¬ PastFall c y (c.run s n) := by
        rintro (hle | ⟨hshown, -⟩)
        · omega
        · rw [hback.2] at hshown
          cases hshown
      rw [if_pos hback, if_neg fun h => hbefore h.2, if_pos]
      exact ⟨by omega, hstep.2 (.inr hback)⟩
    · rw [if_neg hback, Nat.add_zero]
      simp only [hstep, hback, or_false]

end Changes

end Apollo.Lib
