import Apollo.Lib.BitStuffing

/-!
# Transducers

A machine that takes one symbol and answers one symbol each time: `transduce f s` is
its run over a list, with the state it ends in and what it answered. Serial receivers
are such machines, since what they forward leaves at the rate at which the line
arrives.

The second half puts a machine over data bits behind a LAZY destuffer, one that drops
a zero on a run of `k` ones when that zero arrives: `transduce_stuff` says that over a
stuffed line such a machine is the machine over the data, and that the stuffed zeros
go through as they are.
-/

namespace Apollo.Lib

variable {σ τ α β : Type}

/-- A machine's run: the state behind it, and one answer for each symbol. -/
def transduce (f : σ → α → σ × β) : σ → List α → σ × List β
  | s, [] => (s, [])
  | s, a :: as => ((transduce f (f s a).1 as).1, (f s a).2 :: (transduce f (f s a).1 as).2)

@[simp] theorem transduce_nil (f : σ → α → σ × β) (s : σ) : transduce f s [] = (s, []) := rfl

@[simp] theorem transduce_cons (f : σ → α → σ × β) (s : σ) (a : α) (as : List α) :
    transduce f s (a :: as) =
      ((transduce f (f s a).1 as).1, (f s a).2 :: (transduce f (f s a).1 as).2) := rfl

theorem transduce_append (f : σ → α → σ × β) (s : σ) (as bs : List α) :
    transduce f s (as ++ bs) =
      ((transduce f (transduce f s as).1 bs).1,
        (transduce f s as).2 ++ (transduce f (transduce f s as).1 bs).2) := by
  induction as generalizing s with
  | nil => rfl
  | cons a as ih => rw [List.cons_append, transduce_cons, ih, transduce_cons, List.cons_append]

theorem transduce_append_eq {f : σ → α → σ × β} {s s₁ s₂ : σ} {as bs : List α} {xs ys : List β}
    (has : transduce f s as = (s₁, xs)) (hbs : transduce f s₁ bs = (s₂, ys)) :
    transduce f s (as ++ bs) = (s₂, xs ++ ys) := by
  rw [transduce_append, has, hbs]

@[simp] theorem length_transduce (f : σ → α → σ × β) (s : σ) (as : List α) :
    (transduce f s as).2.length = as.length := by
  induction as generalizing s with
  | nil => rfl
  | cons a as ih => rw [transduce_cons, List.length_cons, List.length_cons, ih]

theorem transduce_invariant {f : σ → α → σ × β} {P : σ → Prop} (hstep : ∀ s a, P s → P (f s a).1)
    {s : σ} (hs : P s) (as : List α) : P (transduce f s as).1 := by
  induction as generalizing s with
  | nil => exact hs
  | cons a as ih => exact ih (hstep s a hs)

theorem transduce_congr {f g : σ → α → σ × β} {P : σ → Prop} (heq : ∀ s a, P s → f s a = g s a)
    (hstep : ∀ s a, P s → P (g s a).1) {s : σ} (hs : P s) (as : List α) :
    transduce f s as = transduce g s as := by
  induction as generalizing s with
  | nil => rfl
  | cons a as ih => rw [transduce_cons, transduce_cons, heq s a hs, ih (hstep s a hs)]

theorem transduce_still {f : σ → α → σ × α} {s : σ} {as : List α}
    (h : ∀ a ∈ as, f s a = (s, a)) : transduce f s as = (s, as) := by
  induction as with
  | nil => rfl
  | cons a as ih =>
    rw [transduce_cons, h a List.mem_cons_self, ih fun b hb => h b (List.mem_cons_of_mem a hb)]

/-! ## Behind a lazy destuffer -/

/-- Answers `os` to the data bits `bs`, in the places where the stuffed line carries
the data, with the stuffed zeros between them. -/
def carry (k : Nat) : Nat → List Bool → List Bool → List Bool
  | r, true :: bs, o :: os =>
    if k ≤ r + 1 then o :: false :: carry k 0 bs os else o :: carry k (r + 1) bs os
  | _, false :: bs, o :: os => o :: carry k 0 bs os
  | _, _, _ => []

@[simp] theorem carry_self (k r : Nat) (bs : List Bool) : carry k r bs bs = stuff k r bs := by
  fun_induction stuff k r bs with
  | case1 r => rfl
  | case2 r bs ih => simp only [carry, ih]
  | case3 r bs h ih => simp only [carry, if_pos h, ih]
  | case4 r bs h ih => simp only [carry, if_neg h, ih]

theorem carry_append (k r : Nat) {as os : List Bool} (hlen : as.length = os.length)
    (bs qs : List Bool) :
    carry k r (as ++ bs) (os ++ qs) = carry k r as os ++ carry k (runAfter k r as) bs qs := by
  induction as generalizing r os with
  | nil =>
    rw [List.length_eq_zero_iff.mp hlen.symm]
    rfl
  | cons a as ih =>
    rcases os with _ | ⟨o, os⟩
    · cases hlen
    · have hrest := fun r => ih r (Nat.succ.inj hlen)
      cases a with
      | false => simp only [List.cons_append, carry, runAfter, hrest]
      | true =>
        by_cases h : k ≤ r + 1
        · simp only [List.cons_append, carry, runAfter, if_pos h, hrest]
        · simp only [List.cons_append, carry, runAfter, if_neg h, hrest]

theorem carry_of_stuff_eq {k r : Nat} {bs os : List Bool} (hlen : bs.length = os.length)
    (h : stuff k r bs = bs) : carry k r bs os = os := by
  induction bs generalizing r os with
  | nil =>
    rw [List.length_eq_zero_iff.mp hlen.symm]
    rfl
  | cons b bs ih =>
    rcases os with _ | ⟨o, os⟩
    · cases hlen
    · cases b with
      | false =>
        simp only [stuff, List.cons.injEq, true_and] at h
        rw [carry, ih (Nat.succ.inj hlen) h]
      | true =>
        by_cases hk : k ≤ r + 1
        · -- one more bit on the line than in the data
          rw [stuff, if_pos hk] at h
          have hlong := congrArg List.length h
          have hle := length_le_length_stuff k 0 bs
          simp only [List.length_cons] at hlong
          omega
        · rw [stuff, if_neg hk, List.cons.injEq] at h
          rw [carry, if_neg hk, ih (Nat.succ.inj hlen) h.2]

/-- A machine that takes the bits of a line, and is behind its destuffing a machine over
data bits: a zero on a run of `k` ones is no data. `withRun` is where it keeps the run,
and `Ready` are the states in which it takes data. -/
structure LazyDestuffer (k : Nat) (σ : Type) where
  step : σ → Bool → σ × Bool
  data : σ → Bool → σ × Bool
  withRun : σ → Nat → σ
  Ready : σ → Prop
  step_stuffed : ∀ s r, Ready s → k ≤ r → step (withRun s r) false = (withRun s 0, false)
  step_zero : ∀ s r, Ready s → r < k →
    step (withRun s r) false = (withRun (data s false).1 0, (data s false).2)
  step_one : ∀ s r, Ready s → r ≤ k →
    step (withRun s r) true = (withRun (data s true).1 (r + 1), (data s true).2)

theorem LazyDestuffer.transduce_stuff {k r : Nat} (m : LazyDestuffer k σ) (hk : 0 < k) (hr : r < k)
    {s : σ} {bs : List Bool} (hready : ∀ p, p <+: bs → m.Ready (transduce m.data s p).1) :
    transduce m.step (m.withRun s r) (stuff k r bs) =
      (m.withRun (transduce m.data s bs).1 (runAfter k r bs),
        carry k r bs (transduce m.data s bs).2) := by
  have hs := hready [] List.nil_prefix
  have hnext : ∀ b cs, bs = b :: cs → ∀ p, p <+: cs →
      m.Ready (transduce m.data (m.data s b).1 p).1 := by
    rintro b cs rfl p hp
    exact hready (b :: p) (List.cons_prefix_cons.mpr ⟨rfl, hp⟩)
  fun_induction stuff k r bs generalizing s with
  | case1 r => rfl
  | case2 r bs ih =>
    have hbs := hnext false bs rfl
    have hrest := ih hk hbs (hbs [] List.nil_prefix) fun b cs hcs p hp => by
      subst hcs
      exact hbs (b :: p) (List.cons_prefix_cons.mpr ⟨rfl, hp⟩)
    simp only [transduce_cons, m.step_zero s r hs hr, hrest, runAfter, carry]
  | case3 r bs h ih =>
    have hbs := hnext true bs rfl
    have hrest := ih hk hbs (hbs [] List.nil_prefix) fun b cs hcs p hp => by
      subst hcs
      exact hbs (b :: p) (List.cons_prefix_cons.mpr ⟨rfl, hp⟩)
    have hzero := m.step_stuffed (m.data s true).1 (r + 1) (hbs [] List.nil_prefix) h
    simp only [transduce_cons, m.step_one s r hs hr.le, hzero, hrest, runAfter, if_pos h, carry]
  | case4 r bs h ih =>
    have hbs := hnext true bs rfl
    have hrest := ih (Nat.lt_of_not_le h) hbs (hbs [] List.nil_prefix) fun b cs hcs p hp => by
      subst hcs
      exact hbs (b :: p) (List.cons_prefix_cons.mpr ⟨rfl, hp⟩)
    simp only [transduce_cons, m.step_one s r hs hr.le, hrest, runAfter, if_neg h, carry]

theorem LazyDestuffer.transduce_ones {k r n : Nat} (m : LazyDestuffer k σ) (hn : r + n ≤ k + 1)
    {s : σ} (hready : ∀ i ≤ n, m.Ready (transduce m.data s (List.replicate i true)).1) :
    transduce m.step (m.withRun s r) (List.replicate n true) =
      (m.withRun (transduce m.data s (List.replicate n true)).1 (r + n),
        (transduce m.data s (List.replicate n true)).2) := by
  induction n generalizing s r with
  | zero => rfl
  | succ n ih =>
    have hs := hready 0 (Nat.zero_le _)
    have hrest := ih (r := r + 1) (s := (m.data s true).1) (by omega) fun i hi => by
      have := hready (i + 1) (Nat.succ_le_succ hi)
      rwa [List.replicate_succ, transduce_cons] at this
    rw [List.replicate_succ, transduce_cons, m.step_one s r hs (by omega), hrest, transduce_cons,
      Nat.add_right_comm]
    rfl

/-- The zero and the ones a mark opens with are data to such a machine, and a zero behind
them is dropped. -/
theorem LazyDestuffer.transduce_opening {k r : Nat} (m : LazyDestuffer k σ) (hr : r < k) {s : σ}
    (hready : ∀ p, p <+: false :: List.replicate (k + 1) true →
      m.Ready (transduce m.data s p).1) :
    transduce m.step (m.withRun s r) (false :: List.replicate (k + 1) true ++ [false]) =
      (m.withRun (transduce m.data s (false :: List.replicate (k + 1) true)).1 0,
        (transduce m.data s (false :: List.replicate (k + 1) true)).2 ++ [false]) := by
  have hs := hready [] List.nil_prefix
  have hones := m.transduce_ones (r := 0) (n := k + 1) (s := (m.data s false).1) (by omega)
    fun i hi => hready (false :: List.replicate i true) (List.cons_prefix_cons.mpr ⟨rfl,
      ⟨List.replicate (k + 1 - i) true, by
        rw [List.replicate_append_replicate, Nat.add_sub_cancel' hi]⟩⟩)
  have hlast := m.step_stuffed (transduce m.data s (false :: List.replicate (k + 1) true)).1
    (0 + (k + 1)) (hready _ List.prefix_rfl) (by omega)
  have hopen : transduce m.step (m.withRun s r) (false :: List.replicate (k + 1) true) =
      (m.withRun (transduce m.data s (false :: List.replicate (k + 1) true)).1 (0 + (k + 1)),
        (transduce m.data s (false :: List.replicate (k + 1) true)).2) := by
    rw [transduce_cons, m.step_zero s r hs hr, hones, transduce_cons]
  refine transduce_append_eq hopen ?_
  rw [transduce_cons, transduce_nil, hlast]

end Apollo.Lib
