import Mathlib

/-!
# Computations that may give up

A computation over a state `S` that returns a value or gives up, and keeps what it has done to
the state either way: `EStateM Unit S`, whose failures undo nothing. `Attempt.fail` gives up,
`Attempt.caught` turns giving up into a value, and the rules below say what a sequence of two
computations does from what each does.
-/

namespace Apollo.Lib

/-- A computation over a state that may give up. -/
abbrev Attempt (S α : Type) : Type := EStateM Unit S α

namespace Attempt

variable {S α β : Type}

/-- Gives up. -/
def fail : Attempt S α := throw ()

/-- Gives up unless a condition holds. -/
def require (c : Prop) [Decidable c] : Attempt S Unit := if c then pure () else fail

/-- Does something only if a condition holds. -/
def onlyIf (c : Prop) [Decidable c] (x : Attempt S Unit) : Attempt S Unit :=
  if c then x else pure ()

/-- The outcome of a computation, as a value; what it did to the state stays. -/
def caught (x : Attempt S α) : Attempt S (Option α) := fun s =>
  match x s with
  | .ok a s' => .ok (some a) s'
  | .error _ s' => .ok none s'

/-- Part of the state. -/
def read (f : S → α) : Attempt S α := fun s => .ok (f s) s

/-- The state after a computation, whether or not it gave up. -/
def after (x : Attempt S α) (s : S) : S :=
  match x s with
  | .ok _ s' => s'
  | .error _ s' => s'

/-- Whether a computation returns a value, in a state with a property. -/
def runsTo (x : Attempt S α) (s : S) (p : S → Prop) [DecidablePred p] : Bool :=
  match x s with
  | .ok _ s' => p s'
  | .error _ _ => false

/-! ## What a sequence does -/

variable {x : Attempt S α} {f : α → Attempt S β} {s s' s'' : S} {a : α} {b : β}

theorem bind_of_ok (h : x s = .ok a s') : (x >>= f) s = f a s' := by
  change EStateM.bind x f s = _
  rw [EStateM.bind, h]

theorem bind_of_error (h : x s = .error () s') : (x >>= f) s = .error () s' := by
  change EStateM.bind x f s = _
  rw [EStateM.bind, h]

theorem bind_eq_ok :
    (x >>= f) s = .ok b s'' ↔ ∃ a s', x s = .ok a s' ∧ f a s' = .ok b s'' := by
  constructor
  · intro h
    cases hx : x s with
    | ok a s' => exact ⟨a, s', rfl, by rwa [bind_of_ok hx] at h⟩
    | error e s' =>
      rw [bind_of_error hx] at h
      exact nomatch h
  · rintro ⟨a, s', hx, hf⟩
    rwa [bind_of_ok hx]

theorem bind_eq_error :
    (x >>= f) s = .error () s'' ↔
      x s = .error () s'' ∨ ∃ a s', x s = .ok a s' ∧ f a s' = .error () s'' := by
  constructor
  · intro h
    cases hx : x s with
    | ok a s' => exact .inr ⟨a, s', rfl, by rwa [bind_of_ok hx] at h⟩
    | error e s' =>
      rw [bind_of_error hx] at h
      cases h
      exact .inl rfl
  · rintro (hx | ⟨a, s', hx, hf⟩)
    · exact bind_of_error hx
    · rwa [bind_of_ok hx]

@[simp] theorem pure_apply : (pure a : Attempt S α) s = .ok a s := rfl

@[simp] theorem fail_apply : (fail : Attempt S α) s = .error () s := rfl

@[simp] theorem read_apply (f : S → α) : read f s = .ok (f s) s := rfl

@[simp] theorem modify_apply (f : S → S) : (modify f : Attempt S Unit) s = .ok () (f s) := rfl

theorem modify_bind (f : S → S) (g : Unit → Attempt S β) :
    ((modify f : Attempt S Unit) >>= g) s = g () (f s) := rfl

theorem read_bind (f : S → α) (g : α → Attempt S β) : (read f >>= g) s = g (f s) s := rfl

theorem require_eq_ok {c : Prop} [Decidable c] {u : Unit} :
    (require c : Attempt S Unit) s = .ok u s' ↔ c ∧ s' = s := by
  unfold require
  split <;> simp [*, eq_comm]

theorem require_of {c : Prop} [Decidable c] (h : c) :
    (require c : Attempt S Unit) s = .ok () s := by
  rw [require, if_pos h]
  rfl

theorem require_of_not {c : Prop} [Decidable c] (h : ¬ c) :
    (require c : Attempt S Unit) s = .error () s := by
  rw [require, if_neg h]
  rfl

theorem caught_eq_ok {r : Option α} :
    caught x s = .ok r s' ↔
      (∃ a, r = some a ∧ x s = .ok a s') ∨ (r = none ∧ x s = .error () s') := by
  unfold caught
  cases x s <;> simp [eq_comm]

theorem caught_of_ok (h : x s = .ok a s') : caught x s = .ok (some a) s' := by
  simp only [caught, h]

theorem caught_of_error (h : x s = .error () s') : caught x s = .ok none s' := by
  simp only [caught, h]

theorem exists_ok_of_runsTo {p : S → Prop}
    [DecidablePred p] (h : runsTo x s p = true) : ∃ a s', x s = .ok a s' ∧ p s' := by
  unfold runsTo at h
  cases hx : x s with
  | ok a s' =>
    rw [hx] at h
    exact ⟨a, s', rfl, of_decide_eq_true h⟩
  | error e s' =>
    rw [hx] at h
    exact nomatch h

/-! ## What a computation does to the state, whether or not it gives up -/

theorem after_bind :
    (x >>= f).after s = match x s with
      | .ok a s' => (f a).after s'
      | .error _ s' => s' := by
  unfold after
  cases hx : x s with
  | ok a s' => rw [bind_of_ok hx]
  | error e s' => rw [bind_of_error hx]

theorem after_of_ok (h : x s = .ok a s') : x.after s = s' := by
  unfold after
  rw [h]

theorem after_of_error (h : x s = .error () s') : x.after s = s' := by
  unfold after
  rw [h]

/-- How a computation ends: where it returns a value the state is related to the one before by
`R`, and where it gives up by `E`. -/
structure Ends (R E : S → S → Prop) (x : Attempt S α) : Prop where
  run : ∀ s, match x s with
    | .ok _ s' => R s s'
    | .error _ s' => E s s'

section Ends

variable {R R' E : S → S → Prop}

theorem ends_pure (hrefl : ∀ s, R s s) (a : α) : Ends R E (pure a : Attempt S α) :=
  ⟨hrefl⟩

theorem ends_fail (hrefl : ∀ s, E s s) : Ends R E (fail : Attempt S α) :=
  ⟨hrefl⟩

theorem ends_read (hrefl : ∀ s, R s s) (g : S → α) : Ends R E (read g) := ⟨hrefl⟩

theorem ends_modify {g : S → S} (hg : ∀ s, R s (g s)) : Ends R E (modify g : Attempt S Unit) :=
  ⟨hg⟩

theorem ends_require (hrefl : ∀ s, R s s) (hfail : ∀ s, E s s) (c : Prop) [Decidable c] :
    Ends R E (require c : Attempt S Unit) := by
  refine ⟨fun s => ?_⟩
  by_cases hc : c
  · rw [require, if_pos hc]
    exact hrefl s
  · rw [require, if_neg hc]
    exact hfail s

theorem ends_onlyIf (hrefl : ∀ s, R s s) {c : Prop} [Decidable c] {y : Attempt S Unit}
    (hy : Ends R E y) : Ends R E (onlyIf c y) := by
  by_cases hc : c
  · rw [onlyIf, if_pos hc]
    exact hy
  · rw [onlyIf, if_neg hc]
    exact ends_pure hrefl ()

theorem ends_caught {F : S → S → Prop} (hx : Ends R R x) : Ends R F (caught x) := by
  refine ⟨fun s => ?_⟩
  have hend := hx.run s
  unfold caught
  cases hrun : x s with
  | ok a s' =>
    rw [hrun] at hend
    exact hend
  | error e s' =>
    rw [hrun] at hend
    exact hend

/-- THE RULE OF SEQUENCES: the first computation ends in `R` or gives up in `E`, the second ends
in `R'` or gives up in `E`, and what follows the first composes. -/
theorem ends_bind (htrans : ∀ s s' s'', R s s' → R' s' s'' → R' s s'')
    (herror : ∀ s s' s'', R s s' → E s' s'' → E s s'') (hx : Ends R E x)
    (hf : ∀ a, Ends R' E (f a)) : Ends R' E (x >>= f) := by
  refine ⟨fun s => ?_⟩
  have hfirst := hx.run s
  cases hrun : x s with
  | ok a s' =>
    rw [hrun] at hfirst
    have hsecond := (hf a).run s'
    rw [bind_of_ok hrun]
    cases hrest : f a s' with
    | ok b s'' =>
      rw [hrest] at hsecond
      exact htrans s s' s'' hfirst hsecond
    | error e s'' =>
      rw [hrest] at hsecond
      exact herror s s' s'' hfirst hsecond
  | error e s' =>
    rw [hrun] at hfirst
    rw [bind_of_error hrun]
    exact hfirst

theorem Ends.after (h : Ends R R x) (s : S) : R s (x.after s) := by
  have hend := h.run s
  unfold Attempt.after
  cases hrun : x s with
  | ok a s' =>
    rw [hrun] at hend
    exact hend
  | error e s' =>
    rw [hrun] at hend
    exact hend

end Ends

end Attempt

end Apollo.Lib
