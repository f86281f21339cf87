import Mathlib

/-!
# Steps in any order

A relation whose two different steps from one state can always be closed by one more
step each has the diamond property. Then the order of steps does not matter in the
strongest sense: when one run from a state is stuck after `n` steps, every run from
that state can be continued to the same stuck state and takes `n` steps in all.

`Independent` is where the property comes from in practice: a family of guarded
actions in which no action disables another and any two commute.
-/

namespace Apollo.Lib

variable {α ι : Type*} {step : α → α → Prop}

/-- Exactly `n` steps from one state to another. -/
inductive Steps (step : α → α → Prop) : Nat → α → α → Prop
  | refl (a : α) : Steps step 0 a a
  | head {n : Nat} {a b c : α} : step a b → Steps step n b c → Steps step (n + 1) a c

/-- No step leaves the state. -/
def Stuck (step : α → α → Prop) (a : α) : Prop := ∀ b, ¬ step a b

/-- Two steps from one state are the same, or one more step each joins them. -/
def Diamond (step : α → α → Prop) : Prop :=
  ∀ ⦃a b c : α⦄, step a b → step a c → b = c ∨ ∃ d, step b d ∧ step c d

theorem Diamond.descend (hdiamond : Diamond step) {n : Nat} {a b z : α}
    (hrun : Steps step n a z) (hz : Stuck step z) (hstep : step a b) :
    ∃ m, n = m + 1 ∧ Steps step m b z := by
  induction hrun generalizing b with
  | refl a => exact absurd hstep (hz b)
  | @head m a c z hfirst hrest ih =>
    rcases hdiamond hfirst hstep with rfl | ⟨d, hcd, hbd⟩
    · exact ⟨m, rfl, hrest⟩
    · obtain ⟨k, rfl, hdz⟩ := ih hz hcd
      exact ⟨k + 1, rfl, .head hbd hdz⟩

theorem Diamond.complete (hdiamond : Diamond step) {n k : Nat} {a b z : α}
    (hrun : Steps step n a z) (hz : Stuck step z) (hother : Steps step k a b) :
    ∃ m, n = k + m ∧ Steps step m b z := by
  induction hother generalizing n with
  | refl a => exact ⟨n, (Nat.zero_add n).symm, hrun⟩
  | head hfirst _ ih =>
    obtain ⟨m, rfl, hrest⟩ := hdiamond.descend hrun hz hfirst
    obtain ⟨l, rfl, hdone⟩ := ih hrest
    exact ⟨l, by omega, hdone⟩

/-- Guarded actions none of which disables another, and any two of which commute. -/
structure Independent (enabled : ι → α → Prop) (act : ι → α → α) : Prop where
  stays : ∀ {i j a}, i ≠ j → enabled i a → enabled j a → enabled j (act i a)
  comm : ∀ {i j a}, i ≠ j → enabled i a → enabled j a → act j (act i a) = act i (act j a)

theorem Independent.diamond {enabled : ι → α → Prop} {act : ι → α → α}
    (h : Independent enabled act) : Diamond fun a b => ∃ i, enabled i a ∧ b = act i a := by
  rintro a b c ⟨i, hi, rfl⟩ ⟨j, hj, rfl⟩
  by_cases hij : i = j
  · subst hij
    exact .inl rfl
  · exact .inr ⟨act j (act i a), ⟨j, h.stays hij hi hj, rfl⟩,
      ⟨i, h.stays (Ne.symm hij) hj hi, h.comm hij hi hj⟩⟩

end Apollo.Lib
