import Mathlib

/-!
# Slots with keys

A small store: a fixed number of slots, each empty or holding something under a key.
`Distinct` says that no two slots hold the same key, which is what makes the order of a
search over the slots immaterial: `first_eq_some_iff` and `first_eq_none` say what a first-hit
search answers without mentioning the order.

The two changes such a store sees keep it: `Distinct.of_key` empties some of the slots or
touches what they hold but not their keys, and `Distinct.set` fills a slot with a key that
no other slot holds.
-/

namespace Apollo.Lib.Slots

variable {α κ : Type*} {n : Nat} {key : α → Option κ} {v : Vector α n}

/-- No two slots hold one key. -/
def Distinct (key : α → Option κ) (v : Vector α n) : Prop :=
  ∀ (i j : Fin n) (k : κ), key v[i] = some k → key v[j] = some k → i = j

/-- The first slot that satisfies a test. -/
def first (p : α → Bool) (v : Vector α n) : Option (Fin n) :=
  (List.finRange n).find? fun i => p v[i]

theorem first_eq_none {p : α → Bool} : first p v = none ↔ ∀ i : Fin n, p v[i] = false := by
  simp only [first, List.find?_eq_none, List.mem_finRange, true_imp_iff, Bool.not_eq_true]

theorem of_first_eq_some {p : α → Bool} {i : Fin n} (h : first p v = some i) : p v[i] = true := by
  unfold first at h
  exact List.find?_some (p := fun i : Fin n => p v[i]) h

theorem first_eq_some_iff {p : α → Bool} {i : Fin n} :
    first p v = some i ↔ p v[i] = true ∧ ∀ j < i, p v[j] = false := by
  unfold first
  rw [List.find?_eq_some_iff_getElem]
  constructor
  · rintro ⟨hp, k, hk, hki, hbefore⟩
    refine ⟨hp, fun j hj => ?_⟩
    have hjk : j.val < k := by
      rw [← hki, Fin.lt_def, List.getElem_finRange] at hj
      exact hj
    simpa using hbefore j.val hjk
  · rintro ⟨hp, hbefore⟩
    refine ⟨hp, i.val, by simp, by simp, fun j hj => ?_⟩
    simpa using hbefore ⟨j, by omega⟩ hj

theorem Distinct.first_eq_some (h : Distinct key v) {p : α → Bool} {k : κ}
    (hp : ∀ x, p x = true ↔ key x = some k) {i : Fin n} :
    first p v = some i ↔ key v[i] = some k := by
  refine ⟨fun hi => (hp _).mp (of_first_eq_some hi), fun hi => ?_⟩
  cases hfirst : first p v with
  | none =>
    rw [first_eq_none] at hfirst
    have := hfirst i
    rw [(hp _).mpr hi] at this
    cases this
  | some j => rw [h i j k hi ((hp _).mp (of_first_eq_some hfirst))]

theorem Distinct.of_key (h : Distinct key v) {w : Vector α n}
    (hkey : ∀ i : Fin n, key w[i] = none ∨ key w[i] = key v[i]) : Distinct key w := by
  have hold : ∀ (i : Fin n) (k : κ), key w[i] = some k → key v[i] = some k := by
    intro i k hk
    rcases hkey i with hnone | hsame
    · rw [hnone] at hk
      cases hk
    · rwa [← hsame]
  intro i j k hi hj
  exact h i j k (hold i k hi) (hold j k hj)

theorem Distinct.map (h : Distinct key v) {f : α → α}
    (hf : ∀ x, key (f x) = none ∨ key (f x) = key x) : Distinct key (v.map f) := by
  apply h.of_key
  intro i
  rw [Fin.getElem_fin, Vector.getElem_map]
  exact hf _

theorem getElem_set (i j : Fin n) (x : α) : (v.set i x)[j] = if i = j then x else v[j] := by
  rw [Fin.getElem_fin, Vector.getElem_set]
  simp only [Fin.ext_iff]
  rfl

theorem get_set (i j : Fin n) (x : α) : (v.set i x).get j = if i = j then x else v.get j :=
  getElem_set i j x

theorem get_map (f : α → α) (i : Fin n) : (v.map f).get i = f (v.get i) := by
  rw [Vector.get_eq_getElem, Vector.getElem_map]
  rfl

theorem Distinct.set (h : Distinct key v) {i : Fin n} {x : α}
    (hnew : ∀ j, j ≠ i → ∀ k, key x = some k → key v[j] ≠ some k) : Distinct key (v.set i x) := by
  intro a b k ha hb
  rw [getElem_set] at ha hb
  split at ha <;> split at hb
  · next h₁ h₂ => exact h₁.symm.trans h₂
  · next h₁ h₂ => exact absurd hb (hnew b (Ne.symm h₂) k ha)
  · next h₁ h₂ => exact absurd ha (hnew a (Ne.symm h₁) k hb)
  · exact h a b k ha hb

end Apollo.Lib.Slots

namespace Apollo.Lib

/-- What is at a place is replaced. -/
abbrev put {α : Type} {n : Nat} (v : Vector α n) (i : Fin n) (x : α) : Vector α n :=
  v.set i x

end Apollo.Lib
