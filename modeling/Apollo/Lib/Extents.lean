import Mathlib

/-!
# Extents of an area

Extents laid one behind the other in an area, each an offset and a length, with gaps or without. They
do not overlap and lie inside; another can be laid behind them, and the first of them can be kept.
-/

namespace Apollo.Lib

/-- The extents are laid one behind the other from the place on, and end at the end or before. -/
def Laid (place : Nat) : List (Nat × Nat) → Nat → Prop
  | [], ending => place ≤ ending
  | extent :: extents, ending =>
    place ≤ extent.1 ∧ Laid (extent.1 + extent.2) extents ending

namespace Laid

variable {place ending : Nat} {extents more : List (Nat × Nat)} {extent : Nat × Nat}

theorem le (h : Laid place extents ending) : place ≤ ending := by
  induction extents generalizing place with
  | nil => exact h
  | cons extent extents ih =>
    have hrest := ih h.2
    have hplace := h.1
    omega

theorem mono (h : Laid place extents ending) {later : Nat} (hlater : ending ≤ later) :
    Laid place extents later := by
  induction extents generalizing place with
  | nil => exact Nat.le_trans h hlater
  | cons extent extents ih => exact ⟨h.1, ih h.2⟩

theorem append_iff : Laid place (extents ++ more) ending ↔
    ∃ middle, Laid place extents middle ∧ Laid middle more ending := by
  induction extents generalizing place with
  | nil =>
    constructor
    · intro h
      exact ⟨place, Nat.le_refl _, h⟩
    · rintro ⟨middle, hle, h⟩
      cases more with
      | nil => exact Nat.le_trans hle h
      | cons extent more => exact ⟨Nat.le_trans hle h.1, h.2⟩
  | cons extent extents ih =>
    constructor
    · rintro ⟨hplace, h⟩
      obtain ⟨middle, hfirst, hmore⟩ := ih.mp h
      exact ⟨middle, ⟨hplace, hfirst⟩, hmore⟩
    · rintro ⟨middle, ⟨hplace, hfirst⟩, hmore⟩
      exact ⟨hplace, ih.mpr ⟨middle, hfirst, hmore⟩⟩

theorem concat (h : Laid place extents ending) (length : Nat) :
    Laid place (extents ++ [(ending, length)]) (ending + length) :=
  append_iff.mpr ⟨ending, h, Nat.le_refl _, Nat.le_refl _⟩

/-- THE EXTENTS LIE INSIDE. -/
theorem mem_le (h : Laid place extents ending) (hmem : extent ∈ extents) :
    place ≤ extent.1 ∧ extent.1 + extent.2 ≤ ending := by
  obtain ⟨before, after, rfl⟩ := List.append_of_mem hmem
  obtain ⟨middle, hbefore, hle, hafter⟩ := append_iff.mp h
  exact ⟨Nat.le_trans hbefore.le hle, hafter.le⟩

/-- THE EXTENTS DO NOT OVERLAP. -/
theorem pairwise (h : Laid place extents ending) :
    extents.Pairwise fun a b => a.1 + a.2 ≤ b.1 := by
  induction extents generalizing place with
  | nil => exact .nil
  | cons extent extents ih =>
    exact .cons (fun later hlater => (h.2.mem_le hlater).1) (ih h.2)

end Laid

end Apollo.Lib
