import Mathlib

/-!
# Where a scan stops

A scan goes on step by step until it has come to a stop or to the end. The number of steps is the
first at which the stop holds, or the length.
-/

namespace Apollo.Lib

/-- The first number of steps at which the scan is to stop, or the length. -/
structure FirstStop (length : Nat) (stop : Nat → Prop) (steps : Nat) : Prop where
  le : steps ≤ length
  before : ∀ earlier < steps, ¬ stop earlier
  stopped : steps = length ∨ stop steps

namespace FirstStop

variable {length steps : Nat} {stop : Nat → Prop}

theorem here (h : stop 0) : FirstStop length stop 0 :=
  ⟨Nat.zero_le _, fun _ hlt => absurd hlt (Nat.not_lt_zero _), .inr h⟩

theorem atEnd : FirstStop 0 stop 0 :=
  ⟨Nat.le_refl _, fun _ hlt => absurd hlt (Nat.not_lt_zero _), .inl rfl⟩

theorem step (hgo : ¬ stop 0) (h : FirstStop length (fun later => stop (later + 1)) steps) :
    FirstStop (length + 1) stop (steps + 1) := by
  refine ⟨Nat.succ_le_succ h.le, ?_, h.stopped.imp_left (congrArg _)⟩
  intro earlier hearlier
  cases earlier with
  | zero => exact hgo
  | succ earlier => exact h.before earlier (Nat.lt_of_succ_lt_succ hearlier)

theorem unique {other : Nat} (h : FirstStop length stop steps) (h' : FirstStop length stop other) :
    steps = other := by
  rcases Nat.lt_trichotomy steps other with hlt | heq | hgt
  · exact absurd (h.stopped.resolve_left (by have := h'.le; omega)) (h'.before steps hlt)
  · exact heq
  · exact absurd (h'.stopped.resolve_left (by have := h.le; omega)) (h.before other hgt)

end FirstStop

end Apollo.Lib
