import Mathlib

/-!
# Dividers of pulses

A divider by `n` lets every `n`-th pulse through. After `j` pulses it is in phase `j % n` and has
let `j / n` of them through; the next one gets through if it `Wraps` the phase. Dividers one after
another are one divider by the product (`wraps_mul`). A counter that counts down from `n` and begins
again after 0 divides by `n + 1`, and holds `n - j % (n + 1)`.
-/

namespace Apollo.Lib

/-- After `j` pulses, the next one ends a round of `n`. -/
def Wraps (n j : Nat) : Prop := n ∣ j + 1

instance (n j : Nat) : Decidable (Wraps n j) := inferInstanceAs (Decidable (n ∣ j + 1))

variable {n j : Nat}

theorem Wraps.mod_succ (h : Wraps n j) : (j + 1) % n = 0 := Nat.mod_eq_zero_of_dvd h

theorem div_succ (n j : Nat) : (j + 1) / n = j / n + if Wraps n j then 1 else 0 :=
  Nat.succ_div

theorem Wraps.div_succ (h : Wraps n j) : (j + 1) / n = j / n + 1 := by
  rw [Lib.div_succ, if_pos h]

theorem div_succ_of_not_wraps (h : ¬ Wraps n j) : (j + 1) / n = j / n := by
  rw [div_succ, if_neg h, Nat.add_zero]

theorem mod_succ_of_not_wraps (hn : 0 < n) (h : ¬ Wraps n j) :
    (j + 1) % n = j % n + 1 ∧ j % n + 1 < n := by
  have hlt := Nat.mod_lt j hn
  have hne : j % n + 1 ≠ n := by
    intro hend
    refine h ⟨j / n + 1, ?_⟩
    rw [Nat.mul_add_one, ← hend, ← add_assoc, hend, Nat.div_add_mod]
  refine ⟨?_, by omega⟩
  rw [Nat.add_mod, Nat.mod_eq_of_lt (show 1 < n by omega), Nat.mod_eq_of_lt (by omega)]

theorem wraps_iff_mod (hn : 0 < n) : Wraps n j ↔ j % n = n - 1 := by
  constructor
  · intro h
    by_contra hne
    have hlt := Nat.mod_lt j hn
    have hmod : (j + 1) % n = j % n + 1 := by
      rw [Nat.add_mod, Nat.mod_eq_of_lt (show 1 < n by omega), Nat.mod_eq_of_lt (by omega)]
    rw [h.mod_succ] at hmod
    omega
  · intro h
    by_contra hno
    have hlt := (mod_succ_of_not_wraps hn hno).2
    omega

theorem wraps_mul (m n j : Nat) : Wraps (m * n) j ↔ Wraps m j ∧ Wraps n (j / m) := by
  constructor
  · intro h
    have hm : Wraps m j := (Nat.dvd_mul_right m n).trans h
    refine ⟨hm, ?_⟩
    rw [Wraps, ← hm.div_succ]
    exact (Nat.dvd_div_iff_mul_dvd hm).2 h
  · rintro ⟨hm, hn⟩
    rw [Wraps, ← hm.div_succ] at hn
    exact (Nat.dvd_div_iff_mul_dvd hm).1 hn

/-! ## Counting down -/

theorem down_eq_zero_iff (n j : Nat) : n - j % (n + 1) = 0 ↔ Wraps (n + 1) j := by
  have hlt := Nat.mod_lt j (Nat.add_one_pos n)
  rw [wraps_iff_mod (Nat.add_one_pos n)]
  omega

theorem down_succ {n j : Nat} (h : ¬ Wraps (n + 1) j) :
    0 < n - j % (n + 1) ∧ n - (j + 1) % (n + 1) = n - j % (n + 1) - 1 := by
  obtain ⟨hmod, hlt⟩ := mod_succ_of_not_wraps (Nat.add_one_pos n) h
  rw [hmod]
  omega

theorem down_of_wraps {n j : Nat} (h : Wraps (n + 1) j) : n - (j + 1) % (n + 1) = n := by
  rw [h.mod_succ, Nat.sub_zero]

end Apollo.Lib
