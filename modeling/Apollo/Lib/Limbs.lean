import Mathlib

/-!
# Numbers in words

A number in words of `w` bits, the least significant first. The words are a function of their place,
and `ofLimbs limb n` is the number in the first `n` of them. Each word is a digit of the number in
base `2 ^ w`, and each bit of a word a bit of the number (`testBit_ofLimbs`); two numbers compare as
their topmost different words do.
-/

namespace Apollo.Lib

variable {w : ℕ}

/-- The number in the first `n` words. -/
def ofLimbs (limb : ℕ → BitVec w) : ℕ → ℕ
  | 0 => 0
  | n + 1 => ofLimbs limb n + (limb n).toNat * 2 ^ (w * n)

theorem ofLimbs_succ (limb : ℕ → BitVec w) (n : ℕ) :
    ofLimbs limb (n + 1) = ofLimbs limb n + (limb n).toNat * 2 ^ (w * n) := rfl

theorem ofLimbs_congr {limb limb' : ℕ → BitVec w} {n : ℕ} (h : ∀ i < n, limb i = limb' i) :
    ofLimbs limb n = ofLimbs limb' n := by
  induction n with
  | zero => rfl
  | succ n ih =>
    rw [ofLimbs_succ, ofLimbs_succ, ih fun i hi => h i (Nat.lt_succ_of_lt hi), h n (Nat.lt_succ_self n)]

theorem ofLimbs_of_clear {limb : ℕ → BitVec w} {m n : ℕ} (hmn : m ≤ n)
    (h : ∀ i, m ≤ i → i < n → limb i = 0) : ofLimbs limb n = ofLimbs limb m := by
  induction n, hmn using Nat.le_induction with
  | base => rfl
  | succ n hmn ih =>
    rw [ofLimbs_succ, h n hmn (Nat.lt_succ_self n), BitVec.ofNat_eq_ofNat, BitVec.toNat_ofNat,
      Nat.zero_mod, zero_mul, add_zero]
    exact ih fun i hmi hi => h i hmi (Nat.lt_succ_of_lt hi)

theorem ofLimbs_lt (limb : ℕ → BitVec w) (n : ℕ) : ofLimbs limb n < 2 ^ (w * n) := by
  induction n with
  | zero => exact Nat.one_pos
  | succ n ih =>
    have hlimb := (limb n).isLt
    calc ofLimbs limb n + (limb n).toNat * 2 ^ (w * n)
        < 2 ^ (w * n) + (limb n).toNat * 2 ^ (w * n) := Nat.add_lt_add_right ih _
      _ = ((limb n).toNat + 1) * 2 ^ (w * n) := by ring
      _ ≤ 2 ^ w * 2 ^ (w * n) := Nat.mul_le_mul_right _ hlimb
      _ = 2 ^ (w * (n + 1)) := by rw [← pow_add]; ring_nf

theorem le_ofLimbs {limb : ℕ → BitVec w} {i n : ℕ} (hi : i < n) (h : limb i ≠ 0) :
    2 ^ (w * i) ≤ ofLimbs limb n := by
  induction n with
  | zero => omega
  | succ n ih =>
    rw [ofLimbs_succ]
    rcases Nat.lt_succ_iff_lt_or_eq.mp hi with hlt | rfl
    · exact (ih hlt).trans (Nat.le_add_right _ _)
    · have hpos : 0 < (limb i).toNat :=
        Nat.pos_of_ne_zero fun hzero => h (BitVec.eq_of_toNat_eq (hzero.trans (Nat.zero_mod _).symm))
      exact (Nat.le_mul_of_pos_left _ hpos).trans (Nat.le_add_left _ _)

theorem ofLimbs_succ_lt {limb limb' : ℕ → BitVec w} {n : ℕ}
    (h : (limb n).toNat < (limb' n).toNat) : ofLimbs limb (n + 1) < ofLimbs limb' (n + 1) := by
  have hlow := ofLimbs_lt limb n
  calc ofLimbs limb n + (limb n).toNat * 2 ^ (w * n)
      < 2 ^ (w * n) + (limb n).toNat * 2 ^ (w * n) := Nat.add_lt_add_right hlow _
    _ = ((limb n).toNat + 1) * 2 ^ (w * n) := by ring
    _ ≤ (limb' n).toNat * 2 ^ (w * n) := Nat.mul_le_mul_right _ h
    _ ≤ ofLimbs limb' n + (limb' n).toNat * 2 ^ (w * n) := Nat.le_add_left _ _

/-- EACH BIT OF THE NUMBER is one of a word. -/
theorem testBit_ofLimbs (limb : ℕ → BitVec w) {n k : ℕ} (hk : k < w * n) :
    (ofLimbs limb n).testBit k = (limb (k / w)).getLsbD (k % w) := by
  induction n with
  | zero => simp at hk
  | succ n ih =>
    have hw : 0 < w := Nat.pos_of_ne_zero fun h => by simp [h] at hk
    rw [ofLimbs_succ, add_comm, mul_comm (limb n).toNat,
      Nat.testBit_two_pow_mul_add _ (ofLimbs_lt limb n)]
    split_ifs with hlow
    · exact ih hlow
    · obtain ⟨j, rfl⟩ := Nat.exists_eq_add_of_le (not_lt.mp hlow)
      have hj : j < w := by
        rw [Nat.mul_succ] at hk
        omega
      rw [Nat.add_sub_cancel_left, Nat.mul_add_div hw, Nat.div_eq_of_lt hj, add_zero,
        Nat.mul_add_mod, Nat.mod_eq_of_lt hj]
      rfl

theorem testBit_ofLimbs_of_le (limb : ℕ → BitVec w) {n k : ℕ} (hk : w * n ≤ k) :
    (ofLimbs limb n).testBit k = false :=
  Nat.testBit_lt_two_pow ((ofLimbs_lt limb n).trans_le (Nat.pow_le_pow_right (by decide) hk))

end Apollo.Lib
