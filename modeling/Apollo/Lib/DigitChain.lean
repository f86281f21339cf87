import Mathlib

/-!
# Arithmetic a digit at a time

Two numbers are added, or one is subtracted from the other, a digit at a time from the least significant
one, in any base. Each digit takes a carry and leaves one (`Adds`, `Subtracts`), and a flag that was set
stays so while the digits of the result are zero (`Stays`). What holds of every digit makes the law of the
numbers: the result is their sum or difference modulo the power of the base, the last carry is that of
the whole, and the flag tells whether the whole is zero.
-/

namespace Apollo.Lib

/-- The number whose `n` digits are given, the least significant first. -/
def numberOf (B : ℕ) (digit : ℕ → ℕ) (n : ℕ) : ℕ := ∑ i ∈ Finset.range n, digit i * B ^ i

section Chain

variable {B n : ℕ} {d s r : ℕ → ℕ} {carry flag : ℕ → Bool}

theorem numberOf_succ (digit : ℕ → ℕ) (n : ℕ) :
    numberOf B digit (n + 1) = numberOf B digit n + digit n * B ^ n := Finset.sum_range_succ ..

theorem numberOf_congr {digit digit' : ℕ → ℕ} (h : ∀ i < n, digit i = digit' i) :
    numberOf B digit n = numberOf B digit' n :=
  Finset.sum_congr rfl fun i hi => by rw [h i (Finset.mem_range.mp hi)]

theorem numberOf_lt (h : ∀ i < n, r i < B) : numberOf B r n < B ^ n := by
  induction n with
  | zero => exact Nat.one_pos
  | succ n ih =>
    have hlow := ih fun i hi => h i (Nat.lt_succ_of_lt hi)
    have hdigit : r n * B ^ n + B ^ n ≤ B * B ^ n := by
      rw [← Nat.succ_mul]
      exact Nat.mul_le_mul_right _ (h n (Nat.lt_succ_self n))
    rw [numberOf_succ, pow_succ']
    omega

/-- The digits of a sum. -/
def Adds (B n : ℕ) (d s r : ℕ → ℕ) (carry : ℕ → Bool) : Prop :=
  ∀ i < n, r i < B ∧ r i + B * (carry (i + 1)).toNat = d i + s i + (carry i).toNat

/-- The digits of a difference. -/
def Subtracts (B n : ℕ) (d s r : ℕ → ℕ) (carry : ℕ → Bool) : Prop :=
  ∀ i < n, r i < B ∧ r i + s i + (carry i).toNat = d i + B * (carry (i + 1)).toNat

/-- A flag that the digits of a result leave as it was or clear. -/
def Stays (n : ℕ) (r : ℕ → ℕ) (flag : ℕ → Bool) : Prop :=
  ∀ i < n, flag (i + 1) = (flag i && decide (r i = 0))

theorem Adds.number (h : Adds B n d s r carry) :
    numberOf B r n + B ^ n * (carry n).toNat = numberOf B d n + numberOf B s n + (carry 0).toNat := by
  induction n with
  | zero => simp [numberOf]
  | succ n ih =>
    have hrest := ih fun i hi => h i (Nat.lt_succ_of_lt hi)
    have hdigit := congrArg (· * B ^ n) (h n (Nat.lt_succ_self n)).2
    simp only [add_mul] at hdigit
    rw [numberOf_succ, numberOf_succ, numberOf_succ, pow_succ']
    have hreorder : B * (carry (n + 1)).toNat * B ^ n = B * B ^ n * (carry (n + 1)).toNat := by ring
    have hswap : (carry n).toNat * B ^ n = B ^ n * (carry n).toNat := mul_comm _ _
    omega

theorem Subtracts.number (h : Subtracts B n d s r carry) :
    numberOf B r n + numberOf B s n + (carry 0).toNat = numberOf B d n + B ^ n * (carry n).toNat := by
  induction n with
  | zero => simp [numberOf]
  | succ n ih =>
    have hrest := ih fun i hi => h i (Nat.lt_succ_of_lt hi)
    have hdigit := congrArg (· * B ^ n) (h n (Nat.lt_succ_self n)).2
    simp only [add_mul] at hdigit
    rw [numberOf_succ, numberOf_succ, numberOf_succ, pow_succ']
    have hreorder : B * (carry (n + 1)).toNat * B ^ n = B * B ^ n * (carry (n + 1)).toNat := by ring
    have hswap : (carry n).toNat * B ^ n = B ^ n * (carry n).toNat := mul_comm _ _
    omega

/-- THE SUM, and its carry. -/
theorem Adds.sum (h : Adds B n d s r carry) (hzero : carry 0 = false) :
    numberOf B r n = (numberOf B d n + numberOf B s n) % B ^ n ∧
      (carry n = true ↔ B ^ n ≤ numberOf B d n + numberOf B s n) := by
  have hnumber := h.number
  have hlt : numberOf B r n < B ^ n := numberOf_lt fun i hi => (h i hi).1
  rw [hzero] at hnumber
  cases hcarry : carry n
  · rw [hcarry] at hnumber
    simp only [Bool.toNat_false, mul_zero, add_zero] at hnumber
    rw [← hnumber, Nat.mod_eq_of_lt hlt]
    exact ⟨rfl, iff_of_false Bool.false_ne_true (by omega)⟩
  · rw [hcarry] at hnumber
    simp only [Bool.toNat_false, Bool.toNat_true, mul_one, add_zero] at hnumber
    rw [← hnumber, Nat.add_mod_right, Nat.mod_eq_of_lt hlt]
    exact ⟨rfl, iff_of_true rfl (by omega)⟩

/-- THE DIFFERENCE, and its borrow. -/
theorem Subtracts.difference (h : Subtracts B n d s r carry) (hzero : carry 0 = false) :
    (numberOf B r n : ℤ) = ((numberOf B d n : ℤ) - numberOf B s n) % (B ^ n : ℕ) ∧
      (carry n = true ↔ numberOf B d n < numberOf B s n) := by
  have hnumber := h.number
  have hlt : numberOf B r n < B ^ n := numberOf_lt fun i hi => (h i hi).1
  rw [hzero] at hnumber
  have hpow : B ^ n * (carry n).toNat = (carry n).toNat * B ^ n := mul_comm _ _
  cases hcarry : carry n
  · rw [hcarry] at hnumber
    simp only [Bool.toNat_false, mul_zero, add_zero] at hnumber
    have hdifference : (numberOf B d n : ℤ) - numberOf B s n = numberOf B r n := by omega
    rw [hdifference, Int.emod_eq_of_lt (by omega) (by omega)]
    refine ⟨rfl, iff_of_false Bool.false_ne_true (by omega)⟩
  · rw [hcarry] at hnumber
    simp only [Bool.toNat_false, Bool.toNat_true, mul_one, add_zero] at hnumber
    have hdifference : (numberOf B d n : ℤ) - numberOf B s n = numberOf B r n - (B ^ n : ℕ) := by omega
    rw [hdifference, Int.sub_emod_right, Int.emod_eq_of_lt (by omega) (by omega)]
    refine ⟨rfl, iff_of_true rfl ?_⟩
    omega

/-- THE FLAG tells whether the whole is zero. -/
theorem Stays.zero (h : Stays n r flag) (hB : 0 < B) (hset : flag 0 = true) :
    flag n = true ↔ numberOf B r n = 0 := by
  induction n with
  | zero => exact iff_of_true hset rfl
  | succ n ih =>
    have hrest := ih fun i hi => h i (Nat.lt_succ_of_lt hi)
    have hpow : 0 < B ^ n := pow_pos hB n
    rw [h n (Nat.lt_succ_self n), Bool.and_eq_true, hrest, decide_eq_true_iff, numberOf_succ,
      Nat.add_eq_zero_iff, Nat.mul_eq_zero]
    constructor
    · exact fun hboth => ⟨hboth.1, .inl hboth.2⟩
    · exact fun hboth => ⟨hboth.1, hboth.2.resolve_right hpow.ne'⟩

end Chain

end Apollo.Lib
