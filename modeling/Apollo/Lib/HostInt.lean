import Mathlib

/-!
# Signed integers of C

The arithmetic that C defines on signed integers of `w` bits: a result that the type does not hold is no
result, and neither is a quotient by zero. What there is of it is exact (`mul_of_fits`,
`number_sdiv`). A word that is read as a number, signed or not, is `number`, and the numbers that a word
holds are those with `Fits`.
-/

namespace Apollo.Lib.HostInt

variable {w n : ℕ}

/-! ## Numbers in words -/

/-- The number that a word is. -/
def number (signed : Bool) (x : BitVec w) : ℤ := if signed then x.toInt else (x.toNat : ℤ)

/-- A number that a word of `w` bits holds. -/
def Fits (signed : Bool) (w : ℕ) (z : ℤ) : Prop :=
  if signed then -2 ^ w ≤ 2 * z ∧ 2 * z < 2 ^ w else 0 ≤ z ∧ z < 2 ^ w

instance (signed : Bool) (w : ℕ) (z : ℤ) : Decidable (Fits signed w z) := by
  unfold Fits
  infer_instance

theorem fits_number (signed : Bool) (x : BitVec w) : Fits signed w (number signed x) := by
  unfold Fits number
  cases signed
  · have := x.isLt
    simp only [Bool.false_eq_true, if_false]
    exact ⟨by positivity, by exact_mod_cast this⟩
  · have hlow := BitVec.le_two_mul_toInt (x := x)
    have hhigh := BitVec.two_mul_toInt_lt (x := x)
    simp only [if_true]
    exact ⟨by simpa using hlow, by simpa using hhigh⟩

theorem number_ofInt {signed : Bool} {z : ℤ} (h : Fits signed w z) :
    number signed (BitVec.ofInt w z) = z := by
  unfold Fits at h
  unfold number
  cases signed
  · simp only [Bool.false_eq_true, if_false] at h ⊢
    rw [BitVec.toNat_ofInt, Int.toNat_of_nonneg (Int.emod_nonneg _ (by positivity))]
    exact Int.emod_eq_of_lt h.1 (by exact_mod_cast h.2)
  · simp only [if_true] at h ⊢
    rw [BitVec.toInt_ofInt, Int.bmod_eq_of_le_mul_two]
    · push_cast
      omega
    · push_cast
      omega

theorem number_injective {signed : Bool} {x y : BitVec w} (h : number signed x = number signed y) :
    x = y := by
  unfold number at h
  cases signed
  · exact BitVec.eq_of_toNat_eq (by simpa using h)
  · exact BitVec.eq_of_toInt_eq (by simpa using h)

theorem ofInt_number (signed : Bool) (x : BitVec w) : BitVec.ofInt w (number signed x) = x :=
  number_injective (number_ofInt (fits_number signed x))

theorem setWidth_eq_ofInt (signed : Bool) (x : BitVec w) (h : n ≤ w) :
    x.setWidth n = BitVec.ofInt n (number signed x) := by
  have hmod : (number signed x) % (2 ^ n : ℕ) = (x.toNat : ℤ) % (2 ^ n : ℕ) := by
    unfold number
    cases signed
    · rfl
    · obtain ⟨k, hk⟩ : ((2 ^ n : ℕ) : ℤ) ∣ ((2 ^ w : ℕ) : ℤ) := by
        exact_mod_cast pow_dvd_pow 2 h
      simp only [if_true]
      rw [BitVec.toInt_eq_toNat_cond]
      split_ifs
      · rfl
      · rw [hk, Int.sub_mul_emod_self_left]
  apply BitVec.eq_of_toNat_eq
  rw [BitVec.toNat_setWidth, BitVec.toNat_ofInt, hmod]
  norm_cast

theorem setWidth_ofInt (z : ℤ) (h : n ≤ w) : (BitVec.ofInt w z).setWidth n = BitVec.ofInt n z := by
  have hdvd : ((2 ^ n : ℕ) : ℤ) ∣ ((2 ^ w : ℕ) : ℤ) := by exact_mod_cast pow_dvd_pow 2 h
  apply BitVec.eq_of_toNat_eq
  apply Int.natCast_inj.mp
  rw [BitVec.toNat_setWidth, BitVec.toNat_ofInt, BitVec.toNat_ofInt, Int.natCast_mod,
    Int.toNat_of_nonneg (Int.emod_nonneg _ (by positivity)),
    Int.toNat_of_nonneg (Int.emod_nonneg _ (by positivity)), Int.emod_emod_of_dvd _ hdvd]

theorem number_eq_zero (signed : Bool) (x : BitVec w) : number signed x = 0 ↔ x = 0 := by
  have hzero : number signed (0 : BitVec w) = 0 := by
    cases signed <;> simp [number]
  rw [← hzero]
  exact ⟨number_injective, congrArg _⟩

theorem number_signExtend (x : BitVec n) (h : n ≤ w) : number true (x.signExtend w) = number true x :=
  BitVec.toInt_signExtend_of_le h

theorem number_setWidth (x : BitVec n) (h : n ≤ w) : number false (x.setWidth w) = number false x := by
  unfold number
  simp only [Bool.false_eq_true, if_false]
  rw [BitVec.toNat_setWidth_of_le h]

/-! ## The operations -/

/-- A product, where the type holds it. -/
def mul (a b : BitVec w) : Option (BitVec w) := if BitVec.smulOverflow a b then none else some (a * b)

/-- A sum, where the type holds it. -/
def add (a b : BitVec w) : Option (BitVec w) := if BitVec.saddOverflow a b then none else some (a + b)

/-- A dividend and a divisor that have a quotient: the divisor is not zero, and the quotient is not the
one that the type does not hold. -/
def Divisible (a b : BitVec w) : Prop := b ≠ 0 ∧ ¬ (a = BitVec.intMin w ∧ b = -1)

instance (a b : BitVec w) : Decidable (Divisible a b) := by
  unfold Divisible
  infer_instance

/-- A quotient, rounded to zero. -/
def div (a b : BitVec w) : Option (BitVec w) := if Divisible a b then some (a.sdiv b) else none

/-- A remainder, with the sign of the dividend. -/
def rem (a b : BitVec w) : Option (BitVec w) := if Divisible a b then some (a.srem b) else none

theorem div_of_divisible {a b : BitVec w} (h : Divisible a b) :
    div a b = some (a.sdiv b) ∧ rem a b = some (a.srem b) := by
  unfold div rem
  exact ⟨if_pos h, if_pos h⟩

theorem toInt_sdiv {a b : BitVec w} (h : Divisible a b) : (a.sdiv b).toInt = a.toInt.tdiv b.toInt := by
  refine BitVec.toInt_sdiv_of_ne_or_ne a b ?_
  by_cases ha : a = BitVec.intMin w
  · exact .inr fun hb => h.2 ⟨ha, hb⟩
  · exact .inl ha

theorem toInt_srem (a b : BitVec w) : (a.srem b).toInt = a.toInt.tmod b.toInt := BitVec.toInt_srem a b

theorem mul_of_fits {a b : BitVec w} (h : Fits true w (number true a * number true b)) :
    mul a b = some (a * b) ∧ number true (a * b) = number true a * number true b := by
  unfold Fits number at h
  unfold number
  simp only [if_true] at h ⊢
  have hpow : (2 : ℤ) ^ w ≤ 2 * 2 ^ (w - 1) := by
    rw [← pow_succ']
    exact pow_le_pow_right₀ (by norm_num) (by omega)
  constructor
  · unfold mul BitVec.smulOverflow
    rw [if_neg]
    simp only [ge_iff_le, Bool.or_eq_true, decide_eq_true_eq, not_or, not_le, not_lt]
    constructor <;> omega
  · rw [BitVec.toInt_mul, Int.bmod_eq_of_le_mul_two]
    · push_cast
      omega
    · push_cast
      omega

theorem fits_mul {signed : Bool} {x y : ℤ} (h : 2 * n ≤ w) (hx : Fits signed n x) (hy : Fits signed n y) :
    Fits signed w (x * y) := by
  have hpow : (2 : ℤ) ^ n * 2 ^ n ≤ 2 ^ w := by
    rw [← pow_add]
    exact pow_le_pow_right₀ (by norm_num) (by omega)
  have hone : (0 : ℤ) < 2 ^ n := by positivity
  unfold Fits at *
  cases signed
  · simp only [Bool.false_eq_true, if_false] at *
    refine ⟨mul_nonneg hx.1 hy.1, ?_⟩
    nlinarith [hx.1, hx.2, hy.1, hy.2]
  · simp only [if_true] at *
    constructor <;> nlinarith [hx.1, hx.2, hy.1, hy.2]

theorem number_umul {a b : BitVec w} (h : Fits false w (number false a * number false b)) :
    number false (a * b) = number false a * number false b := by
  unfold Fits number at *
  simp only [Bool.false_eq_true, if_false] at *
  have hlt : a.toNat * b.toNat < 2 ^ w := by exact_mod_cast h.2
  rw [BitVec.toNat_mul, Nat.mod_eq_of_lt hlt]
  push_cast
  rfl

/-! ## Quotients and remainders that fit -/

theorem fits_tmod {signed : Bool} {a b : ℤ} (hb : b ≠ 0) (hfits : Fits signed w b)
    (ha : signed = false → 0 ≤ a) : Fits signed w (a.tmod b) := by
  have hlt : (a.tmod b).natAbs < b.natAbs := by
    rw [Int.natAbs_tmod]
    exact Nat.mod_lt _ (Int.natAbs_pos.mpr hb)
  unfold Fits at *
  cases signed
  · have hnonneg := Int.tmod_nonneg b (ha rfl)
    simp only [Bool.false_eq_true, if_false] at *
    omega
  · simp only [if_true] at *
    omega

theorem tdiv_law {a b : ℤ} (hb : b ≠ 0) :
    a = a.tdiv b * b + a.tmod b ∧ |a.tmod b| < |b| ∧ (a.tmod b = 0 ∨ (a.tmod b).sign = a.sign) := by
  refine ⟨(Int.tdiv_mul_add_tmod a b).symm, ?_, ?_⟩
  · rw [Int.abs_eq_natAbs, Int.abs_eq_natAbs, Int.natAbs_tmod]
    exact_mod_cast Nat.mod_lt _ (Int.natAbs_pos.mpr hb)
  · by_cases hdvd : b ∣ a
    · exact .inl (Int.tmod_eq_zero_of_dvd hdvd)
    · rw [Int.sign_tmod, if_neg hdvd]
      exact .inr rfl

theorem number_udiv (a b : BitVec w) :
    number false (a / b) = (number false a).tdiv (number false b) ∧
      number false (a % b) = (number false a).tmod (number false b) := by
  unfold number
  simp only [Bool.false_eq_true, if_false]
  rw [BitVec.toNat_udiv, BitVec.toNat_umod]
  exact ⟨Int.ofNat_tdiv _ _, Int.ofNat_tmod _ _⟩

theorem number_sdiv {a b : BitVec w} (h : Divisible a b) :
    number true (a.sdiv b) = (number true a).tdiv (number true b) ∧
      number true (a.srem b) = (number true a).tmod (number true b) :=
  ⟨toInt_sdiv h, toInt_srem a b⟩

end Apollo.Lib.HostInt
