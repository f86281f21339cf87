import Mathlib
import Apollo.M68882.Format

/-!
# FCMP

`ap_m68882_compare`, from `src/core/cpu/m68882/ap_m68882_arith.c`. Of two values with one sign it
compares the exponent and then the mantissa, as one number would be compared with the other
(`rank`), and that IS THE ORDER OF THE REALS but for one thing: the format has two encodings of an
infinity, and the comparison tells them apart.
-/

namespace Apollo.M68882

open Apollo.Lib

/-- `ap_m68882_compare_t`. -/
structure Compare where
  less : Bool := false
  equal : Bool := false
  unordered : Bool := false
  exceptions : BitVec 32 := 0
deriving DecidableEq

/-- `ap_m68882_compare`. -/
def compare (a b : Extended) : Compare :=
  if classify a = .nan ∨ classify b = .nan then
    { unordered := true
      exceptions := if isSignallingNan a || isSignallingNan b then excSnan else 0 }
  else if classify a = .zero ∧ classify b = .zero then { equal := true }
  else if a.sign ≠ b.sign then { less := a.sign }
  else if a.exponent ≠ b.exponent then { less := decide (a.exponent < b.exponent) != a.sign }
  else if a.mantissa ≠ b.mantissa then { less := decide (a.mantissa < b.mantissa) != a.sign }
  else { equal := true }

/-- The extended real that a value is, when it is no NAN. -/
noncomputable def Extended.real (a : Extended) : EReal :=
  if a.exponent = maxExponent then if a.sign then ⊥ else ⊤ else ((a.value : ℝ) : EReal)

/-- The answer is the order of two extended reals: less, equal, or else greater. -/
structure Compare.Reports (answer : Compare) (x y : EReal) : Prop where
  less : answer.less = true ↔ x < y
  equal : answer.equal = true ↔ x = y
  ordered : answer.unordered = false
  quiet : answer.exceptions = 0

/-- The two encodings of one infinity. -/
def TwoEncodings (a b : Extended) : Prop :=
  classify a = .infinity ∧ classify b = .infinity ∧ a.sign = b.sign ∧ a.mantissa ≠ b.mantissa

instance (a b : Extended) : Decidable (TwoEncodings a b) := inferInstanceAs (Decidable (_ ∧ _))

/-! ## Signs -/

theorem signed_lt_iff (s t : Bool) (m n : ℕ) :
    signed s (m : ℤ) < signed t (n : ℤ) ↔
      if s = t then (if s then n < m else m < n) else s = true ∧ (m ≠ 0 ∨ n ≠ 0) := by
  cases s <;> cases t <;> simp [signed]
  omega

theorem signed_eq_iff (s t : Bool) (m n : ℕ) :
    signed s (m : ℤ) = signed t (n : ℤ) ↔ m = n ∧ (s = t ∨ m = 0) := by
  cases s <;> cases t <;> simp [signed] <;> omega

theorem signed_lt_congr {s t : Bool} {m n m' n' : ℕ} (hlt : m < n ↔ m' < n') (hgt : n < m ↔ n' < m')
    (hm : m = 0 ↔ m' = 0) (hn : n = 0 ↔ n' = 0) :
    signed s (m : ℤ) < signed t (n : ℤ) ↔ signed s (m' : ℤ) < signed t (n' : ℤ) := by
  rw [signed_lt_iff, signed_lt_iff, hlt, hgt, Ne, Ne, hm, hn]

/-! ## The order that is compared -/

/-- The exponent above the mantissa, as one number. -/
def Extended.rankMagnitude (a : Extended) : ℕ := a.exponent.toNat * 2 ^ 64 + a.mantissa.toNat

/-- What `ap_m68882_compare` compares. -/
def Extended.rank (a : Extended) : ℤ := signed a.sign (a.rankMagnitude : ℤ)

variable {a b c : Extended}

theorem rankMagnitude_lt_iff (a b : Extended) :
    a.rankMagnitude < b.rankMagnitude ↔
      a.exponent < b.exponent ∨ a.exponent = b.exponent ∧ a.mantissa < b.mantissa := by
  have ha := a.mantissa.isLt
  have hb := b.mantissa.isLt
  unfold Extended.rankMagnitude
  rw [BitVec.lt_def, BitVec.lt_def, ← BitVec.toNat_inj]
  omega

theorem rankMagnitude_eq_iff (a b : Extended) :
    a.rankMagnitude = b.rankMagnitude ↔ a.exponent = b.exponent ∧ a.mantissa = b.mantissa := by
  have ha := a.mantissa.isLt
  have hb := b.mantissa.isLt
  unfold Extended.rankMagnitude
  rw [← BitVec.toNat_inj, ← BitVec.toNat_inj]
  omega

theorem rankMagnitude_eq_zero_iff (hform : a.InputForm) :
    a.rankMagnitude = 0 ↔ classify a = .zero := by
  have hsplit : a.rankMagnitude = 0 ↔ a.exponent.toNat = 0 ∧ a.mantissa.toNat = 0 := by
    unfold Extended.rankMagnitude
    omega
  rw [hsplit]
  constructor
  · rintro ⟨he, hm⟩
    have hfinite : a.Finite := by
      unfold Extended.Finite
      omega
    exact (classify_zero_iff hfinite).mpr ((toNat_eq_zero_iff _).mpr hm)
  · intro hzero
    have hne : a.exponent ≠ maxExponent := by
      intro hmax
      unfold classify at hzero
      rw [if_pos hmax] at hzero
      split_ifs at hzero
    have hfinite : a.Finite := by
      refine lt_of_le_of_ne hform.1 fun heq => hne ?_
      exact BitVec.eq_of_toNat_eq heq
    have hm := (toNat_eq_zero_iff _).mp ((classify_zero_iff hfinite).mp hzero)
    exact ⟨exponent_eq_zero_of_clear hform hfinite (by omega), hm⟩

/-- WHAT FCMP COMPARES is the rank. -/
theorem compare_rank (ha : a.InputForm) (hb : b.InputForm) (hna : classify a ≠ .nan)
    (hnb : classify b ≠ .nan) :
    ((compare a b).less = true ↔ a.rank < b.rank) ∧ ((compare a b).equal = true ↔ a.rank = b.rank) ∧
      (compare a b).unordered = false ∧ (compare a b).exceptions = 0 := by
  have hza := rankMagnitude_eq_zero_iff ha
  have hzb := rankMagnitude_eq_zero_iff hb
  unfold compare
  rw [if_neg (not_or.mpr ⟨hna, hnb⟩)]
  unfold Extended.rank
  rw [signed_lt_iff, signed_eq_iff, rankMagnitude_lt_iff, rankMagnitude_lt_iff, rankMagnitude_eq_iff]
  by_cases hzero : classify a = .zero ∧ classify b = .zero
  · have ha0 := hza.mpr hzero.1
    have hb0 := hzb.mpr hzero.2
    have hsame := (rankMagnitude_eq_iff a b).mp (ha0.trans hb0.symm)
    rw [if_pos hzero, ha0, hb0]
    refine ⟨?_, by simpa using hsame, rfl, rfl⟩
    simp [hsame]
  · rw [if_neg hzero]
    by_cases hsign : a.sign = b.sign
    · rw [if_neg (not_not.mpr hsign), if_pos hsign]
      by_cases hexponent : a.exponent = b.exponent
      · rw [if_neg (not_not.mpr hexponent)]
        by_cases hmantissa : a.mantissa = b.mantissa
        · rw [if_neg (not_not.mpr hmantissa)]
          simp [hsign, hexponent, hmantissa]
        · rw [if_pos hmantissa]
          cases a.sign
          · simp [hexponent, hmantissa]
          · simp [hexponent, hmantissa, BitVec.lt_def]
            bv_omega
      · rw [if_pos hexponent]
        cases a.sign
        · simp [hexponent]
        · simp [hexponent, BitVec.lt_def]
          bv_omega
    · rw [if_pos hsign, if_neg hsign]
      have hne : a.rankMagnitude ≠ 0 ∨ b.rankMagnitude ≠ 0 := by
        rw [Ne, Ne, hza, hzb]
        exact not_and_or.mp hzero
      refine ⟨by simp [hne], ?_, rfl, rfl⟩
      have hdiff : ¬ ((a.exponent = b.exponent ∧ a.mantissa = b.mantissa) ∧
          (a.sign = b.sign ∨ a.rankMagnitude = 0)) := by
        rintro ⟨hsame, hbad | hzero'⟩
        · exact hsign hbad
        · have heq := (rankMagnitude_eq_iff a b).mpr hsame
          omega
      exact iff_of_false Bool.false_ne_true hdiff

/-! ## The order of the numbers -/

theorem magnitude_lt_of_exponent_lt (hb : b.InputForm) (hfb : b.Finite)
    (h : a.exponent.toNat < b.exponent.toNat) : a.magnitude < b.magnitude := by
  have hbit := le_mantissa_of_exponent hb hfb (Nat.ne_zero_of_lt h)
  calc a.magnitude < 2 ^ 64 * 2 ^ a.exponent.toNat :=
        Nat.mul_lt_mul_of_pos_right a.mantissa.isLt (Nat.two_pow_pos _)
    _ = 2 ^ 63 * 2 ^ (a.exponent.toNat + 1) := by ring
    _ ≤ 2 ^ 63 * 2 ^ b.exponent.toNat := Nat.mul_le_mul_left _ (Nat.pow_le_pow_right (by decide) h)
    _ ≤ b.magnitude := Nat.mul_le_mul_right _ hbit

theorem rankMagnitude_lt_iff_magnitude_lt (ha : a.InputForm) (hb : b.InputForm) (hfa : a.Finite)
    (hfb : b.Finite) : a.rankMagnitude < b.rankMagnitude ↔ a.magnitude < b.magnitude := by
  rw [rankMagnitude_lt_iff, BitVec.lt_def, BitVec.lt_def, ← BitVec.toNat_inj]
  rcases lt_trichotomy a.exponent.toNat b.exponent.toNat with hlt | heq | hgt
  · exact iff_of_true (.inl hlt) (magnitude_lt_of_exponent_lt hb hfb hlt)
  · have hmagnitude : a.magnitude < b.magnitude ↔ a.mantissa.toNat < b.mantissa.toNat := by
      unfold Extended.magnitude
      rw [heq]
      exact Nat.mul_lt_mul_right (Nat.two_pow_pos _)
    rw [hmagnitude]
    omega
  · refine iff_of_false (by omega) (magnitude_lt_of_exponent_lt ha hfa hgt).not_gt

theorem value_eq_div (a : Extended) :
    a.value = ((signed a.sign (a.magnitude : ℤ) : ℤ) : ℚ) / (2 ^ unitPlace : ℕ) := by
  unfold Extended.value
  cases a.sign
  · exact congrArg (· / _) (Int.cast_natCast _).symm
  · refine (neg_div _ _).symm.trans (congrArg (· / _) ?_)
    exact ((Int.cast_neg _).trans (congrArg Neg.neg (Int.cast_natCast _))).symm

theorem value_lt_iff (a b : Extended) :
    a.value < b.value ↔ signed a.sign (a.magnitude : ℤ) < signed b.sign (b.magnitude : ℤ) := by
  have hpos : (0 : ℚ) < (2 ^ unitPlace : ℕ) := by exact_mod_cast Nat.two_pow_pos unitPlace
  rw [value_eq_div, value_eq_div, div_lt_div_iff_of_pos_right hpos]
  exact Int.cast_lt

theorem rank_lt_iff_value_lt (ha : a.InputForm) (hb : b.InputForm) (hfa : a.Finite)
    (hfb : b.Finite) : a.rank < b.rank ↔ a.value < b.value := by
  have hzero : ∀ {x : Extended}, x.InputForm → x.Finite → (x.rankMagnitude = 0 ↔ x.magnitude = 0) :=
    fun hx hfx => by
      rw [rankMagnitude_eq_zero_iff hx, classify_zero_iff hfx, magnitude_eq_zero_iff]
  rw [value_lt_iff]
  exact signed_lt_congr (rankMagnitude_lt_iff_magnitude_lt ha hb hfa hfb)
    (rankMagnitude_lt_iff_magnitude_lt hb ha hfb hfa) (hzero ha hfa) (hzero hb hfb)

/-! ## Infinities -/

theorem exponent_of_infinity (h : classify a = .infinity) : a.exponent = maxExponent := by
  by_contra hne
  unfold classify at h
  rw [if_neg hne] at h
  split_ifs at h

theorem infinity_of_exponent (hn : classify a ≠ .nan) (h : a.exponent = maxExponent) :
    classify a = .infinity := by
  unfold classify at hn ⊢
  rw [if_pos h] at hn ⊢
  split_ifs at hn ⊢ with hfraction
  · rfl
  · exact absurd rfl hn

theorem finite_of_exponent (ha : a.InputForm) (h : a.exponent ≠ maxExponent) : a.Finite :=
  lt_of_le_of_ne ha.1 fun heq => h (BitVec.eq_of_toNat_eq heq)

theorem rankMagnitude_lt_of_infinity (ha : a.Finite) (hb : b.exponent = maxExponent) :
    a.rankMagnitude < b.rankMagnitude := by
  refine (rankMagnitude_lt_iff a b).mpr (.inl ?_)
  rw [hb]
  exact ha

theorem real_finite (ha : a.Finite) : a.real = ((a.value : ℝ) : EReal) := if_neg (exponent_ne_max ha)

theorem real_infinity (ha : a.exponent = maxExponent) : a.real = if a.sign then ⊥ else ⊤ := if_pos ha

/-- THE RANK IS THE ORDER of the extended reals, unless two encodings of an infinity meet. -/
theorem rank_lt_iff_real_lt (ha : a.InputForm) (hb : b.InputForm) (hna : classify a ≠ .nan)
    (hnb : classify b ≠ .nan) (hone : ¬ TwoEncodings a b) : a.rank < b.rank ↔ a.real < b.real := by
  by_cases hea : a.exponent = maxExponent
  · by_cases heb : b.exponent = maxExponent
    · rw [real_infinity hea, real_infinity heb]
      have hpos : ∀ {x : Extended}, x.exponent = maxExponent → x.rankMagnitude ≠ 0 := by
        intro x hx
        unfold Extended.rankMagnitude
        rw [hx]
        have : maxExponent.toNat = 0x7FFF := by decide
        omega
      unfold Extended.rank
      rw [signed_lt_iff]
      by_cases hsign : a.sign = b.sign
      · have hmantissa : a.mantissa = b.mantissa := by
          by_contra hne
          exact hone ⟨infinity_of_exponent hna hea, infinity_of_exponent hnb heb, hsign, hne⟩
        have hsame := (rankMagnitude_eq_iff a b).mpr ⟨hea.trans heb.symm, hmantissa⟩
        rw [if_pos hsign, hsame, hsign]
        simp
      · rw [if_neg hsign]
        have ha0 := hpos hea
        cases hsa : a.sign <;> cases hsb : b.sign
        · exact absurd (hsa.trans hsb.symm) hsign
        · simp
        · simp [ha0]
        · exact absurd (hsa.trans hsb.symm) hsign
    · have hfb := finite_of_exponent hb heb
      have hlt := rankMagnitude_lt_of_infinity hfb hea
      rw [real_infinity hea, real_finite hfb]
      unfold Extended.rank
      rw [signed_lt_iff]
      cases a.sign <;> cases b.sign
      · simp [hlt.le]
      · simp
      · simp [Nat.ne_zero_of_lt hlt]
      · simp [hlt]
  · have hfa := finite_of_exponent ha hea
    by_cases heb : b.exponent = maxExponent
    · have hlt := rankMagnitude_lt_of_infinity hfa heb
      rw [real_infinity heb, real_finite hfa]
      unfold Extended.rank
      rw [signed_lt_iff]
      cases a.sign <;> cases b.sign
      · simp [hlt]
      · simp
      · simp [Nat.ne_zero_of_lt hlt]
      · simp [hlt.le]
    · have hfb := finite_of_exponent hb heb
      rw [real_finite hfa, real_finite hfb, EReal.coe_lt_coe_iff, Rat.cast_lt]
      exact rank_lt_iff_value_lt ha hb hfa hfb

theorem TwoEncodings.symm (h : TwoEncodings a b) : TwoEncodings b a :=
  ⟨h.2.1, h.1, h.2.2.1.symm, h.2.2.2.symm⟩

/-- FCMP IS THE ORDER OF THE EXTENDED REALS exactly where two encodings of one infinity do not meet;
and its answers are an order over any three operands wherever they come from. -/
theorem compare_reports_iff (ha : a.InputForm) (hb : b.InputForm) (hc : c.InputForm)
    (hna : classify a ≠ .nan) (hnb : classify b ≠ .nan) (hnc : classify c ≠ .nan) :
    ((compare a b).Reports a.real b.real ↔ ¬ TwoEncodings a b) ∧
      ((compare a b).less = true → (compare b a).less = false ∧ (compare b a).equal = false) ∧
      ((compare a b).equal = (compare b a).equal) ∧
      ¬ ((compare a b).less = true ∧ (compare a b).equal = true) ∧
      ((compare a b).less = true ∨ (compare a b).equal = true →
        (compare b c).less = true ∨ (compare b c).equal = true →
        (compare a c).less = true ∨ (compare a c).equal = true) := by
  obtain ⟨hless, hequal, hordered, hquiet⟩ := compare_rank ha hb hna hnb
  obtain ⟨hless', hequal', -, -⟩ := compare_rank hb ha hnb hna
  obtain ⟨hlessbc, hequalbc, -, -⟩ := compare_rank hb hc hnb hnc
  obtain ⟨hlessac, hequalac, -, -⟩ := compare_rank ha hc hna hnc
  refine ⟨⟨?_, ?_⟩, ?_, ?_, ?_, ?_⟩
  · intro hreports htwo
    obtain ⟨hia, hib, hsign, hne⟩ := htwo
    have hsame : a.real = b.real := by
      rw [real_infinity (exponent_of_infinity hia), real_infinity (exponent_of_infinity hib), hsign]
    have hrank := hequal.mp (hreports.equal.mpr hsame)
    unfold Extended.rank at hrank
    rw [signed_eq_iff, rankMagnitude_eq_iff] at hrank
    exact hne hrank.1.2
  · intro hone
    have hlt := rank_lt_iff_real_lt ha hb hna hnb hone
    have hgt := rank_lt_iff_real_lt hb ha hnb hna fun h => hone h.symm
    refine ⟨hless.trans hlt, hequal.trans ?_, hordered, hquiet⟩
    rw [eq_iff_le_not_lt, eq_iff_le_not_lt, ← not_lt, ← not_lt, hlt, hgt]
  · intro h
    have hlt := hless.mp h
    exact ⟨Bool.eq_false_iff.mpr fun h' => hlt.not_gt (hless'.mp h'),
      Bool.eq_false_iff.mpr fun h' => hlt.ne' (hequal'.mp h')⟩
  · rw [Bool.eq_iff_iff, hequal, hequal']
    exact eq_comm
  · rintro ⟨hl, he⟩
    exact (hless.mp hl).ne (hequal.mp he)
  · rw [hless, hequal, hlessbc, hequalbc, hlessac, hequalac, ← le_iff_lt_or_eq, ← le_iff_lt_or_eq,
      ← le_iff_lt_or_eq]
    exact le_trans

/-- Three numbers, one of them an infinity. -/
theorem compare_reports_one_two_infinity :
    ((compare ⟨false, 0x3FFF, integerBit⟩ ⟨true, 0x4000, integerBit⟩).Reports
        (Extended.real ⟨false, 0x3FFF, integerBit⟩) (Extended.real ⟨true, 0x4000, integerBit⟩) ↔
      ¬ TwoEncodings ⟨false, 0x3FFF, integerBit⟩ ⟨true, 0x4000, integerBit⟩) :=
  (compare_reports_iff (c := ⟨false, 0x7FFF, 0⟩) (by decide) (by decide) (by decide) (by decide)
    (by decide) (by decide)).1

/-- The infinity with its integer bit clear compares as less than the one with the bit set. -/
theorem not_compare_reports :
    ¬ ∀ a b : Extended, a.InputForm → b.InputForm → classify a ≠ .nan → classify b ≠ .nan →
      (compare a b).Reports a.real b.real := by
  intro h
  have hreports := h ⟨false, 0x7FFF, 0⟩ ⟨false, 0x7FFF, integerBit⟩ (by decide) (by decide) (by decide)
    (by decide)
  have hclear := real_infinity (a := ⟨false, 0x7FFF, 0⟩) rfl
  have hset := real_infinity (a := ⟨false, 0x7FFF, integerBit⟩) rfl
  have hsame := hclear.trans hset.symm
  exact absurd (hreports.equal.mpr hsame) (by decide)

end Apollo.M68882
