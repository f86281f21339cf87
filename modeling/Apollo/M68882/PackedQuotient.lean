import Mathlib
import Apollo.M68882.BignumDivide
import Apollo.M68882.Packed

/-!
# One attempt at a packed decimal

An attempt of `ap_m68882_packed_encode` at a decimal exponent is one rounded division
(`roundedQuotient_spec`) of the two sides of the value times a power of ten (`scaledFraction_spec`).
Both are exact but for the rounding, with no limb lost, as long as the two sides fit with a bit to spare.
-/

namespace Apollo.M68882

open Apollo.Lib

/-! ## The rounded division -/

/-- What `roundedQuotient` carries out. -/
def roundedQuotientCalls (numerator denominator : Bignum) (mode : Rounding) : List Bignum.Call :=
  numerator.divideCalls denominator ++
    if (numerator.divide denominator).2 = true ∧ mode = .nearest then
      .shiftLeft numerator 1 :: (numerator.shiftLeft 1).divideCalls denominator
    else []

theorem lowWord_eq {a : Bignum} (ha : a.Wf) : lowWord a = BitVec.ofNat 64 a.value := by
  have hzero : (if 0 < a.used then (a.get 0).setWidth 64 else 0) = (a.get 0).setWidth 64 := by
    split_ifs with h
    · rfl
    · rw [ha.clear 0 (by omega)]
      rfl
  have hone : (if 1 < a.used then (a.get 1).setWidth 64 <<< 32 else 0) =
      (a.get 1).setWidth 64 <<< 32 := by
    split_ifs with h
    · rfl
    · rw [ha.clear 1 (by omega)]
      rfl
  unfold lowWord
  rw [hzero, hone]
  refine BitVec.eq_of_getLsbD_eq fun j hj => ?_
  rw [BitVec.getLsbD_or, BitVec.getLsbD_shiftLeft, BitVec.getLsbD_setWidth, BitVec.getLsbD_setWidth,
    BitVec.getLsbD_ofNat, decide_eq_true hj, decide_eq_true (by omega : j - 32 < 64)]
  by_cases hlow : j < 32
  · rw [decide_eq_true hlow, Bignum.getLsbD_get a 0 hlow, mul_zero, zero_add]
    simp
  · have hnone : (a.get 0).getLsbD j = false := BitVec.getLsbD_of_ge _ _ (not_lt.mp hlow)
    rw [decide_eq_false hlow, hnone, Bignum.getLsbD_get a 1 (by omega : j - 32 < 32), mul_one,
      Nat.add_sub_cancel' (not_lt.mp hlow)]
    simp

theorem doubled_div {n d : ℕ} (hd : 0 < d) :
    2 * n / d - 2 * (n / d) = (if d ≤ 2 * (n % d) then 1 else 0) ∧ 2 * (n / d) ≤ 2 * n / d ∧
      (d ≤ 2 * (n % d) → (2 * n % d ≠ 0 ↔ d < 2 * (n % d))) := by
  have hsplit := Nat.div_add_mod n d
  have hlt := Nat.mod_lt n hd
  generalize n / d = q at hsplit ⊢
  generalize n % d = r at hsplit hlt ⊢
  have hdouble : 2 * n = 2 * r + d * (2 * q) := by
    rw [← hsplit]
    ring
  have hdiv : 2 * n / d = 2 * r / d + 2 * q := by rw [hdouble, Nat.add_mul_div_left _ _ hd]
  have hmod : 2 * n % d = 2 * r % d := by rw [hdouble, Nat.add_mul_mod_self_left]
  rw [hdiv, hmod, Nat.add_sub_cancel]
  refine ⟨?_, Nat.le_add_left _ _, fun hhalf => ?_⟩
  · split_ifs with hhalf
    · rw [Nat.div_eq_iff hd]
      omega
    · exact Nat.div_eq_of_lt (not_le.mp hhalf)
  · rw [Nat.mod_eq_sub_mod hhalf, Nat.mod_eq_of_lt (by omega)]
    omega

/-- The decision to round up: of the division of the doubled numerator to the nearest, of the direction
otherwise. -/
theorem roundedQuotient_eq (numerator denominator : Bignum) (sign : Bool) (mode : Rounding) :
    roundedQuotient numerator denominator sign mode =
      let value := lowWord (numerator.divide denominator).1
      let doubled := (numerator.shiftLeft 1).divide denominator
      if (numerator.divide denominator).2 then
        (if (if mode = .nearest then
              lowWord doubled.1 - 2 * value != 0 && (doubled.2 || value &&& 1 != 0)
            else mode.direction sign == .up) then value + 1 else value, true)
      else (value, false) := by
  unfold roundedQuotient
  rcases numerator.divide denominator with ⟨quotient, _ | _⟩
  · rfl
  cases mode with
  | zero => rfl
  | plusInfinity => cases sign <;> rfl
  | minusInfinity => cases sign <;> rfl
  | nearest =>
    dsimp only
    rw [if_pos rfl, if_pos rfl, if_pos rfl]
    by_cases hhalf : lowWord ((numerator.shiftLeft 1).divide denominator).1 - 2 * lowWord quotient = 0
    · rw [if_neg (not_not.mpr hhalf), hhalf]
      rfl
    · rw [if_pos hhalf, bne_iff_ne.mpr hhalf, Bool.true_and]

theorem raises_eq {n d : ℕ} (hpos : 0 < d) (hword : n / d < 2 ^ 63) (hexact : n % d ≠ 0) (sign : Bool)
    (mode : Rounding) :
    (if mode = .nearest then
        BitVec.ofNat 64 (2 * n / d) - 2 * BitVec.ofNat 64 (n / d) != 0 &&
          (decide (2 * n % d ≠ 0) || BitVec.ofNat 64 (n / d) &&& 1 != 0)
      else mode.direction sign == .up) = (mode.direction sign).raises (n / d) (n % d) d := by
  have hup : Direction.raises .up (n / d) (n % d) d = true := decide_eq_true hexact
  obtain ⟨hhalf, hle, hmore⟩ := doubled_div (n := n) hpos
  cases mode with
  | zero => rfl
  | plusInfinity =>
    cases sign
    · exact hup.symm
    · rfl
  | minusInfinity =>
    cases sign
    · rfl
    · exact hup.symm
  | nearest =>
    have hone : (BitVec.ofNat 64 (n / d)).toNat = n / d := by
      rw [BitVec.toNat_ofNat, Nat.mod_eq_of_lt (by omega)]
    have hodd : (BitVec.ofNat 64 (n / d) &&& 1 != 0) = decide (n / d % 2 = 1) := by
      have hbit := and_bit_ne_zero_iff (BitVec.ofNat 64 (n / d)) (show 0 < 64 by decide)
      rw [hone, Nat.testBit_zero, decide_eq_true_iff] at hbit
      rw [Bool.eq_iff_iff, bne_iff_ne, decide_eq_true_iff]
      exact hbit
    have hdiff : BitVec.ofNat 64 (2 * n / d) - 2 * BitVec.ofNat 64 (n / d) =
        BitVec.ofNat 64 (if d ≤ 2 * (n % d) then 1 else 0) := by
      rw [← hhalf]
      refine BitVec.eq_of_toNat_eq ?_
      rw [BitVec.toNat_sub, BitVec.toNat_mul, hone, BitVec.toNat_ofNat, BitVec.toNat_ofNat,
        show (2 : BitVec 64).toNat = 2 from rfl]
      omega
    rw [if_pos rfl, hdiff, hodd]
    unfold Rounding.direction Direction.raises
    by_cases hge : d ≤ 2 * (n % d)
    · rw [if_pos hge, decide_eq_decide.mpr (hmore hge)]
      by_cases htie : 2 * (n % d) = d
      · rw [decide_eq_false (show ¬ d < 2 * (n % d) by omega), decide_eq_true htie]
        rfl
      · rw [decide_eq_true (show d < 2 * (n % d) by omega)]
        rfl
    · rw [if_neg hge, decide_eq_false (show ¬ d < 2 * (n % d) by omega),
        decide_eq_false (show ¬ 2 * (n % d) = d by omega)]
      rfl

/-- ONE ROUNDED DIVISION: the quotient in the direction of the mode, and whether it is inexact. -/
theorem roundedQuotient_spec {numerator denominator : Bignum} (hn : numerator.Wf) (hd : denominator.Wf)
    (hpos : 0 < denominator.value) (hnFits : numerator.value * 2 < 2 ^ Bignum.capacity)
    (hdFits : denominator.value * 2 ≤ 2 ^ Bignum.capacity)
    (hword : numerator.value / denominator.value < 2 ^ 63) (sign : Bool) (mode : Rounding) :
    (roundedQuotient numerator denominator sign mode).1.toNat =
        (mode.direction sign).quotient numerator.value denominator.value ∧
      (roundedQuotient numerator denominator sign mode).2 =
        decide (¬ denominator.value ∣ numerator.value) ∧
      ∀ call ∈ roundedQuotientCalls numerator denominator mode, call.Exact := by
  obtain ⟨hq, hqWf, hleft, hcalls⟩ := Bignum.divide_spec hn hd hpos hdFits
  have hfirst : numerator.value * 2 ^ 1 < 2 ^ Bignum.capacity := by
    rw [pow_one]
    exact hnFits
  obtain ⟨hdouble, hdoubleWf⟩ := Bignum.shiftLeft_spec hn hfirst
  have hdoubleCall : (Bignum.Call.shiftLeft numerator 1).Exact := hdouble
  obtain ⟨hq', hqWf', hleft', hcalls'⟩ := Bignum.divide_spec hdoubleWf hd hpos hdFits
  rw [hdouble, pow_one, mul_comm] at hq' hleft'
  have hall : ∀ call ∈ roundedQuotientCalls numerator denominator mode, call.Exact := by
    intro call hcall
    unfold roundedQuotientCalls at hcall
    rcases List.mem_append.mp hcall with hcall | hcall
    · exact hcalls call hcall
    · split_ifs at hcall
      · rcases List.mem_cons.mp hcall with rfl | hcall
        · exact hdoubleCall
        · exact hcalls' call hcall
      · exact absurd hcall List.not_mem_nil
  have hlow : lowWord (numerator.divide denominator).1 =
      BitVec.ofNat 64 (numerator.value / denominator.value) := by
    rw [lowWord_eq hqWf, hq]
  have hlow' : lowWord ((numerator.shiftLeft 1).divide denominator).1 =
      BitVec.ofNat 64 (2 * numerator.value / denominator.value) := by
    rw [lowWord_eq hqWf', hq']
  clear hnFits hdFits hfirst
  rw [roundedQuotient_eq]
  dsimp only
  rw [hlow, hlow', hleft, hleft']
  generalize numerator.value = n at *
  generalize denominator.value = d at *
  have hone : (BitVec.ofNat 64 (n / d)).toNat = n / d := by
    rw [BitVec.toNat_ofNat, Nat.mod_eq_of_lt (by omega)]
  by_cases hexact : n % d = 0
  · rw [decide_eq_false (not_not.mpr hexact), if_neg Bool.false_ne_true]
    have hdvd : d ∣ n := Nat.dvd_of_mod_eq_zero hexact
    refine ⟨?_, (decide_eq_false (not_not.mpr hdvd)).symm, hall⟩
    rw [hone, Direction.quotient_of_dvd _ hpos hdvd]
  · have hinexact : ¬ d ∣ n := fun h => hexact (Nat.mod_eq_zero_of_dvd h)
    rw [decide_eq_true hexact, if_pos rfl, raises_eq hpos hword hexact]
    refine ⟨?_, (decide_eq_true hinexact).symm, hall⟩
    unfold Direction.quotient
    split_ifs
    · rw [BitVec.toNat_add, hone]
      exact Nat.mod_eq_of_lt (by omega : n / d + 1 < 2 ^ 64)
    · rw [hone, add_zero]

/-! ## The two sides of the fraction -/

/-- What `scaledFraction` carries out. -/
def scaledCalls (significand : BitVec 64) (scale p : Int) : List Bignum.Call :=
  let numerator := Bignum.ofWord significand
  let denominator := Bignum.ofWord 1
  if 0 ≤ p then
    numerator.mulPow5Calls p.toNat ++
      [if 0 ≤ scale + p then .shiftLeft (numerator.mulPow5 p.toNat) (scale + p).toNat
        else .shiftLeft denominator (-(scale + p)).toNat]
  else
    denominator.mulPow5Calls (-p).toNat ++
      [if 0 ≤ scale + p then .shiftLeft numerator (scale + p).toNat
        else .shiftLeft (denominator.mulPow5 (-p).toNat) (-(scale + p)).toNat]

/-- The two sides of `significand × 2 ^ scale × 10 ^ p`, with each power on the side where it counts
up. -/
def numeratorOf (significand : ℕ) (scale p : ℤ) : ℕ :=
  significand * 5 ^ p.toNat * 2 ^ (scale + p).toNat

def denominatorOf (scale p : ℤ) : ℕ := 5 ^ (-p).toNat * 2 ^ (-(scale + p)).toNat

theorem denominatorOf_pos (scale p : ℤ) : 0 < denominatorOf scale p :=
  Nat.mul_pos (pow_pos (by decide) _) (Nat.two_pow_pos _)

theorem pow_toNat_div (a : ℚ) (p : ℤ) : a ^ p.toNat / a ^ (-p).toNat = a ^ p := by
  rcases le_or_gt 0 p with hp | hp
  · obtain ⟨n, rfl⟩ := Int.eq_ofNat_of_zero_le hp
    rw [Int.toNat_natCast, Int.toNat_of_nonpos (by omega), pow_zero, div_one, zpow_natCast]
  · obtain ⟨n, hn⟩ := Int.eq_ofNat_of_zero_le (show 0 ≤ -p by omega)
    rw [hn, Int.toNat_natCast, Int.toNat_of_nonpos hp.le, show p = -(n : ℤ) by omega, zpow_neg,
      zpow_natCast, pow_zero, one_div]

theorem fraction_eq (significand : ℕ) (scale p : ℤ) :
    (numeratorOf significand scale p : ℚ) / denominatorOf scale p =
      (significand : ℚ) * 2 ^ scale * 10 ^ p := by
  have hfive := pow_toNat_div 5 p
  have htwo := pow_toNat_div 2 (scale + p)
  unfold numeratorOf denominatorOf
  push_cast
  calc (significand : ℚ) * 5 ^ p.toNat * 2 ^ (scale + p).toNat /
        (5 ^ (-p).toNat * 2 ^ (-(scale + p)).toNat)
      = significand * (5 ^ p.toNat / 5 ^ (-p).toNat) *
          (2 ^ (scale + p).toNat / 2 ^ (-(scale + p)).toNat) := by ring
    _ = significand * 5 ^ p * (2 ^ scale * 2 ^ p) := by
        rw [hfive, htwo, zpow_add₀ two_ne_zero]
    _ = significand * 2 ^ scale * (5 ^ p * 2 ^ p) := by ring
    _ = significand * 2 ^ scale * 10 ^ p := by
        rw [← mul_zpow]
        norm_num

theorem scaledFraction_spec (significand : BitVec 64) (scale p : ℤ)
    (hn : numeratorOf significand.toNat scale p < 2 ^ Bignum.capacity)
    (hd : denominatorOf scale p < 2 ^ Bignum.capacity) :
    (scaledFraction significand scale p).1.value = numeratorOf significand.toNat scale p ∧
      (scaledFraction significand scale p).1.Wf ∧
      (scaledFraction significand scale p).2.value = denominatorOf scale p ∧
      (scaledFraction significand scale p).2.Wf ∧
      ∀ call ∈ scaledCalls significand scale p, call.Exact := by
  have hword := Bignum.value_ofWord significand
  have hwordWf := Bignum.wf_ofWord significand
  have hone : (Bignum.ofWord 1).value = 1 := Bignum.value_ofWord 1
  have honeWf := Bignum.wf_ofWord 1
  unfold numeratorOf at hn ⊢
  unfold denominatorOf at hd ⊢
  unfold scaledFraction scaledCalls Bignum.mulPow2
  by_cases hp : 0 ≤ p
  · have hnone : (-p).toNat = 0 := Int.toNat_of_nonpos (by omega)
    rw [hnone, pow_zero, one_mul] at hd ⊢
    have hfive : (Bignum.ofWord significand).value * 5 ^ p.toNat < 2 ^ Bignum.capacity := by
      rw [hword]
      exact (Nat.le_mul_of_pos_right _ (Nat.two_pow_pos _)).trans_lt hn
    obtain ⟨hmul, hmulWf, hcalls⟩ := Bignum.mulPow5_spec hwordWf hfive
    rw [hword] at hmul
    simp only [hp, if_true]
    by_cases htwo : 0 ≤ scale + p
    · have hdown : (-(scale + p)).toNat = 0 := Int.toNat_of_nonpos (by omega)
      rw [← hmul] at hn ⊢
      obtain ⟨hshift, hshiftWf⟩ := Bignum.shiftLeft_spec hmulWf hn
      simp only [htwo, if_true]
      refine ⟨hshift, hshiftWf, by rw [hone, hdown, pow_zero], honeWf, fun call hcall => ?_⟩
      rcases List.mem_append.mp hcall with hcall | hcall
      · exact hcalls call hcall
      · rw [List.mem_singleton.mp hcall]
        exact hshift
    · have hup : (scale + p).toNat = 0 := Int.toNat_of_nonpos (by omega)
      rw [← one_mul (2 ^ (-(scale + p)).toNat), ← hone] at hd
      obtain ⟨hshift, hshiftWf⟩ := Bignum.shiftLeft_spec honeWf hd
      simp only [htwo, if_false]
      refine ⟨by rw [hup, pow_zero, mul_one]; exact hmul, hmulWf, ?_, hshiftWf, fun call hcall => ?_⟩
      · rw [hshift, hone, one_mul]
      rcases List.mem_append.mp hcall with hcall | hcall
      · exact hcalls call hcall
      · rw [List.mem_singleton.mp hcall]
        exact hshift
  · have hnone : p.toNat = 0 := Int.toNat_of_nonpos (by omega)
    rw [hnone, pow_zero, mul_one] at hn ⊢
    have hfive : (Bignum.ofWord 1).value * 5 ^ (-p).toNat < 2 ^ Bignum.capacity := by
      rw [hone, one_mul]
      exact (Nat.le_mul_of_pos_right _ (Nat.two_pow_pos _)).trans_lt hd
    obtain ⟨hmul, hmulWf, hcalls⟩ := Bignum.mulPow5_spec honeWf hfive
    rw [hone, one_mul] at hmul
    simp only [hp, if_false]
    by_cases htwo : 0 ≤ scale + p
    · have hdown : (-(scale + p)).toNat = 0 := Int.toNat_of_nonpos (by omega)
      rw [← hword] at hn ⊢
      obtain ⟨hshift, hshiftWf⟩ := Bignum.shiftLeft_spec hwordWf hn
      simp only [htwo, if_true]
      refine ⟨hshift, hshiftWf, by rw [hdown, pow_zero, mul_one]; exact hmul, hmulWf,
        fun call hcall => ?_⟩
      rcases List.mem_append.mp hcall with hcall | hcall
      · exact hcalls call hcall
      · rw [List.mem_singleton.mp hcall]
        exact hshift
    · have hup : (scale + p).toNat = 0 := Int.toNat_of_nonpos (by omega)
      rw [← hmul] at hd ⊢
      obtain ⟨hshift, hshiftWf⟩ := Bignum.shiftLeft_spec hmulWf hd
      simp only [htwo, if_false]
      refine ⟨by rw [hup, pow_zero, mul_one]; exact hword, hwordWf, hshift, hshiftWf,
        fun call hcall => ?_⟩
      rcases List.mem_append.mp hcall with hcall | hcall
      · exact hcalls call hcall
      · rw [List.mem_singleton.mp hcall]
        exact hshift

theorem sides_lt {significand : ℕ} {scale p : ℤ} (hs : significand < 2 ^ 64)
    (hlt : numeratorOf significand scale p < 2 ^ 60 * denominatorOf scale p)
    (hge : denominatorOf scale p ≤ 2 ^ 4 * numeratorOf significand scale p) :
    numeratorOf significand scale p < 2 ^ (3 * p.natAbs + 64) ∧
      denominatorOf scale p < 2 ^ (3 * p.natAbs + 68) := by
  have hfive : ∀ k ≤ p.natAbs, 5 ^ k ≤ 2 ^ (3 * p.natAbs) := by
    intro k hk
    calc 5 ^ k ≤ (2 ^ 3) ^ k := Nat.pow_le_pow_left (by decide) k
      _ = 2 ^ (3 * k) := (pow_mul 2 3 k).symm
      _ ≤ 2 ^ (3 * p.natAbs) := Nat.pow_le_pow_right (by decide) (by omega)
  have hpos := Nat.two_pow_pos (3 * p.natAbs)
  have hfactor : ∀ k, 2 ^ (3 * p.natAbs + k) = 2 ^ k * 2 ^ (3 * p.natAbs) := by
    intro k
    rw [add_comm, pow_add]
  rw [hfactor, hfactor]
  -- one side is a power of five or a significand, and the other is not far from it
  suffices hone : numeratorOf significand scale p < 2 ^ 64 * 2 ^ (3 * p.natAbs) ∨
      denominatorOf scale p ≤ 2 ^ (3 * p.natAbs) by
    rcases hone with hn | hd
    · refine ⟨hn, ?_⟩
      omega
    · constructor <;> omega
  unfold numeratorOf denominatorOf
  by_cases htwo : 0 ≤ scale + p
  · refine .inr ?_
    rw [Int.toNat_of_nonpos (by omega : -(scale + p) ≤ 0), pow_zero, mul_one]
    exact hfive _ (by omega)
  · refine .inl ?_
    rw [Int.toNat_of_nonpos (by omega : scale + p ≤ 0), pow_zero, mul_one]
    calc significand * 5 ^ p.toNat ≤ significand * 2 ^ (3 * p.natAbs) :=
          Nat.mul_le_mul_left _ (hfive _ (by omega))
      _ < 2 ^ 64 * 2 ^ (3 * p.natAbs) := Nat.mul_lt_mul_of_pos_right hs hpos

/-! ## An attempt -/

namespace Source

/-- The power of ten of an attempt. -/
def places (source : Source) (decimalExponent : ℤ) : ℤ :=
  (wantedDigits source.k decimalExponent : ℤ) - 1 - decimalExponent

/-- What `attempt` carries out. -/
def attemptCalls (source : Source) (mode : Rounding) (decimalExponent : Int) : List Bignum.Call :=
  let p := source.places decimalExponent
  let (numerator, denominator) := scaledFraction source.significand source.scale p
  scaledCalls source.significand source.scale p ++ roundedQuotientCalls numerator denominator mode

/-- The value without its sign. -/
def magnitude (source : Source) : ℚ := (source.significand.toNat : ℚ) * 2 ^ source.scale

/-- What an attempt has of the quotient. -/
theorem attempt_eq (source : Source) (mode : Rounding) (e : ℤ) :
    let fraction := scaledFraction source.significand source.scale (source.places e)
    let result := roundedQuotient fraction.1 fraction.2 source.sign mode
    (source.attempt mode e).digitsValue = result.1 ∧ (source.attempt mode e).inexact = result.2 := by
  unfold attempt places
  dsimp only
  exact ⟨rfl, rfl⟩

/-- ONE ATTEMPT, whose power of ten is not too far out: the value times the power, rounded. -/
theorem attempt_spec (source : Source) (mode : Rounding) (e : ℤ) (hp : |source.places e| ≤ 5000)
    (hlow : 1 / 16 ≤ source.magnitude * 10 ^ source.places e)
    (hhigh : source.magnitude * 10 ^ source.places e < 2 ^ 60) :
    ∃ n d : ℕ, 0 < d ∧ (n : ℚ) / d = source.magnitude * 10 ^ source.places e ∧
      (source.attempt mode e).decimalExponent = e ∧
      (source.attempt mode e).digits = wantedDigits source.k e ∧
      (source.attempt mode e).digitsValue.toNat = (mode.direction source.sign).quotient n d ∧
      (source.attempt mode e).inexact = decide (¬ d ∣ n) ∧
      ∀ call ∈ source.attemptCalls mode e, call.Exact := by
  have hfraction := fraction_eq source.significand.toNat source.scale (source.places e)
  have hpos := denominatorOf_pos source.scale (source.places e)
  have hden := hpos
  have hposq : (0 : ℚ) < denominatorOf source.scale (source.places e) := by exact_mod_cast hpos
  have hmagnitude : source.magnitude * 10 ^ source.places e =
      (numeratorOf source.significand.toNat source.scale (source.places e) : ℚ) /
        denominatorOf source.scale (source.places e) := hfraction.symm
  rw [hmagnitude] at hlow hhigh ⊢
  have hlt : numeratorOf source.significand.toNat source.scale (source.places e) <
      2 ^ 60 * denominatorOf source.scale (source.places e) := by
    rw [div_lt_iff₀ hposq] at hhigh
    exact_mod_cast hhigh
  have hge : denominatorOf source.scale (source.places e) ≤
      2 ^ 4 * numeratorOf source.significand.toNat source.scale (source.places e) := by
    rw [le_div_iff₀ hposq] at hlow
    have hcast : (denominatorOf source.scale (source.places e) : ℚ) ≤
        2 ^ 4 * numeratorOf source.significand.toNat source.scale (source.places e) := by linarith
    exact_mod_cast hcast
  obtain ⟨hnlt, hdlt⟩ := sides_lt source.significand.isLt hlt hge
  have hcap : 3 * (source.places e).natAbs + 69 ≤ Bignum.capacity := by
    rw [Bignum.capacity_eq]
    rw [abs_le] at hp
    omega
  have hfits : ∀ v, v < 2 ^ (3 * (source.places e).natAbs + 68) → v * 2 < 2 ^ Bignum.capacity := by
    intro v hv
    calc v * 2 < 2 ^ (3 * (source.places e).natAbs + 68) * 2 := Nat.mul_lt_mul_of_pos_right hv two_pos
      _ = 2 ^ (3 * (source.places e).natAbs + 69) := (pow_succ 2 _).symm
      _ ≤ 2 ^ Bignum.capacity := Nat.pow_le_pow_right (by decide) hcap
  have hnFits := hfits _ (hnlt.trans_le (Nat.pow_le_pow_right (by decide) (by omega)))
  have hdFits := hfits _ hdlt
  obtain ⟨hn, hnWf, hd, hdWf, hcalls⟩ := scaledFraction_spec source.significand source.scale
    (source.places e)
    ((Nat.le_mul_of_pos_right _ two_pos).trans_lt hnFits)
    ((Nat.le_mul_of_pos_right _ two_pos).trans_lt hdFits)
  rw [← hn] at hnFits hlt
  rw [← hd] at hdFits hlt hpos
  have hword : (scaledFraction source.significand source.scale (source.places e)).1.value /
      (scaledFraction source.significand source.scale (source.places e)).2.value < 2 ^ 63 :=
    ((Nat.div_lt_iff_lt_mul hpos).mpr hlt).trans_le (Nat.pow_le_pow_right (by decide) (by decide))
  obtain ⟨hquotient, hinexact, hcalls'⟩ :=
    roundedQuotient_spec hnWf hdWf hpos hnFits hdFits.le hword source.sign mode
  rw [hn, hd] at hquotient hinexact
  obtain ⟨hdigits, hflag⟩ := attempt_eq source mode e
  rw [← hdigits] at hquotient
  rw [← hflag] at hinexact
  refine ⟨_, _, hden, rfl, rfl, rfl, hquotient, hinexact, fun call hcall => ?_⟩
  rcases List.mem_append.mp hcall with hcall | hcall
  · exact hcalls call hcall
  · exact hcalls' call hcall

end Source

end Apollo.M68882
