import Mathlib
import Apollo.M68882.BignumArith
import Apollo.M68882.Round

/-!
# Powers of five, division and the top of a bignum

The loops of the conversions over the operations of the bignum. `Call` is one of those operations with
its operands and `Call.Exact` that it computes the number it is for, with no limb lost; the lists of
calls (`mulPow5Calls`, `divideCalls`) are what the loops carry out, in their order. Each loop is right,
and each of its calls exact, where its result fits (`mulPow5_spec`, `divide_spec`).
-/

namespace Apollo.M68882.Bignum

open Apollo.Lib

variable {a numerator denominator : Bignum}

/-- An operation that writes limbs. -/
inductive Call
  | mulSmall (a : Bignum) (multiplier : BitVec 32)
  | shiftLeft (a : Bignum) (bits : Nat)
  | subtract (a b : Bignum)

/-- No limb is lost: the result is the product, the shifted number or the difference. -/
def Call.Exact : Call → Prop
  | mulSmall a multiplier => (a.mulSmall multiplier).value = a.value * multiplier.toNat
  | shiftLeft a bits => (a.shiftLeft bits).value = a.value * 2 ^ bits
  | subtract a b => (a.subtract b).value + b.value = a.value

/-! ## Powers of five -/

/-- What `mulChunks` carries out. -/
def mulChunksCalls (a : Bignum) : Nat → List Call
  | 0 => []
  | chunks + 1 =>
    .mulSmall a 1220703125 :: (a.mulSmall 1220703125).mulChunksCalls chunks

/-- What `mulPow5` carries out. -/
def mulPow5Calls (a : Bignum) (power : Nat) : List Call :=
  a.mulChunksCalls (power / 13) ++
    if power % 13 ≠ 0 then
      [.mulSmall (a.mulChunks (power / 13)) (small.getD (power % 13) 0)]
    else []

theorem mulChunks_spec (ha : a.Wf) {chunks : ℕ} (hfits : a.value * 5 ^ (13 * chunks) < 2 ^ capacity) :
    (a.mulChunks chunks).value = a.value * 5 ^ (13 * chunks) ∧ (a.mulChunks chunks).Wf ∧
      ∀ call ∈ a.mulChunksCalls chunks, call.Exact := by
  induction chunks generalizing a with
  | zero => exact ⟨(Nat.mul_one _).symm, ha, fun _ h => absurd h List.not_mem_nil⟩
  | succ chunks ih =>
    have hword : (1220703125 : BitVec 32).toNat = 5 ^ 13 := by decide
    have hpow : a.value * 5 ^ (13 * (chunks + 1)) = a.value * 5 ^ 13 * 5 ^ (13 * chunks) := by
      rw [mul_assoc, ← pow_add, mul_add, mul_one, add_comm]
    rw [hpow] at hfits ⊢
    have hfirst : a.value * (1220703125 : BitVec 32).toNat < 2 ^ capacity := by
      rw [hword]
      exact (Nat.le_mul_of_pos_right _ (pow_pos (by decide) _)).trans_lt hfits
    obtain ⟨hvalue, hwf⟩ := mulSmall_spec ha (by decide) hfirst
    rw [hword] at hvalue
    rw [← hvalue] at hfits ⊢
    obtain ⟨hrest, hrestWf, hcalls⟩ := ih hwf hfits
    refine ⟨hrest, hrestWf, fun call hcall => ?_⟩
    rcases List.mem_cons.mp hcall with rfl | hcall
    · rw [Call.Exact, hvalue, hword]
    · exact hcalls call hcall

theorem mulPow5_spec (ha : a.Wf) {power : ℕ} (hfits : a.value * 5 ^ power < 2 ^ capacity) :
    (a.mulPow5 power).value = a.value * 5 ^ power ∧ (a.mulPow5 power).Wf ∧
      ∀ call ∈ a.mulPow5Calls power, call.Exact := by
  have hsmall : ∀ r < 13, (small.getD r 0).toNat = 5 ^ r ∧ small.getD r 0 ≠ 0 := by decide
  have hsplit : 5 ^ power = 5 ^ (13 * (power / 13)) * 5 ^ (power % 13) := by
    rw [← pow_add, Nat.div_add_mod]
  rw [hsplit, ← mul_assoc] at hfits ⊢
  obtain ⟨hvalue, hwf, hcalls⟩ :=
    mulChunks_spec ha ((Nat.le_mul_of_pos_right _ (pow_pos (by decide) _)).trans_lt hfits)
  rw [← hvalue] at hfits ⊢
  unfold mulPow5 mulPow5Calls
  dsimp only
  split_ifs with hrest
  · obtain ⟨hword, hne⟩ := hsmall (power % 13) (Nat.mod_lt _ (by decide))
    rw [← hword] at hfits ⊢
    obtain ⟨hlast, hlastWf⟩ := mulSmall_spec hwf hne hfits
    refine ⟨hlast, hlastWf, fun call hcall => ?_⟩
    rcases List.mem_append.mp hcall with hcall | hcall
    · exact hcalls call hcall
    · rw [List.mem_singleton.mp hcall]
      exact hlast
  · rw [not_not.mp hrest, pow_zero, mul_one, List.append_nil]
    exact ⟨rfl, hwf, hcalls⟩

/-! ## Division -/

/-- What `seed` carries out. -/
def seedCalls (numerator : Bignum) (bits : Nat) : Nat → List Call
  | 0 => []
  | count + 1 => numerator.seedCalls bits count ++ [.shiftLeft (numerator.seed bits count) 1]

/-- What `divideSteps` carries out. -/
def divideStepsCalls (numerator denominator : Bignum) : Nat → Bignum × Bignum → List Call
  | 0, _ => []
  | count + 1, (remainder, quotient) =>
    let shifted := remainder.pushBit (numerator.bit count)
    .shiftLeft remainder 1 :: .shiftLeft quotient 1 ::
      if shifted.atLeast denominator && denominator.used != 0 then
        .subtract shifted denominator :: divideStepsCalls numerator denominator count
          (shifted.subtract denominator, quotient.pushBit true)
      else divideStepsCalls numerator denominator count (shifted, quotient.pushBit false)

/-- How many bits of the numerator only fill the remainder. -/
def seeded (numerator denominator : Bignum) : Nat :=
  if 1 < denominator.bitLength ∧ denominator.bitLength ≤ numerator.bitLength then
    denominator.bitLength - 1
  else 0

/-- What `divide` carries out. -/
def divideCalls (numerator denominator : Bignum) : List Call :=
  numerator.seedCalls numerator.bitLength (seeded numerator denominator) ++
    divideStepsCalls numerator denominator (numerator.bitLength - seeded numerator denominator)
      (numerator.seed numerator.bitLength (seeded numerator denominator), ofWord 0)

theorem div_two_pow (n k : ℕ) : n / 2 ^ k = n / 2 ^ (k + 1) * 2 + (n.testBit k).toNat := by
  rw [Nat.testBit_eq_decide_div_mod_eq, pow_succ, ← Nat.div_div_eq_div_mul]
  rcases Nat.mod_two_eq_zero_or_one (n / 2 ^ k) with h | h
  · rw [h, decide_eq_false (by decide)]
    simp only [Bool.toNat_false]
    omega
  · rw [h, decide_eq_true rfl]
    simp only [Bool.toNat_true]
    omega

theorem shiftLeft_one_exact (ha : a.Wf) (h : a.value * 2 < 2 ^ capacity) : (Call.shiftLeft a 1).Exact :=
  (shiftLeft_spec ha (by rw [pow_one]; exact h)).1

theorem seed_spec (numerator : Bignum) {bits : ℕ} (hbits : numerator.value < 2 ^ bits)
    (hle : bits ≤ capacity) {count : ℕ} (hcount : count ≤ bits) :
    (numerator.seed bits count).value = numerator.value / 2 ^ (bits - count) ∧
      (numerator.seed bits count).Wf ∧ ∀ call ∈ numerator.seedCalls bits count, call.Exact := by
  induction count with
  | zero =>
    refine ⟨?_, wf_ofWord 0, fun _ h => absurd h List.not_mem_nil⟩
    rw [Nat.sub_zero, Nat.div_eq_of_lt hbits]
    exact value_ofWord 0
  | succ count ih =>
    obtain ⟨hvalue, hwf, hcalls⟩ := ih (by omega)
    have hplace : bits - count = bits - 1 - count + 1 := by omega
    have hroom : (numerator.seed bits count).value * 2 < 2 ^ capacity := by
      have hless : numerator.value / 2 ^ (bits - count) < 2 ^ count := by
        rw [Nat.div_lt_iff_lt_mul (Nat.two_pow_pos _), ← pow_add, Nat.add_sub_cancel' (by omega)]
        exact hbits
      calc (numerator.seed bits count).value * 2 < 2 ^ count * 2 := by
            rw [hvalue]
            exact Nat.mul_lt_mul_of_pos_right hless two_pos
        _ = 2 ^ (count + 1) := (pow_succ 2 count).symm
        _ ≤ 2 ^ capacity := Nat.pow_le_pow_right (by decide) (hcount.trans hle)
    obtain ⟨hpush, hpushWf⟩ :=
      pushBit_spec hwf (numerator.bit (bits - 1 - count)) hroom
    refine ⟨?_, hpushWf, fun call hcall => ?_⟩
    · rw [seed, hpush, hvalue, bit_eq, hplace, ← div_two_pow,
        show bits - (count + 1) = bits - 1 - count by omega]
    · rcases List.mem_append.mp hcall with hcall | hcall
      · exact hcalls call hcall
      · rw [List.mem_singleton.mp hcall]
        exact shiftLeft_one_exact hwf hroom

/-- What the division keeps: quotient times divisor plus remainder is what has been taken of the
numerator, and the remainder is below the divisor. -/
theorem divideSteps_spec (numerator : Bignum) (hd : denominator.Wf) (hpos : 0 < denominator.value)
    (hfits : denominator.value * 2 ≤ 2 ^ capacity) (count : ℕ) {remainder quotient : Bignum}
    (hrWf : remainder.Wf) (hqWf : quotient.Wf)
    (hsum : remainder.value + quotient.value * denominator.value = numerator.value / 2 ^ count)
    (hless : remainder.value < denominator.value) :
    (divideSteps numerator denominator count (remainder, quotient)).1.value +
          (divideSteps numerator denominator count (remainder, quotient)).2.value * denominator.value =
        numerator.value ∧
      (divideSteps numerator denominator count (remainder, quotient)).1.value < denominator.value ∧
      (divideSteps numerator denominator count (remainder, quotient)).1.Wf ∧
      (divideSteps numerator denominator count (remainder, quotient)).2.Wf ∧
      ∀ call ∈ divideStepsCalls numerator denominator count (remainder, quotient), call.Exact := by
  induction count generalizing remainder quotient with
  | zero =>
    refine ⟨?_, hless, hrWf, hqWf, fun _ h => absurd h List.not_mem_nil⟩
    rw [divideSteps, hsum, pow_zero, Nat.div_one]
  | succ count ih =>
    have hrRoom : remainder.value * 2 < 2 ^ capacity := by omega
    have hqRoom : quotient.value * 2 < 2 ^ capacity := by
      have hle : quotient.value ≤ quotient.value * denominator.value :=
        Nat.le_mul_of_pos_right _ hpos
      have hstep := div_two_pow numerator.value count
      have hall : numerator.value / 2 ^ count ≤ numerator.value := Nat.div_le_self _ _
      have hlt := numerator.value_lt
      omega
    obtain ⟨hshift, hshiftWf⟩ := pushBit_spec hrWf (numerator.bit count) hrRoom
    have hnext : remainder.value * 2 + (numerator.bit count).toNat +
        quotient.value * 2 * denominator.value = numerator.value / 2 ^ count := by
      rw [div_two_pow, ← hsum, bit_eq]
      ring
    have hbound : remainder.value * 2 + (numerator.bit count).toNat < 2 * denominator.value := by
      have hbit := Bool.toNat_le (numerator.bit count)
      omega
    rw [← hshift] at hnext hbound
    have hused : (denominator.used != 0) = true := by
      rw [bne_iff_ne]
      exact fun h => hpos.ne' (hd.used_eq_zero_iff.mp h)
    have hshiftCall := shiftLeft_one_exact hrWf hrRoom
    have hquotientCall := shiftLeft_one_exact hqWf hqRoom
    rw [divideSteps, divideStepsCalls, atLeast_eq hshiftWf hd, hused, Bool.and_true]
    generalize remainder.pushBit (numerator.bit count) = shifted at *
    by_cases hge : denominator.value ≤ shifted.value
    · obtain ⟨hdiff, hdiffWf⟩ := subtract_spec hshiftWf hd hge
      obtain ⟨hpush, hpushWf⟩ := pushBit_spec hqWf true hqRoom
      rw [decide_eq_true hge, if_pos rfl, if_pos rfl]
      obtain ⟨hall, hlast, hwf, hwf', hcalls⟩ := ih hdiffWf hpushWf
        (by
          rw [hpush, Bool.toNat_true, add_mul, one_mul]
          omega)
        (by omega)
      refine ⟨hall, hlast, hwf, hwf', fun call hcall => ?_⟩
      rcases List.mem_cons.mp hcall with rfl | hcall
      · exact hshiftCall
      rcases List.mem_cons.mp hcall with rfl | hcall
      · exact hquotientCall
      rcases List.mem_cons.mp hcall with rfl | hcall
      · exact hdiff
      · exact hcalls call hcall
    · obtain ⟨hpush, hpushWf⟩ := pushBit_spec hqWf false hqRoom
      rw [decide_eq_false hge, if_neg Bool.false_ne_true, if_neg Bool.false_ne_true]
      obtain ⟨hall, hlast, hwf, hwf', hcalls⟩ := ih hshiftWf hpushWf
        (by
          rw [hpush, Bool.toNat_false, add_zero]
          exact hnext)
        (not_le.mp hge)
      refine ⟨hall, hlast, hwf, hwf', fun call hcall => ?_⟩
      rcases List.mem_cons.mp hcall with rfl | hcall
      · exact hshiftCall
      rcases List.mem_cons.mp hcall with rfl | hcall
      · exact hquotientCall
      · exact hcalls call hcall

/-- THE DIVISION IS RIGHT, and loses nothing on the way, for a divisor with one bit to spare. -/
theorem divide_spec (hn : numerator.Wf) (hd : denominator.Wf) (hpos : 0 < denominator.value)
    (hfits : denominator.value * 2 ≤ 2 ^ capacity) :
    (numerator.divide denominator).1.value = numerator.value / denominator.value ∧
      (numerator.divide denominator).1.Wf ∧
      (numerator.divide denominator).2 = decide (numerator.value % denominator.value ≠ 0) ∧
      ∀ call ∈ numerator.divideCalls denominator, call.Exact := by
  have hbits : numerator.value < 2 ^ numerator.bitLength := by
    rw [bitLength_eq hn]
    exact Nat.lt_size_self _
  have hle : numerator.bitLength ≤ capacity := by
    rw [bitLength_eq hn]
    exact Nat.size_le.mpr numerator.value_lt
  have hcount : seeded numerator denominator ≤ numerator.bitLength := by
    unfold seeded
    split_ifs <;> omega
  obtain ⟨hseed, hseedWf, hseedCalls⟩ := seed_spec numerator hbits hle hcount
  have hless : (numerator.seed numerator.bitLength (seeded numerator denominator)).value <
      denominator.value := by
    rw [hseed, Nat.div_lt_iff_lt_mul (Nat.two_pow_pos _)]
    refine hbits.trans_le ?_
    unfold seeded
    split_ifs with hsome
    · have hlow : 2 ^ (denominator.bitLength - 1) ≤ denominator.value := by
        rw [bitLength_eq hd] at hsome ⊢
        exact Nat.lt_size.mp (by omega)
      calc 2 ^ numerator.bitLength
          = 2 ^ (denominator.bitLength - 1) *
              2 ^ (numerator.bitLength - (denominator.bitLength - 1)) := by
            rw [← pow_add, Nat.add_sub_cancel' (by omega)]
        _ ≤ _ := Nat.mul_le_mul_right _ hlow
    · rw [Nat.sub_zero]
      exact Nat.le_mul_of_pos_left _ hpos
  have hzero : (ofWord 0).value = 0 := value_ofWord 0
  obtain ⟨hsum, hlast, hrWf, hqWf, hcalls⟩ := divideSteps_spec numerator hd hpos hfits
    (numerator.bitLength - seeded numerator denominator) hseedWf (wf_ofWord 0)
    (by rw [hzero, zero_mul, add_zero, hseed]) hless
  have hdivide : numerator.divide denominator =
      ((divideSteps numerator denominator (numerator.bitLength - seeded numerator denominator)
          (numerator.seed numerator.bitLength (seeded numerator denominator), ofWord 0)).2,
        (divideSteps numerator denominator (numerator.bitLength - seeded numerator denominator)
          (numerator.seed numerator.bitLength (seeded numerator denominator), ofWord 0)).1.used != 0) :=
    rfl
  rw [hdivide]
  generalize divideSteps numerator denominator (numerator.bitLength - seeded numerator denominator)
    (numerator.seed numerator.bitLength (seeded numerator denominator), ofWord 0) = out at hsum hlast hrWf hqWf
  have hquotient : numerator.value / denominator.value = out.2.value := by
    rw [← hsum, Nat.add_mul_div_right _ _ hpos, Nat.div_eq_of_lt hlast, zero_add]
  have hremainder : numerator.value % denominator.value = out.1.value := by
    rw [← hsum, Nat.add_mul_mod_self_right, Nat.mod_eq_of_lt hlast]
  refine ⟨hquotient.symm, hqWf, ?_, fun call hcall => ?_⟩
  · rw [hremainder, Bool.eq_iff_iff, bne_iff_ne, decide_eq_true_iff]
    exact not_congr hrWf.used_eq_zero_iff
  · rcases List.mem_append.mp hcall with hcall | hcall
    · exact hseedCalls call hcall
    · exact hcalls call hcall

/-! ## The top of a number -/

theorem getLsbD_topBits (a : Bignum) (bits : ℕ) {count : ℕ} (hcount : count ≤ 64) {j : ℕ}
    (hj : j < 64) :
    (a.topBits bits count).getLsbD j =
      (decide (64 ≤ j + count) && (decide (64 ≤ j + bits) && a.value.testBit (j + bits - 64))) := by
  induction count with
  | zero =>
    rw [decide_eq_false (by omega), Bool.false_and]
    exact BitVec.getLsbD_zero
  | succ count ih =>
    have hold := ih (by omega)
    have hbit : ((1 : BitVec 64) <<< (63 - count)).getLsbD j = decide (63 - count = j) := by
      rw [BitVec.getLsbD, toNat_one_shiftLeft (by omega), Nat.testBit_two_pow]
    unfold topBits
    dsimp only
    rw [bit_eq]
    by_cases hplace : j = 63 - count
    · rw [decide_eq_false (by omega), Bool.false_and] at hold
      rw [decide_eq_true (by omega : 64 ≤ j + (count + 1)), Bool.true_and]
      by_cases hin : count < bits
      · have hsame : j + bits - 64 = bits - 1 - count := by omega
        rw [decide_eq_true (by omega), Bool.true_and, hsame]
        cases hset : a.value.testBit (bits - 1 - count) with
        | true =>
          rw [if_pos ⟨hin, rfl⟩, BitVec.getLsbD_or, hold, hbit, decide_eq_true hplace.symm]
          rfl
        | false =>
          rw [if_neg (fun h => Bool.false_ne_true h.2), hold]
      · rw [if_neg (fun h => hin h.1), hold, decide_eq_false (by omega), Bool.false_and]
    · have hsame : decide (64 ≤ j + (count + 1)) = decide (64 ≤ j + count) :=
        decide_eq_decide.mpr (by omega)
      rw [hsame, ← hold]
      split_ifs
      · rw [BitVec.getLsbD_or, hbit, decide_eq_false (fun h => hplace h.symm), Bool.or_false]
      · rfl

theorem toNat_topBits (a : Bignum) {bits : ℕ} (hbits : a.value < 2 ^ bits) :
    (a.topBits bits 64).toNat = a.value * 2 ^ 64 / 2 ^ bits := by
  refine Nat.eq_of_testBit_eq fun j => ?_
  have hquotient : (a.value * 2 ^ 64 / 2 ^ bits).testBit j =
      (decide (64 ≤ j + bits) && a.value.testBit (j + bits - 64)) := by
    rw [Nat.testBit_div_two_pow, mul_comm, Nat.testBit_two_pow_mul]
  rw [hquotient]
  by_cases hj : j < 64
  · have hbit := getLsbD_topBits a bits le_rfl hj
    rwa [decide_eq_true (by omega : 64 ≤ j + 64), Bool.true_and] at hbit
  · have hhigh : a.value.testBit (j + bits - 64) = false :=
      Nat.testBit_lt_two_pow (hbits.trans_le (Nat.pow_le_pow_right (by decide) (by omega)))
    rw [hhigh, Bool.and_false]
    exact Nat.testBit_lt_two_pow
      ((a.topBits bits 64).isLt.trans_le (Nat.pow_le_pow_right (by decide) (by omega)))

/-- The top 64 bits of a number, the bit below and whether there is more, when `r₀ / d₀` is known to be
below it all. -/
theorem encodes_top {v : ℕ} (hne : v ≠ 0) {sticky : Bool} {r₀ d₀ : ℕ} (hr₀ : r₀ < d₀)
    (hsticky : sticky = decide (r₀ ≠ 0)) (hwide : 64 < v.size ∨ r₀ = 0) :
    2 ^ 63 ≤ v * 2 ^ 64 / 2 ^ v.size ∧
      ∃ r d : ℕ, r < d ∧
        Direction.Encodes (decide (64 < v.size) && v.testBit (v.size - 65))
          (sticky || (decide (65 < v.size) && decide (v % 2 ^ (v.size - 65) ≠ 0))) r d ∧
        (v * 2 ^ 64 / 2 ^ v.size * d + r) * d₀ * 2 ^ v.size = (v * d₀ + r₀) * d * 2 ^ 64 := by
  obtain ⟨n, hn⟩ := Nat.exists_eq_succ_of_ne_zero (Nat.size_pos.mpr (Nat.pos_of_ne_zero hne)).ne'
  have hlow : 2 ^ n ≤ v := Nat.lt_size.mp (by omega)
  have hset : 2 ^ 63 ≤ v * 2 ^ 64 / 2 ^ v.size := by
    rw [Nat.le_div_iff_mul_le (Nat.two_pow_pos _), hn, Nat.succ_eq_add_one]
    calc 2 ^ 63 * 2 ^ (n + 1) = 2 ^ n * 2 ^ 64 := by rw [← pow_add, ← pow_add]; congr 1; omega
      _ ≤ v * 2 ^ 64 := Nat.mul_le_mul_right _ hlow
  refine ⟨hset, ?_⟩
  by_cases hlong : 64 < v.size
  · obtain ⟨k, hk⟩ : ∃ k, v.size = 65 + k := ⟨v.size - 65, by omega⟩
    have hscale : 2 ^ v.size = 2 ^ 64 * (2 * 2 ^ k) := by
      rw [hk, ← pow_succ', ← pow_add]
      congr 1
      omega
    have hdiv : v * 2 ^ 64 / 2 ^ v.size = v / (2 * 2 ^ k) := by
      rw [hscale, mul_comm v, Nat.mul_div_mul_left _ _ (Nat.two_pow_pos 64)]
    have hpow : 2 ^ (k + 1) = 2 * 2 ^ k := pow_succ' 2 k
    have hguard : (decide (64 < v.size) && v.testBit (v.size - 65)) =
        decide (2 ^ k ≤ v % (2 * 2 ^ k)) := by
      rw [decide_eq_true hlong, Bool.true_and, hk, Nat.add_sub_cancel_left, Bool.eq_iff_iff,
        testBit_iff_le_mod, decide_eq_true_iff, hpow]
    have hrest : (sticky || (decide (65 < v.size) &&
        decide (v % 2 ^ (v.size - 65) ≠ 0))) =
        decide (v % (2 * 2 ^ k) % 2 ^ k ≠ 0 ∨ r₀ ≠ 0) := by
      have hmod : v % (2 * 2 ^ k) % 2 ^ k = v % 2 ^ k :=
        Nat.mod_mod_of_dvd _ (Dvd.intro_left 2 rfl)
      have hall : (decide (65 < v.size) && decide (v % 2 ^ (v.size - 65) ≠ 0)) =
          decide (v % 2 ^ k ≠ 0) := by
        rw [hk, Nat.add_sub_cancel_left]
        cases k with
        | zero => rw [pow_zero, Nat.mod_one]; rfl
        | succ k => rw [decide_eq_true (by omega), Bool.true_and]
      rw [hall, hsticky, hmod, ← Bool.decide_or]
      exact decide_eq_decide.mpr or_comm
    have hencodes := encodes_fold hr₀ (Nat.mod_lt _ (Nat.mul_pos two_pos (Nat.two_pow_pos k)))
      hguard hrest
    refine ⟨v % (2 * 2 ^ k) * d₀ + r₀, 2 * 2 ^ k * d₀, ?_, hencodes, ?_⟩
    · have hmod : v % (2 * 2 ^ k) + 1 ≤ 2 * 2 ^ k :=
        Nat.mod_lt _ (Nat.mul_pos two_pos (Nat.two_pow_pos k))
      calc v % (2 * 2 ^ k) * d₀ + r₀ < v % (2 * 2 ^ k) * d₀ + d₀ := by omega
        _ = (v % (2 * 2 ^ k) + 1) * d₀ := by ring
        _ ≤ 2 * 2 ^ k * d₀ := Nat.mul_le_mul_right _ hmod
    · have hsplit := Nat.div_add_mod v (2 * 2 ^ k)
      rw [hdiv, hscale]
      generalize v / (2 * 2 ^ k) = q at hsplit ⊢
      generalize v % (2 * 2 ^ k) = r at hsplit ⊢
      generalize 2 * 2 ^ k = p at hsplit ⊢
      rw [← hsplit]
      ring
  · have hnone : r₀ = 0 := hwide.resolve_left hlong
    have hexact : v * 2 ^ 64 / 2 ^ v.size * 2 ^ v.size = v * 2 ^ 64 := by
      refine Nat.div_mul_cancel ((pow_dvd_pow 2 (by omega)).trans (Dvd.intro_left v rfl))
    refine ⟨0, 1, one_pos, ⟨?_, ?_⟩, ?_⟩
    · rw [decide_eq_false hlong, Bool.false_and]
      rfl
    · rw [hsticky, hnone, decide_eq_false (show ¬ 65 < v.size by omega), Bool.false_and]
      rfl
    · calc (v * 2 ^ 64 / 2 ^ v.size * 1 + 0) * d₀ * 2 ^ v.size
          = (v * 2 ^ 64 / 2 ^ v.size * 2 ^ v.size) * d₀ := by ring
        _ = (v * d₀ + r₀) * 1 * 2 ^ 64 := by
            rw [hexact, hnone]
            ring

/-- THE TOP STANDS FOR THE WHOLE NUMBER, with `r₀ / d₀` more below it that the caller knows of: as a
mantissa with the top bit set, and two bits for the rest. -/
theorem top_spec (ha : a.Wf) (hne : a.value ≠ 0) {sticky : Bool} {r₀ d₀ : ℕ} (hr₀ : r₀ < d₀)
    (hsticky : sticky = decide (r₀ ≠ 0)) (hwide : 64 < a.value.size ∨ r₀ = 0) :
    (a.top sticky).bits = a.value.size ∧ 2 ^ 63 ≤ (a.top sticky).mantissa.toNat ∧
      ∃ r d : ℕ, r < d ∧
        Direction.Encodes (a.top sticky).guard (a.top sticky).sticky r d ∧
        ((a.top sticky).mantissa.toNat * d + r) * d₀ * 2 ^ a.value.size =
          (a.value * d₀ + r₀) * d * 2 ^ 64 := by
  have hmantissa := toNat_topBits a (Nat.lt_size_self a.value)
  have hsize : a.value.size ≠ 0 := (Nat.size_pos.mpr (Nat.pos_of_ne_zero hne)).ne'
  have htop : a.top sticky =
      { bits := a.value.size
        mantissa := a.topBits a.value.size 64
        guard := decide (64 < a.value.size) && a.value.testBit (a.value.size - 65)
        sticky := sticky || (decide (65 < a.value.size) &&
          decide (a.value % 2 ^ (a.value.size - 65) ≠ 0)) } := by
    unfold top
    rw [bitLength_eq ha]
    dsimp only
    rw [if_neg hsize, bit_eq, anyBelow_eq]
  rw [htop]
  dsimp only
  rw [hmantissa]
  exact ⟨rfl, encodes_top hne hr₀ hsticky hwide⟩

end Apollo.M68882.Bignum
