import Mathlib
import Apollo.Lib.Limbs
import Apollo.Lib.LowBits
import Apollo.M68882.Bignum

/-!
# What the bignum computes

`Bignum.value` is the number in the limbs, and `Bignum.Wf` that as many limbs are in use as it needs.
Every operation keeps the second, and computes on the first what its name says, as long as the result
fits in the 512 limbs; what does not fit is lost without a sign.
-/

namespace Apollo.M68882.Bignum

open Apollo.Lib

variable {a b : Bignum}

/-- How many bits there are in the limbs. -/
@[irreducible] def capacity : ℕ := 32 * 512

theorem capacity_eq : capacity = 32 * 512 := by
  unfold capacity
  rfl

/-- The number. -/
@[irreducible] def value (a : Bignum) : ℕ := ofLimbs a.get 512

theorem value_eq_ofLimbs (a : Bignum) : a.value = ofLimbs a.get 512 := by
  unfold value
  rfl

theorem value_of_clear {n : ℕ} (hn : n ≤ 512) (h : ∀ i, n ≤ i → a.get i = 0) :
    a.value = ofLimbs a.get n := by
  rw [value_eq_ofLimbs]
  exact ofLimbs_of_clear hn fun i hi _ => h i hi

/-- As many limbs are in use as the number needs. -/
structure Wf (a : Bignum) : Prop where
  le : a.used ≤ 512
  clear : ∀ i, a.used ≤ i → a.get i = 0
  top : a.used ≠ 0 → a.get (a.used - 1) ≠ 0

theorem value_lt (a : Bignum) : a.value < 2 ^ capacity := by
  rw [capacity_eq, value_eq_ofLimbs]
  exact ofLimbs_lt a.get 512

theorem get_set (limb : Vector (BitVec 32) 512) (used i j : ℕ) (x : BitVec 32) :
    (⟨limb.setIfInBounds j x, used⟩ : Bignum).get i =
      if i = j ∧ j < 512 then x else (⟨limb, used⟩ : Bignum).get i := by
  unfold get
  dsimp only
  rw [Vector.toList_setIfInBounds, List.getD_eq_getElem?_getD, List.getD_eq_getElem?_getD,
    List.getElem?_set, Vector.length_toList]
  by_cases hij : j = i
  · subst hij
    by_cases hj : j < 512
    · rw [if_pos rfl, if_pos hj, if_pos ⟨rfl, hj⟩]
      rfl
    · rw [if_pos rfl, if_neg hj, if_neg (fun h => hj h.2)]
      rw [List.getElem?_eq_none (by rw [Vector.length_toList]; omega)]
  · rw [if_neg hij, if_neg (fun h => hij h.1.symm)]

theorem get_of_le (a : Bignum) {i : ℕ} (h : 512 ≤ i) : a.get i = 0 := by
  unfold get
  rw [List.getD_eq_getElem?_getD, List.getElem?_eq_none (by rw [Vector.length_toList]; exact h)]
  rfl

/-! ## The limbs in use -/

namespace Wf

theorem value_eq (h : a.Wf) : a.value = ofLimbs a.get a.used :=
  value_of_clear h.le h.clear

theorem value_lt (h : a.Wf) : a.value < 2 ^ (32 * a.used) := by
  rw [h.value_eq]
  exact ofLimbs_lt a.get a.used

theorem le_value (h : a.Wf) (hused : a.used ≠ 0) : 2 ^ (32 * (a.used - 1)) ≤ a.value := by
  rw [h.value_eq]
  exact le_ofLimbs (by omega) (h.top hused)

theorem used_eq_zero_iff (h : a.Wf) : a.used = 0 ↔ a.value = 0 := by
  constructor
  · intro hused
    rw [h.value_eq, hused]
    rfl
  · intro hvalue
    by_contra hused
    have hle := h.le_value hused
    rw [hvalue] at hle
    exact absurd hle (Nat.two_pow_pos _).not_ge

theorem of_bounds (hle : a.used ≤ 512) (hclear : ∀ i, a.used ≤ i → a.get i = 0)
    (hvalue : a.used ≠ 0 → 2 ^ (32 * (a.used - 1)) ≤ a.value) : a.Wf := by
  refine ⟨hle, hclear, fun hused htop => ?_⟩
  have heq : a.value = ofLimbs a.get (a.used - 1) :=
    value_of_clear (by omega) fun i hi => by
      rcases Nat.eq_or_lt_of_le hi with rfl | hlt
      · exact htop
      · exact hclear i (by omega)
  exact absurd (hvalue hused) (by rw [heq]; exact (ofLimbs_lt a.get _).not_ge)

theorem value_lt_of_used_lt (ha : a.Wf) (hb : b.Wf) (h : a.used < b.used) : a.value < b.value :=
  calc a.value < 2 ^ (32 * a.used) := ha.value_lt
    _ ≤ 2 ^ (32 * (b.used - 1)) := Nat.pow_le_pow_right (by decide) (by omega)
    _ ≤ b.value := hb.le_value (by omega)

end Wf

theorem trim_spec (limb : Vector (BitVec 32) 512) (n : ℕ) :
    trim limb n ≤ n ∧ (∀ i, trim limb n ≤ i → i < n → limb.toList.getD i 0 = 0) ∧
      (trim limb n ≠ 0 → limb.toList.getD (trim limb n - 1) 0 ≠ 0) := by
  induction n with
  | zero => exact ⟨le_rfl, fun i _ hi => absurd hi (Nat.not_lt_zero i), fun h => absurd rfl h⟩
  | succ n ih =>
    obtain ⟨hle, hclear, htop⟩ := ih
    unfold trim
    split_ifs with hzero
    · refine ⟨hle.trans (Nat.le_succ n), fun i hi hlt => ?_, htop⟩
      rcases Nat.lt_succ_iff_lt_or_eq.mp hlt with hbelow | rfl
      · exact hclear i hi hbelow
      · exact hzero
    · exact ⟨le_rfl, fun i hi hlt => absurd hlt hi.not_gt, fun _ => hzero⟩

theorem wf_trim (limb : Vector (BitVec 32) 512) {n : ℕ} (hn : n ≤ 512)
    (hclear : ∀ i, n ≤ i → limb.toList.getD i 0 = 0) : (⟨limb, trim limb n⟩ : Bignum).Wf := by
  obtain ⟨hle, hbelow, htop⟩ := trim_spec limb n
  refine ⟨hle.trans hn, fun i hi => ?_, htop⟩
  rcases Nat.lt_or_ge i n with hlt | hge
  · exact hbelow i hi hlt
  · exact hclear i hge

/-! ## A word -/

theorem get_ofWord (x : BitVec 64) (i : ℕ) :
    (ofWord x).get i = if i = 1 then (x >>> 32).setWidth 32 else if i = 0 then x.setWidth 32 else 0 := by
  have hnone : ∀ used, (⟨Vector.replicate 512 0, used⟩ : Bignum).get i = 0 := by
    intro used
    unfold get
    rw [Vector.toList_replicate, List.getD_eq_getElem?_getD, List.getElem?_replicate]
    split_ifs <;> rfl
  unfold ofWord
  rw [get_set, get_set, hnone]
  simp only [show 1 < 512 by decide, show 0 < 512 by decide, and_true]

theorem value_ofWord (x : BitVec 64) : (ofWord x).value = x.toNat := by
  have htwo : (ofWord x).value = ofLimbs (ofWord x).get 2 :=
    value_of_clear (by decide) fun i hi => by
      rw [get_ofWord, if_neg (by omega), if_neg (by omega)]
  rw [htwo, ofLimbs_succ, ofLimbs_succ, get_ofWord, get_ofWord, if_pos rfl, if_neg (by decide), if_pos rfl]
  have hhigh : (x >>> 32).toNat = x.toNat / 2 ^ 32 := by
    rw [BitVec.toNat_ushiftRight, Nat.shiftRight_eq_div_pow]
  have hlt := x.isLt
  rw [BitVec.toNat_setWidth, BitVec.toNat_setWidth, hhigh]
  unfold ofLimbs
  omega

theorem wf_ofWord (x : BitVec 64) : (ofWord x).Wf := by
  have hhigh : x >>> 32 = 0 ↔ x.toNat < 2 ^ 32 := by
    rw [← BitVec.toNat_inj, BitVec.toNat_ushiftRight, Nat.shiftRight_eq_div_pow]
    have hzero : (0 : BitVec 64).toNat = 0 := rfl
    rw [hzero]
    omega
  have hzero : x = 0 ↔ x.toNat = 0 := by
    rw [← BitVec.toNat_inj]
    rfl
  have hused : (ofWord x).used =
      if 2 ^ 32 ≤ x.toNat then 2 else if x.toNat ≠ 0 then 1 else 0 := by
    unfold ofWord
    simp only [ne_eq, hhigh, hzero, not_lt]
  refine Wf.of_bounds ?_ (fun i hi => ?_) fun hne => ?_
  · rw [hused]
    split_ifs <;> decide
  · rw [hused] at hi
    rw [get_ofWord]
    by_cases hone : i = 1
    · rw [if_pos hone, hhigh.mpr (by split_ifs at hi <;> omega)]
      rfl
    · rw [if_neg hone]
      by_cases hnone : i = 0
      · rw [if_pos hnone, hzero.mpr (by split_ifs at hi <;> omega)]
        rfl
      · exact if_neg hnone
  · rw [value_ofWord, hused] at *
    split_ifs with hlarge hnone
    · exact hlarge
    · rw [Nat.sub_self, mul_zero, pow_zero]
      omega
    · rw [hused, if_neg hlarge, if_neg hnone] at hne
      exact absurd rfl hne

/-! ## Multiplication by a word -/

theorem mulSteps_spec (a : Bignum) (m : BitVec 32) {count : ℕ} (h : count ≤ 512) :
    ofLimbs (⟨(a.mulSteps m count).1, 0⟩ : Bignum).get count +
          (a.mulSteps m count).2.toNat * 2 ^ (32 * count) = ofLimbs a.get count * m.toNat ∧
      (a.mulSteps m count).2.toNat < 2 ^ 32 ∧
      ∀ i, count ≤ i → (⟨(a.mulSteps m count).1, 0⟩ : Bignum).get i = a.get i := by
  induction count with
  | zero => exact ⟨(Nat.zero_mul _).symm, show 0 < 2 ^ 32 by decide, fun _ _ => rfl⟩
  | succ count ih =>
    obtain ⟨hvalue, hcarry, hrest⟩ := ih (by omega)
    rcases hsteps : a.mulSteps m count with ⟨limb, carry⟩
    rw [hsteps] at hvalue hcarry hrest
    dsimp only at hvalue hcarry hrest
    have hlimb := (a.get count).isLt
    have hm := m.isLt
    have hmul : (a.get count).toNat * m.toNat ≤ (2 ^ 32 - 1) * (2 ^ 32 - 1) :=
      Nat.mul_le_mul (by omega) (by omega)
    have hproduct : ((a.get count).setWidth 64 * m.setWidth 64 + carry).toNat =
        (a.get count).toNat * m.toNat + carry.toNat := by
      rw [BitVec.toNat_add, BitVec.toNat_mul, BitVec.toNat_setWidth, BitVec.toNat_setWidth]
      rw [Nat.mod_eq_of_lt (by omega : (a.get count).toNat < 2 ^ 64),
        Nat.mod_eq_of_lt (by omega : m.toNat < 2 ^ 64), Nat.mod_eq_of_lt (by omega),
        Nat.mod_eq_of_lt (by omega)]
    have hnext : a.mulSteps m (count + 1) =
        (limb.setIfInBounds count
            (((a.get count).setWidth 64 * m.setWidth 64 + carry).setWidth 32),
          ((a.get count).setWidth 64 * m.setWidth 64 + carry) >>> 32) := by
      rw [mulSteps, hsteps]
    rw [hnext]
    have hlow : (((a.get count).setWidth 64 * m.setWidth 64 + carry).setWidth 32).toNat =
        ((a.get count).toNat * m.toNat + carry.toNat) % 2 ^ 32 := by
      rw [BitVec.toNat_setWidth, hproduct]
    have hhigh : (((a.get count).setWidth 64 * m.setWidth 64 + carry) >>> 32).toNat =
        ((a.get count).toNat * m.toNat + carry.toNat) / 2 ^ 32 := by
      rw [BitVec.toNat_ushiftRight, hproduct, Nat.shiftRight_eq_div_pow]
    dsimp only
    generalize ((a.get count).setWidth 64 * m.setWidth 64 + carry).setWidth 32 = low at hlow ⊢
    generalize ((a.get count).setWidth 64 * m.setWidth 64 + carry) >>> 32 = high at hhigh ⊢
    refine ⟨?_, ?_, fun i hi => ?_⟩
    · have hbelow : ofLimbs (⟨limb.setIfInBounds count low, 0⟩ : Bignum).get count =
          ofLimbs (⟨limb, 0⟩ : Bignum).get count :=
        ofLimbs_congr fun i hi => by rw [get_set, if_neg (by omega)]
      have hsplit := Nat.div_add_mod ((a.get count).toNat * m.toNat + carry.toNat) (2 ^ 32)
      rw [ofLimbs_succ, ofLimbs_succ, hbelow, get_set, if_pos ⟨rfl, by omega⟩, hlow, hhigh, add_mul,
        ← hvalue]
      generalize ((a.get count).toNat * m.toNat + carry.toNat) / 2 ^ 32 = q at hsplit ⊢
      generalize ((a.get count).toNat * m.toNat + carry.toNat) % 2 ^ 32 = r at hsplit ⊢
      have hpow : 2 ^ (32 * (count + 1)) = 2 ^ 32 * 2 ^ (32 * count) := by
        rw [← pow_add]
        ring_nf
      calc ofLimbs (⟨limb, 0⟩ : Bignum).get count + r * 2 ^ (32 * count) + q * 2 ^ (32 * (count + 1))
          = ofLimbs (⟨limb, 0⟩ : Bignum).get count + (2 ^ 32 * q + r) * 2 ^ (32 * count) := by
            rw [hpow]
            ring
        _ = _ := by
            rw [hsplit]
            ring
    · rw [hhigh]
      omega
    · rw [get_set, if_neg (by omega)]
      exact hrest i (by omega)

theorem spill_eq (a : Bignum) {carry : BitVec 64} (hcarry : carry.toNat < 2 ^ 32) (room : ℕ) :
    a.spill carry room =
      if carry = 0 ∨ room = 0 then a
      else { limb := a.limb.setIfInBounds a.used (carry.setWidth 32), used := a.used + 1 } := by
  cases room with
  | zero => rw [spill, if_pos (.inr rfl)]
  | succ room =>
    have hspent : carry >>> 32 = 0 := by
      refine BitVec.eq_of_toNat_eq ?_
      rw [BitVec.toNat_ushiftRight, Nat.shiftRight_eq_div_pow, Nat.div_eq_of_lt hcarry]
      rfl
    rw [spill]
    by_cases hzero : carry = 0
    · rw [if_pos hzero, if_pos (.inl hzero)]
    · rw [if_neg hzero, if_neg (not_or.mpr ⟨hzero, Nat.succ_ne_zero room⟩), hspent]
      cases room with
      | zero => rfl
      | succ room => rw [spill, if_pos rfl]

theorem mulSmall_spec (ha : a.Wf) {m : BitVec 32} (hm : m ≠ 0)
    (hfits : a.value * m.toNat < 2 ^ capacity) :
    (a.mulSmall m).value = a.value * m.toNat ∧ (a.mulSmall m).Wf := by
  obtain ⟨hvalue, hcarry, hrest⟩ := mulSteps_spec a m ha.le
  have hmpos : 0 < m.toNat := Nat.pos_of_ne_zero fun h => hm (BitVec.eq_of_toNat_eq h)
  rw [← ha.value_eq] at hvalue
  unfold mulSmall
  rcases hsteps : a.mulSteps m a.used with ⟨limb, carry⟩
  rw [hsteps] at hvalue hcarry hrest
  dsimp only at hvalue hcarry hrest ⊢
  have hclear : ∀ i, a.used ≤ i → (⟨limb, a.used⟩ : Bignum).get i = 0 :=
    fun i hi => (hrest i hi).trans (ha.clear i hi)
  have hlow : (⟨limb, a.used⟩ : Bignum).value = ofLimbs (⟨limb, 0⟩ : Bignum).get a.used :=
    value_of_clear ha.le hclear
  rw [spill_eq _ hcarry]
  by_cases hzero : carry = 0
  · rw [hzero, show (0 : BitVec 64).toNat = 0 from rfl, zero_mul, add_zero, ← hlow] at hvalue
    rw [if_pos (.inl hzero)]
    refine ⟨hvalue, Wf.of_bounds ha.le hclear fun hused => ?_⟩
    rw [hvalue]
    exact (ha.le_value hused).trans (Nat.le_mul_of_pos_right _ hmpos)
  · have hcpos : 0 < carry.toNat := Nat.pos_of_ne_zero fun h => hzero (BitVec.eq_of_toNat_eq h)
    have hroom : a.used < 512 := by
      by_contra hfull
      have hused : a.used = 512 := le_antisymm ha.le (not_lt.mp hfull)
      rw [← hvalue, capacity_eq, hused] at hfits
      exact absurd hfits
        ((Nat.le_mul_of_pos_left _ hcpos).trans (Nat.le_add_left _ _)).not_gt
    have hset : (⟨limb.setIfInBounds a.used (carry.setWidth 32), a.used + 1⟩ : Bignum).value =
        a.value * m.toNat := by
      have hup : (⟨limb.setIfInBounds a.used (carry.setWidth 32), a.used + 1⟩ : Bignum).value =
          ofLimbs (⟨limb.setIfInBounds a.used (carry.setWidth 32), a.used + 1⟩ : Bignum).get
            (a.used + 1) :=
        value_of_clear hroom fun i hi => by
          rw [get_set, if_neg (by omega)]
          exact hclear i (by omega)
      have hsame : ofLimbs (⟨limb.setIfInBounds a.used (carry.setWidth 32), a.used + 1⟩ : Bignum).get
          a.used = ofLimbs (⟨limb, 0⟩ : Bignum).get a.used :=
        ofLimbs_congr fun i hi => by
          rw [get_set, if_neg (by omega)]
          rfl
      rw [hup, ofLimbs_succ, hsame, get_set, if_pos ⟨rfl, hroom⟩, BitVec.toNat_setWidth,
        Nat.mod_eq_of_lt hcarry, hvalue]
    rw [if_neg (not_or.mpr ⟨hzero, (by omega : 512 - a.used ≠ 0)⟩)]
    refine ⟨hset, Wf.of_bounds hroom (fun i hi => ?_) fun _ => ?_⟩
    · have hup : a.used + 1 ≤ i := hi
      rw [get_set, if_neg (show ¬ (i = a.used ∧ a.used < 512) by omega)]
      exact hclear i (by omega)
    · rw [hset, ← hvalue]
      exact (Nat.le_mul_of_pos_left _ hcpos).trans (Nat.le_add_left _ _)

/-! ## Bits -/

theorem bit_eq (a : Bignum) (k : ℕ) : a.bit k = a.value.testBit k := by
  rw [value_eq_ofLimbs]
  unfold bit
  split_ifs with hlarge
  · exact (testBit_ofLimbs_of_le a.get (by omega)).symm
  · rw [testBit_ofLimbs a.get (by omega), Bool.eq_iff_iff, bne_iff_ne,
      and_bit_ne_zero_iff _ (Nat.mod_lt k (by decide))]
    rfl

theorem anyBelow_eq (a : Bignum) (k : ℕ) : a.anyBelow k = decide (a.value % 2 ^ k ≠ 0) := by
  have hbit : ∀ i < 512 * 32, (a.get (i / 32) &&& (1 : BitVec 32) <<< (i % 32) != 0) =
      a.value.testBit i := by
    intro i hi
    rw [← bit_eq, bit, if_neg (not_le.mpr hi)]
  unfold anyBelow
  rw [Bool.eq_iff_iff, List.any_eq_true, decide_eq_true_iff]
  constructor
  · rintro ⟨i, hi, hset⟩ hzero
    rw [List.mem_range, lt_min_iff] at hi
    rw [hbit i hi.2] at hset
    have hclear : (a.value % 2 ^ k).testBit i = true := by
      rw [Nat.testBit_mod_two_pow, decide_eq_true hi.1, hset]
      rfl
    rw [hzero, Nat.zero_testBit] at hclear
    cases hclear
  · intro hne
    obtain ⟨i, hi⟩ := Nat.exists_testBit_of_ne_zero hne
    rw [Nat.testBit_mod_two_pow, Bool.and_eq_true, decide_eq_true_iff] at hi
    have hin : i < 512 * 32 := by
      by_contra hout
      have hnone : a.bit i = false := if_pos (not_lt.mp hout)
      rw [← bit_eq, hnone] at hi
      cases hi.2
    exact ⟨i, List.mem_range.mpr (lt_min hi.1 hin), by rw [hbit i hin]; exact hi.2⟩

theorem size_eq {n v : ℕ} (hlow : 2 ^ n ≤ v) (hhigh : v < 2 ^ (n + 1)) : v.size = n + 1 :=
  le_antisymm (Nat.size_le.mpr hhigh) (Nat.lt_size.mpr hlow)

theorem countDown_eq (j : ℕ) {top : BitVec 32} {bits : ℕ} (hj : j < bits)
    (hlow : 2 ^ 31 ≤ top.toNat * 2 ^ j) (hhigh : top.toNat * 2 ^ j < 2 ^ 32) :
    countDown top bits = bits - j := by
  have hmsb : ∀ x : BitVec 32, x &&& 0x80000000 = 0 ↔ x.toNat < 2 ^ 31 := by
    intro x
    rw [← not_le, ← msb_iff_le x, not_not]
    rfl
  induction j generalizing top bits with
  | zero =>
    obtain ⟨bits, rfl⟩ := Nat.exists_eq_succ_of_ne_zero (by omega : bits ≠ 0)
    rw [pow_zero, mul_one] at hlow
    rw [Nat.succ_eq_add_one, countDown, if_neg (by rw [hmsb]; omega), Nat.sub_zero]
  | succ j ih =>
    obtain ⟨bits, rfl⟩ := Nat.exists_eq_succ_of_ne_zero (by omega : bits ≠ 0)
    have hmove : top.toNat * 2 ^ (j + 1) = 2 * top.toNat * 2 ^ j := by
      rw [pow_succ]
      ring
    have hpos := Nat.two_pow_pos j
    have hless : 2 * top.toNat < 2 ^ 32 := by
      rw [hmove] at hhigh
      exact (Nat.le_mul_of_pos_right _ hpos).trans_lt hhigh
    have hdouble : (top <<< 1).toNat = 2 * top.toNat := by
      rw [BitVec.toNat_shiftLeft, Nat.shiftLeft_eq, pow_one, Nat.mod_eq_of_lt (by omega), mul_comm]
    rw [Nat.succ_eq_add_one, countDown, if_pos (by rw [hmsb]; omega)]
    rw [ih (by omega) (by rw [hdouble, ← hmove]; exact hlow) (by rw [hdouble, ← hmove]; exact hhigh)]
    omega

theorem bitLength_eq (ha : a.Wf) : a.bitLength = a.value.size := by
  unfold bitLength
  split_ifs with hused
  · rw [ha.used_eq_zero_iff.mp hused, Nat.size_zero]
  · obtain ⟨n, hn⟩ := Nat.exists_eq_succ_of_ne_zero hused
    have htop := ha.top hused
    have hvalue := ha.value_eq
    rw [hn, Nat.succ_sub_one] at htop
    rw [hn, Nat.succ_eq_add_one, ofLimbs_succ] at hvalue
    rw [hn, Nat.succ_sub_one]
    generalize a.get n = top at htop hvalue ⊢
    have hpos : top.toNat ≠ 0 := fun h => htop (BitVec.eq_of_toNat_eq h)
    obtain ⟨s, hs⟩ := Nat.exists_eq_succ_of_ne_zero (Nat.size_pos.mpr (Nat.pos_of_ne_zero hpos)).ne'
    have hle : 2 ^ s ≤ top.toNat := Nat.lt_size.mp (by omega)
    have hlt : top.toNat < 2 ^ (s + 1) := Nat.size_le.mp (by omega)
    have hs32 : s < 32 := (Nat.pow_lt_pow_iff_right (by decide)).mp (hle.trans_lt top.isLt)
    have hbelow := ofLimbs_lt a.get n
    have h31 : s + (31 - s) = 31 := Nat.add_sub_of_le (Nat.le_of_lt_succ hs32)
    rw [countDown_eq (31 - s) (by omega)]
    · have hsize : (n + 1) * 32 - (31 - s) = 32 * n + s + 1 := by omega
      rw [Nat.succ_eq_add_one, hsize, hvalue]
      refine (size_eq ?_ ?_).symm
      · calc 2 ^ (32 * n + s) = 2 ^ s * 2 ^ (32 * n) := by rw [← pow_add, add_comm]
          _ ≤ top.toNat * 2 ^ (32 * n) := Nat.mul_le_mul_right _ hle
          _ ≤ _ := Nat.le_add_left _ _
      · calc ofLimbs a.get n + top.toNat * 2 ^ (32 * n)
            < 2 ^ (32 * n) + top.toNat * 2 ^ (32 * n) := Nat.add_lt_add_right hbelow _
          _ = (top.toNat + 1) * 2 ^ (32 * n) := by ring
          _ ≤ 2 ^ (s + 1) * 2 ^ (32 * n) := Nat.mul_le_mul_right _ hlt
          _ = 2 ^ (32 * n + s + 1) := by rw [← pow_add, add_comm (s + 1), add_assoc]
    · calc 2 ^ 31 = 2 ^ s * 2 ^ (31 - s) := by rw [← pow_add, h31]
        _ ≤ top.toNat * 2 ^ (31 - s) := Nat.mul_le_mul_right _ hle
    · calc top.toNat * 2 ^ (31 - s) < 2 ^ (s + 1) * 2 ^ (31 - s) :=
            Nat.mul_lt_mul_of_pos_right hlt (Nat.two_pow_pos _)
        _ = 2 ^ 32 := by rw [← pow_add, add_right_comm, h31]

end Apollo.M68882.Bignum
