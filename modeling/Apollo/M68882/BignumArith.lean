import Mathlib
import Apollo.M68882.BignumValue

/-!
# Shifting, comparing and subtracting bignums

The other operations of the bignum that write or compare limbs, each with what it makes of the numbers.
-/

namespace Apollo.M68882.Bignum

open Apollo.Lib

variable {a b : Bignum}

/-! ## Shifts -/

theorem getLsbD_get (a : Bignum) (i : ℕ) {j : ℕ} (hj : j < 32) :
    (a.get i).getLsbD j = a.value.testBit (32 * i + j) := by
  have hdiv : (32 * i + j) / 32 = i := by omega
  have hmod : (32 * i + j) % 32 = j := by omega
  by_cases hi : i < 512
  · rw [value_eq_ofLimbs, testBit_ofLimbs a.get (by omega : 32 * i + j < 32 * 512), hdiv, hmod]
  · rw [value_eq_ofLimbs, testBit_ofLimbs_of_le a.get (by omega : 32 * 512 ≤ 32 * i + j),
      get_of_le a (not_lt.mp hi)]
    exact BitVec.getLsbD_zero

theorem value_eq_of_testBit {n : ℕ} (hn : n < 2 ^ capacity)
    (h : ∀ i < 512, ∀ j < 32, (a.get i).getLsbD j = n.testBit (32 * i + j)) : a.value = n := by
  refine Nat.eq_of_testBit_eq fun k => ?_
  by_cases hk : k < 32 * 512
  · have hplace : 32 * (k / 32) + k % 32 = k := Nat.div_add_mod k 32
    rw [← hplace, ← getLsbD_get a _ (Nat.mod_lt k (by decide))]
    exact h _ (by omega) _ (Nat.mod_lt k (by decide))
  · have hout : capacity ≤ k := by
      rw [capacity_eq]
      exact not_lt.mp hk
    rw [value_eq_ofLimbs, testBit_ofLimbs_of_le a.get (not_lt.mp hk)]
    exact (Nat.testBit_lt_two_pow (hn.trans_le (Nat.pow_le_pow_right (by decide) hout))).symm

theorem get_shiftLeft {bits : ℕ} (h : ¬ (a.used = 0 ∨ bits = 0)) {i : ℕ} (hi : i < 512) :
    (a.shiftLeft bits).get i =
      if bits / 32 ≤ i then
        if bits % 32 ≠ 0 then
          (a.get (i - bits / 32)) <<< (bits % 32) |||
            (if bits / 32 < i then a.get (i - bits / 32 - 1) >>> (32 - bits % 32) else 0)
        else a.get (i - bits / 32)
      else 0 := by
  unfold shiftLeft
  rw [if_neg h]
  unfold get
  dsimp only
  rw [List.getD_eq_getElem?_getD, Vector.getElem?_toList, Vector.getElem?_ofFn, dif_pos hi]
  rfl

theorem getLsbD_get_shiftLeft {bits : ℕ} (h : ¬ (a.used = 0 ∨ bits = 0)) {i j : ℕ} (hi : i < 512)
    (hj : j < 32) :
    ((a.shiftLeft bits).get i).getLsbD j =
      (decide (bits ≤ 32 * i + j) && a.value.testBit (32 * i + j - bits)) := by
  have hbits := Nat.div_add_mod bits 32
  have hrest := Nat.mod_lt bits (show 0 < 32 by decide)
  rw [get_shiftLeft h hi]
  generalize bits / 32 = words at hbits ⊢
  generalize bits % 32 = rest at hbits hrest ⊢
  by_cases hwords : words ≤ i
  · obtain ⟨up, rfl⟩ := Nat.exists_eq_add_of_le hwords
    rw [if_pos hwords, Nat.add_sub_cancel_left]
    by_cases hzero : rest = 0
    · rw [if_neg (not_not.mpr hzero), getLsbD_get a _ hj, decide_eq_true (by omega), Bool.true_and]
      congr 1
      omega
    · rw [if_pos hzero, BitVec.getLsbD_or, BitVec.getLsbD_shiftLeft, decide_eq_true hj, Bool.true_and]
      by_cases hlow : j < rest
      · rw [decide_eq_true hlow, Bool.not_true, Bool.false_and, Bool.false_or]
        cases up with
        | zero =>
          rw [if_neg (by omega), decide_eq_false (by omega), Bool.false_and]
          exact BitVec.getLsbD_zero
        | succ up =>
          rw [if_pos (by omega), Nat.add_sub_cancel, BitVec.getLsbD_ushiftRight,
            getLsbD_get a _ (by omega), decide_eq_true (by omega), Bool.true_and]
          congr 1
          omega
      · have hnone : (if words < words + up then a.get (up - 1) >>> (32 - rest)
            else (0 : BitVec 32)).getLsbD j = false := by
          split_ifs
          · rw [BitVec.getLsbD_ushiftRight]
            exact BitVec.getLsbD_of_ge _ _ (by omega)
          · exact BitVec.getLsbD_zero
        rw [hnone, Bool.or_false, decide_eq_false hlow, Bool.not_false, Bool.true_and,
          getLsbD_get a _ (by omega), decide_eq_true (by omega), Bool.true_and]
        congr 1
        omega
  · rw [if_neg hwords, decide_eq_false (by omega), Bool.false_and]
    exact BitVec.getLsbD_zero

theorem shiftLeft_spec (ha : a.Wf) {bits : ℕ} (hfits : a.value * 2 ^ bits < 2 ^ capacity) :
    (a.shiftLeft bits).value = a.value * 2 ^ bits ∧ (a.shiftLeft bits).Wf := by
  by_cases hnone : a.used = 0 ∨ bits = 0
  · have hsame : a.shiftLeft bits = a := if_pos hnone
    rw [hsame]
    refine ⟨?_, ha⟩
    rcases hnone with hzero | hzero
    · rw [ha.used_eq_zero_iff.mp hzero, zero_mul]
    · rw [hzero, pow_zero, mul_one]
  · refine ⟨value_eq_of_testBit hfits fun i hi j hj => ?_, ?_⟩
    · rw [getLsbD_get_shiftLeft hnone hi hj, mul_comm a.value, Nat.testBit_two_pow_mul]
    · unfold shiftLeft
      rw [if_neg hnone]
      exact wf_trim _ le_rfl fun i hi => get_of_le ⟨_, 0⟩ hi

theorem pushBit_spec (ha : a.Wf) (bit : Bool) (hroom : a.value * 2 < 2 ^ capacity) :
    (a.pushBit bit).value = a.value * 2 + bit.toNat ∧ (a.pushBit bit).Wf := by
  have hfits : a.value * 2 + 1 < 2 ^ capacity := by
    have heven : 2 ^ capacity = 2 * 2 ^ (capacity - 1) := by
      rw [mul_comm, Nat.two_pow_pred_mul_two (by rw [capacity_eq]; decide)]
    rw [heven] at hroom ⊢
    omega
  have hone : a.value * 2 ^ 1 < 2 ^ capacity := by
    rw [pow_one]
    exact hroom
  obtain ⟨hvalue, hwf⟩ := shiftLeft_spec ha hone
  rw [pow_one] at hvalue
  unfold pushBit
  generalize a.shiftLeft 1 = s at hvalue hwf ⊢
  have hhalf : (a.value * 2 + 1) / 2 = a.value * 2 / 2 := by omega
  cases bit with
  | false =>
    rw [Bool.toNat_false, add_zero]
    simp only [Bool.false_eq_true, if_false]
    exact ⟨hvalue, hwf⟩
  | true =>
    have hget : ∀ used i, (⟨s.limb.setIfInBounds 0 (s.get 0 ||| 1), used⟩ : Bignum).get i =
        if i = 0 then s.get 0 ||| 1 else s.get i := by
      intro used i
      rw [get_set]
      simp only [show 0 < 512 by decide, and_true]
      rfl
    have hsum : ∀ used, (⟨s.limb.setIfInBounds 0 (s.get 0 ||| 1), used⟩ : Bignum).value =
        a.value * 2 + 1 := by
      intro used
      refine value_eq_of_testBit hfits fun i hi j hj => ?_
      have hold := getLsbD_get s i hj
      rw [hvalue] at hold
      rw [hget]
      by_cases hzero : i = 0
      · subst hzero
        rw [if_pos rfl, BitVec.getLsbD_or, hold, mul_zero, zero_add]
        cases j with
        | zero =>
          have hodd : (a.value * 2 + 1).testBit 0 = true := by
            rw [Nat.testBit_zero, decide_eq_true (by omega)]
          rw [hodd]
          exact Bool.or_true _
        | succ j =>
          have hone : (1 : BitVec 32).getLsbD (j + 1) = false := by simp
          rw [hone, Bool.or_false, Nat.testBit_succ, Nat.testBit_succ, hhalf]
      · obtain ⟨k, hk⟩ : ∃ k, 32 * i + j = k + 1 := ⟨32 * i + j - 1, by omega⟩
        rw [if_neg hzero, hold, hk, Nat.testBit_succ, Nat.testBit_succ, hhalf]
    refine ⟨hsum _, Wf.of_bounds ?_ (fun i hi => ?_) fun _ => ?_⟩
    · have hle := hwf.le
      show (if s.used = 0 then 1 else s.used) ≤ 512
      split_ifs <;> omega
    · have hup : (if s.used = 0 then 1 else s.used) ≤ i := hi
      have hused : s.used ≤ i ∧ i ≠ 0 := by split_ifs at hup <;> omega
      refine (hget _ i).trans ?_
      rw [if_neg hused.2]
      exact hwf.clear i hused.1
    · refine le_of_le_of_eq ?_ (hsum _).symm
      show 2 ^ (32 * ((if s.used = 0 then 1 else s.used) - 1)) ≤ _
      split_ifs with hzero
      · rw [Nat.sub_self, mul_zero, pow_zero]
        omega
      · exact (hwf.le_value hzero).trans (by rw [hvalue]; omega)

/-! ## Comparison -/

theorem atLeastBelow_eq (a b : Bignum) (count : ℕ) :
    a.atLeastBelow b count = decide (ofLimbs b.get count ≤ ofLimbs a.get count) := by
  induction count with
  | zero => rfl
  | succ count ih =>
    unfold atLeastBelow
    split_ifs with hne
    · refine decide_eq_decide.mpr ⟨fun hlt => ?_, fun hle => ?_⟩
      · exact (ofLimbs_succ_lt (BitVec.lt_def.mp hlt)).le
      · rw [BitVec.lt_def]
        have hdiff : (a.get count).toNat ≠ (b.get count).toNat := fun h => hne (BitVec.eq_of_toNat_eq h)
        by_contra hge
        exact hle.not_gt (ofLimbs_succ_lt (by omega))
    · rw [ih, ofLimbs_succ, ofLimbs_succ, not_not.mp hne]
      exact decide_eq_decide.mpr (Nat.add_le_add_iff_right).symm

theorem atLeast_eq (ha : a.Wf) (hb : b.Wf) : a.atLeast b = decide (b.value ≤ a.value) := by
  unfold atLeast
  split_ifs with hne
  · refine decide_eq_decide.mpr ⟨fun hlt => (hb.value_lt_of_used_lt ha hlt).le, fun hle => ?_⟩
    by_contra hge
    exact hle.not_gt (ha.value_lt_of_used_lt hb (by omega))
  · rw [atLeastBelow_eq, ← ha.value_eq, not_not.mp hne, ← hb.value_eq]

/-! ## Subtraction -/

theorem subtractSteps_spec (a : Bignum) (hb : b.Wf) {count : ℕ} (h : count ≤ 512) :
    ofLimbs (⟨(a.subtractSteps b count).1, 0⟩ : Bignum).get count + ofLimbs b.get count =
        ofLimbs a.get count + (a.subtractSteps b count).2.toNat * 2 ^ (32 * count) ∧
      (a.subtractSteps b count).2.toNat ≤ 1 ∧
      ∀ i, count ≤ i → (⟨(a.subtractSteps b count).1, 0⟩ : Bignum).get i = a.get i := by
  induction count with
  | zero => exact ⟨congrArg (0 + ·) (Nat.zero_mul _).symm, show 0 ≤ 1 by decide, fun _ _ => rfl⟩
  | succ count ih =>
    obtain ⟨hvalue, hborrow, hrest⟩ := ih (by omega)
    rcases hsteps : a.subtractSteps b count with ⟨limb, borrow⟩
    rw [hsteps] at hvalue hborrow hrest
    dsimp only at hvalue hborrow hrest
    have hused : (if count < b.used then (b.get count).setWidth 64 else 0) = (b.get count).setWidth 64 := by
      split_ifs with hlt
      · rfl
      · rw [hb.clear count (not_lt.mp hlt)]
        rfl
    have hnext : a.subtractSteps b (count + 1) =
        (limb.setIfInBounds count (((a.get count).setWidth 64 -
            ((b.get count).setWidth 64 + borrow)).setWidth 32),
          if (a.get count).setWidth 64 < (b.get count).setWidth 64 + borrow then 1 else 0) := by
      rw [subtractSteps, hsteps]
      dsimp only
      rw [hused]
    rw [hnext]
    have hleft := (a.get count).isLt
    have hright := (b.get count).isLt
    have hsum : ((b.get count).setWidth 64 + borrow).toNat = (b.get count).toNat + borrow.toNat := by
      rw [BitVec.toNat_add, BitVec.toNat_setWidth, Nat.mod_eq_of_lt (by omega), Nat.mod_eq_of_lt (by omega)]
    have hlow : (((a.get count).setWidth 64 - ((b.get count).setWidth 64 + borrow)).setWidth 32).toNat =
        (2 ^ 64 - ((b.get count).toNat + borrow.toNat) + (a.get count).toNat) % 2 ^ 64 % 2 ^ 32 := by
      rw [BitVec.toNat_setWidth, BitVec.toNat_sub, hsum, BitVec.toNat_setWidth,
        Nat.mod_eq_of_lt (by omega : (a.get count).toNat < 2 ^ 64)]
    have hhigh : (if (a.get count).setWidth 64 < (b.get count).setWidth 64 + borrow then
        (1 : BitVec 64) else 0).toNat =
        if (a.get count).toNat < (b.get count).toNat + borrow.toNat then 1 else 0 := by
      have hlt : (a.get count).setWidth 64 < (b.get count).setWidth 64 + borrow ↔
          (a.get count).toNat < (b.get count).toNat + borrow.toNat := by
        rw [BitVec.lt_def, hsum, BitVec.toNat_setWidth,
          Nat.mod_eq_of_lt (by omega : (a.get count).toNat < 2 ^ 64)]
      rw [if_congr hlt rfl rfl]
      split_ifs <;> rfl
    dsimp only
    generalize ((a.get count).setWidth 64 - ((b.get count).setWidth 64 + borrow)).setWidth 32 = low
      at hlow ⊢
    generalize (if (a.get count).setWidth 64 < (b.get count).setWidth 64 + borrow then
      (1 : BitVec 64) else 0) = high at hhigh ⊢
    refine ⟨?_, ?_, fun i hi => ?_⟩
    · have hbelow : ofLimbs (⟨limb.setIfInBounds count low, 0⟩ : Bignum).get count =
          ofLimbs (⟨limb, 0⟩ : Bignum).get count :=
        ofLimbs_congr fun i hi => by rw [get_set, if_neg (by omega)]
      have hlimb : low.toNat + ((b.get count).toNat + borrow.toNat) =
          (a.get count).toNat + high.toNat * 2 ^ 32 := by
        rw [hlow, hhigh]
        split_ifs with hless <;> omega
      have hpow : 2 ^ (32 * (count + 1)) = 2 ^ 32 * 2 ^ (32 * count) := by
        rw [← pow_add]
        ring_nf
      rw [ofLimbs_succ, ofLimbs_succ, ofLimbs_succ, hbelow, get_set, if_pos ⟨rfl, by omega⟩, hpow]
      generalize 2 ^ (32 * count) = p at hvalue ⊢
      generalize ofLimbs (⟨limb, 0⟩ : Bignum).get count = l at hvalue ⊢
      calc l + low.toNat * p + (ofLimbs b.get count + (b.get count).toNat * p)
          = (l + ofLimbs b.get count) + (low.toNat + (b.get count).toNat) * p := by ring
        _ = ofLimbs a.get count + (low.toNat + ((b.get count).toNat + borrow.toNat)) * p := by
            rw [hvalue]
            ring
        _ = _ := by
            rw [hlimb]
            ring
    · rw [hhigh]
      split_ifs <;> decide
    · rw [get_set, if_neg (by omega)]
      exact hrest i (by omega)

theorem subtract_spec (ha : a.Wf) (hb : b.Wf) (hle : b.value ≤ a.value) :
    (a.subtract b).value + b.value = a.value ∧ (a.subtract b).Wf := by
  obtain ⟨hvalue, hborrow, hrest⟩ := subtractSteps_spec a hb ha.le
  have hused : b.used ≤ a.used := by
    by_contra hlt
    exact hle.not_gt (ha.value_lt_of_used_lt hb (not_le.mp hlt))
  have hbvalue : ofLimbs b.get a.used = b.value :=
    (ofLimbs_of_clear hused fun i hi _ => hb.clear i hi).trans hb.value_eq.symm
  have hlt := ofLimbs_lt (⟨(a.subtractSteps b a.used).1, 0⟩ : Bignum).get a.used
  have hclear : ∀ i, a.used ≤ i → (⟨(a.subtractSteps b a.used).1, 0⟩ : Bignum).get i = 0 :=
    fun i hi => (hrest i hi).trans (ha.clear i hi)
  rw [hbvalue, ← ha.value_eq] at hvalue
  have hnone : (a.subtractSteps b a.used).2.toNat = 0 := by
    by_contra hsome
    have hone : (a.subtractSteps b a.used).2.toNat = 1 := by omega
    rw [hone, one_mul] at hvalue
    omega
  rw [hnone, zero_mul, add_zero] at hvalue
  refine ⟨?_, wf_trim _ ha.le hclear⟩
  have hlow : (a.subtract b).value =
      ofLimbs (⟨(a.subtractSteps b a.used).1, 0⟩ : Bignum).get a.used :=
    value_of_clear ha.le hclear
  rw [hlow, hvalue]

end Apollo.M68882.Bignum
