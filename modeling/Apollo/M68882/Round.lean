import Mathlib
import Apollo.M68882.Format

/-!
# The rounding of the MC68882

`src/core/cpu/m68882/ap_m68882_round.c`: an intermediate result has a guard, a round and a sticky bit
below its mantissa, and is rounded to so many bits of it. `roundToBits_spec` says that this is ONE
rounding of what the mantissa and the three bits stand for, wherever the boundary is.
-/

namespace Apollo.M68882

open Apollo.Lib

/-- An intermediate result, with the three bits below its mantissa. -/
structure Intermediate where
  value : Extended
  guard : Bool
  roundBit : Bool
  sticky : Bool

/-- `ap_m68882_round_result_t`. -/
structure RoundResult where
  value : Extended
  inexact : Bool

namespace Intermediate

/-- The boundary moves up the mantissa, and what is below it folds into the three bits. -/
def fold (x : Intermediate) (keep : Nat) : Intermediate :=
  if keep < 64 then
    let drop := 64 - keep
    let mask := (1 : BitVec 64) <<< drop - 1
    let below := x.value.mantissa &&& mask
    let restMask := if 2 ≤ drop then (1 : BitVec 64) <<< (drop - 2) - 1 else 0
    { value := { x.value with mantissa := x.value.mantissa &&& ~~~mask }
      guard := below &&& (1 : BitVec 64) <<< (drop - 1) != 0
      roundBit := decide (2 ≤ drop) && below &&& (1 : BitVec 64) <<< (drop - 2) != 0
      sticky := below &&& restMask != 0 || x.guard || x.roundBit || x.sticky }
  else x

/-- Figure 6-3: whether the least significant bit that is kept goes up. -/
def increments (x : Intermediate) (mode : Rounding) (lsb : BitVec 64) : Bool :=
  match mode with
  | .minusInfinity => x.value.sign
  | .nearest =>
    if x.guard && !x.roundBit && !x.sticky then x.value.mantissa &&& lsb != 0 else x.guard
  | .plusInfinity => !x.value.sign
  | .zero => false

end Intermediate

/-- One more in the last place; a carry out of the mantissa goes to the exponent. -/
def Extended.increment (value : Extended) (lsb : BitVec 64) : Extended :=
  let mantissa := value.mantissa + lsb
  if mantissa < value.mantissa then
    { value with mantissa := mantissa >>> 1 ||| integerBit, exponent := value.exponent + 1 }
  else { value with mantissa := mantissa }

/-- `ap_m68882_round_to_bits`. -/
def roundToBits (value : Extended) (guard roundBit sticky : Bool) (mode : Rounding) (keep : Nat) :
    RoundResult :=
  if keep < 1 ∨ 64 < keep then { value := value, inexact := false }
  else
    let x := Intermediate.fold ⟨value, guard, roundBit, sticky⟩ keep
    let lsb := (1 : BitVec 64) <<< (64 - keep)
    if !x.guard && !x.roundBit && !x.sticky then { value := x.value, inexact := false }
    else if x.increments mode lsb then { value := x.value.increment lsb, inexact := true }
    else { value := x.value, inexact := true }

/-- `ap_m68882_precision_t`. -/
inductive Precision
  | extended
  | single
  | double
  | reserved
deriving DecidableEq

/-- `ap_m68882_precision_bits`. -/
def Precision.bits : Precision → Nat
  | single => 24
  | double => 53
  | extended => 64
  | reserved => 64

/-- `ap_m68882_round`. -/
def round (value : Extended) (guard roundBit sticky : Bool) (mode : Rounding) (precision : Precision) :
    RoundResult :=
  roundToBits value guard roundBit sticky mode precision.bits

/-! ## What the bits stand for -/

theorem encodes_fold {guard sticky : Bool} {mm r d h : ℕ} (hr : r < d) (hmm : mm < 2 * h)
    (hguard : guard = decide (h ≤ mm)) (hsticky : sticky = decide (mm % h ≠ 0 ∨ r ≠ 0)) :
    Direction.Encodes guard sticky (mm * d + r) (2 * h * d) := by
  have hd : 0 < d := Nat.zero_lt_of_lt hr
  have hhalf : 2 * h * d = 2 * (h * d) := by ring
  rcases Nat.lt_or_ge mm h with hlow | hhigh
  · have hlt : mm * d + r < h * d := by
      calc mm * d + r < mm * d + d := by omega
        _ = (mm + 1) * d := by ring
        _ ≤ h * d := Nat.mul_le_mul_right d hlow
    refine ⟨?_, ?_⟩
    · rw [hguard]
      exact decide_eq_decide.mpr (by omega)
    · rw [hsticky, Nat.mod_eq_of_lt hlow]
      refine decide_eq_decide.mpr ?_
      have hzero : mm * d = 0 ↔ mm = 0 := by
        rw [Nat.mul_eq_zero]
        exact or_iff_left hd.ne'
      omega
  · obtain ⟨k, rfl⟩ := Nat.exists_eq_add_of_le hhigh
    have hk : k < h := by omega
    have hexpand : (h + k) * d = h * d + k * d := by ring
    have hmod : (h + k) % h = k := by rw [Nat.add_mod_left, Nat.mod_eq_of_lt hk]
    refine ⟨?_, ?_⟩
    · rw [hguard]
      exact decide_eq_decide.mpr (by omega)
    · rw [hsticky, hmod]
      refine decide_eq_decide.mpr ?_
      have hzero : k * d = 0 ↔ k = 0 := by
        rw [Nat.mul_eq_zero]
        exact or_iff_left hd.ne'
      have hhd : 0 < h * d := Nat.mul_pos (by omega) hd
      omega

theorem below_guard_eq_zero_iff (mantissa : BitVec 64) {drop : Nat} (hpos : 0 < drop)
    (hdrop : drop < 64) :
    (decide (2 ≤ drop) && mantissa &&& ((1 : BitVec 64) <<< drop - 1) &&& (1 : BitVec 64) <<< (drop - 2) != 0 ||
        mantissa &&& ((1 : BitVec 64) <<< drop - 1) &&&
          (if 2 ≤ drop then (1 : BitVec 64) <<< (drop - 2) - 1 else 0) != 0) =
      decide (mantissa.toNat % 2 ^ drop % 2 ^ (drop - 1) ≠ 0) := by
  by_cases htwo : 2 ≤ drop
  · obtain ⟨k, rfl⟩ : ∃ k, drop = k + 2 := ⟨drop - 2, by omega⟩
    have hbelow := toNat_and_lowMask mantissa hdrop
    have hround : mantissa &&& ((1 : BitVec 64) <<< (k + 2) - 1) &&& (1 : BitVec 64) <<< k ≠ 0 ↔
        2 ^ k ≤ mantissa.toNat % 2 ^ (k + 2) % 2 ^ (k + 1) := by
      rw [and_bit_ne_zero_iff _ (by omega), hbelow, testBit_iff_le_mod]
    have hrest : mantissa &&& ((1 : BitVec 64) <<< (k + 2) - 1) &&& ((1 : BitVec 64) <<< k - 1) ≠ 0 ↔
        mantissa.toNat % 2 ^ (k + 2) % 2 ^ k ≠ 0 := by
      rw [Ne, toNat_eq_zero_iff, toNat_and_lowMask _ (by omega), hbelow]
    have hsplit := Nat.mod_pow_succ (b := 2) (k := k) (x := mantissa.toNat % 2 ^ (k + 2))
    have hlow : mantissa.toNat % 2 ^ (k + 2) % 2 ^ k < 2 ^ k := Nat.mod_lt _ (Nat.two_pow_pos k)
    rw [decide_eq_true htwo, Bool.true_and, if_pos htwo, Bool.eq_iff_iff, Bool.or_eq_true, bne_iff_ne,
      bne_iff_ne, decide_eq_true_iff, Nat.add_sub_cancel, hround, hrest,
      show k + 2 - 1 = k + 1 by omega]
    rcases Nat.mod_two_eq_zero_or_one (mantissa.toNat % 2 ^ (k + 2) / 2 ^ k) with hz | ho
    · rw [hz, mul_zero, add_zero] at hsplit
      omega
    · rw [ho, mul_one] at hsplit
      have hp := Nat.two_pow_pos k
      omega
  · obtain rfl : drop = 1 := by omega
    rw [decide_eq_false htwo, if_neg htwo, Bool.false_and, Bool.false_or, Nat.sub_self, pow_zero,
      Nat.mod_one]
    simp

theorem fold_spec (x : Intermediate) {keep : Nat} (hone : 1 ≤ keep) (hall : keep ≤ 64) {r d : ℕ}
    (hr : r < d) (henc : Direction.Encodes x.guard (x.roundBit || x.sticky) r d) :
    (x.fold keep).value.sign = x.value.sign ∧ (x.fold keep).value.exponent = x.value.exponent ∧
      (x.fold keep).value.mantissa.toNat =
        x.value.mantissa.toNat / 2 ^ (64 - keep) * 2 ^ (64 - keep) ∧
      Direction.Encodes (x.fold keep).guard ((x.fold keep).roundBit || (x.fold keep).sticky)
        (x.value.mantissa.toNat % 2 ^ (64 - keep) * d + r) (2 ^ (64 - keep) * d) := by
  unfold Intermediate.fold
  split_ifs with hkeep
  · have hdrop : 64 - keep < 64 := by omega
    refine ⟨rfl, rfl, toNat_and_not_lowMask _ hdrop, ?_⟩
    obtain ⟨k, hk⟩ : ∃ k, 64 - keep = k + 1 := ⟨63 - keep, by omega⟩
    have hpow : 2 ^ (64 - keep) = 2 * 2 ^ k := by rw [hk, pow_succ, mul_comm]
    have hbelow := toNat_and_lowMask x.value.mantissa hdrop
    have hmore : (x.guard || (x.roundBit || x.sticky)) = decide (r ≠ 0) :=
      henc.inexact (Nat.zero_lt_of_lt hr)
    dsimp only
    rw [hpow]
    refine encodes_fold hr (hpow ▸ Nat.mod_lt _ (Nat.two_pow_pos _)) ?_ ?_
    · rw [Bool.eq_iff_iff, bne_iff_ne, decide_eq_true_iff, and_bit_ne_zero_iff _ (by omega), hbelow,
        show 64 - keep - 1 = k by omega, testBit_iff_le_mod, ← hpow, ← hk,
        Nat.mod_eq_of_lt (Nat.mod_lt _ (Nat.two_pow_pos _))]
    · have hrest := below_guard_eq_zero_iff x.value.mantissa (show 0 < 64 - keep by omega) hdrop
      rw [show 64 - keep - 1 = k by omega] at hrest
      rw [Bool.or_assoc, Bool.or_assoc, hmore, ← Bool.or_assoc, hrest, hpow, ← Bool.decide_or]
  · obtain rfl : keep = 64 := by omega
    refine ⟨rfl, rfl, by simp, ?_⟩
    rw [Nat.sub_self, pow_zero, Nat.mod_one, zero_mul, zero_add, one_mul]
    exact henc

theorem increments_eq (x : Intermediate) (mode : Rounding) {drop : Nat} (hdrop : drop < 64) {q : ℕ}
    (hmantissa : x.value.mantissa.toNat = q * 2 ^ drop)
    (hinexact : ¬ (!x.guard && !x.roundBit && !x.sticky) = true) :
    x.increments mode ((1 : BitVec 64) <<< drop) =
      (mode.direction x.value.sign).raisesBits (decide (q % 2 = 1)) x.guard (x.roundBit || x.sticky) := by
  have hsome : (x.guard || (x.roundBit || x.sticky)) = true := by
    cases hg : x.guard <;> cases hb : x.roundBit <;> cases hs : x.sticky <;> simp_all
  have hodd : (x.value.mantissa &&& (1 : BitVec 64) <<< drop != 0) = decide (q % 2 = 1) := by
    rw [Bool.eq_iff_iff, bne_iff_ne, and_bit_ne_zero_iff _ hdrop, hmantissa, decide_eq_true_iff,
      Nat.testBit_eq_decide_div_mod_eq, decide_eq_true_iff, Nat.mul_div_cancel _ (Nat.two_pow_pos _)]
  cases mode with
  | nearest =>
    unfold Intermediate.increments Rounding.direction Direction.raisesBits
    rw [hodd, Bool.not_or, Bool.and_assoc]
  | zero => rfl
  | minusInfinity =>
    unfold Intermediate.increments Rounding.direction Direction.raisesBits
    cases x.value.sign
    · rfl
    · exact hsome.symm
  | plusInfinity =>
    unfold Intermediate.increments Rounding.direction Direction.raisesBits
    cases x.value.sign
    · exact hsome.symm
    · rfl

theorem increment_eq (value : Extended) {drop q : ℕ} (hdrop : drop < 64)
    (hmantissa : value.mantissa.toNat = q * 2 ^ drop) (hfits : (q + 1) * 2 ^ drop ≤ 2 ^ 64) :
    value.increment ((1 : BitVec 64) <<< drop) =
      if (q + 1) * 2 ^ drop = 2 ^ 64 then
        { value with mantissa := integerBit, exponent := value.exponent + 1 }
      else { value with mantissa := BitVec.ofNat 64 ((q + 1) * 2 ^ drop) } := by
  have hlsb : ((1 : BitVec 64) <<< drop).toNat = 2 ^ drop := toNat_one_shiftLeft hdrop
  have hsum : value.mantissa + (1 : BitVec 64) <<< drop = BitVec.ofNat 64 ((q + 1) * 2 ^ drop) := by
    refine BitVec.eq_of_toNat_eq ?_
    rw [BitVec.toNat_add, hlsb, hmantissa, BitVec.toNat_ofNat]
    congr 1
    ring
  have hstep : (q + 1) * 2 ^ drop = q * 2 ^ drop + 2 ^ drop := by ring
  have hpos := Nat.two_pow_pos drop
  unfold Extended.increment
  dsimp only
  rw [hsum]
  split_ifs with hwraps hcarry hcarry
  · rw [hcarry]
    rfl
  · have hlt : (q + 1) * 2 ^ drop < 2 ^ 64 := lt_of_le_of_ne hfits hcarry
    rw [BitVec.lt_def, BitVec.toNat_ofNat, Nat.mod_eq_of_lt hlt, hmantissa] at hwraps
    omega
  · rw [BitVec.lt_def, BitVec.toNat_ofNat, hcarry, Nat.mod_self, hmantissa] at hwraps
    have hbig : 2 ^ drop < 2 ^ 64 := Nat.pow_lt_pow_right (by decide) hdrop
    omega
  · rfl

/-- ONE ROUNDING. The mantissa and the three bits stand for `m + r / d`; what comes out is that number
rounded to a multiple of the last place that is kept, and a carry out of the mantissa is in the
exponent. -/
theorem roundToBits_spec (value : Extended) {guard roundBit sticky : Bool} (mode : Rounding)
    {keep : Nat} (hone : 1 ≤ keep) (hall : keep ≤ 64) {r d : ℕ} (hr : r < d)
    (henc : Direction.Encodes guard (roundBit || sticky) r d) {q : ℕ}
    (hq : q = (mode.direction value.sign).quotient (value.mantissa.toNat * d + r)
      (2 ^ (64 - keep) * d)) :
    (roundToBits value guard roundBit sticky mode keep).inexact =
        decide (¬ 2 ^ (64 - keep) * d ∣ value.mantissa.toNat * d + r) ∧
      q * 2 ^ (64 - keep) ≤ 2 ^ 64 ∧
      (roundToBits value guard roundBit sticky mode keep).value =
        if q * 2 ^ (64 - keep) = 2 ^ 64 then
          { value with mantissa := integerBit, exponent := value.exponent + 1 }
        else { value with mantissa := BitVec.ofNat 64 (q * 2 ^ (64 - keep)) } := by
  have hd : 0 < d := Nat.zero_lt_of_lt hr
  have hp := Nat.two_pow_pos (64 - keep)
  have hdrop : 64 - keep < 64 := by omega
  set m := value.mantissa.toNat with hm
  have hm64 : m < 2 ^ 64 := value.mantissa.isLt
  -- the quotient and the remainder of the whole are those of the mantissa, with the rest below
  have hsplit : m * d + r = 2 ^ (64 - keep) * d * (m / 2 ^ (64 - keep)) +
      (m % 2 ^ (64 - keep) * d + r) := by
    conv_lhs => rw [← Nat.div_add_mod m (2 ^ (64 - keep))]
    ring
  have hless : m % 2 ^ (64 - keep) * d + r < 2 ^ (64 - keep) * d := by
    calc m % 2 ^ (64 - keep) * d + r < (m % 2 ^ (64 - keep) + 1) * d := by
          rw [add_mul, one_mul]
          omega
      _ ≤ 2 ^ (64 - keep) * d := Nat.mul_le_mul_right d (Nat.mod_lt _ hp)
  have hdiv : (m * d + r) / (2 ^ (64 - keep) * d) = m / 2 ^ (64 - keep) := by
    rw [hsplit, Nat.mul_add_div (Nat.mul_pos hp hd), Nat.div_eq_of_lt hless, add_zero]
  have hmod : (m * d + r) % (2 ^ (64 - keep) * d) = m % 2 ^ (64 - keep) * d + r := by
    rw [hsplit, Nat.mul_add_mod, Nat.mod_eq_of_lt hless]
  have hfits : (m / 2 ^ (64 - keep) + 1) * 2 ^ (64 - keep) ≤ 2 ^ 64 := by
    have hpow : 2 ^ 64 = 2 ^ keep * 2 ^ (64 - keep) := by rw [← pow_add]; congr 1; omega
    rw [hpow] at hm64 ⊢
    exact Nat.mul_le_mul_right _ ((Nat.div_lt_iff_lt_mul hp).mpr hm64)
  have hkeptlt : m / 2 ^ (64 - keep) * 2 ^ (64 - keep) < 2 ^ 64 :=
    (Nat.div_mul_le_self _ _).trans_lt hm64
  obtain ⟨hsign, hexponent, hmantissa, hfold⟩ :=
    fold_spec ⟨value, guard, roundBit, sticky⟩ hone hall hr henc
  have hinexact := hfold.inexact (Nat.mul_pos hp hd)
  rw [← hmod] at hinexact
  unfold roundToBits
  rw [if_neg (by omega)]
  dsimp only
  set x := Intermediate.fold ⟨value, guard, roundBit, sticky⟩ keep with hx
  have hvalue : x.value =
      { value with mantissa := BitVec.ofNat 64 (m / 2 ^ (64 - keep) * 2 ^ (64 - keep)) } := by
    have hmantissa' : x.value.mantissa =
        BitVec.ofNat 64 (m / 2 ^ (64 - keep) * 2 ^ (64 - keep)) := by
      refine BitVec.eq_of_toNat_eq ?_
      rw [hmantissa, BitVec.toNat_ofNat, Nat.mod_eq_of_lt hkeptlt]
    rw [← hmantissa', ← hsign, ← hexponent]
  have hexact : (!x.guard && !x.roundBit && !x.sticky) = true ↔
      (m * d + r) % (2 ^ (64 - keep) * d) = 0 := by
    rw [Bool.and_assoc, ← Bool.not_or, ← Bool.not_or, hinexact, Bool.not_eq_true',
      decide_eq_false_iff_not, not_not]
  have hquotient : q = m / 2 ^ (64 - keep) + if (mode.direction value.sign).raises
      (m / 2 ^ (64 - keep)) ((m * d + r) % (2 ^ (64 - keep) * d)) (2 ^ (64 - keep) * d) then 1
      else 0 := by
    rw [hq]
    unfold Direction.quotient
    rw [hdiv]
  by_cases hnone : (m * d + r) % (2 ^ (64 - keep) * d) = 0
  · rw [hnone, Direction.raises_zero _ _ (Nat.mul_pos hp hd), if_neg Bool.false_ne_true,
      add_zero] at hquotient
    rw [if_pos (hexact.mpr hnone), hquotient]
    refine ⟨?_, hkeptlt.le, ?_⟩
    · exact (decide_eq_false (not_not.mpr (Nat.dvd_of_mod_eq_zero hnone))).symm
    · rw [if_neg hkeptlt.ne]
      exact hvalue
  · have hsome : ¬ (!x.guard && !x.roundBit && !x.sticky) = true := fun h => hnone (hexact.mp h)
    have hraise : x.increments mode ((1 : BitVec 64) <<< (64 - keep)) =
        (mode.direction value.sign).raises (m / 2 ^ (64 - keep))
          ((m * d + r) % (2 ^ (64 - keep) * d)) (2 ^ (64 - keep) * d) := by
      rw [increments_eq x mode hdrop hmantissa hsome, hsign, hmod]
      exact hfold.raises (Nat.mul_pos hp hd) _ _
    have hinex : true = decide (¬ 2 ^ (64 - keep) * d ∣ m * d + r) := by
      rw [decide_eq_true]
      exact fun hdvd => hnone (Nat.mod_eq_zero_of_dvd hdvd)
    rw [if_neg hsome]
    rw [← hraise] at hquotient
    by_cases hup : x.increments mode ((1 : BitVec 64) <<< (64 - keep)) = true
    · rw [if_pos hup] at hquotient ⊢
      rw [hquotient]
      refine ⟨hinex, hfits, ?_⟩
      rw [increment_eq x.value hdrop hmantissa hfits, hvalue]
    · rw [if_neg hup, add_zero] at hquotient
      rw [if_neg hup, hquotient]
      refine ⟨hinex, hkeptlt.le, ?_⟩
      rw [if_neg hkeptlt.ne]
      exact hvalue

end Apollo.M68882
