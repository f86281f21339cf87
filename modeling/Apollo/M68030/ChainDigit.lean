import Mathlib
import Apollo.Lib.DigitChain
import Apollo.M68030.Arith
import Apollo.M68030.ConditionCodes

/-!
# One digit of a chain

`ADDX`, `SUBX`, `ABCD` and `SBCD` on one operand: a digit of a sum or of a difference, in base
`2 ^ (8 * size)` or, of valid packed digits, in base 100 (`DigitLaw`).
-/

namespace Apollo.M68030

open Apollo.Lib

/-- The kinds of arithmetic with an extend bit. -/
def ArithKind.IsExtended (kind : ArithKind) : Prop :=
  kind = .addx ∨ kind = .subx ∨ kind = .abcd ∨ kind = .sbcd

/-- Whether a kind is of packed decimal digits. -/
def ArithKind.isDecimal (kind : ArithKind) : Bool := kind = .abcd ∨ kind = .sbcd

/-- Whether a kind adds. -/
def ArithKind.isSum (kind : ArithKind) : Bool := kind = .addx ∨ kind = .abcd

/-- The base of the digits of a chain. -/
def ArithKind.base (kind : ArithKind) (size : ℕ) : ℕ := if kind.isDecimal then 100 else 2 ^ (8 * size)

/-- What an operand counts as a digit of a chain. -/
def ArithKind.digit (kind : ArithKind) (x : BitVec 32) : ℕ :=
  if kind.isDecimal then 10 * (x.toNat / 16) + x.toNat % 16 else x.toNat

/-- An operand of a chain: no longer than its size, and of valid digits where it is packed. -/
def ArithKind.Valid (kind : ArithKind) (size : ℕ) (x : BitVec 32) : Prop :=
  x.toNat < 2 ^ (8 * size) ∧ (kind.isDecimal = true → x.toNat / 16 ≤ 9 ∧ x.toNat % 16 ≤ 9)

/-- The law of a digit. -/
structure DigitLaw (kind : ArithKind) (size : ℕ) (d s : BitVec 32) (xIn zIn : Bool) (r : AluResult) :
    Prop where
  valid : kind.Valid size r.result
  lt : kind.digit r.result < kind.base size
  sum : kind.isSum = true →
    kind.digit r.result + kind.base size * r.x.toNat = kind.digit d + kind.digit s + xIn.toNat
  difference : kind.isSum = false →
    kind.digit r.result + kind.digit s + xIn.toNat = kind.digit d + kind.base size * r.x.toNat
  carry : r.c = r.x ∧ r.setsX = true
  zero : r.z = (zIn && decide (kind.digit r.result = 0))

section Digits

variable {size : ℕ} {d s : BitVec 32} {xIn zIn : Bool}

theorem masked_toNat (h : OperandSize size) (value : BitVec 32) :
    (value &&& sizeMask size).toNat = value.toNat % 2 ^ (8 * size) := by
  have hle := h.width_le
  rw [masked_eq h, BitVec.toNat_setWidth_of_le hle, BitVec.toNat_setWidth]

theorem masked_of_lt (h : OperandSize size) {value : BitVec 32} (hlt : value.toNat < 2 ^ (8 * size)) :
    value &&& sizeMask size = value :=
  BitVec.eq_of_toNat_eq (by rw [masked_toNat h, Nat.mod_eq_of_lt hlt])

theorem wide_masked_toNat (h : OperandSize size) (wide : BitVec 64) :
    (wide &&& (sizeMask size).setWidth 64).toNat = wide.toNat % 2 ^ (8 * size) := by
  rw [BitVec.toNat_and]
  rcases h with rfl | rfl | rfl
  · exact Nat.and_two_pow_sub_one_eq_mod _ 8
  · exact Nat.and_two_pow_sub_one_eq_mod _ 16
  · exact Nat.and_two_pow_sub_one_eq_mod _ 32

theorem wide_above (h : OperandSize size) (wide : BitVec 64) :
    wide &&& ~~~(sizeMask size).setWidth 64 = 0 ↔ wide.toNat < 2 ^ (8 * size) := by
  have hpos : 0 < 2 ^ (8 * size) := by positivity
  have hmasked : wide &&& ~~~(sizeMask size).setWidth 64 = 0 ↔
      wide &&& (sizeMask size).setWidth 64 = wide := by
    constructor
    · intro hzero
      calc wide &&& (sizeMask size).setWidth 64
          = wide &&& (sizeMask size).setWidth 64 ||| wide &&& ~~~(sizeMask size).setWidth 64 := by
            rw [hzero]
            exact BitVec.or_zero.symm
        _ = wide := by
            rw [← BitVec.and_or_distrib_left, BitVec.or_not_self, BitVec.and_allOnes]
    · intro hsame
      rw [← hsame, BitVec.and_assoc, BitVec.and_not_self]
      exact BitVec.and_zero
  rw [hmasked, ← BitVec.toNat_inj, wide_masked_toNat h]
  exact ⟨fun heq => heq ▸ Nat.mod_lt _ hpos, Nat.mod_eq_of_lt⟩

theorem zero_digit (result : BitVec 32) : decide (result = 0) = decide (result.toNat = 0) :=
  decide_eq_decide.mpr ⟨fun h => by rw [h]; rfl, fun h => BitVec.eq_of_toNat_eq h⟩

theorem digitLaw_addx (h : OperandSize size) (hd : ArithKind.addx.Valid size d)
    (hs : ArithKind.addx.Valid size s) :
    DigitLaw .addx size d s xIn zIn (aluAddx d s size xIn zIn) := by
  have hpow : 2 ^ (8 * size) ≤ 2 ^ 32 := Nat.pow_le_pow_right two_pos h.width_le
  obtain ⟨hd, -⟩ := hd
  obtain ⟨hs, -⟩ := hs
  have hwide : (d.setWidth 64 + s.setWidth 64 + (if xIn then 1 else 0 : BitVec 64)).toNat =
      d.toNat + s.toNat + xIn.toNat := by
    have hx : (if xIn then 1 else 0 : BitVec 64).toNat = xIn.toNat := by cases xIn <;> rfl
    have hbit := Bool.toNat_le xIn
    rw [BitVec.toNat_add, BitVec.toNat_add, hx, BitVec.toNat_setWidth_of_le (by decide),
      BitVec.toNat_setWidth_of_le (by decide)]
    omega
  have hbit := Bool.toNat_le xIn
  have hresult : (aluAddx d s size xIn zIn).result.toNat =
      (d.toNat + s.toNat + xIn.toNat) % 2 ^ (8 * size) := by
    unfold aluAddx
    dsimp only
    rw [masked_of_lt h hd, masked_of_lt h hs, BitVec.toNat_setWidth, wide_masked_toNat h, hwide]
    exact Nat.mod_eq_of_lt (lt_of_lt_of_le (Nat.mod_lt _ (by positivity)) hpow)
  have hcarry : (aluAddx d s size xIn zIn).x = decide (2 ^ (8 * size) ≤ d.toNat + s.toNat + xIn.toNat) := by
    unfold aluAddx
    dsimp only
    rw [masked_of_lt h hd, masked_of_lt h hs, decide_eq_decide, ne_eq, wide_above h, hwide, not_lt]
  have hsum : (aluAddx d s size xIn zIn).result.toNat +
      2 ^ (8 * size) * (aluAddx d s size xIn zIn).x.toNat = d.toNat + s.toNat + xIn.toNat := by
    rw [hresult, hcarry]
    by_cases hle : 2 ^ (8 * size) ≤ d.toNat + s.toNat + xIn.toNat
    · rw [decide_eq_true hle, Bool.toNat_true, mul_one, Nat.mod_eq_sub_mod hle,
        Nat.mod_eq_of_lt (by omega)]
      omega
    · rw [decide_eq_false hle, Bool.toNat_false, mul_zero, add_zero, Nat.mod_eq_of_lt (by omega)]
  have hlt : (aluAddx d s size xIn zIn).result.toNat < 2 ^ (8 * size) := by
    rw [hresult]
    exact Nat.mod_lt _ (by positivity)
  exact
    { valid := ⟨hlt, fun hdecimal => absurd hdecimal (by decide)⟩
      lt := hlt
      sum := fun _ => hsum
      difference := fun hkind => absurd hkind (by decide)
      carry := ⟨rfl, rfl⟩
      zero := congrArg (zIn && ·) (zero_digit _) }

theorem digitLaw_subx (h : OperandSize size) (hd : ArithKind.subx.Valid size d)
    (hs : ArithKind.subx.Valid size s) :
    DigitLaw .subx size d s xIn zIn (aluSubx d s size xIn zIn) := by
  obtain ⟨hd, -⟩ := hd
  obtain ⟨hs, -⟩ := hs
  have hbit := Bool.toNat_le xIn
  have hx : (if xIn then 1 else 0 : ℕ) = xIn.toNat := by cases xIn <;> rfl
  have hresult : (aluSubx d s size xIn zIn).result.toNat =
      (2 ^ 32 - (s.toNat + xIn.toNat) % 2 ^ 32 + d.toNat) % 2 ^ 32 % 2 ^ (8 * size) := by
    unfold aluSubx
    dsimp only
    rw [masked_of_lt h hd, masked_of_lt h hs, masked_toNat h, BitVec.toNat_sub, BitVec.toNat_ofNat, hx]
  have hcarry : (aluSubx d s size xIn zIn).x = decide (d.toNat < s.toNat + xIn.toNat) := by
    unfold aluSubx
    dsimp only
    rw [masked_of_lt h hd, masked_of_lt h hs, hx]
  have hlt : (aluSubx d s size xIn zIn).result.toNat < 2 ^ (8 * size) := by
    rw [hresult]
    exact Nat.mod_lt _ (by positivity)
  have hdifference : (aluSubx d s size xIn zIn).result.toNat + s.toNat + xIn.toNat =
      d.toNat + 2 ^ (8 * size) * (aluSubx d s size xIn zIn).x.toNat := by
    rw [hresult, hcarry]
    by_cases hborrow : d.toNat < s.toNat + xIn.toNat
    · rw [decide_eq_true hborrow, Bool.toNat_true]
      rcases h with rfl | rfl | rfl <;> omega
    · rw [decide_eq_false hborrow, Bool.toNat_false]
      rcases h with rfl | rfl | rfl <;> omega
  exact
    { valid := ⟨hlt, fun hdecimal => absurd hdecimal (by decide)⟩
      lt := hlt
      sum := fun hkind => absurd hkind (by decide)
      difference := fun _ => hdifference
      carry := ⟨rfl, rfl⟩
      zero := congrArg (zIn && ·) (zero_digit _) }

theorem byte_toNat {x : BitVec 32} (h : x.toNat < 2 ^ (8 * 1)) : (x &&& 0xFF).toNat = x.toNat :=
  congrArg BitVec.toNat (masked_of_lt (.inl rfl) h)

theorem digitLaw_of_digits {kind : ArithKind} {r : AluResult} {low high : ℕ}
    (hkind : kind.isDecimal = true) (hlow : low ≤ 9) (hhigh : high ≤ 9)
    (hresult : r.result.toNat = 16 * high + low)
    (hsum : kind.isSum = true →
      10 * high + low + 100 * r.x.toNat = kind.digit d + kind.digit s + xIn.toNat)
    (hdifference : kind.isSum = false →
      10 * high + low + kind.digit s + xIn.toNat = kind.digit d + 100 * r.x.toNat)
    (hcarry : r.c = r.x ∧ r.setsX = true) (hzero : r.z = (zIn && decide (r.result = 0))) :
    DigitLaw kind 1 d s xIn zIn r := by
  have hdigit : kind.digit r.result = 10 * high + low := by
    unfold ArithKind.digit
    rw [if_pos hkind, hresult]
    omega
  have hbase : kind.base 1 = 100 := if_pos hkind
  exact
    { valid := ⟨by omega, fun _ => by omega⟩
      lt := by omega
      sum := by rwa [hdigit, hbase]
      difference := by rwa [hdigit, hbase]
      carry := hcarry
      zero := by
        rw [hzero, zero_digit, hdigit, hresult]
        exact congrArg (zIn && ·) (decide_eq_decide.mpr (by omega)) }

theorem digitLaw_abcd (hd : ArithKind.abcd.Valid 1 d) (hs : ArithKind.abcd.Valid 1 s) :
    DigitLaw .abcd 1 d s xIn zIn (aluAbcd d s xIn zIn) := by
  obtain ⟨hd, hdigits⟩ := hd
  obtain ⟨hs, hsdigits⟩ := hs
  obtain ⟨hdhigh, hdlow⟩ := hdigits rfl
  obtain ⟨hshigh, hslow⟩ := hsdigits rfl
  have hbit := Bool.toNat_le xIn
  have hx : (if xIn then 1 else 0 : ℕ) = xIn.toNat := by cases xIn <;> rfl
  -- the two digits of the result, and the carry of the upper one
  obtain ⟨low, high, hlow, hhigh, hresult, hsum⟩ : ∃ low high, low ≤ 9 ∧ high ≤ 9 ∧
      (aluAbcd d s xIn zIn).result.toNat = 16 * high + low ∧
      10 * high + low + 100 * (aluAbcd d s xIn zIn).x.toNat =
        10 * (d.toNat / 16) + d.toNat % 16 + (10 * (s.toNat / 16) + s.toNat % 16) + xIn.toNat := by
    unfold aluAbcd
    dsimp only
    rw [byte_toNat hd, byte_toNat hs, hx, Nat.mod_eq_of_lt (show d.toNat / 16 < 16 by omega),
      Nat.mod_eq_of_lt (show s.toNat / 16 < 16 by omega), BitVec.toNat_ofNat]
    clear hd hs hdigits hsdigits hx
    generalize d.toNat / 16 = dhigh at *
    generalize d.toNat % 16 = dlow at *
    generalize s.toNat / 16 = shigh at *
    generalize s.toNat % 16 = slow at *
    generalize xIn.toNat = x at *
    refine ⟨_, _, ?_, ?_, Nat.mod_eq_of_lt ?_, ?_⟩
    · split_ifs <;> omega
    · split_ifs <;> omega
    · omega
    · by_cases hcarry : 9 < dhigh + shigh + if 9 < dlow + slow + x then 1 else 0
      · rw [decide_eq_true hcarry, Bool.toNat_true, if_pos hcarry]
        split_ifs at * <;> omega
      · rw [decide_eq_false hcarry, Bool.toNat_false, if_neg hcarry]
        split_ifs at * <;> omega
  exact digitLaw_of_digits rfl hlow hhigh hresult (fun _ => hsum) (fun hkind => absurd hkind (by decide))
    ⟨rfl, rfl⟩ rfl

theorem digitLaw_sbcd (hd : ArithKind.sbcd.Valid 1 d) (hs : ArithKind.sbcd.Valid 1 s) :
    DigitLaw .sbcd 1 d s xIn zIn (aluSbcd d s xIn zIn) := by
  obtain ⟨hd, hdigits⟩ := hd
  obtain ⟨hs, hsdigits⟩ := hs
  obtain ⟨hdhigh, hdlow⟩ := hdigits rfl
  obtain ⟨hshigh, hslow⟩ := hsdigits rfl
  have hbit := Bool.toNat_le xIn
  have hx : (if xIn then 1 else 0 : ℤ) = xIn.toNat := by cases xIn <;> rfl
  obtain ⟨low, high, hlow, hhigh, hresult, hdifference⟩ : ∃ low high : ℕ, low ≤ 9 ∧ high ≤ 9 ∧
      (aluSbcd d s xIn zIn).result.toNat = 16 * high + low ∧
      10 * high + low + (10 * (s.toNat / 16) + s.toNat % 16) + xIn.toNat =
        10 * (d.toNat / 16) + d.toNat % 16 + 100 * (aluSbcd d s xIn zIn).x.toNat := by
    unfold aluSbcd
    dsimp only
    rw [byte_toNat hd, byte_toNat hs, hx, BitVec.toNat_ofInt]
    have hcast : ∀ m : ℕ, m / 16 ≤ 9 →
        (m : ℤ) % 16 = ((m % 16 : ℕ) : ℤ) ∧ (m : ℤ) / 16 % 16 = ((m / 16 : ℕ) : ℤ) := by omega
    rw [(hcast _ hdhigh).1, (hcast _ hdhigh).2, (hcast _ hshigh).1, (hcast _ hshigh).2]
    clear hd hs hdigits hsdigits hx hcast
    generalize d.toNat / 16 = dhigh at *
    generalize d.toNat % 16 = dlow at *
    generalize s.toNat / 16 = shigh at *
    generalize s.toNat % 16 = slow at *
    generalize xIn.toNat = x at *
    generalize hl : (dlow : ℤ) - slow - x = l
    generalize hh : (dhigh : ℤ) - shigh - (if l < 0 then 1 else 0) = h
    refine ⟨((if l < 0 then l + 10 else l) % 16).toNat, ((if h < 0 then h + 10 else h) % 16).toNat,
      ?_, ?_, ?_, ?_⟩
    · split_ifs <;> omega
    · split_ifs at * <;> omega
    · push_cast
      split_ifs at * <;> omega
    · by_cases hborrow : h < 0
      · rw [decide_eq_true hborrow, Bool.toNat_true, if_pos hborrow]
        split_ifs at * <;> omega
      · rw [decide_eq_false hborrow, Bool.toNat_false, if_neg hborrow]
        split_ifs at * <;> omega
  exact digitLaw_of_digits rfl hlow hhigh hresult (fun hkind => absurd hkind (by decide))
    (fun _ => hdifference) ⟨rfl, rfl⟩ rfl

/-- ONE DIGIT of a chain, whatever the kind. -/
theorem digitLaw {kind : ArithKind} (hkind : kind.IsExtended) (h : OperandSize size)
    (hsize : kind.isDecimal = true → size = 1) (hd : kind.Valid size d) (hs : kind.Valid size s) :
    DigitLaw kind size d s xIn zIn (kind.extended d s size xIn zIn) := by
  rcases hkind with rfl | rfl | rfl | rfl
  · exact digitLaw_addx h hd hs
  · exact digitLaw_subx h hd hs
  · obtain rfl := hsize rfl
    exact digitLaw_abcd hd hs
  · obtain rfl := hsize rfl
    exact digitLaw_sbcd hd hs

end Digits

end Apollo.M68030
