import Mathlib
import Apollo.M68882.Packed

/-!
# The twelve bytes of a packed decimal

What `ap_m68882_packed_encode` writes, nibble by nibble (`digit_putDigit`), and what a reader of the
string finds there: the digits of the mantissa, left-aligned, the digits of the exponent with a fourth
one above 999, and the two signs (`packedString_putConversion`).
-/

namespace Apollo.M68882

variable {bytes : List (BitVec 8)}

/-! ## A nibble -/

theorem getD_modify (bytes : List (BitVec 8)) (i j : ℕ) (f : BitVec 8 → BitVec 8) :
    (bytes.modify i f).getD j 0 =
      if i = j ∧ i < bytes.length then f (bytes.getD j 0) else bytes.getD j 0 := by
  rw [List.getD_eq_getElem?_getD, List.getD_eq_getElem?_getD, List.getElem?_modify]
  by_cases hij : i = j
  · subst hij
    by_cases hi : i < bytes.length
    · rw [if_pos ⟨rfl, hi⟩, List.getElem?_eq_getElem hi]
      simp
    · rw [if_neg (fun h => hi h.2), List.getElem?_eq_none (not_lt.mp hi)]
      rfl
  · rw [if_neg (fun h => hij h.1)]
    simp [hij]

theorem nibbles (byte d : BitVec 8) :
    (byte &&& 0x0F ||| (d &&& 0x0F) <<< 4) >>> 4 = d &&& 0x0F ∧
      (byte &&& 0x0F ||| (d &&& 0x0F) <<< 4) &&& 0x0F = byte &&& 0x0F ∧
      (byte &&& 0xF0 ||| d &&& 0x0F) >>> 4 = byte >>> 4 ∧
      (byte &&& 0xF0 ||| d &&& 0x0F) &&& 0x0F = d &&& 0x0F := by
  refine ⟨?_, ?_, ?_, ?_⟩ <;>
  · ext i hi
    interval_cases i <;> simp

theorem toNat_lowNibble (value : ℕ) : (BitVec.ofNat 8 value &&& 0x0F).toNat = value % 16 := by
  rw [BitVec.toNat_and, BitVec.toNat_ofNat, show (0x0F : BitVec 8).toNat = 2 ^ 4 - 1 from rfl,
    Nat.and_two_pow_sub_one_eq_mod]
  omega

theorem length_putDigit (bytes : List (BitVec 8)) (nibble value : ℕ) :
    (putDigit bytes nibble value).length = bytes.length := by
  unfold putDigit
  exact List.length_modify _ _ _

theorem digit_putDigit {nibble : ℕ} (h : nibble / 2 < bytes.length) (value j : ℕ) :
    digit (putDigit bytes nibble value) j = if j = nibble then value % 16 else digit bytes j := by
  unfold digit putDigit
  dsimp only
  rw [getD_modify]
  generalize hbyte : bytes.getD (j / 2) 0 = byte
  obtain ⟨hup, hupLow, hdownUp, hdown⟩ := nibbles byte (BitVec.ofNat 8 value)
  by_cases hsame : nibble / 2 = j / 2
  · have hroom : j / 2 < bytes.length := hsame ▸ h
    by_cases heven : nibble % 2 = 0
    · by_cases hj : j % 2 = 0
      · have hplace : j = nibble := by omega
        simp only [heven, hsame, hroom, hplace, and_self, if_true]
        rw [hup, toNat_lowNibble]
      · have hplace : ¬ j = nibble := by omega
        simp only [hj, heven, hsame, hroom, hplace, and_self, if_true, if_false]
        rw [hupLow]
    · by_cases hj : j % 2 = 0
      · have hplace : ¬ j = nibble := by omega
        simp only [hj, heven, hsame, hroom, hplace, and_self, if_true, if_false]
        rw [hdownUp]
      · have hplace : j = nibble := by omega
        simp only [heven, hsame, hroom, hplace, and_self, if_true, if_false]
        rw [hdown, toNat_lowNibble]
  · have hplace : ¬ j = nibble := by omega
    simp only [hsame, hplace, false_and, if_false]

/-! ## The mantissa -/

theorem digit_foldl_putDigit (g : ℕ → ℕ) (count : ℕ) (h : 7 + count ≤ 2 * bytes.length) (j : ℕ) :
    digit ((List.range count).foldl (fun bytes i => putDigit bytes (7 + i) (g i)) bytes) j =
        (if 7 ≤ j ∧ j < 7 + count then g (j - 7) % 16 else digit bytes j) ∧
      ((List.range count).foldl (fun bytes i => putDigit bytes (7 + i) (g i)) bytes).length =
        bytes.length := by
  induction count with
  | zero => exact ⟨(if_neg (by omega)).symm, rfl⟩
  | succ count ih =>
    obtain ⟨hdigit, hlength⟩ := ih (by omega)
    rw [List.range_succ, List.foldl_append, List.foldl_cons, List.foldl_nil]
    refine ⟨?_, (length_putDigit _ _ _).trans hlength⟩
    rw [digit_putDigit (by rw [hlength]; omega), hdigit]
    by_cases hlast : j = 7 + count
    · rw [if_pos hlast, if_pos (by omega), hlast, Nat.add_sub_cancel_left]
    · rw [if_neg hlast]
      exact if_congr (by omega) rfl rfl

/-- The digit of a number at a place from the left. -/
def leftDigit (d n i : ℕ) : ℕ := if i < n then d / 10 ^ (n - 1 - i) % 10 else 0

theorem leftDigit_le (d n i : ℕ) : leftDigit d n i ≤ 9 := by
  unfold leftDigit
  split_ifs <;> omega

theorem digitsFrom_left {d n : ℕ} (hd : d < 10 ^ n) (nibble count : ℕ)
    (h : ∀ i < count, digit bytes (nibble + i) = leftDigit d n i) :
    digitsFrom bytes nibble count =
      if count ≤ n then d / 10 ^ (n - count) else d * 10 ^ (count - n) := by
  induction count with
  | zero =>
    rw [if_pos (Nat.zero_le _), Nat.sub_zero, Nat.div_eq_of_lt hd]
    rfl
  | succ count ih =>
    rw [digitsFrom, ih fun i hi => h i (Nat.lt_succ_of_lt hi), h count (Nat.lt_succ_self count)]
    unfold leftDigit
    by_cases hin : count < n
    · have hplace : n - count = n - (count + 1) + 1 := by omega
      have hdigit : n - 1 - count = n - (count + 1) := by omega
      have hnext : count + 1 ≤ n := hin
      rw [if_pos hin.le, if_pos hin, if_pos hnext, hdigit, hplace, pow_succ, ← Nat.div_div_eq_div_mul]
      exact Nat.div_add_mod' _ 10
    · have hout : ¬ count + 1 ≤ n := hin
      rw [if_neg hin, add_zero, if_neg hout]
      by_cases hend : count ≤ n
      · obtain rfl : count = n := by omega
        rw [if_pos le_rfl, Nat.sub_self, pow_zero, Nat.div_one, Nat.add_sub_cancel_left, pow_one]
      · have hplace : count + 1 - n = count - n + 1 := by omega
        rw [if_neg hend, hplace, pow_succ, mul_assoc]

/-! ## The string -/

/-- The string of a conversion, as its reader finds it. -/
structure PackedString (out : List (BitVec 8)) (negative : Bool) (c : Conversion) : Prop where
  length : out.length = 12
  signs : digit out 0 = (if negative then 8 else 0) + if c.decimalExponent < 0 then 4 else 0
  exponent : digit out 4 * 1000 + digit out 1 * 100 + digit out 2 * 10 + digit out 3 =
    c.decimalExponent.natAbs
  fourth : digit out 4 ≠ 0 ↔ 999 < c.decimalExponent.natAbs
  mantissa : digitsFrom out 7 17 = c.digitsValue.toNat * 10 ^ (17 - c.digits)
  decimal : ∀ j, 1 ≤ j → j < 24 → digit out j ≤ 9

theorem digit_modify_sign (h : 0 < bytes.length) (hfirst : digit bytes 0 = 0 ∨ digit bytes 0 = 8) (j : ℕ) :
    digit (bytes.modify 0 (· ||| 0x40)) j = if j = 0 then digit bytes 0 + 4 else digit bytes j := by
  have hbyte : ∀ byte : BitVec 8, (byte >>> 4).toNat = 0 ∨ (byte >>> 4).toNat = 8 →
      ((byte ||| 0x40) >>> 4).toNat = (byte >>> 4).toNat + 4 ∧
        ((byte ||| 0x40) &&& 0x0F).toNat = (byte &&& 0x0F).toNat := by decide
  unfold digit at hfirst ⊢
  dsimp only at hfirst ⊢
  rw [getD_modify]
  by_cases hzero : j / 2 = 0
  · have hin : 0 = j / 2 ∧ 0 < bytes.length := ⟨hzero.symm, h⟩
    obtain ⟨hup, hlow⟩ := hbyte (bytes.getD 0 0) hfirst
    rw [if_pos hin, hzero]
    by_cases hj : j % 2 = 0
    · rw [if_pos hj, if_pos (show j = 0 by omega), hup]
      rfl
    · rw [if_neg hj, if_neg (show ¬ j = 0 by omega), hlow, if_neg hj]
  · have hout : ¬ (0 = j / 2 ∧ 0 < bytes.length) := fun h => hzero h.1.symm
    rw [if_neg hout, if_neg (show ¬ j = 0 by omega)]

theorem length_modify_sign (bytes : List (BitVec 8)) :
    (bytes.modify 0 (· ||| 0x40)).length = bytes.length :=
  List.length_modify _ _ _

theorem modify_first_eq (bytes : List (BitVec 8)) {value : ℕ} (h : value < 16) :
    (bytes.modify 0 fun byte => byte &&& 0xF0 ||| BitVec.ofNat 8 value) = putDigit bytes 1 value := by
  have hmask : BitVec.ofNat 8 value &&& 0x0F = BitVec.ofNat 8 value := by
    refine BitVec.eq_of_toNat_eq ?_
    rw [toNat_lowNibble, BitVec.toNat_ofNat]
    omega
  unfold putDigit
  dsimp only
  rw [hmask]
  rfl

theorem digit_putExponent (hlength : bytes.length = 12)
    (hfirst : digit bytes 0 = 0 ∨ digit bytes 0 = 8) (hclear : digit bytes 4 = 0) (e : ℤ)
    (he : e.natAbs < 10000) (j : ℕ) :
    (putExponent bytes e).1.length = 12 ∧
      digit (putExponent bytes e).1 j =
        if j = 0 then digit bytes 0 + if e < 0 then 4 else 0
        else if j = 1 then e.natAbs / 100 % 10
        else if j = 2 then e.natAbs / 10 % 10
        else if j = 3 then e.natAbs % 10
        else if j = 4 then e.natAbs / 1000
        else digit bytes j := by
  unfold putExponent
  dsimp only
  -- the sign
  obtain ⟨signed, hsigned, hsignedLength, hsignedDigit⟩ : ∃ signed : List (BitVec 8),
      (if e < 0 then bytes.modify 0 (· ||| 0x40) else bytes) = signed ∧ signed.length = 12 ∧
        ∀ j, digit signed j =
          if j = 0 then digit bytes 0 + if e < 0 then 4 else 0 else digit bytes j := by
    refine ⟨_, rfl, ?_, fun j => ?_⟩
    · split_ifs
      · rw [length_modify_sign, hlength]
      · exact hlength
    · by_cases hneg : e < 0
      · rw [if_pos hneg, digit_modify_sign (by omega) hfirst]
        simp only [hneg, if_true]
      · rw [if_neg hneg, if_neg hneg, add_zero]
        split_ifs with hzero
        · rw [hzero]
        · rfl
  rw [hsigned]
  -- the fourth digit
  obtain ⟨fourth, hfourth, hfourthLength, hfourthDigit⟩ : ∃ fourth : List (BitVec 8),
      (if 999 < e.natAbs then putDigit signed 4 (e.natAbs / 1000 % 10) else signed) = fourth ∧
        fourth.length = 12 ∧
        ∀ j, digit fourth j = if j = 4 then e.natAbs / 1000 else digit signed j := by
    refine ⟨_, rfl, ?_, fun j => ?_⟩
    · split_ifs
      · rw [length_putDigit, hsignedLength]
      · exact hsignedLength
    · by_cases hwide : 999 < e.natAbs
      · rw [if_pos hwide, digit_putDigit (by omega)]
        exact if_congr Iff.rfl (by omega) rfl
      · rw [if_neg hwide]
        split_ifs with hplace
        · rw [hplace, hsignedDigit, if_neg (by decide), hclear]
          omega
        · rfl
  rw [hfourth]
  generalize hrest : (if 999 < e.natAbs then e.natAbs % 1000 else e.natAbs) = rest
  have hdigits : rest / 100 % 10 = e.natAbs / 100 % 10 ∧ rest / 10 % 10 = e.natAbs / 10 % 10 ∧
      rest % 10 = e.natAbs % 10 := by
    rw [← hrest]
    split_ifs <;> omega
  rw [hdigits.1, hdigits.2.1, hdigits.2.2, modify_first_eq fourth (by omega)]
  have hone : (putDigit fourth 1 (e.natAbs / 100 % 10)).length = 12 := by
    rw [length_putDigit, hfourthLength]
  have htwo : (putDigit (putDigit fourth 1 (e.natAbs / 100 % 10)) 2 (e.natAbs / 10 % 10)).length = 12 := by
    rw [length_putDigit, hone]
  refine ⟨by rw [length_putDigit, htwo], ?_⟩
  rw [digit_putDigit (by omega), digit_putDigit (by omega), digit_putDigit (by omega), hfourthDigit,
    hsignedDigit]
  by_cases h0 : j = 0
  · subst h0
    simp
  by_cases h1 : j = 1
  · subst h1
    simp
    omega
  by_cases h2 : j = 2
  · subst h2
    simp
    omega
  by_cases h3 : j = 3
  · subst h3
    simp
    omega
  simp [h0, h1, h2, h3]

/-- The bytes that the string starts from. -/
def blankString (negative : Bool) : List (BitVec 8) :=
  (List.replicate 12 0).set 0 (if negative then 0x80 else 0)

theorem digit_blankString (negative : Bool) (j : ℕ) (hj : j < 24) :
    digit (blankString negative) j = if j = 0 then (if negative then 8 else 0) else 0 := by
  revert j
  cases negative <;> decide

/-- THE STRING HOLDS THE CONVERSION. -/
theorem packedString_putConversion (negative : Bool) (kFactor : ℤ) {c : Conversion}
    (hn : c.digits ≤ 17) (hd : c.digitsValue.toNat < 10 ^ c.digits)
    (he : c.decimalExponent.natAbs < 10000) :
    PackedString (putConversion (blankString negative) kFactor c).1 negative c := by
  have hlength : (blankString negative).length = 12 := by
    unfold blankString
    rw [List.length_set, List.length_replicate]
  have hdigits := @digit_foldl_putDigit (blankString negative)
    (leftDigit c.digitsValue.toNat c.digits) 17 (by omega)
  have hput : putDigits (blankString negative) c.digitsValue.toNat c.digits =
      (List.range 17).foldl (fun bytes i =>
        putDigit bytes (7 + i) (leftDigit c.digitsValue.toNat c.digits i)) (blankString negative) := rfl
  rw [← hput] at hdigits
  have hmantissaLength : (putDigits (blankString negative) c.digitsValue.toNat c.digits).length = 12 :=
    (hdigits 0).2.trans hlength
  have hmantissa : ∀ j < 24, digit (putDigits (blankString negative) c.digitsValue.toNat c.digits) j =
      if 7 ≤ j then leftDigit c.digitsValue.toNat c.digits (j - 7)
      else if j = 0 then (if negative then 8 else 0) else 0 := by
    intro j hj
    rw [(hdigits j).1, digit_blankString negative j hj]
    have hle := leftDigit_le c.digitsValue.toNat c.digits (j - 7)
    by_cases h7 : 7 ≤ j
    · rw [if_pos h7, if_pos ⟨h7, by omega⟩]
      omega
    · rw [if_neg h7, if_neg (fun h => h7 h.1)]
  have hfirst := hmantissa 0 (by decide)
  rw [if_neg (by decide), if_pos rfl] at hfirst
  have hout : ∀ j, _ := fun j => digit_putExponent hmantissaLength
    (by rw [hfirst]; cases negative <;> simp) (by rw [hmantissa 4 (by decide)]; rfl) c.decimalExponent he j
  have heq : (putConversion (blankString negative) kFactor c).1 =
      (putExponent (putDigits (blankString negative) c.digitsValue.toNat c.digits) c.decimalExponent).1 :=
    rfl
  rw [heq]
  generalize (putExponent (putDigits (blankString negative) c.digitsValue.toNat c.digits)
    c.decimalExponent).1 = out at hout ⊢
  have h0 := (hout 0).2
  have h1 := (hout 1).2
  have h2 := (hout 2).2
  have h3 := (hout 3).2
  have h4 := (hout 4).2
  rw [if_pos rfl, hfirst] at h0
  rw [if_neg (by decide), if_pos rfl] at h1
  rw [if_neg (by decide), if_neg (by decide), if_pos rfl] at h2
  rw [if_neg (by decide), if_neg (by decide), if_neg (by decide), if_pos rfl] at h3
  rw [if_neg (by decide), if_neg (by decide), if_neg (by decide), if_neg (by decide), if_pos rfl] at h4
  have habove : ∀ j, 5 ≤ j → j < 24 → digit out j =
      if 7 ≤ j then leftDigit c.digitsValue.toNat c.digits (j - 7) else 0 := by
    intro j hj hj'
    rw [(hout j).2, if_neg (by omega), if_neg (by omega), if_neg (by omega), if_neg (by omega),
      if_neg (by omega), hmantissa j hj', if_neg (show ¬ j = 0 by omega)]
  refine ⟨(hout 0).1, h0, ?_, ?_, ?_, fun j hj hj' => ?_⟩
  · rw [h1, h2, h3, h4]
    omega
  · rw [h4]
    omega
  · rw [digitsFrom_left hd 7 17 fun i hi => by
      rw [habove (7 + i) (by omega) (by omega), if_pos (Nat.le_add_right 7 i), Nat.add_sub_cancel_left]]
    split_ifs with hall
    · obtain hsame : c.digits = 17 := by omega
      rw [hsame, Nat.sub_self, pow_zero, Nat.div_one, mul_one]
    · rfl
  · rcases Nat.lt_or_ge j 5 with hlow | hhigh
    · have hcases : j = 1 ∨ j = 2 ∨ j = 3 ∨ j = 4 := by omega
      rcases hcases with rfl | rfl | rfl | rfl <;> omega
    · rw [habove j hhigh hj']
      split_ifs
      · exact leftDigit_le _ _ _
      · exact Nat.zero_le 9

end Apollo.M68882
