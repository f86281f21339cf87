import Mathlib
import Apollo.M68030.ConditionCodes
import Apollo.M68030.OperandMemory
import Apollo.M68030.Misc

/-!
# Multiply and divide are exact

The laws of the multiplies and divides of words and long words, as laws of whole numbers: a product that
is written is the product (`Multiplied`), and a quotient and a remainder that are written are those of the
division that rounds to zero (`Divided`). The multiplies have theirs for every operand; the divides have
theirs but for two defects, a quotient of the word form that the host is not asked for safely, and a carry
that stays when a quotient is too long (`mulDiv_exact`).
-/

namespace Apollo.M68030

open Apollo.Lib HostInt

/-- The eight data registers. -/
abbrev DataRegisters : Type := Vector (BitVec 32) 8

/-! ## The laws -/

section Laws

variable {σ : Type}

/-- The five condition codes. -/
structure Codes (regs : Regs) (x n z v c : Prop) : Prop where
  x : regs.readCcr.getLsbD srXBit = true ↔ x
  n : regs.readCcr.getLsbD srNBit = true ↔ n
  z : regs.readCcr.getLsbD srZBit = true ↔ z
  v : regs.readCcr.getLsbD srVBit = true ↔ v
  c : regs.readCcr.getLsbD srCBit = true ↔ c

theorem Codes.congr {regs : Regs} {x n z v c n' z' v' : Prop} (h : Codes regs x n z v c) (hn : n ↔ n')
    (hz : z ↔ z') (hv : v ↔ v') : Codes regs x n' z' v' c :=
  ⟨h.x, h.n.trans hn, h.z.trans hz, h.v.trans hv, h.c⟩

/-- Data registers and condition codes changed, and nothing else. -/
def Wrote (d : DataRegisters) (cpu cpu' : Cpu σ) : Prop :=
  ∃ ccr, cpu' = cpu.mapRegs fun regs => { regs with d := d }.writeCcr ccr

/-- THE LAW OF A MULTIPLY: the product of two numbers, in as many bits as are stored, with `V` where they
do not hold it. -/
structure Multiplied (isSigned : Bool) {w n : ℕ} (a b : BitVec w)
    (store : BitVec n → DataRegisters → DataRegisters) (ccr : BitVec 16) (outcome : Outcome)
    (cpu cpu' : Cpu σ) : Prop where
  defined : outcome = .done
  stored : ∃ product : BitVec n,
    product = BitVec.ofInt n (number isSigned a * number isSigned b) ∧
    (Fits isSigned n (number isSigned a * number isSigned b) →
      number isSigned product = number isSigned a * number isSigned b) ∧
    Wrote (store product cpu.regs.d) cpu cpu' ∧
    Codes cpu'.regs (ccr.getLsbD srXBit = true) (product.msb = true) (product = 0)
      (¬ Fits isSigned n (number isSigned a * number isSigned b)) False
  fits : 2 * w ≤ n → Fits isSigned n (number isSigned a * number isSigned b)

/-- THE LAW OF A DIVIDE: a zero divisor, a quotient that is too long, and a quotient with its remainder. -/
structure Divided (isSigned : Bool) {w : ℕ} (dividend : ℤ) (divisor : BitVec w)
    (store : BitVec w → BitVec w → DataRegisters → DataRegisters) (ccr : BitVec 16) (outcome : Outcome)
    (cpu cpu' : Cpu σ) : Prop where
  defined : outcome = .done
  zero : divisor = 0 → cpu' = { cpu with pendingVector := vectorZeroDivide }
  overflow : divisor ≠ 0 → ¬ Fits isSigned w (dividend.tdiv (number isSigned divisor)) →
    Wrote cpu.regs.d cpu cpu' ∧ cpu'.regs.readCcr.getLsbD srVBit = true ∧
      cpu'.regs.readCcr.getLsbD srCBit = false
  exact : divisor ≠ 0 → Fits isSigned w (dividend.tdiv (number isSigned divisor)) →
    ∃ quotient remainder : BitVec w,
      dividend = number isSigned quotient * number isSigned divisor + number isSigned remainder ∧
      |number isSigned remainder| < |number isSigned divisor| ∧
      (number isSigned remainder = 0 ∨ (number isSigned remainder).sign = dividend.sign) ∧
      Wrote (store quotient remainder cpu.regs.d) cpu cpu' ∧
      Codes cpu'.regs (ccr.getLsbD srXBit = true) (quotient.msb = true) (quotient = 0) False False

/-- The one quotient that the word form asks the host for and the host does not have. -/
def HostOverflow (isSigned : Bool) (dividend : BitVec 32) (divisor : BitVec 16) : Prop :=
  isSigned = true ∧ dividend = BitVec.intMin 32 ∧ divisor = -1

/-- A quotient is too long, with the carry set before. -/
def CarryStays (isSigned : Bool) {w : ℕ} (dividend : ℤ) (divisor : BitVec w) (ccr : BitVec 16) : Prop :=
  divisor ≠ 0 ∧ ¬ Fits isSigned w (dividend.tdiv (number isSigned divisor)) ∧
    ccr.getLsbD srCBit = true

end Laws

/-! ## What the host computes -/

section Host

variable {isSigned : Bool}

/-- A division of numbers, to a quotient of `w` bits. -/
def quotientOf (isSigned : Bool) (w : ℕ) (a b : ℤ) : Division :=
  if Fits isSigned w (a.tdiv b) then .exact (BitVec.ofInt 32 (a.tdiv b)) (BitVec.ofInt 32 (a.tmod b))
  else .overflow

theorem number_word (isSigned : Bool) (x : BitVec 32) :
    number isSigned (if isSigned then (x.setWidth 16).signExtend 32 else x &&& 0xFFFF) =
      number isSigned (x.setWidth 16) := by
  cases isSigned
  · have hmask : x &&& 0xFFFF = (x.setWidth 16).setWidth 32 := masked_eq (.inr (.inl rfl)) x
    rw [if_neg Bool.false_ne_true, hmask]
    exact number_setWidth _ (by decide)
  · exact number_signExtend _ (by decide)

theorem setWidth_masked (x : BitVec 32) : (x &&& 0xFFFF).setWidth 16 = x.setWidth 16 := by
  have hmask : x &&& 0xFFFF = (x.setWidth 16).setWidth 32 := masked_eq (.inr (.inl rfl)) x
  rw [hmask, BitVec.setWidth_setWidth_of_le _ (by decide), BitVec.setWidth_eq]

/-- A pair of words has a quotient if and only if the divisor is not zero and the quotient is not the one
that is too long. -/
theorem divisible_word {dividend : BitVec 32} {divisor : BitVec 16} (hzero : divisor ≠ 0) :
    Divisible dividend (divisor.signExtend 32) ↔ ¬ HostOverflow true dividend divisor := by
  have hback : (divisor.signExtend 32).setWidth 16 = divisor := by
    rw [setWidth_eq_ofInt true _ (by decide), number_signExtend _ (by decide), ofInt_number]
  have hone : divisor.signExtend 32 = -1 ↔ divisor = -1 := by
    constructor
    · intro h
      rw [← hback, h]
      rfl
    · rintro rfl
      rfl
  have hnonzero : divisor.signExtend 32 ≠ 0 := by
    intro h
    rw [h] at hback
    exact hzero hback.symm
  unfold Divisible HostOverflow
  rw [hone]
  simp only [ne_eq, hnonzero, not_false_eq_true, true_and]

theorem divideWord_eq {dividend divisor : BitVec 32} (hzero : divisor.setWidth 16 ≠ 0)
    (hhost : ¬ HostOverflow isSigned dividend (divisor.setWidth 16)) :
    divideWord isSigned dividend (divisor &&& 0xFFFF) =
      quotientOf isSigned 16 (number isSigned dividend) (number isSigned (divisor.setWidth 16)) := by
  have hnumber := number_word isSigned divisor
  unfold divideWord quotientOf
  cases isSigned
  · simp only [Bool.false_eq_true, if_false] at hnumber ⊢
    rw [BitVec.and_assoc, BitVec.and_self]
    obtain ⟨hquotient, hremainder⟩ := number_udiv dividend (divisor &&& 0xFFFF)
    rw [hnumber] at hquotient hremainder
    rw [← hquotient, ← hremainder, ofInt_number, ofInt_number]
    have hfits : Fits false 16 (number false (dividend / (divisor &&& 0xFFFF))) ↔
        ¬ dividend / (divisor &&& 0xFFFF) > 0xFFFF := by
      have hmax : (0xFFFF : BitVec 32).toNat = 65535 := rfl
      unfold Fits number
      simp only [Bool.false_eq_true, if_false, gt_iff_lt, BitVec.lt_def]
      omega
    by_cases hlong : dividend / (divisor &&& 0xFFFF) > 0xFFFF
    · rw [if_pos hlong, if_neg (fun h => hfits.mp h hlong)]
    · rw [if_neg hlong, if_pos (hfits.mpr hlong)]
  · simp only [if_true] at hnumber ⊢
    rw [setWidth_masked]
    have hdivisible := (divisible_word hzero).mpr hhost
    obtain ⟨hquotient, hremainder⟩ := number_sdiv hdivisible
    rw [hnumber] at hquotient hremainder
    rw [(div_of_divisible hdivisible).1, (div_of_divisible hdivisible).2, ← hquotient, ← hremainder,
      ofInt_number, ofInt_number]
    have hfits : Fits true 16 (number true (dividend.sdiv ((divisor.setWidth 16).signExtend 32))) ↔
        ¬ ((dividend.sdiv ((divisor.setWidth 16).signExtend 32)).toInt > 32767 ∨
          (dividend.sdiv ((divisor.setWidth 16).signExtend 32)).toInt < -32768) := by
      unfold Fits number
      simp only [if_true]
      omega
    dsimp only
    split_ifs with hlong hfit hfit
    · exact absurd hlong (hfits.mp hfit)
    · rfl
    · rfl
    · exact absurd (hfits.mpr hlong) hfit

theorem divideWord_undefined {dividend divisor : BitVec 32}
    (hhost : HostOverflow isSigned dividend (divisor.setWidth 16)) :
    divideWord isSigned dividend (divisor &&& 0xFFFF) = .undefined := by
  obtain ⟨rfl, rfl, hdivisor⟩ := hhost
  unfold divideWord
  rw [if_pos rfl, setWidth_masked, hdivisor]
  rfl

theorem divideLong_eq {dividend : BitVec 64} {divisor : BitVec 32} (hzero : divisor ≠ 0) :
    divideLong isSigned dividend divisor =
      quotientOf isSigned 32 (number isSigned dividend) (number isSigned divisor) := by
  unfold divideLong quotientOf
  cases isSigned
  · simp only [Bool.false_eq_true, if_false]
    obtain ⟨hquotient, hremainder⟩ := number_udiv dividend (divisor.setWidth 64)
    rw [number_setWidth _ (by decide)] at hquotient hremainder
    rw [← hquotient, ← hremainder, ← setWidth_eq_ofInt _ _ (by decide),
      ← setWidth_eq_ofInt _ _ (by decide)]
    have hfits : Fits false 32 (number false (dividend / divisor.setWidth 64)) ↔
        ¬ dividend / divisor.setWidth 64 > 0xFFFFFFFF := by
      have hmax : (0xFFFFFFFF : BitVec 64).toNat = 4294967295 := rfl
      unfold Fits number
      simp only [Bool.false_eq_true, if_false, gt_iff_lt, BitVec.lt_def]
      omega
    by_cases hlong : dividend / divisor.setWidth 64 > 0xFFFFFFFF
    · rw [if_pos hlong, if_neg (fun h => hfits.mp h hlong)]
    · rw [if_neg hlong, if_pos (hfits.mpr hlong)]
  · simp only [if_true]
    have hback : (divisor.signExtend 64).setWidth 32 = divisor := by
      rw [setWidth_eq_ofInt true _ (by decide), number_signExtend _ (by decide), ofInt_number]
    have hdivisor : number true (divisor.signExtend 64) = number true divisor :=
      number_signExtend _ (by decide)
    by_cases hpair : divisor.signExtend 64 = -1 ∧ dividend = BitVec.intMin 64
    · -- the quotient is `2 ^ 63`
      rw [if_pos hpair, if_neg]
      rw [← hdivisor, hpair.1, hpair.2]
      decide
    · rw [if_neg hpair]
      have hdivisible : Divisible dividend (divisor.signExtend 64) := by
        refine ⟨fun h => hzero ?_, fun h => hpair ⟨h.2, h.1⟩⟩
        rw [← hback, h]
        rfl
      obtain ⟨hquotient, hremainder⟩ := number_sdiv hdivisible
      rw [hdivisor] at hquotient hremainder
      rw [(div_of_divisible hdivisible).1, (div_of_divisible hdivisible).2, ← hquotient, ← hremainder,
        ← setWidth_eq_ofInt _ _ (by decide), ← setWidth_eq_ofInt _ _ (by decide)]
      have hfits : Fits true 32 (number true (dividend.sdiv (divisor.signExtend 64))) ↔
          ¬ ((dividend.sdiv (divisor.signExtend 64)).toInt < -2 ^ 31 ∨
            (dividend.sdiv (divisor.signExtend 64)).toInt > 2 ^ 31 - 1) := by
        unfold Fits number
        simp only [if_true]
        omega
      dsimp only
      split_ifs with hlong hfit hfit
      · exact absurd hlong (hfits.mp hfit)
      · rfl
      · rfl
      · exact absurd (hfits.mpr hlong) hfit

end Host

/-! ## What is written -/

section Written

variable {σ : Type} {isSigned : Bool} {size : ℕ}

theorem getLsbD_written (regs : Regs) (ccr : BitVec 16) {bit : ℕ} (h : bit < 5) :
    (regs.writeCcr ccr).readCcr.getLsbD bit = ccr.getLsbD bit := by
  have hmask : ∀ bit < 5, ccrMask.getLsbD bit = true := by decide
  rw [readCcr_writeCcr, BitVec.getLsbD_and, hmask bit h, Bool.and_true]

theorem codes_aluTest (hsize : OperandSize size) (regs : Regs) (ccr : BitVec 16) (value : BitVec 32) :
    Codes (regs.writeCcr (aluApply ccr (aluTest value size))) (ccr.getLsbD srXBit = true)
      ((value.setWidth (8 * size)).msb = true) (value.setWidth (8 * size) = 0) False False := by
  obtain ⟨hx, hn, hz, hv, hc⟩ := getLsbD_aluApply ccr (aluTest value size)
  have hnegative : (aluTest value size).n = (value.setWidth (8 * size)).msb := by
    change negative (value &&& sizeMask size) size = _
    rw [masked_eq hsize, negative_setWidth hsize]
  have hzero : (aluTest value size).z = decide (value.setWidth (8 * size) = 0) := by
    change decide (value &&& sizeMask size = 0) = _
    rw [masked_eq hsize]
    exact decide_eq_decide.mpr (setWidth_eq_zero hsize _)
  constructor
  · rw [getLsbD_written _ _ (by decide), hx]
    exact Iff.rfl
  · rw [getLsbD_written _ _ (by decide), hn, hnegative]
  · rw [getLsbD_written _ _ (by decide), hz, hzero, decide_eq_true_iff]
  · rw [getLsbD_written _ _ (by decide), hv]
    exact iff_of_false Bool.false_ne_true not_false
  · rw [getLsbD_written _ _ (by decide), hc]
    exact iff_of_false Bool.false_ne_true not_false

/-- A DIVISION, ONCE THE HOST HAS DONE IT: its law holds unless the carry stays. -/
theorem finish_divided (hsize : OperandSize size) {a : ℤ} {b : BitVec (8 * size)} (hb : b ≠ 0)
    (ha : isSigned = false → 0 ≤ a) (ccr : BitVec 16)
    {store32 : BitVec 32 → BitVec 32 → DataRegisters → DataRegisters}
    {store : BitVec (8 * size) → BitVec (8 * size) → DataRegisters → DataRegisters}
    (hstore : ∀ q r, store32 q r = store (q.setWidth (8 * size)) (r.setWidth (8 * size)))
    (cpu : Cpu σ) :
    ∃ cpu', (quotientOf isSigned (8 * size) a (number isSigned b)).finish ccr size store32 cpu =
        .ok .done cpu' ∧
      (Divided isSigned a b store ccr .done cpu cpu' ↔ ¬ CarryStays isSigned a b ccr) := by
  have hnonzero : number isSigned b ≠ 0 := fun h => hb ((number_eq_zero isSigned b).mp h)
  unfold quotientOf
  by_cases hfits : Fits isSigned (8 * size) (a.tdiv (number isSigned b))
  · rw [if_pos hfits]
    refine ⟨_, rfl, iff_of_true ⟨rfl, fun h => absurd h hb, fun _ hlong => absurd hfits hlong, ?_⟩
      fun h => h.2.1 hfits⟩
    intro _ _
    have hremainder : Fits isSigned (8 * size) (a.tmod (number isSigned b)) :=
      fits_tmod hnonzero (fits_number isSigned b) ha
    obtain ⟨hequation, hbound, hsign⟩ := tdiv_law (a := a) hnonzero
    refine ⟨BitVec.ofInt (8 * size) (a.tdiv (number isSigned b)),
      BitVec.ofInt (8 * size) (a.tmod (number isSigned b)), ?_, ?_, ?_, ?_, ?_⟩
    · rw [number_ofInt hfits, number_ofInt hremainder]
      exact hequation
    · rw [number_ofInt hremainder]
      exact hbound
    · rw [number_ofInt hremainder]
      exact hsign
    · rw [← setWidth_ofInt _ hsize.width_le, ← setWidth_ofInt _ hsize.width_le, ← hstore]
      exact ⟨_, rfl⟩
    · have hvalue : (BitVec.ofInt 32 (a.tdiv (number isSigned b)) &&& sizeMask size).setWidth (8 * size) =
          BitVec.ofInt (8 * size) (a.tdiv (number isSigned b)) := by
        rw [masked_eq hsize, BitVec.setWidth_setWidth_of_le _ hsize.width_le, BitVec.setWidth_eq,
          setWidth_ofInt _ hsize.width_le]
      rw [← hvalue]
      exact codes_aluTest hsize _ ccr _
  · rw [if_neg hfits]
    refine ⟨_, rfl, fun h hstays => ?_, fun hclear => ⟨rfl, fun h => absurd h hb, fun _ _ => ?_,
      fun _ h => absurd h hfits⟩⟩
    · have hc := (h.overflow hb hfits).2.2
      have hcarry := hstays.2.2
      change ((Regs.writeCcr _ (ccr ||| 1#16 <<< srVBit)).readCcr.getLsbD srCBit) = false at hc
      rw [getLsbD_written _ _ (by decide), getLsbD_setFlag _ _ (by decide), hcarry] at hc
      exact nomatch hc
    · refine ⟨⟨_, rfl⟩, ?_, ?_⟩
      · change (Regs.writeCcr _ (ccr ||| 1#16 <<< srVBit)).readCcr.getLsbD srVBit = true
        rw [getLsbD_written _ _ (by decide), getLsbD_setFlag _ _ (by decide)]
        exact Bool.or_true _
      · change (Regs.writeCcr _ (ccr ||| 1#16 <<< srVBit)).readCcr.getLsbD srCBit = false
        have hcarry : ccr.getLsbD srCBit = false :=
          Bool.eq_false_iff.mpr fun hset => hclear ⟨hb, hfits, hset⟩
        rw [getLsbD_written _ _ (by decide), getLsbD_setFlag _ _ (by decide), hcarry]
        rfl

/-- THE PRODUCT OF WORDS. -/
theorem multiplyWord_eq (isSigned : Bool) (source destination : BitVec 32) :
    multiplyWord isSigned source (destination &&& 0xFFFF) = some (BitVec.ofInt 32
      (number isSigned (source.setWidth 16) * number isSigned (destination.setWidth 16))) := by
  have hfits : Fits isSigned 32
      (number isSigned (source.setWidth 16) * number isSigned (destination.setWidth 16)) :=
    fits_mul (n := 16) (by decide) (fits_number _ _) (fits_number _ _)
  have hs := number_word isSigned source
  have hd := number_word isSigned destination
  unfold multiplyWord
  cases isSigned
  · simp only [Bool.false_eq_true, if_false] at hs hd ⊢
    rw [BitVec.and_assoc, BitVec.and_self, ← hs, ← hd]
    rw [← hs, ← hd] at hfits
    exact congrArg some (number_injective ((number_umul hfits).trans (number_ofInt hfits).symm))
  · simp only [if_true] at hs hd ⊢
    rw [setWidth_masked]
    rw [← hs, ← hd] at hfits ⊢
    obtain ⟨hmul, hexact⟩ := mul_of_fits hfits
    rw [hmul]
    exact congrArg some (number_injective (hexact.trans (number_ofInt hfits).symm))

/-- THE PRODUCT OF LONG WORDS. -/
theorem multiplyLong_eq (isSigned : Bool) (destination source : BitVec 32) :
    multiplyLong isSigned destination source =
      some (BitVec.ofInt 64 (number isSigned destination * number isSigned source)) := by
  have hfits : Fits isSigned 64 (number isSigned destination * number isSigned source) :=
    fits_mul (n := 32) (by decide) (fits_number _ _) (fits_number _ _)
  unfold multiplyLong
  cases isSigned
  · rw [if_neg Bool.false_ne_true]
    have hs := number_setWidth source (show 32 ≤ 64 by decide)
    have hd := number_setWidth destination (show 32 ≤ 64 by decide)
    rw [← hs, ← hd] at hfits ⊢
    exact congrArg some (number_injective ((number_umul hfits).trans (number_ofInt hfits).symm))
  · rw [if_pos rfl]
    have hs := number_signExtend source (show 32 ≤ 64 by decide)
    have hd := number_signExtend destination (show 32 ≤ 64 by decide)
    rw [← hs, ← hd] at hfits ⊢
    obtain ⟨hmul, hexact⟩ := mul_of_fits hfits
    rw [hmul]
    exact congrArg some (number_injective (hexact.trans (number_ofInt hfits).symm))

theorem productOverflow_iff (isSigned : Bool) (product : BitVec 64) :
    productOverflow isSigned product = true ↔ ¬ Fits isSigned 32 (number isSigned product) := by
  unfold productOverflow Fits number
  cases isSigned
  · have hshift : product >>> 32 = 0 ↔ product.toNat < 2 ^ 32 := by
      rw [← BitVec.toNat_inj, BitVec.toNat_ushiftRight, Nat.shiftRight_eq_div_pow]
      change _ = 0 ↔ _
      omega
    simp only [Bool.false_eq_true, if_false, ne_eq, decide_eq_true_eq, hshift]
    omega
  · simp only [if_true, decide_eq_true_eq]
    omega

theorem codes_multiplyLong (regs : Regs) (ccr : BitVec 16) (negative zero overflow : Bool) :
    Codes (regs.writeCcr (multiplyLongCcr ccr negative zero overflow)) (ccr.getLsbD srXBit = true)
      (negative = true) (zero = true) (overflow = true) False := by
  have hbit : ∀ bit < 5, (multiplyLongCcr ccr negative zero overflow).getLsbD bit =
      (((ccr.getLsbD bit && decide (bit = srXBit)) || (negative && decide (bit = srNBit)) ||
        (zero && decide (bit = srZBit))) || (overflow && decide (bit = srVBit))) := by
    intro bit hbit
    unfold multiplyLongCcr
    rw [BitVec.getLsbD_or, BitVec.getLsbD_or, BitVec.getLsbD_or, BitVec.getLsbD_and,
      getLsbD_flag bit (by decide), getLsbD_ccrFlag _ _ (by decide), getLsbD_ccrFlag _ _ (by decide),
      getLsbD_ccrFlag _ _ (by decide)]
  constructor <;> rw [getLsbD_written _ _ (by decide), hbit _ (by decide)] <;>
    simp [srXBit, srNBit, srZBit, srVBit, srCBit]

end Written

/-! ## The instructions -/

section Instructions

variable {σ : Type} {ports : Ports σ} {isSigned : Bool} {source : BitVec 32} {cpu cpu₁ : Cpu σ}

/-- A quotient in the lower word of a register, and a remainder in the upper one. -/
def storeWord (reg : Fin 8) (quotient remainder : BitVec 16) (d : DataRegisters) : DataRegisters :=
  Lib.put d reg (remainder ++ quotient)

theorem storeWord_eq (reg : Fin 8) (q r : BitVec 32) :
    (fun d : DataRegisters => Lib.put d reg (((r &&& 0xFFFF) <<< 16) ||| (q &&& 0xFFFF))) =
      storeWord reg (q.setWidth 16) (r.setWidth 16) := by
  have hmask : ∀ i < 32, (0xFFFF : BitVec 32).getLsbD i = decide (i < 16) := by decide
  have hword : ((r &&& 0xFFFF) <<< 16) ||| (q &&& 0xFFFF) = r.setWidth 16 ++ q.setWidth 16 := by
    refine BitVec.eq_of_getLsbD_eq fun i hi => ?_
    rw [BitVec.getLsbD_or, BitVec.getLsbD_shiftLeft, BitVec.getLsbD_and, BitVec.getLsbD_and,
      BitVec.getLsbD_append, BitVec.getLsbD_setWidth, BitVec.getLsbD_setWidth, hmask i hi,
      hmask (i - 16) (by omega)]
    by_cases hlow : i < 16
    · simp [hlow]
    · simp [hlow, show i - 16 < 16 by omega, hi]
  unfold storeWord
  rw [hword]

/-- A quotient in a register, and before it a remainder in one. -/
def storeLong (high low : Fin 8) (quotient remainder : BitVec 32) (d : DataRegisters) : DataRegisters :=
  Lib.put (Lib.put d high remainder) low quotient

/-- A product in two registers. -/
def storeQuad (high low : Fin 8) (product : BitVec 64) (d : DataRegisters) : DataRegisters :=
  Lib.put (Lib.put d high (product.extractLsb' 32 32)) low (product.setWidth 32)

theorem executeMultiplyWord_multiplies (arith : Arith) (ccr : BitVec 16)
    (h : sourceOperand ports arith.ea 2 cpu = .ok source cpu₁) :
    ∃ cpu', executeMultiplyWord ports isSigned arith ccr cpu = .ok .done cpu' ∧
      Multiplied (n := 32) isSigned (source.setWidth 16) ((cpu₁.regs.d.get arith.reg).setWidth 16)
        (fun product d => Lib.put d arith.reg product) ccr .done cpu₁ cpu' := by
  have hfits : Fits isSigned 32 (number isSigned (source.setWidth 16) *
      number isSigned ((cpu₁.regs.d.get arith.reg).setWidth 16)) :=
    fits_mul (n := 16) (by decide) (fits_number _ _) (fits_number _ _)
  unfold executeMultiplyWord
  rw [Attempt.bind_of_ok h, Attempt.read_bind, multiplyWord_eq]
  refine ⟨_, rfl, rfl, ⟨_, rfl, number_ofInt, ⟨_, rfl⟩, ?_⟩, fun _ => hfits⟩
  have hcodes := codes_aluTest (.inr (.inr rfl))
    { cpu₁.regs with d := cpu₁.regs.d.set arith.reg (BitVec.ofInt 32
      (number isSigned (source.setWidth 16) *
        number isSigned ((cpu₁.regs.d.get arith.reg).setWidth 16))) }
    ccr (BitVec.ofInt 32 (number isSigned (source.setWidth 16) *
      number isSigned ((cpu₁.regs.d.get arith.reg).setWidth 16)))
  rw [BitVec.setWidth_eq] at hcodes
  exact hcodes.congr Iff.rfl Iff.rfl (iff_of_false id (not_not.mpr hfits))

theorem executeDivideWord_divides (isSigned : Bool) (arith : Arith) (ccr : BitVec 16)
    (h : sourceOperand ports arith.ea 2 cpu = .ok source cpu₁) :
    ∃ outcome cpu', executeDivideWord ports isSigned arith ccr cpu = .ok outcome cpu' ∧
      (Divided isSigned (number isSigned (cpu₁.regs.d.get arith.reg)) (source.setWidth 16)
          (storeWord arith.reg) ccr outcome cpu₁ cpu' ↔
        ¬ HostOverflow isSigned (cpu₁.regs.d.get arith.reg) (source.setWidth 16) ∧
          ¬ CarryStays isSigned (number isSigned (cpu₁.regs.d.get arith.reg)) (source.setWidth 16)
            ccr) := by
  have hmask : source &&& 0xFFFF = 0 ↔ source.setWidth 16 = 0 := by
    have heq : source &&& 0xFFFF = (source.setWidth 16).setWidth 32 := masked_eq (.inr (.inl rfl)) source
    rw [heq]
    exact setWidth_eq_zero (.inr (.inl rfl)) _
  unfold executeDivideWord
  rw [Attempt.bind_of_ok h]
  by_cases hzero : source.setWidth 16 = 0
  · rw [if_pos (hmask.mpr hzero)]
    refine ⟨.done, _, rfl, iff_of_true
      ⟨rfl, fun _ => rfl, fun hb => absurd hzero hb, fun hb => absurd hzero hb⟩
      ⟨fun hhost => ?_, fun hstays => hstays.1 hzero⟩⟩
    rw [hhost.2.2] at hzero
    exact absurd hzero (by decide)
  · rw [if_neg (mt hmask.mp hzero), Attempt.read_bind]
    by_cases hhost : HostOverflow isSigned (cpu₁.regs.d.get arith.reg) (source.setWidth 16)
    · rw [divideWord_undefined hhost]
      refine ⟨.undefined, _, rfl, iff_of_false (fun hdivided => ?_) fun hboth => hboth.1 hhost⟩
      exact absurd hdivided.defined (by decide)
    · rw [divideWord_eq hzero hhost]
      have hnonneg : isSigned = false → 0 ≤ number isSigned (cpu₁.regs.d.get arith.reg) := by
        rintro rfl
        exact (fits_number false (cpu₁.regs.d.get arith.reg)).1
      obtain ⟨cpu', hrun, hlaw⟩ := finish_divided (.inr (.inl rfl) : OperandSize 2) hzero hnonneg ccr
        (storeWord_eq arith.reg) cpu₁
      exact ⟨.done, cpu', hrun, hlaw.trans (by simp only [hhost, not_false_eq_true, true_and])⟩

/-- The law of a long multiply, with a product of one register or of two. -/
def MultipliedLong (isSigned quad : Bool) (high low : Fin 8) (source : BitVec 32) (ccr : BitVec 16)
    (outcome : Outcome) (cpu cpu' : Cpu σ) : Prop :=
  if quad then
    Multiplied isSigned (cpu.regs.d.get low) source (storeQuad high low) ccr outcome cpu cpu'
  else
    Multiplied isSigned (cpu.regs.d.get low) source (fun (product : BitVec 32) d => Lib.put d low product)
      ccr outcome cpu cpu'

theorem shiftRight_ne_zero (product : BitVec 64) : product >>> 63 ≠ 0 ↔ product.msb = true := by
  have hlt := product.isLt
  rw [ne_eq, ← BitVec.toNat_inj, BitVec.toNat_ushiftRight, Nat.shiftRight_eq_div_pow,
    BitVec.msb_eq_decide, decide_eq_true_iff]
  change ¬ _ = 0 ↔ _
  omega

theorem executeMultiplyLong_multiplies (isSigned quad : Bool) (high low : Fin 8) (source : BitVec 32)
    (cpu : Cpu σ) :
    ∃ cpu', executeMultiplyLong isSigned quad high low source cpu = .ok .done cpu' ∧
      MultipliedLong isSigned quad high low source cpu.regs.readCcr .done cpu cpu' := by
  have hwide : Fits isSigned 64 (number isSigned (cpu.regs.d.get low) * number isSigned source) :=
    fits_mul (n := 32) (by decide) (fits_number _ _) (fits_number _ _)
  unfold executeMultiplyLong MultipliedLong
  rw [Attempt.read_bind, multiplyLong_eq]
  cases quad
  · refine ⟨_, rfl, rfl, ⟨_, setWidth_ofInt _ (by decide), fun hfits => ?_, ⟨_, rfl⟩, ?_⟩,
      fun h => absurd h (by decide)⟩
    · rw [setWidth_ofInt _ (by decide)]
      exact number_ofInt hfits
    · have hsign := negative_setWidth (.inr (.inr rfl) : OperandSize 4)
        ((BitVec.ofInt 64 (number isSigned (cpu.regs.d.get low) * number isSigned source)).setWidth 32)
      refine (codes_multiplyLong _ _ _ _ _).congr ?_ decide_eq_true_iff ?_
      · rw [BitVec.setWidth_eq] at hsign
        exact Bool.eq_iff_iff.mp hsign
      · rw [productOverflow_iff, number_ofInt hwide]
  · refine ⟨_, rfl, rfl, ⟨_, rfl, number_ofInt, ?_, ?_⟩, fun _ => hwide⟩
    · have hhigh : ∀ product : BitVec 64, (product >>> 32).setWidth 32 = product.extractLsb' 32 32 := by
        intro product
        refine BitVec.eq_of_getLsbD_eq fun i hi => ?_
        rw [BitVec.getLsbD_setWidth, BitVec.getLsbD_ushiftRight, BitVec.getLsbD_extractLsb']
      unfold storeQuad
      rw [← hhigh]
      exact ⟨_, rfl⟩
    · exact (codes_multiplyLong _ _ _ _ _).congr (decide_eq_true_iff.trans (shiftRight_ne_zero _))
        decide_eq_true_iff (iff_of_false Bool.false_ne_true (not_not.mpr hwide))

theorem executeDivideLong_divides (isSigned quad : Bool) (high low : Fin 8) (source : BitVec 32)
    (cpu : Cpu σ) :
    ∃ cpu', executeDivideLong isSigned quad high low source cpu = .ok .done cpu' ∧
      (Divided isSigned
          (if quad then number isSigned (cpu.regs.d.get high ++ cpu.regs.d.get low)
            else number isSigned (cpu.regs.d.get low))
          source (storeLong high low) cpu.regs.readCcr .done cpu cpu' ↔
        ¬ CarryStays isSigned
          (if quad then number isSigned (cpu.regs.d.get high ++ cpu.regs.d.get low)
            else number isSigned (cpu.regs.d.get low)) source cpu.regs.readCcr) := by
  have hdividend : number isSigned (longDividend isSigned quad (cpu.regs.d.get high)
      (cpu.regs.d.get low)) =
      if quad then number isSigned (cpu.regs.d.get high ++ cpu.regs.d.get low)
      else number isSigned (cpu.regs.d.get low) := by
    unfold longDividend
    cases quad
    · cases isSigned
      · exact number_setWidth (cpu.regs.d.get low) (by decide)
      · exact number_signExtend (cpu.regs.d.get low) (by decide)
    · rfl
  rw [← hdividend]
  unfold executeDivideLong
  rw [Attempt.read_bind]
  by_cases hzero : source = 0
  · rw [if_pos hzero]
    exact ⟨_, rfl, iff_of_true
      ⟨rfl, fun _ => rfl, fun hb => absurd hzero hb, fun hb => absurd hzero hb⟩
      fun hstays => hstays.1 hzero⟩
  · rw [if_neg hzero, divideLong_eq hzero]
    have hnonneg : isSigned = false → 0 ≤ number isSigned (longDividend isSigned quad
        (cpu.regs.d.get high) (cpu.regs.d.get low)) := by
      rintro rfl
      exact (fits_number false _).1
    exact finish_divided (.inr (.inr rfl) : OperandSize 4) hzero hnonneg cpu.regs.readCcr
      (fun q r => by rw [BitVec.setWidth_eq, BitVec.setWidth_eq]; rfl) cpu

/-! ## The law as a whole -/

/-- The laws of the word forms, for an operand that is read. -/
structure WordLaw (ports : Ports σ) (isSigned : Bool) (arith : Arith) (source : BitVec 32)
    (cpu cpu₁ : Cpu σ) : Prop where
  multiply : arith.kind = (if isSigned then .muls else .mulu) →
    ∃ outcome cpu', executeExtended ports arith cpu = .ok outcome cpu' ∧
      Multiplied (n := 32) isSigned (source.setWidth 16) ((cpu₁.regs.d.get arith.reg).setWidth 16)
        (fun product d => Lib.put d arith.reg product) cpu.regs.readCcr outcome cpu₁ cpu'
  divide : arith.kind = (if isSigned then .divs else .divu) →
    ∃ outcome cpu', executeExtended ports arith cpu = .ok outcome cpu' ∧
      (Divided isSigned (number isSigned (cpu₁.regs.d.get arith.reg)) (source.setWidth 16)
          (storeWord arith.reg) cpu.regs.readCcr outcome cpu₁ cpu' ↔
        ¬ HostOverflow isSigned (cpu₁.regs.d.get arith.reg) (source.setWidth 16) ∧
          ¬ CarryStays isSigned (number isSigned (cpu₁.regs.d.get arith.reg)) (source.setWidth 16)
            cpu.regs.readCcr)

/-- The dividend of a long divide, as a number. -/
def dividendOf (isSigned quad : Bool) (high low : BitVec 32) : ℤ :=
  if quad then number isSigned (high ++ low) else number isSigned low

/-- The laws of the long forms, for an extension word and an operand that are read. -/
structure LongLaw (ports : Ports σ) (misc : Misc) (extension : BitVec 16) (source : BitVec 32)
    (cpu cpu₂ : Cpu σ) : Prop where
  multiply : misc.kind = .multiplyLong →
    ∃ outcome cpu', executeLongMuldiv ports misc cpu = .ok outcome cpu' ∧
      MultipliedLong (extension.getLsbD 11) (extension.getLsbD 10) (field3 extension 0)
        (field3 extension 12) source cpu₂.regs.readCcr outcome cpu₂ cpu'
  divide : misc.kind = .divideLong →
    let dividend := dividendOf (extension.getLsbD 11) (extension.getLsbD 10)
      (cpu₂.regs.d.get (field3 extension 0)) (cpu₂.regs.d.get (field3 extension 12))
    ∃ outcome cpu', executeLongMuldiv ports misc cpu = .ok outcome cpu' ∧
      (Divided (extension.getLsbD 11) dividend source
          (storeLong (field3 extension 0) (field3 extension 12)) cpu₂.regs.readCcr outcome cpu₂ cpu' ↔
        ¬ CarryStays (extension.getLsbD 11) dividend source cpu₂.regs.readCcr)

/-- MULTIPLY AND DIVIDE ARE EXACT, for every form and every operand, but for a quotient that the host
does not have and a carry that stays. -/
theorem mulDiv_exact (ports : Ports σ) :
    (∀ isSigned arith source cpu cpu₁, sourceOperand ports arith.ea 2 cpu = .ok source cpu₁ →
      WordLaw ports isSigned arith source cpu cpu₁) ∧
    (∀ misc extension source cpu cpu₁ cpu₂, misc.ea.kind.isData = true →
      nextWord ports cpu = .ok extension cpu₁ → sourceOperand ports misc.ea 4 cpu₁ = .ok source cpu₂ →
      LongLaw ports misc extension source cpu cpu₂) := by
  constructor
  · intro isSigned arith source cpu cpu₁ hsource
    constructor
    · intro hkind
      have hrun : executeExtended ports arith cpu =
          executeMultiplyWord ports isSigned arith cpu.regs.readCcr cpu := by
        unfold executeExtended
        rw [Attempt.read_bind, hkind]
        cases isSigned <;> rfl
      rw [hrun]
      obtain ⟨cpu', hok, hlaw⟩ := executeMultiplyWord_multiplies arith cpu.regs.readCcr hsource
      exact ⟨.done, cpu', hok, hlaw⟩
    · intro hkind
      have hrun : executeExtended ports arith cpu =
          executeDivideWord ports isSigned arith cpu.regs.readCcr cpu := by
        unfold executeExtended
        rw [Attempt.read_bind, hkind]
        cases isSigned <;> rfl
      rw [hrun]
      exact executeDivideWord_divides isSigned arith cpu.regs.readCcr hsource
  · intro misc extension source cpu cpu₁ cpu₂ hdata hextension hsource
    have hrun : executeLongMuldiv ports misc cpu =
        (if misc.kind = .multiplyLong then executeMultiplyLong else executeDivideLong)
          (extension.getLsbD 11) (extension.getLsbD 10) (field3 extension 0) (field3 extension 12)
          source cpu₂ := by
      unfold executeLongMuldiv allowEa
      rw [if_pos hdata, Attempt.bind_of_ok Attempt.pure_apply, Attempt.bind_of_ok hextension,
        Attempt.bind_of_ok hsource]
    constructor
    · intro hkind
      rw [hrun, if_pos hkind]
      obtain ⟨cpu', hok, hlaw⟩ := executeMultiplyLong_multiplies (extension.getLsbD 11)
        (extension.getLsbD 10) (field3 extension 0) (field3 extension 12) source cpu₂
      exact ⟨.done, cpu', hok, hlaw⟩
    · intro hkind dividend
      rw [hrun, if_neg (by rw [hkind]; decide)]
      obtain ⟨cpu', hok, hlaw⟩ := executeDivideLong_divides (extension.getLsbD 11)
        (extension.getLsbD 10) (field3 extension 0) (field3 extension 12) source cpu₂
      exact ⟨.done, cpu', hok, hlaw⟩

theorem sourceOperand_register (ports : Ports σ) (reg : Fin 8) (size : ℕ) (cpu : Cpu σ) :
    sourceOperand ports ⟨.dataRegister, reg⟩ size cpu =
      .ok (cpu.regs.d.get reg &&& sizeMask size) cpu := by
  rfl

/-- A processor with a dividend in `D0` and a divisor in `D1`. -/
def divideCpu (dividend divisor : BitVec 32) (sr : BitVec 16) : Cpu (ByteMemory 32) :=
  (flatCpu .m68030 sr 0x1000 0x1000).mapRegs fun regs =>
    { regs with d := #v[dividend, divisor, 0, 0, 0, 0, 0, 0] }

/-- `DIVS.W D1,D0` of a negative dividend by a positive divisor. -/
theorem mulDiv_exact_divs :
    ∃ outcome cpu', executeExtended (flatPorts fun _ => false) (arithDecode 0x81C1)
        (divideCpu 0xFFFFFFF9 2 0x2000) = .ok outcome cpu' ∧
      Divided true (-7) (2 : BitVec 16) (storeWord 0) 0 outcome (divideCpu 0xFFFFFFF9 2 0x2000) cpu' := by
  obtain ⟨outcome, cpu', hrun, hlaw⟩ := ((mulDiv_exact (flatPorts fun _ => false)).1 true
    (arithDecode 0x81C1) _ (divideCpu 0xFFFFFFF9 2 0x2000) _
    (sourceOperand_register _ 1 2 _)).divide (by decide)
  refine ⟨outcome, cpu', hrun, hlaw.mpr ⟨?_, ?_⟩⟩
  · exact fun h => absurd h.2.1 (by decide)
  · exact fun h => absurd h.2.2 (by decide)

/-- `DIVS.W` of the most negative dividend by minus one, and `DIVU.W` of a dividend that is too long with
the carry set. -/
theorem divide_defects :
    (∃ outcome cpu', executeExtended (flatPorts fun _ => false) (arithDecode 0x81C1)
        (divideCpu 0x80000000 0xFFFF 0x2000) = .ok outcome cpu' ∧
      ¬ Divided true (-2 ^ 31) (-1 : BitVec 16) (storeWord 0) 0 outcome
        (divideCpu 0x80000000 0xFFFF 0x2000) cpu') ∧
    (∃ outcome cpu', executeExtended (flatPorts fun _ => false) (arithDecode 0x80C1)
        (divideCpu 0x10000 1 0x2001) = .ok outcome cpu' ∧
      ¬ Divided false 0x10000 (1 : BitVec 16) (storeWord 0) 1 outcome
        (divideCpu 0x10000 1 0x2001) cpu') := by
  constructor
  · obtain ⟨outcome, cpu', hrun, hlaw⟩ := executeDivideWord_divides true
      (arithDecode 0x81C1) 0 (sourceOperand_register (flatPorts fun _ => false) 1 2
        (divideCpu 0x80000000 0xFFFF 0x2000))
    refine ⟨outcome, cpu', hrun, fun h => (hlaw.mp h).1 ⟨rfl, by decide, by decide⟩⟩
  · obtain ⟨outcome, cpu', hrun, hlaw⟩ := executeDivideWord_divides false
      (arithDecode 0x80C1) 1 (sourceOperand_register (flatPorts fun _ => false) 1 2
        (divideCpu 0x10000 1 0x2001))
    exact ⟨outcome, cpu', hrun, fun h => (hlaw.mp h).2 ⟨by decide, by decide, by decide⟩⟩

end Instructions

end Apollo.M68030
