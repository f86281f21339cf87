import Mathlib
import Apollo.M68030.ConditionCodes
import Apollo.M68030.OperandMemory
import Apollo.M68030.Locked

/-!
# CMP2 and CHK2

`execute_bounds` of `src/core/cpu/m68030/ap_m68030_step.c` compares a register with two bounds once, in
32 bits that wrap around: the register is outside when it is further above the lower bound than the
upper bound is. The one comparison is right for bounds in the order of signed numbers and for bounds in
the order of unsigned ones (`Compared`), since between two bounds that are in both orders the two orders
agree, and past a bound where they part the wrapping does.
-/

namespace Apollo.M68030

open Apollo.Lib

/-! ## One comparison for two orders -/

/-- A number is outside of two bounds on a circle: past the upper one, before it comes to the lower. -/
def OutsideCircle (lower upper value : ℕ) : Prop :=
  if lower ≤ upper then value < lower ∨ upper < value else upper < value ∧ value < lower

theorem wrapped_iff (lower upper value : BitVec 32) :
    upper - lower < value - lower ↔ OutsideCircle lower.toNat upper.toNat value.toNat := by
  have hl := lower.isLt
  have hu := upper.isLt
  have hv := value.isLt
  unfold OutsideCircle
  rw [BitVec.lt_def, BitVec.toNat_sub, BitVec.toNat_sub]
  split_ifs <;> omega

section Orders

variable {w : ℕ} {lower upper value : BitVec w}

theorem outsideCircle_unsigned (h : lower.toNat ≤ upper.toNat) :
    OutsideCircle lower.toNat upper.toNat value.toNat ↔
      value.toNat < lower.toNat ∨ upper.toNat < value.toNat := by
  unfold OutsideCircle
  rw [if_pos h]

/-- Bounds in signed order: where they are not in unsigned order, the lower is negative and the upper is
not. -/
theorem outsideCircle_signed (h : lower.toInt ≤ upper.toInt) :
    OutsideCircle lower.toNat upper.toNat value.toNat ↔
      value.toInt < lower.toInt ∨ upper.toInt < value.toInt := by
  have hl := lower.isLt
  have hu := upper.isLt
  have hv := value.isLt
  rw [BitVec.toInt_eq_toNat_cond, BitVec.toInt_eq_toNat_cond] at h
  unfold OutsideCircle
  rw [BitVec.toInt_eq_toNat_cond, BitVec.toInt_eq_toNat_cond, BitVec.toInt_eq_toNat_cond]
  generalize hM : 2 ^ w = M at *
  have hcast : ((2 : ℤ) ^ w) = (M : ℤ) := by
    rw [← hM]
    norm_cast
  split_ifs at * <;> omega

end Orders

/-! ## What is compared -/

/-- The bits of a long word that a comparison is of: the operand of a data register, or an address
register as a whole. -/
def comparedWidth (isAddress : Bool) (size : ℕ) : ℕ := if isAddress then 32 else 8 * size

/-- A bound, as it is compared. -/
def comparedBound (isAddress : Bool) (size : ℕ) (bound : BitVec 32) : BitVec 32 :=
  if isAddress then signExtend bound size else bound &&& sizeMask size

/-- A register, as it is compared. -/
def comparedValue (isAddress : Bool) (size : ℕ) (value : BitVec 32) : BitVec 32 :=
  if isAddress then value else value &&& sizeMask size

/-- The verdict of the comparison. -/
def outOfBounds (isAddress : Bool) (size : ℕ) (value lower upper : BitVec 32) : Bool :=
  comparedBound isAddress size upper - comparedBound isAddress size lower <
    comparedValue isAddress size value - comparedBound isAddress size lower

/-- The register is one of its bounds. -/
def onBound (isAddress : Bool) (size : ℕ) (value lower upper : BitVec 32) : Bool :=
  comparedValue isAddress size value = comparedBound isAddress size lower ∨
    comparedValue isAddress size value = comparedBound isAddress size upper

/-- The number that is compared, as a signed one. -/
def signedPart (isAddress : Bool) (size : ℕ) (value : BitVec 32) : ℤ :=
  (value.setWidth (comparedWidth isAddress size)).toInt

/-- And as an unsigned one. -/
def unsignedPart (isAddress : Bool) (size : ℕ) (value : BitVec 32) : ℕ :=
  (value.setWidth (comparedWidth isAddress size)).toNat

section Verdict

variable {isAddress : Bool} {size : ℕ} {value lower upper : BitVec 32}

theorem toNat_compared (h : OperandSize size) (x : BitVec 32) :
    (comparedBound isAddress size x).toNat = unsignedPart isAddress size (comparedBound isAddress size x) ∧
      (comparedValue isAddress size x).toNat =
        unsignedPart isAddress size (comparedValue isAddress size x) := by
  unfold unsignedPart comparedWidth comparedBound comparedValue
  cases isAddress with
  | true => simp
  | false =>
    have hle := h.width_le
    have hlt := (x.setWidth (8 * size)).isLt
    have hpow : 2 ^ (8 * size) ≤ 2 ^ 32 := Nat.pow_le_pow_right two_pos hle
    have hsame : (x &&& sizeMask size).toNat = ((x &&& sizeMask size).setWidth (8 * size)).toNat := by
      rw [masked_eq h, BitVec.setWidth_setWidth_of_le _ hle, BitVec.setWidth_eq,
        BitVec.toNat_setWidth _ (x.setWidth (8 * size)), Nat.mod_eq_of_lt (by omega)]
    exact ⟨hsame, hsame⟩

theorem outOfBounds_iff (h : OperandSize size) :
    outOfBounds isAddress size value lower upper = true ↔
      OutsideCircle (unsignedPart isAddress size (comparedBound isAddress size lower))
        (unsignedPart isAddress size (comparedBound isAddress size upper))
        (unsignedPart isAddress size (comparedValue isAddress size value)) := by
  unfold outOfBounds
  rw [decide_eq_true_iff, wrapped_iff, (toNat_compared h lower).1, (toNat_compared h upper).1,
    (toNat_compared h value).2]

theorem comparedValue_congr (h : OperandSize size) {x y : BitVec 32}
    (hsame : x.setWidth (8 * size) = y.setWidth (8 * size)) :
    comparedValue false size x = comparedValue false size y := by
  change x &&& sizeMask size = y &&& sizeMask size
  rw [masked_eq h, masked_eq h, hsame]

theorem outOfBounds_bit (size : ℕ) {i : ℕ} (hi : i < 32) :
    outOfBounds true size 0 0 0 ≠ outOfBounds true size (0 ^^^ BitVec.twoPow 32 i) 0 0 := by
  have hzero : comparedBound true size 0 = 0 := by
    unfold comparedBound signExtend
    rw [if_pos rfl]
    split_ifs <;> rfl
  have hpower : ∀ i < 32, decide ((0 : BitVec 32) - 0 < 0 - 0) ≠
      decide ((0 : BitVec 32) - 0 < (0 ^^^ BitVec.twoPow 32 i) - 0) := by decide
  have hvalue : ∀ x, comparedValue true size x = x := fun _ => rfl
  unfold outOfBounds
  rw [hzero, hvalue, hvalue]
  exact hpower i hi

/-- THE VERDICT IS RIGHT in both orders, for the bits that are compared. -/
structure BoundsLaw (isAddress : Bool) (size : ℕ) : Prop where
  signed : ∀ value lower upper : BitVec 32,
    let part := signedPart isAddress size
    let bound := comparedBound isAddress size
    part (bound lower) ≤ part (bound upper) →
      (outOfBounds isAddress size value lower upper = true ↔
        part value < part (bound lower) ∨ part (bound upper) < part value)
  unsigned : ∀ value lower upper : BitVec 32,
    let part := unsignedPart isAddress size
    let bound := comparedBound isAddress size
    part (bound lower) ≤ part (bound upper) →
      (outOfBounds isAddress size value lower upper = true ↔
        part value < part (bound lower) ∨ part (bound upper) < part value)
  equal : ∀ value lower upper : BitVec 32,
    let part := unsignedPart isAddress size
    let bound := comparedBound isAddress size
    onBound isAddress size value lower upper = true ↔
      part value = part (bound lower) ∨ part value = part (bound upper)
  above : isAddress = false → ∀ x y lower upper : BitVec 32,
    x.setWidth (8 * size) = y.setWidth (8 * size) →
      outOfBounds isAddress size x lower upper = outOfBounds isAddress size y lower upper ∧
        onBound isAddress size x lower upper = onBound isAddress size y lower upper
  every : isAddress = true → ∀ i < 32, ∃ value lower upper : BitVec 32,
    outOfBounds isAddress size value lower upper ≠
      outOfBounds isAddress size (value ^^^ BitVec.twoPow 32 i) lower upper

theorem setWidth_comparedValue (h : OperandSize size) (x : BitVec 32) :
    (comparedValue isAddress size x).setWidth (comparedWidth isAddress size) =
      x.setWidth (comparedWidth isAddress size) := by
  unfold comparedWidth comparedValue
  cases isAddress with
  | true => rfl
  | false =>
    change (x &&& sizeMask size).setWidth (8 * size) = x.setWidth (8 * size)
    rw [masked_eq h, BitVec.setWidth_setWidth_of_le _ h.width_le, BitVec.setWidth_eq]

theorem boundsLaw (h : OperandSize size) (isAddress : Bool) : BoundsLaw isAddress size where
  signed value lower upper := by
    intro part bound hle
    have hvalue : part value = part (comparedValue isAddress size value) :=
      congrArg BitVec.toInt (setWidth_comparedValue h value).symm
    rw [outOfBounds_iff h, hvalue]
    exact outsideCircle_signed hle
  unsigned value lower upper := by
    intro part bound hle
    have hvalue : part value = part (comparedValue isAddress size value) :=
      congrArg BitVec.toNat (setWidth_comparedValue h value).symm
    rw [outOfBounds_iff h, hvalue]
    exact outsideCircle_unsigned hle
  equal value lower upper := by
    intro part bound
    have hvalue : part value = (comparedValue isAddress size value).toNat :=
      (congrArg BitVec.toNat (setWidth_comparedValue h value).symm).trans (toNat_compared h value).2.symm
    have hbound : ∀ x, part (bound x) = (bound x).toNat := fun x => (toNat_compared h x).1.symm
    unfold onBound
    rw [decide_eq_true_iff, hvalue, hbound, hbound, BitVec.toNat_inj, BitVec.toNat_inj]
  above := by
    rintro rfl x y lower upper hsame
    have hvalue := comparedValue_congr h hsame
    unfold outOfBounds onBound
    rw [hvalue]
    exact ⟨rfl, rfl⟩
  every := by
    rintro rfl i hi
    exact ⟨0, 0, 0, outOfBounds_bit size hi⟩

end Verdict

/-! ## The instruction -/

section Instruction

variable {σ : Type}

/-- The register that an extension word names. -/
def boundsRegister (extension : BitVec 16) (regs : Regs) : BitVec 32 :=
  if extension.getLsbD 15 then regs.readAddressRegister (field3 extension 12)
  else regs.d.get (field3 extension 12)

/-- What `CMP2` and `CHK2` do with two bounds. -/
structure Compared (kind : BoundsKind) (extension : BitVec 16) (size : ℕ) (lower upper : BitVec 32)
    (cpu cpu' : Cpu σ) : Prop where
  carry : cpu'.regs.readCcr.getLsbD srCBit =
    outOfBounds (extension.getLsbD 15) size (boundsRegister extension cpu.regs) lower upper
  zero : cpu'.regs.readCcr.getLsbD srZBit =
    onBound (extension.getLsbD 15) size (boundsRegister extension cpu.regs) lower upper
  vector : cpu'.pendingVector =
    if kind = .chk2 ∧ cpu'.regs.readCcr.getLsbD srCBit = true then vectorChk else cpu.pendingVector
  others : cpu' = { cpu with regs := cpu'.regs, pendingVector := cpu'.pendingVector } ∧
    (∃ ccr, cpu'.regs = cpu.regs.writeCcr ccr) ∧
    ∀ bit, bit ≠ srCBit → bit ≠ srZBit →
      cpu'.regs.readCcr.getLsbD bit = cpu.regs.readCcr.getLsbD bit

theorem boundsCcr_bits (ccr : BitVec 16) (value lower upper : BitVec 32) :
    (boundsCcr ccr value lower upper).getLsbD srCBit = decide (upper - lower < value - lower) ∧
      (boundsCcr ccr value lower upper).getLsbD srZBit = decide (value = lower ∨ value = upper) ∧
      ∀ bit, bit ≠ srCBit → bit ≠ srZBit →
        (boundsCcr ccr value lower upper).getLsbD bit = ccr.getLsbD bit := by
  have hc : srCBit < 16 := by decide
  have hz : srZBit < 16 := by decide
  have hcz : srCBit ≠ srZBit := by decide
  unfold boundsCcr
  dsimp only
  refine ⟨?_, ?_, fun bit hbitC hbitZ => ?_⟩
  · split_ifs with hout hequal hequal <;> simp [getLsbD_setFlag _ _ hc, getLsbD_clearFlag _ _ hc, hout]
  · split_ifs with hout hequal hequal <;>
      simp [getLsbD_setFlag _ _ hc, getLsbD_setFlag _ _ hz, getLsbD_clearFlag _ _ hc,
        getLsbD_clearFlag _ _ hz, hcz.symm, hequal]
  · split_ifs <;>
      simp [getLsbD_setFlag _ _ hc, getLsbD_setFlag _ _ hz, getLsbD_clearFlag _ _ hc,
        getLsbD_clearFlag _ _ hz, hbitC, hbitZ]

theorem compared_of_bounds (kind : BoundsKind) (extension : BitVec 16) (size : ℕ)
    (lower upper : BitVec 32) (cpu cpu' : Cpu σ)
    (h : cpu' = { cpu with
      regs := cpu.regs.writeCcr (boundsCcr cpu.regs.readCcr
        (comparedValue (extension.getLsbD 15) size (boundsRegister extension cpu.regs))
        (comparedBound (extension.getLsbD 15) size lower)
        (comparedBound (extension.getLsbD 15) size upper))
      pendingVector :=
        if kind = .chk2 ∧ outOfBounds (extension.getLsbD 15) size (boundsRegister extension cpu.regs)
          lower upper = true then vectorChk else cpu.pendingVector }) :
    Compared kind extension size lower upper cpu cpu' := by
  obtain ⟨hc, hz, hother⟩ := boundsCcr_bits cpu.regs.readCcr
    (comparedValue (extension.getLsbD 15) size (boundsRegister extension cpu.regs))
    (comparedBound (extension.getLsbD 15) size lower) (comparedBound (extension.getLsbD 15) size upper)
  have hmask : ∀ bit < 16, ccrMask.getLsbD bit = decide (bit < 5) := by decide
  have hccr : cpu'.regs.readCcr = boundsCcr cpu.regs.readCcr
      (comparedValue (extension.getLsbD 15) size (boundsRegister extension cpu.regs))
      (comparedBound (extension.getLsbD 15) size lower)
      (comparedBound (extension.getLsbD 15) size upper) &&& ccrMask := by
    rw [h]
    exact readCcr_writeCcr _ _
  have hcarry : cpu'.regs.readCcr.getLsbD srCBit = outOfBounds (extension.getLsbD 15) size
      (boundsRegister extension cpu.regs) lower upper := by
    rw [hccr, BitVec.getLsbD_and, hc, hmask srCBit (by decide)]
    exact Bool.and_true _
  refine ⟨hcarry, ?_, ?_, ?_, ?_, fun bit hbitC hbitZ => ?_⟩
  · rw [hccr, BitVec.getLsbD_and, hz, hmask srZBit (by decide)]
    exact Bool.and_true _
  · rw [hcarry, h]
  · rw [h]
  · rw [h]
    exact ⟨_, rfl⟩
  · rw [hccr, BitVec.getLsbD_and, hother bit hbitC hbitZ, getLsbD_readCcr]
    by_cases hbit : bit < 16
    · rw [hmask bit hbit, Bool.and_assoc, Bool.and_self]
    · rw [BitVec.getLsbD_of_ge _ _ (by omega), Bool.false_and, Bool.false_and]

theorem size_of_cmp2 {word : BitVec 16} (h : (boundsDecode word).kind = .cmp2) :
    OperandSize (boundsDecode word).size := by
  have hshift : ∀ field : BitVec 16, (field >>> 9 &&& 3).toNat ≠ 3 →
      OperandSize (1 <<< (field >>> 9 &&& 3).toNat) := by
    intro field hne
    have hlt : (field >>> 9 &&& 3).toNat < 4 := by
      rw [BitVec.toNat_and]
      exact Nat.lt_succ_of_le Nat.and_le_right
    generalize (field >>> 9 &&& 3).toNat = n at hne hlt
    have hn : n = 0 ∨ n = 1 ∨ n = 2 := by omega
    rcases hn with rfl | rfl | rfl
    · exact .inl rfl
    · exact .inr (.inl rfl)
    · exact .inr (.inr rfl)
  unfold boundsDecode at h ⊢
  dsimp only at h ⊢
  split_ifs at h ⊢ with hmatches hchk hsize hcontrol
  all_goals exact hshift word ‹_›

/-- CMP2 AND CHK2: the verdict on the register and the bounds that were read, with one comparison for
both orders, and nothing else. -/
theorem executeBounds_compares (ports : Ports σ) (word : BitVec 16) (cpu cpu' : Cpu σ)
    (hkind : (boundsDecode word).kind = .cmp2)
    (h : executeBounds ports (boundsDecode word) cpu = .ok () cpu') :
    ∃ extension target lower upper cpu₁ cpu₂ cpu₃ cpu₄,
      nextWord ports cpu = .ok extension cpu₁ ∧
      operandAddress ports (boundsDecode word).ea (boundsDecode word).size cpu₁ = .ok target cpu₂ ∧
      readOperand ports target (boundsDecode word).size cpu₂ = .ok lower cpu₃ ∧
      readOperand ports
        { target with address := target.address + BitVec.ofNat 32 (boundsDecode word).size }
        (boundsDecode word).size cpu₃ = .ok upper cpu₄ ∧
      Compared ((boundsDecode word).kindWith extension) extension (boundsDecode word).size lower upper
        cpu₄ cpu' ∧
      BoundsLaw (extension.getLsbD 15) (boundsDecode word).size := by
  have hsize := size_of_cmp2 hkind
  generalize boundsDecode word = bounds at h hkind hsize ⊢
  obtain ⟨extension, cpu₁, hextension, h⟩ := Attempt.bind_eq_ok.mp h
  have hcompare : executeCompareBounds ports bounds (bounds.kindWith extension) extension cpu₁ =
      .ok () cpu' := by
    unfold Bounds.kindWith at h ⊢
    rw [hkind] at h ⊢
    simp only [ne_eq, not_true_eq_false, if_false] at h ⊢
    split_ifs at h ⊢
    · exact h
    · exact h
  unfold executeCompareBounds at hcompare
  obtain ⟨target, cpu₂, htarget, hrest⟩ := Attempt.bind_eq_ok.mp hcompare
  obtain ⟨u, cpu₂', hrequire, hreads⟩ := Attempt.bind_eq_ok.mp hrest
  rw [(Attempt.require_eq_ok.mp hrequire).2] at hreads
  obtain ⟨lower, cpu₃, hlower, hread⟩ := Attempt.bind_eq_ok.mp hreads
  obtain ⟨upper, cpu₄, hupper, hflags⟩ := Attempt.bind_eq_ok.mp hread
  refine ⟨extension, target, lower, upper, cpu₁, cpu₂, cpu₃, cpu₄, hextension, htarget, hlower, hupper,
    ?_, boundsLaw hsize _⟩
  apply compared_of_bounds
  rw [Attempt.read_bind, Attempt.modify_bind] at hflags
  have hvalue : (if extension.getLsbD 15 then cpu₄.regs.readAddressRegister (field3 extension 12)
      else cpu₄.regs.d[field3 extension 12] &&& sizeMask bounds.size) =
      comparedValue (extension.getLsbD 15) bounds.size (boundsRegister extension cpu₄.regs) := by
    unfold comparedValue boundsRegister
    split_ifs <;> rfl
  have hverdict : outOfBounds (extension.getLsbD 15) bounds.size (boundsRegister extension cpu₄.regs)
      lower upper = true ↔
      comparedBound (extension.getLsbD 15) bounds.size upper -
          comparedBound (extension.getLsbD 15) bounds.size lower <
        comparedValue (extension.getLsbD 15) bounds.size (boundsRegister extension cpu₄.regs) -
          comparedBound (extension.getLsbD 15) bounds.size lower := decide_eq_true_iff
  dsimp only at hflags
  rw [hvalue] at hflags
  change Attempt.onlyIf (bounds.kindWith extension = .chk2 ∧
      comparedBound (extension.getLsbD 15) bounds.size upper -
          comparedBound (extension.getLsbD 15) bounds.size lower <
        comparedValue (extension.getLsbD 15) bounds.size (boundsRegister extension cpu₄.regs) -
          comparedBound (extension.getLsbD 15) bounds.size lower) (raise vectorChk) _ = _ at hflags
  unfold Attempt.onlyIf at hflags
  by_cases hout : bounds.kindWith extension = .chk2 ∧ outOfBounds (extension.getLsbD 15) bounds.size
      (boundsRegister extension cpu₄.regs) lower upper = true
  · rw [if_pos ⟨hout.1, hverdict.mp hout.2⟩] at hflags
    rw [if_pos hout]
    cases hflags
    rfl
  · rw [if_neg fun hboth => hout ⟨hboth.1, hverdict.mpr hboth.2⟩] at hflags
    rw [if_neg hout]
    cases hflags
    rfl

/-- A processor at the extension word of `CHK2.W (A0),D1`, with the bounds -16 and 16, and 7000 (hexadecimal) in
`D1`. -/
def boundsCpu : Cpu (ByteMemory 32) :=
  let cpu := flatCpu .m68030 0x2000 0x1000 0x1000
  { cpu with
    regs := { cpu.regs with d := #v[0, 0x7000, 0, 0, 0, 0, 0, 0], a := #v[0x2000, 0, 0, 0, 0, 0, 0] }
    memory := fun address =>
      if address.toNat < 16 then if address.getLsbD 0 then 0x00 else 0x18
      else if address = 0x2000 then 0xFF else if address = 0x2001 then 0xF0
      else if address = 0x2003 then 0x10 else 0 }

/-- What the instruction reads: its extension word and the bounds. -/
theorem boundsCpu_reads :
    (match (do
        let extension ← nextWord (flatPorts fun _ => false)
        let target ← operandAddress (flatPorts fun _ => false) (boundsDecode 0x02D0).ea
          (boundsDecode 0x02D0).size
        let lower ← readOperand (flatPorts fun _ => false) target (boundsDecode 0x02D0).size
        let upper ← readOperand (flatPorts fun _ => false)
          { target with address := target.address + BitVec.ofNat 32 (boundsDecode 0x02D0).size }
          (boundsDecode 0x02D0).size
        pure (extension, lower, upper) :
          Exec (ByteMemory 32) (BitVec 16 × BitVec 32 × BitVec 32)) boundsCpu with
      | .ok found _ => decide (found = (0x1800, 0xFFF0, 0x10))
      | .error _ _ => false) = true := by
  decide +kernel

/-- `CHK2.W (A0),D1` with a value above its bounds: it is found out of them, and asks for the
exception. -/
theorem executeBounds_compares_word : ∃ cpu₄ cpu' : Cpu (ByteMemory 32),
    executeBounds (flatPorts fun _ => false) (boundsDecode 0x02D0) boundsCpu = .ok () cpu' ∧
      Compared .chk2 0x1800 2 0xFFF0 0x10 cpu₄ cpu' ∧
      cpu'.regs.readCcr.getLsbD srCBit = true ∧ cpu'.pendingVector = vectorChk := by
  have hrun : Attempt.runsTo (executeBounds (flatPorts fun _ => false) (boundsDecode 0x02D0))
      boundsCpu (fun cpu' => cpu'.regs.readCcr.getLsbD srCBit = true) = true := by decide +kernel
  obtain ⟨u, cpu', hok, hcarry⟩ := Attempt.exists_ok_of_runsTo hrun
  obtain ⟨extension, target, lower, upper, cpu₁, cpu₂, cpu₃, cpu₄, hword, htarget, hlower, hupper,
      hcompared, -⟩ :=
    executeBounds_compares (flatPorts fun _ => false) 0x02D0 boundsCpu cpu' (by decide) hok
  have hreads := boundsCpu_reads
  rw [Attempt.bind_of_ok hword, Attempt.bind_of_ok htarget, Attempt.bind_of_ok hlower,
    Attempt.bind_of_ok hupper] at hreads
  obtain ⟨rfl, rfl, rfl⟩ : extension = 0x1800 ∧ lower = 0xFFF0 ∧ upper = 0x10 := by
    have hfound := of_decide_eq_true hreads
    exact ⟨congrArg (·.1) hfound, congrArg (·.2.1) hfound, congrArg (·.2.2) hfound⟩
  have hvector := hcompared.vector
  rw [if_pos ⟨by decide, hcarry⟩] at hvector
  exact ⟨cpu₄, cpu', hok, hcompared, hcarry, hvector⟩

end Instruction

end Apollo.M68030
