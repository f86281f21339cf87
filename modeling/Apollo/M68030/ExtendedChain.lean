import Mathlib
import Apollo.M68030.ChainDigit
import Apollo.M68030.OperandMemory
import Apollo.M68030.OperandAccess

/-!
# Chained extended arithmetic is multi-precision arithmetic

`ADDX`, `SUBX`, `ABCD` and `SBCD`, one instruction for an operand, from the least significant operand of two
numbers on. `X` is the carry between the instructions and `Z` stays while the results are zero, so what
holds of each digit (`DigitLaw`) holds of the numbers (`ChainLaw`). In memory the operands are where the two
registers step down to, both in one register or each in its own.
-/

namespace Apollo.M68030

open Apollo.Lib

/-! ## One instruction -/

section Step

variable {σ : Type} {ports : Ports σ} {functionCode : BitVec 8} (view : MemoryPorts ports functionCode)

/-- Where the source operand is. -/
def sourceAddress (arith : Arith) (size : ℕ) (regs : Regs) : BitVec 32 :=
  steppedDown regs arith.sourceReg size

/-- The registers once the source operand is read. -/
def sourceTaken (arith : Arith) (size : ℕ) (regs : Regs) : Regs :=
  regs.writeAddressRegister arith.sourceReg (sourceAddress arith size regs)

/-- Where the destination operand is. -/
def destinationAddress (arith : Arith) (size : ℕ) (regs : Regs) : BitVec 32 :=
  steppedDown (sourceTaken arith size regs) arith.reg size

/-- The source operand. -/
def sourceOf (arith : Arith) (size : ℕ) (cpu : Cpu σ) : BitVec 32 :=
  if arith.memoryOperands then (view.memory cpu.memory).loadAt (sourceAddress arith size cpu.regs) size
  else cpu.regs.d.get arith.sourceReg &&& sizeMask size

/-- The destination operand. -/
def destinationOf (arith : Arith) (size : ℕ) (cpu : Cpu σ) : BitVec 32 :=
  if arith.memoryOperands then
    (view.memory cpu.memory).loadAt (destinationAddress arith size cpu.regs) size
  else cpu.regs.d.get arith.reg &&& sizeMask size

/-- The destination operand after the instruction. -/
def resultOf (arith : Arith) (size : ℕ) (cpu cpu' : Cpu σ) : BitVec 32 :=
  if arith.memoryOperands then
    (view.memory cpu'.memory).loadAt (destinationAddress arith size cpu.regs) size
  else cpu'.regs.d.get arith.reg &&& sizeMask size

/-- What an instruction computes. -/
def computed (arith : Arith) (size : ℕ) (cpu : Cpu σ) : AluResult :=
  arith.kind.extended (destinationOf view arith size cpu) (sourceOf view arith size cpu) size
    (cpu.regs.readCcr.getLsbD srXBit) (cpu.regs.readCcr.getLsbD srZBit)

/-- What an instruction does: its result is where its destination was, and in memory nothing else is
changed. -/
structure Computes (arith : Arith) (size : ℕ) (cpu cpu' : Cpu σ) : Prop where
  result : resultOf view arith size cpu cpu' = (computed view arith size cpu).result &&& sizeMask size
  ccr : cpu'.regs.readCcr = aluApply cpu.regs.readCcr (computed view arith size cpu) &&& ccrMask
  memory : arith.memoryOperands = true →
    view.memory cpu'.memory = (view.memory cpu.memory).storeAt (destinationAddress arith size cpu.regs)
      size ((computed view arith size cpu).result &&& sizeMask size)
  registers : arith.memoryOperands = true → ∀ j, cpu'.regs.readAddressRegister j =
    ((sourceTaken arith size cpu.regs).writeAddressRegister arith.reg
      (destinationAddress arith size cpu.regs)).readAddressRegister j

variable {arith : Arith} {size : ℕ} {cpu cpu' : Cpu σ}

theorem merged_masked (whole result mask : BitVec 32) :
    ((whole &&& ~~~mask) ||| (result &&& mask)) &&& mask = result &&& mask := by
  rw [BitVec.and_or_distrib_right, BitVec.and_assoc, BitVec.and_assoc, BitVec.and_self,
    BitVec.and_comm (~~~mask), BitVec.and_not_self]
  simp only [BitVec.ofNat_eq_ofNat, BitVec.and_zero, BitVec.zero_or]

theorem executeExtended_eq (hkind : arith.kind.IsExtended)
    (h : executeExtended ports arith cpu = .ok .done cpu') :
    executeExtendedPair ports arith cpu.regs.readCcr cpu = .ok () cpu' := by
  unfold executeExtended at h
  rw [Attempt.read_bind] at h
  have hpair : (do executeExtendedPair ports arith cpu.regs.readCcr; pure Outcome.done : Exec σ Outcome)
      cpu = .ok .done cpu' := by
    rcases hkind with hkind | hkind | hkind | hkind <;> rw [hkind] at h <;> exact h
  obtain ⟨u, cpu₁, hrun, hdone⟩ := Attempt.bind_eq_ok.mp hpair
  cases hdone
  exact hrun

/-- ONE INSTRUCTION of a chain. -/
theorem computes_of_run (hcode : cpu.dataFunctionCode = functionCode) (hkind : arith.kind.IsExtended)
    (hextended : arith.extendedSize = size) (hsize : OperandSize size)
    (h : executeExtended ports arith cpu = .ok .done cpu') : Computes view arith size cpu cpu' := by
  have hpair := executeExtended_eq hkind h
  unfold executeExtendedPair at hpair
  rw [hextended] at hpair
  by_cases hmemory : arith.memoryOperands = true
  · rw [if_pos hmemory] at hpair
    obtain ⟨source, cpu₁, hsource, hpair⟩ := Attempt.bind_eq_ok.mp hpair
    unfold readPredecrement at hsource
    obtain ⟨⟨value, target⟩, cpu₁', hread, hvalue⟩ := Attempt.bind_eq_ok.mp hsource
    cases hvalue
    obtain ⟨-, memory₁, rfl, hmemory₁, rfl⟩ := view.readPredecrementAt_ok hcode hsize hread
    obtain ⟨⟨destination, target₂⟩, cpu₂, hdestination, hpair⟩ := Attempt.bind_eq_ok.mp hpair
    obtain ⟨rfl, memory₂, rfl, hmemory₂, rfl⟩ :=
      view.readPredecrementAt_ok (by exact hcode) hsize hdestination
    obtain ⟨u, cpu₃, hwrite, hpair⟩ := Attempt.bind_eq_ok.mp hpair
    obtain ⟨memory₃, rfl, hmemory₃⟩ := view.writeOperand_ok (by exact hcode) hsize hwrite
    cases hpair
    dsimp only at hmemory₁ hmemory₂ hmemory₃
    rw [hmemory₂, hmemory₁] at hmemory₃
    have hcomputed : computed view arith size cpu = arith.kind.extended
        ((view.memory cpu.memory).loadAt (destinationAddress arith size cpu.regs) size)
        ((view.memory cpu.memory).loadAt (sourceAddress arith size cpu.regs) size) size
        (cpu.regs.readCcr.getLsbD srXBit) (cpu.regs.readCcr.getLsbD srZBit) := by
      unfold computed destinationOf sourceOf
      rw [if_pos hmemory, if_pos hmemory]
    have hstored : view.memory memory₃ = (view.memory cpu.memory).storeAt
        (destinationAddress arith size cpu.regs) size
        ((computed view arith size cpu).result &&& sizeMask size) := by
      rw [hcomputed]
      exact hmemory₃
    refine ⟨?_, ?_, fun _ => hstored, fun _ j => Regs.readAddressRegister_writeCcr _ _ _⟩
    · unfold resultOf
      rw [if_pos hmemory]
      change (view.memory memory₃).loadAt _ _ = _
      rw [hstored]
      have hle := hsize.width_le
      exact ByteMemory.loadAt_storeAt (by omega) (by omega) (fits_masked hsize _)
    · rw [hcomputed]
      change (Regs.writeCcr _ (aluApply cpu.regs.readCcr (arith.kind.extended
        ((view.memory memory₁).loadAt (destinationAddress arith size cpu.regs) size)
        ((view.memory cpu.memory).loadAt (sourceAddress arith size cpu.regs) size) size _ _))).readCcr = _
      rw [hmemory₁]
      exact readCcr_writeCcr _ _
  · rw [if_neg hmemory] at hpair
    cases hpair
    have hcomputed : computed view arith size cpu = arith.kind.extended
        (cpu.regs.d.get arith.reg &&& sizeMask size) (cpu.regs.d.get arith.sourceReg &&& sizeMask size)
        size (cpu.regs.readCcr.getLsbD srXBit) (cpu.regs.readCcr.getLsbD srZBit) := by
      unfold computed destinationOf sourceOf
      rw [if_neg hmemory, if_neg hmemory]
    refine ⟨?_, ?_, fun h => absurd h hmemory, fun h => absurd h hmemory⟩
    · unfold resultOf
      rw [if_neg hmemory, hcomputed]
      change (Vector.set _ arith.reg _).get arith.reg &&& _ = _
      rw [show ∀ (d : Vector (BitVec 32) 8) (x : BitVec 32), (d.set arith.reg x).get arith.reg = x from
        fun d x => Vector.getElem_set_self _]
      exact merged_masked ..
    · rw [hcomputed]
      exact readCcr_writeCcr _ _

end Step

/-! ## A chain -/

section Chain

variable {σ : Type} {ports : Ports σ} {functionCode : BitVec 8} (view : MemoryPorts ports functionCode)

/-- A chain of one kind of instruction: `cpu i` is the processor before the instruction of the `i`th
operand, and `after i` the one after it. What comes between two instructions leaves the condition
codes. -/
structure Chained (ports : Ports σ) (functionCode : BitVec 8) (kind : ArithKind) (size n : ℕ)
    (arith : ℕ → Arith) (cpu after : ℕ → Cpu σ) : Prop where
  extended : kind.IsExtended
  width : OperandSize size
  kind : ∀ i < n, (arith i).kind = kind
  size : ∀ i < n, (arith i).extendedSize = size
  code : ∀ i < n, (cpu i).dataFunctionCode = functionCode
  run : ∀ i < n, executeExtended ports (arith i) (cpu i) = .ok .done (after i)
  ccr : ∀ i < n, (cpu (i + 1)).regs.readCcr = (after i).regs.readCcr

/-- The number that the operands of a chain are. -/
def chainNumber (kind : ArithKind) (size : ℕ) (operand : ℕ → BitVec 32) (n : ℕ) : ℕ :=
  numberOf (kind.base size) (fun i => kind.digit (operand i)) n

/-- THE LAW OF A CHAIN: the sum or the difference of two numbers of `n` operands, with its carry and
whether it is zero. -/
structure ChainLaw (kind : ArithKind) (size n : ℕ) (destination source result : ℕ → BitVec 32)
    (ccr : BitVec 16) : Prop where
  sum : kind.isSum = true →
    chainNumber kind size result n =
      (chainNumber kind size destination n + chainNumber kind size source n) % kind.base size ^ n ∧
    (ccr.getLsbD srXBit = true ↔
      kind.base size ^ n ≤ chainNumber kind size destination n + chainNumber kind size source n)
  difference : kind.isSum = false →
    (chainNumber kind size result n : ℤ) =
      ((chainNumber kind size destination n : ℤ) - chainNumber kind size source n) %
        (kind.base size ^ n : ℕ) ∧
    (ccr.getLsbD srXBit = true ↔
      chainNumber kind size destination n < chainNumber kind size source n)
  carry : 0 < n → ccr.getLsbD srCBit = ccr.getLsbD srXBit
  zero : ccr.getLsbD srZBit = true ↔ chainNumber kind size result n = 0
  valid : ∀ i < n, kind.Valid size (result i)

section Run

variable {view} {kind : ArithKind} {size n : ℕ} {arith : ℕ → Arith} {cpu after : ℕ → Cpu σ}

theorem Chained.decimal (h : Chained ports functionCode kind size n arith cpu after) (hn : 0 < n)
    (hdecimal : kind.isDecimal = true) : size = 1 := by
  have hsize := h.size 0 hn
  have hkind := h.kind 0 hn
  unfold Arith.extendedSize at hsize
  rw [hkind, if_pos (of_decide_eq_true hdecimal)] at hsize
  exact hsize.symm

theorem base_pos (kind : ArithKind) (size : ℕ) : 0 < kind.base size := by
  unfold ArithKind.base
  split_ifs
  · decide
  · positivity

/-- THE CHAIN, from what each instruction does. -/
theorem Chained.law (h : Chained ports functionCode kind size n arith cpu after)
    (hx : (cpu 0).regs.readCcr.getLsbD srXBit = false) (hz : (cpu 0).regs.readCcr.getLsbD srZBit = true)
    (hvalid : ∀ i < n, kind.Valid size (destinationOf view (arith i) size (cpu i)) ∧
      kind.Valid size (sourceOf view (arith i) size (cpu i))) :
    ChainLaw kind size n (fun i => destinationOf view (arith i) size (cpu i))
      (fun i => sourceOf view (arith i) size (cpu i))
      (fun i => resultOf view (arith i) size (cpu i) (after i)) (cpu n).regs.readCcr := by
  have hstep : ∀ i < n, DigitLaw kind size (destinationOf view (arith i) size (cpu i))
      (sourceOf view (arith i) size (cpu i)) ((cpu i).regs.readCcr.getLsbD srXBit)
      ((cpu i).regs.readCcr.getLsbD srZBit) (computed view (arith i) size (cpu i)) := by
    intro i hi
    unfold computed
    rw [h.kind i hi]
    exact digitLaw h.extended h.width (h.decimal (by omega)) (hvalid i hi).1 (hvalid i hi).2
  have hresult : ∀ i < n, resultOf view (arith i) size (cpu i) (after i) =
      (computed view (arith i) size (cpu i)).result := by
    intro i hi
    have hdoes := computes_of_run view (h.code i hi) (by rw [h.kind i hi]; exact h.extended) (h.size i hi)
      h.width (h.run i hi)
    rw [hdoes.result]
    exact masked_of_lt h.width (hstep i hi).valid.1
  have hcodes : ∀ i < n, ∀ bit < 5, (cpu (i + 1)).regs.readCcr.getLsbD bit =
      (aluApply (cpu i).regs.readCcr (computed view (arith i) size (cpu i))).getLsbD bit := by
    intro i hi bit hbit
    have hmask : ∀ bit < 5, ccrMask.getLsbD bit = true := by decide
    have hdoes := computes_of_run view (h.code i hi) (by rw [h.kind i hi]; exact h.extended) (h.size i hi)
      h.width (h.run i hi)
    rw [h.ccr i hi, hdoes.ccr, BitVec.getLsbD_and, hmask bit hbit, Bool.and_true]
  have hcarry : ∀ i < n, (cpu (i + 1)).regs.readCcr.getLsbD srXBit =
      (computed view (arith i) size (cpu i)).x := by
    intro i hi
    rw [hcodes i hi _ (by decide), (getLsbD_aluApply _ _).1, if_pos (hstep i hi).carry.2]
  have hstays : Stays n (fun i => kind.digit (resultOf view (arith i) size (cpu i) (after i)))
      fun i => (cpu i).regs.readCcr.getLsbD srZBit := by
    intro i hi
    dsimp only
    rw [hcodes i hi _ (by decide), (getLsbD_aluApply _ _).2.2.1, (hstep i hi).zero]
    simp only [hresult i hi]
  refine ⟨fun hsum => ?_, fun hdifference => ?_, fun hn => ?_, ?_, fun i hi => ?_⟩
  · have hadds : Adds (kind.base size) n
        (fun i => kind.digit (destinationOf view (arith i) size (cpu i)))
        (fun i => kind.digit (sourceOf view (arith i) size (cpu i)))
        (fun i => kind.digit (resultOf view (arith i) size (cpu i) (after i)))
        fun i => (cpu i).regs.readCcr.getLsbD srXBit := by
      intro i hi
      dsimp only
      rw [hresult i hi, hcarry i hi]
      exact ⟨(hstep i hi).lt, (hstep i hi).sum hsum⟩
    exact hadds.sum hx
  · have hsubtracts : Subtracts (kind.base size) n
        (fun i => kind.digit (destinationOf view (arith i) size (cpu i)))
        (fun i => kind.digit (sourceOf view (arith i) size (cpu i)))
        (fun i => kind.digit (resultOf view (arith i) size (cpu i) (after i)))
        fun i => (cpu i).regs.readCcr.getLsbD srXBit := by
      intro i hi
      dsimp only
      rw [hresult i hi, hcarry i hi]
      exact ⟨(hstep i hi).lt, (hstep i hi).difference hdifference⟩
    exact hsubtracts.difference hx
  · -- the last instruction writes `C` and `X` alike
    obtain ⟨m, rfl⟩ : ∃ m, n = m + 1 := ⟨n - 1, by omega⟩
    have hm := Nat.lt_succ_self m
    rw [hcarry m hm, hcodes m hm _ (by decide), (getLsbD_aluApply _ _).2.2.2.2, (hstep m hm).carry.1]
  · exact hstays.zero (base_pos kind size) hz
  · rw [hresult i hi]
    exact (hstep i hi).valid

end Run

/-! ## Numbers in memory -/

/-- How many operands a register has stepped over before the `i`th one: both operands are in one register's
way, or each has a register of its own. -/
def stepsTo (arith : Arith) (i : ℕ) : ℕ := if arith.reg = arith.sourceReg then 2 * i else i

/-- Where the `i`th source operand is. -/
def sourceAt (arith : Arith) (size : ℕ) (regs : Regs) (i : ℕ) : BitVec 32 :=
  regs.readAddressRegister arith.sourceReg -
    BitVec.ofNat 32 (addressStep arith.sourceReg size * (stepsTo arith i + 1))

/-- Where the `i`th destination operand is. -/
def destinationAt (arith : Arith) (size : ℕ) (regs : Regs) (i : ℕ) : BitVec 32 :=
  regs.readAddressRegister arith.reg - BitVec.ofNat 32 (addressStep arith.reg size * stepsTo arith (i + 1))

/-- No byte of an operand is in another. -/
def Apart (size : ℕ) (a b : BitVec 32) : Prop := ∀ k < size, size ≤ (a + BitVec.ofNat 32 k - b).toNat

/-- A chain of one instruction in memory: what comes between leaves the two registers and memory. -/
structure Walks (view : MemoryPorts ports functionCode) (n : ℕ) (arith : Arith) (cpu after : ℕ → Cpu σ) :
    Prop where
  operands : arith.memoryOperands = true
  registers : ∀ i < n, ∀ reg, reg = arith.reg ∨ reg = arith.sourceReg →
    (cpu (i + 1)).regs.readAddressRegister reg = (after i).regs.readAddressRegister reg
  memory : ∀ i < n, view.memory (cpu (i + 1)).memory = view.memory (after i).memory

/-- Two numbers of `n` operands before two registers: they fit in memory, and no source operand is where a
result is stored before it is read. -/
structure TwoNumbers (arith : Arith) (size n : ℕ) (regs : Regs) : Prop where
  fits : addressStep arith.reg size * stepsTo arith n ≤ 2 ^ 32
  apart : arith.reg ≠ arith.sourceReg → ∀ i j, i < j → j < n →
    Apart size (sourceAt arith size regs j) (destinationAt arith size regs i)

section Memory

variable {view} {kind : ArithKind} {size n : ℕ} {arith : Arith} {cpu after : ℕ → Cpu σ} {regs : Regs}

theorem addressStep_pos (h : OperandSize size) (reg : Fin 8) :
    size ≤ addressStep reg size ∧ 0 < addressStep reg size := by
  unfold addressStep
  rcases h with rfl | rfl | rfl <;> split_ifs <;> omega

theorem apart_of_steps (a : BitVec 32) {step p q : ℕ} (hstep : size ≤ step)
    (hp : step * p ≤ 2 ^ 32) (hq : step * q ≤ 2 ^ 32) (hp0 : 0 < p) (hq0 : 0 < q) (hne : p ≠ q) :
    Apart size (a - BitVec.ofNat 32 (step * p)) (a - BitVec.ofNat 32 (step * q)) := by
  intro k hk
  have hvector : a - BitVec.ofNat 32 (step * p) + BitVec.ofNat 32 k - (a - BitVec.ofNat 32 (step * q)) =
      BitVec.ofNat 32 (step * q) - BitVec.ofNat 32 (step * p) + BitVec.ofNat 32 k := by ring
  have hp1 : step * 1 ≤ step * p := Nat.mul_le_mul_left _ hp0
  have hq1 : step * 1 ≤ step * q := Nat.mul_le_mul_left _ hq0
  have hgap : step * p + step ≤ step * q ∨ step * q + step ≤ step * p := by
    rcases Nat.lt_or_gt_of_ne hne with hlt | hlt
    · exact .inl ((Nat.mul_succ step p) ▸ Nat.mul_le_mul_left _ hlt)
    · exact .inr ((Nat.mul_succ step q) ▸ Nat.mul_le_mul_left _ hlt)
  rw [hvector, BitVec.toNat_add, BitVec.toNat_sub, BitVec.toNat_ofNat, BitVec.toNat_ofNat,
    BitVec.toNat_ofNat]
  generalize step * p = P at *
  generalize step * q = Q at *
  omega

theorem stepsTo_mono (arith : Arith) {i j : ℕ} (h : i ≤ j) : stepsTo arith i ≤ stepsTo arith j := by
  unfold stepsTo
  split_ifs <;> omega

theorem TwoNumbers.step_le (h : TwoNumbers arith size n regs) {p : ℕ} (hp : p ≤ stepsTo arith n) :
    addressStep arith.reg size * p ≤ 2 ^ 32 := (Nat.mul_le_mul_left _ hp).trans h.fits

theorem TwoNumbers.destinations_apart (h : TwoNumbers arith size n regs) (hsize : OperandSize size)
    {i j : ℕ} (hi : i < n) (hj : j < n) (hne : i ≠ j) :
    Apart size (destinationAt arith size regs j) (destinationAt arith size regs i) := by
  refine apart_of_steps _ (addressStep_pos hsize _).1 (h.step_le (stepsTo_mono arith hj))
    (h.step_le (stepsTo_mono arith hi)) ?_ ?_ ?_ <;>
  · unfold stepsTo
    split_ifs <;> omega

theorem TwoNumbers.source_apart (h : TwoNumbers arith size n regs) (hsize : OperandSize size)
    {i j : ℕ} (hij : i < j) (hj : j < n) :
    Apart size (sourceAt arith size regs j) (destinationAt arith size regs i) := by
  by_cases hsame : arith.reg = arith.sourceReg
  · unfold sourceAt destinationAt
    rw [← hsame]
    have hsteps : ∀ i, stepsTo arith i = 2 * i := fun i => if_pos hsame
    refine apart_of_steps _ (addressStep_pos hsize _).1 (h.step_le ?_) (h.step_le ?_) ?_ ?_ ?_ <;>
    · simp only [hsteps]
      omega
  · exact h.apart hsame i j hij hj

/-- WHERE A WALK IS: both registers have stepped over the operands before. -/
theorem Walks.registers_at (hwalk : Walks view n arith cpu after)
    (h : Chained ports functionCode kind size n (fun _ => arith) cpu after) :
    ∀ i ≤ n, ∀ reg, reg = arith.reg ∨ reg = arith.sourceReg →
      (cpu i).regs.readAddressRegister reg = (cpu 0).regs.readAddressRegister reg -
        BitVec.ofNat 32 (addressStep reg size * stepsTo arith i) := by
  intro i
  induction i with
  | zero =>
    intro _ reg _
    have hzero : stepsTo arith 0 = 0 := by
      unfold stepsTo
      split_ifs <;> rfl
    rw [hzero, mul_zero]
    simp
  | succ i ih =>
    intro hi reg hreg
    have hdoes := computes_of_run view (h.code i hi) (by rw [h.kind i hi]; exact h.extended) (h.size i hi)
      h.width (h.run i hi)
    have hbefore := ih (by omega)
    rw [hwalk.registers i hi reg hreg, hdoes.registers hwalk.operands reg,
      Regs.readAddressRegister_write]
    unfold destinationAddress sourceTaken sourceAddress steppedDown
    rw [Regs.readAddressRegister_write, Regs.readAddressRegister_write, hbefore _ (.inl rfl),
      hbefore _ (.inr rfl)]
    unfold stepsTo
    by_cases hsame : arith.reg = arith.sourceReg
    · obtain rfl : reg = arith.reg := by
        rcases hreg with hreg | hreg
        · exact hreg
        · exact hreg.trans hsame.symm
      rw [if_pos rfl, if_pos hsame, if_pos hsame, if_pos hsame, ← hsame]
      have hnat : addressStep arith.reg size * (2 * (i + 1)) =
          addressStep arith.reg size * (2 * i) + addressStep arith.reg size +
            addressStep arith.reg size := by ring
      rw [hnat, BitVec.ofNat_add, BitVec.ofNat_add]
      ring
    · rw [if_neg hsame, if_neg hsame, if_neg hsame]
      have hnat : ∀ step, step * (i + 1) = step * i + step := fun step => Nat.mul_succ step i
      rw [hnat, BitVec.ofNat_add]
      rcases hreg with rfl | rfl
      · rw [if_pos rfl]
        ring
      · rw [if_neg (Ne.symm hsame), if_pos rfl]
        ring

theorem Walks.addresses (hwalk : Walks view n arith cpu after)
    (h : Chained ports functionCode kind size n (fun _ => arith) cpu after) {i : ℕ} (hi : i < n) :
    sourceAddress arith size (cpu i).regs = sourceAt arith size (cpu 0).regs i ∧
      destinationAddress arith size (cpu i).regs = destinationAt arith size (cpu 0).regs i := by
  have hat := hwalk.registers_at h i (by omega)
  constructor
  · unfold sourceAddress steppedDown sourceAt
    rw [hat _ (.inr rfl), Nat.mul_succ, BitVec.ofNat_add]
    ring
  · unfold destinationAddress sourceTaken sourceAddress steppedDown destinationAt
    rw [Regs.readAddressRegister_write, hat _ (.inl rfl), hat _ (.inr rfl)]
    unfold stepsTo
    by_cases hsame : arith.reg = arith.sourceReg
    · rw [if_pos hsame, if_pos hsame, if_pos hsame, ← hsame]
      have hnat : addressStep arith.reg size * (2 * (i + 1)) =
          addressStep arith.reg size * (2 * i) + addressStep arith.reg size +
            addressStep arith.reg size := by ring
      rw [hnat, BitVec.ofNat_add, BitVec.ofNat_add]
      ring
    · rw [if_neg hsame, if_neg hsame, if_neg hsame, Nat.mul_succ, BitVec.ofNat_add]
      ring

/-- WHAT A WALK LEAVES of the two numbers: the operands to come are as they were, and the results are there
to stay. -/
theorem Walks.memory_at (hwalk : Walks view n arith cpu after)
    (h : Chained ports functionCode kind size n (fun _ => arith) cpu after)
    (hnumbers : TwoNumbers arith size n (cpu 0).regs) :
    ∀ i ≤ n,
      (∀ j, i ≤ j → j < n →
        (view.memory (cpu i).memory).loadAt (sourceAt arith size (cpu 0).regs j) size =
            (view.memory (cpu 0).memory).loadAt (sourceAt arith size (cpu 0).regs j) size ∧
          (view.memory (cpu i).memory).loadAt (destinationAt arith size (cpu 0).regs j) size =
            (view.memory (cpu 0).memory).loadAt (destinationAt arith size (cpu 0).regs j) size) ∧
      ∀ j < i, (view.memory (cpu i).memory).loadAt (destinationAt arith size (cpu 0).regs j) size =
        resultOf view arith size (cpu j) (after j) := by
  intro i
  induction i with
  | zero => exact fun _ => ⟨fun j _ _ => ⟨rfl, rfl⟩, fun j hj => absurd hj (Nat.not_lt_zero j)⟩
  | succ i ih =>
    intro hi
    obtain ⟨hcome, hdone⟩ := ih (by omega)
    have hdoes := computes_of_run view (h.code i hi) (by rw [h.kind i hi]; exact h.extended) (h.size i hi)
      h.width (h.run i hi)
    have haddresses := hwalk.addresses h hi
    have hstored := hdoes.memory hwalk.operands
    rw [haddresses.2] at hstored
    rw [hwalk.memory i hi]
    refine ⟨fun j hj hjn => ?_, fun j hj => ?_⟩
    · rw [hstored, ByteMemory.loadAt_storeAt_of_le (hnumbers.source_apart h.width (by omega) hjn),
        ByteMemory.loadAt_storeAt_of_le (hnumbers.destinations_apart h.width hi hjn (by omega))]
      exact hcome j (by omega) hjn
    · rcases Nat.lt_succ_iff_lt_or_eq.mp hj with hlt | rfl
      · rw [hstored, ByteMemory.loadAt_storeAt_of_le
          (hnumbers.destinations_apart h.width hi (by omega) (by omega))]
        exact hdone j hlt
      · unfold resultOf
        rw [if_pos hwalk.operands, haddresses.2]

end Memory

/-! ## The law -/

theorem loadAt_lt {size : ℕ} (h : OperandSize size) (m : ByteMemory 32) (a : BitVec 32) :
    (m.loadAt a size).toNat < 2 ^ (8 * size) := by
  have hmasked : m.loadAt a size &&& sizeMask size = m.loadAt a size := by
    refine BitVec.eq_of_getLsbD_eq fun i hi => ?_
    have hbyte := ofBytes_getLsbD (fun j => if 4 - size ≤ j then m (a + BitVec.ofNat 32 (j - (4 - size)))
      else 0) hi
    rw [BitVec.getLsbD_and, sizeMask_bit h hi]
    by_cases hin : i < 8 * size
    · rw [decide_eq_true hin, Bool.and_true]
    · unfold ByteMemory.loadAt
      rw [hbyte, if_neg (by omega), decide_eq_false hin, Bool.and_false]
      exact BitVec.getLsbD_zero.symm
  rw [← hmasked, masked_toNat h]
  exact Nat.mod_lt _ (by positivity)

/-- Valid packed digits. -/
def ValidDigits (x : BitVec 32) : Prop := x.toNat / 16 ≤ 9 ∧ x.toNat % 16 ≤ 9

theorem operands_lt {size : ℕ} (h : OperandSize size) (arith : Arith) (cpu : Cpu σ) :
    (destinationOf view arith size cpu).toNat < 2 ^ (8 * size) ∧
      (sourceOf view arith size cpu).toNat < 2 ^ (8 * size) := by
  have hmasked : ∀ x : BitVec 32, (x &&& sizeMask size).toNat < 2 ^ (8 * size) := fun x => by
    rw [masked_toNat h]
    exact Nat.mod_lt _ (by positivity)
  unfold destinationOf sourceOf
  constructor <;>
  · split
    · exact loadAt_lt h _ _
    · exact hmasked _

theorem ChainLaw.congr {kind : ArithKind} {size n : ℕ} {d s r d' s' r' : ℕ → BitVec 32} {ccr : BitVec 16}
    (h : ChainLaw kind size n d s r ccr) (hd : ∀ i < n, d i = d' i) (hs : ∀ i < n, s i = s' i)
    (hr : ∀ i < n, r i = r' i) : ChainLaw kind size n d' s' r' ccr := by
  have hnumber : ∀ {x y : ℕ → BitVec 32}, (∀ i < n, x i = y i) →
      chainNumber kind size x n = chainNumber kind size y n :=
    fun hxy => numberOf_congr fun i hi => congrArg kind.digit (hxy i hi)
  obtain ⟨hsum, hdifference, hcarry, hzero, hvalid⟩ := h
  rw [hnumber hd, hnumber hs, hnumber hr] at hsum hdifference
  rw [hnumber hr] at hzero
  exact ⟨hsum, hdifference, hcarry, hzero, fun i hi => hr i hi ▸ hvalid i hi⟩

theorem Chained.law_of_digits {kind : ArithKind} {size n : ℕ} {arith : ℕ → Arith} {cpu after : ℕ → Cpu σ}
    (h : Chained ports functionCode kind size n arith cpu after)
    (hx : (cpu 0).regs.readCcr.getLsbD srXBit = false) (hz : (cpu 0).regs.readCcr.getLsbD srZBit = true)
    (hdigits : kind.isDecimal = true → ∀ i < n,
      ValidDigits (destinationOf view (arith i) size (cpu i)) ∧
        ValidDigits (sourceOf view (arith i) size (cpu i))) :
    ChainLaw kind size n (fun i => destinationOf view (arith i) size (cpu i))
      (fun i => sourceOf view (arith i) size (cpu i))
      (fun i => resultOf view (arith i) size (cpu i) (after i)) (cpu n).regs.readCcr := by
  refine h.law hx hz fun i hi => ?_
  obtain ⟨hd, hs⟩ := operands_lt view h.width (arith i) (cpu i)
  exact ⟨⟨hd, fun hdecimal => (hdigits hdecimal i hi).1⟩, ⟨hs, fun hdecimal => (hdigits hdecimal i hi).2⟩⟩

/-- CHAINED EXTENDED ARITHMETIC is multi-precision arithmetic: for operands in registers or in memory as
each instruction finds them, and for two numbers in memory that the instruction steps down through. -/
theorem extendedChain (view : MemoryPorts ports functionCode) (kind : ArithKind) (size n : ℕ)
    (cpu after : ℕ → Cpu σ) (hx : (cpu 0).regs.readCcr.getLsbD srXBit = false)
    (hz : (cpu 0).regs.readCcr.getLsbD srZBit = true) :
    (∀ arith : ℕ → Arith, Chained ports functionCode kind size n arith cpu after →
      (kind.isDecimal = true → ∀ i < n, ValidDigits (destinationOf view (arith i) size (cpu i)) ∧
        ValidDigits (sourceOf view (arith i) size (cpu i))) →
      ChainLaw kind size n (fun i => destinationOf view (arith i) size (cpu i))
        (fun i => sourceOf view (arith i) size (cpu i))
        (fun i => resultOf view (arith i) size (cpu i) (after i)) (cpu n).regs.readCcr) ∧
    (∀ arith : Arith, Chained ports functionCode kind size n (fun _ => arith) cpu after →
      Walks view n arith cpu after → TwoNumbers arith size n (cpu 0).regs →
      let destination i := (view.memory (cpu 0).memory).loadAt
        (destinationAt arith size (cpu 0).regs i) size
      let source i := (view.memory (cpu 0).memory).loadAt (sourceAt arith size (cpu 0).regs i) size
      let result i := (view.memory (cpu n).memory).loadAt
        (destinationAt arith size (cpu 0).regs i) size
      (kind.isDecimal = true → ∀ i < n, ValidDigits (destination i) ∧ ValidDigits (source i)) →
      ChainLaw kind size n destination source result (cpu n).regs.readCcr) := by
  refine ⟨fun arith h hdigits => h.law_of_digits view hx hz hdigits, ?_⟩
  intro arith h hwalk hnumbers destination source result hdigits
  have hd : ∀ i < n, destinationOf view arith size (cpu i) = destination i := by
    intro i hi
    unfold destinationOf
    rw [if_pos hwalk.operands, (hwalk.addresses h hi).2]
    exact (((hwalk.memory_at h hnumbers i (by omega)).1 i le_rfl hi).2)
  have hs : ∀ i < n, sourceOf view arith size (cpu i) = source i := by
    intro i hi
    unfold sourceOf
    rw [if_pos hwalk.operands, (hwalk.addresses h hi).1]
    exact (((hwalk.memory_at h hnumbers i (by omega)).1 i le_rfl hi).1)
  have hr : ∀ i < n, resultOf view arith size (cpu i) (after i) = result i := fun i hi =>
    ((hwalk.memory_at h hnumbers n le_rfl).2 i hi).symm
  refine (h.law_of_digits view hx hz fun hdecimal i hi => ?_).congr hd hs hr
  rw [hd i hi, hs i hi]
  exact hdigits hdecimal i hi

end Chain

/-! ## A chain that runs -/

/-- A processor with `Z` set, at the start of a chain: 1458 ends where `A0` points, and 2367 where `A1`
does. -/
def chainCpu : Cpu (ByteMemory 32) :=
  let cpu := flatCpu .m68030 0x2004 0x1000 0x1000
  { cpu with
    regs := { cpu.regs with a := #v[0x2002, 0x3002, 0, 0, 0, 0, 0] }
    memory := fun address =>
      if address = 0x2001 then 0x58 else if address = 0x2000 then 0x14
      else if address = 0x3001 then 0x67 else if address = 0x3000 then 0x23 else 0 }

/-- Three states in turn. -/
def inTurn (first second third : Cpu (ByteMemory 32)) : ℕ → Cpu (ByteMemory 32)
  | 0 => first
  | 1 => second
  | _ => third

/-- Both numbers are of valid digits, and no digit of 2367 is where one of 1458 was. -/
theorem chainCpu_numbers : (∀ i < 2,
      ValidDigits (chainCpu.memory.loadAt (destinationAt (arithDecode 0xC109) 1 chainCpu.regs i) 1) ∧
        ValidDigits (chainCpu.memory.loadAt (sourceAt (arithDecode 0xC109) 1 chainCpu.regs i) 1)) ∧
    TwoNumbers (arithDecode 0xC109) 1 2 chainCpu.regs := by
  refine ⟨?_, by decide, fun _ i j hij hj => ?_⟩
  · unfold ValidDigits
    decide +kernel
  · obtain ⟨rfl, rfl⟩ : i = 0 ∧ j = 1 := by omega
    unfold Apart
    decide +kernel

/-- `ABCD -(A1),-(A0)` twice, with a carry from the first to the second: 1458 and 2367 are 3825. -/
theorem extendedChain_abcd : ∃ cpu' : Cpu (ByteMemory 32),
    let destination i := chainCpu.memory.loadAt (destinationAt (arithDecode 0xC109) 1 chainCpu.regs i) 1
    let source i := chainCpu.memory.loadAt (sourceAt (arithDecode 0xC109) 1 chainCpu.regs i) 1
    let result i := cpu'.memory.loadAt (destinationAt (arithDecode 0xC109) 1 chainCpu.regs i) 1
    ChainLaw .abcd 1 2 destination source result cpu'.regs.readCcr ∧
      chainNumber .abcd 1 destination 2 = 1458 ∧ chainNumber .abcd 1 source 2 = 2367 ∧
      chainNumber .abcd 1 result 2 = 3825 := by
  let add := executeExtendedPair (flatPorts fun _ => false) (arithDecode 0xC109)
  have hfirst : Attempt.runsTo (add chainCpu.regs.readCcr) chainCpu (fun cpu₁ =>
      cpu₁.regs.readCcr.getLsbD srXBit = true ∧ cpu₁.dataFunctionCode = 5 ∧
      Attempt.runsTo (add cpu₁.regs.readCcr) cpu₁ (fun _ => True) = true) = true := by decide +kernel
  obtain ⟨u₁, cpu₁, hok₁, -, hcode, hsecond⟩ := Attempt.exists_ok_of_runsTo hfirst
  obtain ⟨u₂, cpu₂, hok₂, -⟩ := Attempt.exists_ok_of_runsTo hsecond
  have hdone : ∀ {cpu cpu' : Cpu (ByteMemory 32)} {u : Unit}, add cpu.regs.readCcr cpu = .ok u cpu' →
      executeExtended (flatPorts fun _ => false) (arithDecode 0xC109) cpu = .ok .done cpu' := by
    intro cpu cpu' u hok
    unfold executeExtended
    rw [Attempt.read_bind, show (arithDecode 0xC109).kind = .abcd by decide]
    exact Attempt.bind_of_ok hok
  have htwo : ∀ {i}, i < 2 → i = 0 ∨ i = 1 := fun hi => by omega
  have hchain : Chained (flatPorts fun _ => false) 5 .abcd 1 2 (fun _ => arithDecode 0xC109)
      (inTurn chainCpu cpu₁ cpu₂) (inTurn cpu₁ cpu₂ cpu₂) := by
    refine ⟨.inr (.inr (.inl rfl)), .inl rfl, fun i _ => by decide, fun i _ => by decide,
      fun i hi => ?_, fun i hi => ?_, fun i hi => ?_⟩ <;> obtain rfl | rfl := htwo hi
    · rfl
    · exact hcode
    · exact hdone hok₁
    · exact hdone hok₂
    · rfl
    · rfl
  have hwalk : Walks (flatMemory (fun _ => false) 5) 2 (arithDecode 0xC109)
      (inTurn chainCpu cpu₁ cpu₂) (inTurn cpu₁ cpu₂ cpu₂) := by
    refine ⟨by decide, fun i hi reg _ => ?_, fun i hi => ?_⟩ <;> obtain rfl | rfl := htwo hi <;> rfl
  have hx : chainCpu.regs.readCcr.getLsbD srXBit = false := by decide
  have hz : chainCpu.regs.readCcr.getLsbD srZBit = true := by decide
  have hlaw := (extendedChain (flatMemory (fun _ => false) 5) .abcd 1 2 (inTurn chainCpu cpu₁ cpu₂)
    (inTurn cpu₁ cpu₂ cpu₂) hx hz).2 (arithDecode 0xC109) hchain hwalk chainCpu_numbers.2
    fun _ => chainCpu_numbers.1
  have hdestination : chainNumber .abcd 1 (fun i =>
      chainCpu.memory.loadAt (destinationAt (arithDecode 0xC109) 1 chainCpu.regs i) 1) 2 = 1458 := by
    decide +kernel
  have hsource : chainNumber .abcd 1 (fun i =>
      chainCpu.memory.loadAt (sourceAt (arithDecode 0xC109) 1 chainCpu.regs i) 1) 2 = 2367 := by
    decide +kernel
  refine ⟨cpu₂, hlaw, hdestination, hsource, ((hlaw.sum rfl).1).trans ?_⟩
  refine (congrArg₂ (fun x y => (x + y) % ArithKind.base .abcd 1 ^ 2) hdestination hsource).trans ?_
  decide

end Apollo.M68030
