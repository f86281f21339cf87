import Apollo.M68030.ResolveAddress

/-!
# Single operand and bounds instructions

`src/core/cpu/m68030/ap_m68030_single.c` and `ap_m68030_bounds.c`, and the executors of their
instructions in `ap_m68030_step.c`: `execute_single`, `execute_bounds`, `execute_cas` and
`execute_cas2`. Three of them lock the bus, `TAS`, `CAS` and `CAS2`: the data context's `rmc` is
set before the first operand is read. What only timing uses is left out.
-/

namespace Apollo.M68030

open Apollo.Lib

/-! ## Decoding -/

/-- `ap_m68030_single_kind_t`. -/
inductive SingleKind
  | negx
  | clr
  | neg
  | not
  | tst
  | tas
  | moveFromSr
  | moveFromCcr
  | moveToCcr
  | moveToSr
  | illegal
  | invalid
deriving DecidableEq, Repr

/-- `ap_m68030_single_t`. -/
structure Single where
  kind : SingleKind
  size : Nat := 0
  ea : Ea := ⟨.dataRegister, 0⟩
deriving DecidableEq

/-- The effective address that the last six bits of an instruction word name. -/
def wordEa (word : BitVec 16) : Ea := eaDecode (field3 word 3) (field3 word 0)

/-- `ap_m68030_single_privileged`. -/
def SingleKind.privileged : SingleKind → Bool
  | moveToSr | moveFromSr => true
  | _ => false

/-- `ap_m68030_bounds_kind_t`. -/
inductive BoundsKind
  | cmp2
  | chk2
  | cas
  | cas2
  | invalid
deriving DecidableEq, Repr

/-- `ap_m68030_bounds_t`. -/
structure Bounds where
  kind : BoundsKind
  size : Nat := 0
  ea : Ea := ⟨.dataRegister, 0⟩
deriving DecidableEq

/-- `ap_m68030_bounds_matches`. -/
def boundsMatches (word : BitVec 16) : Bool := word >>> 12 &&& 0xF = 0 ∧ word >>> 6 &&& 7 = 3

/-- `ap_m68030_bounds_decode`. -/
def boundsDecode (word : BitVec 16) : Bounds :=
  if !boundsMatches word then { kind := .invalid }
  else
    let sizeField := (word >>> 9 &&& 3).toNat
    if !word.getLsbD 11 then
      if sizeField = 3 then { kind := .invalid }
      else
        let size := 1 <<< sizeField
        if (wordEa word).kind.isControl then { kind := .cmp2, size, ea := wordEa word }
        else { kind := .invalid, size, ea := wordEa word }
    else if sizeField = 0 then { kind := .invalid }
    else
      let size := 1 <<< (sizeField - 1)
      if field3 word 3 = 7 ∧ field3 word 0 = 4 then
        if sizeField = 1 then { kind := .invalid } else { kind := .cas2, size }
      else if (wordEa word).kind.isMemoryAlterable then { kind := .cas, size, ea := wordEa word }
      else { kind := .invalid, size, ea := wordEa word }

/-- `ap_m68030_bounds_kind`: the extension word tells `CHK2` from `CMP2`. -/
def Bounds.kindWith (bounds : Bounds) (extension : BitVec 16) : BoundsKind :=
  if bounds.kind ≠ .cmp2 then bounds.kind else if extension.getLsbD 11 then .chk2 else .cmp2

/-- `ap_m68030_cas_update_register`. -/
def casUpdateRegister (extension : BitVec 16) : Fin 8 := field3 extension 6

/-- `ap_m68030_cas_compare_register`. -/
def casCompareRegister (extension : BitVec 16) : Fin 8 := field3 extension 0

/-! ## Execution -/

section Execute

variable {σ : Type} (ports : Ports σ)

/-- An exception that the step takes after the instruction. -/
def raise (vector : Nat) : Exec σ Unit := modify fun cpu => { cpu with pendingVector := vector }

/-- The bus is locked, for a read-modify-write operation that is counted. -/
def lockBus : Exec σ Unit :=
  modify fun cpu => { cpu with rmc := true, rmcOperations := cpu.rmcOperations + 1 }

/-- The bus is free. -/
def unlockBus : Exec σ Unit := modify fun cpu => { cpu with rmc := false }

/-- An operand is read, and if it cannot be, the bus is free. -/
def readOrUnlock (target : Address) (size : Nat) : Exec σ (BitVec 32) := do
  match ← (readOperand ports target size).caught with
  | some value => pure value
  | none => do
    unlockBus
    Attempt.fail

/-- What is done at the end of a locked operation: whether or not it can be, the bus is free
after it. -/
def thenUnlock (x : Exec σ Unit) : Exec σ Unit := do
  let done ← x.caught
  unlockBus
  Attempt.require done.isSome

/-- The first switch of `execute_single`: which effective addresses an instruction has. -/
def Single.allowed (single : Single) : Bool :=
  match single.kind with
  | .tst => single.ea.kind ≠ .addressRegister || 2 ≤ single.size
  | .moveToCcr | .moveToSr => single.ea.kind.isData
  | .illegal | .invalid => true
  | _ => single.ea.kind.isDataAlterable

/-- What `TST` and the moves to the status register do with a value. -/
def Single.consume (single : Single) (value : BitVec 32) (regs : Regs) : Regs :=
  match single.kind with
  | .moveToSr => regs.writeSr (value.setWidth 16)
  | .moveToCcr => regs.writeCcr (value.setWidth 16)
  | _ => regs.applyAlu (aluTest value single.size)

/-- The result of the instructions that write one. -/
def Single.result (single : Single) (regs : Regs) (value : BitVec 32) : AluResult :=
  match single.kind with
  | .negx =>
    aluSubx 0 value single.size (regs.readCcr.getLsbD srXBit) (regs.readCcr.getLsbD srZBit)
  | .clr => aluTest 0 single.size
  | .neg => aluNeg value single.size
  | .not => aluNot value single.size
  | _ => aluTest value single.size

/-- The second half of `execute_single`, once the operand has an address. -/
def executeSingleAt (single : Single) (target : Address) : Exec σ Unit := do
  Attempt.onlyIf (single.kind = .tas ∧ !target.inRegister ∧ !target.immediate) lockBus
  match single.kind with
  | .moveFromSr => do
    let sr ← Attempt.read fun cpu => cpu.regs.sr.word
    writeOperand ports target 2 (sr.setWidth 32)
  | .moveFromCcr => do
    let ccr ← Attempt.read fun cpu => cpu.regs.readCcr
    writeOperand ports target 2 (ccr.setWidth 32)
  | .clr => do
    modify fun cpu => cpu.mapRegs fun regs => regs.applyAlu (single.result regs 0)
    writeOperand ports target single.size 0
  | .tst | .moveToSr | .moveToCcr => do
    let value ← readOrUnlock ports target single.size
    modify fun cpu => cpu.mapRegs (single.consume value)
  | .tas => do
    let value ← readOrUnlock ports target single.size
    modify fun cpu => cpu.mapRegs fun regs => regs.applyAlu (aluTest value 1)
    thenUnlock (writeOperand ports target 1 (value ||| 0x80))
  | .negx | .neg | .not => do
    let value ← readOrUnlock ports target single.size
    let result ← Attempt.read fun cpu => single.result cpu.regs value
    modify fun cpu => cpu.mapRegs fun regs => regs.applyAlu result
    writeOperand ports target single.size result.result
  | .illegal | .invalid => Attempt.fail

/-- `execute_single`. -/
def executeSingle (single : Single) : Exec σ Unit := do
  let supervisor ← Attempt.read fun cpu => cpu.regs.supervisor
  if single.kind.privileged && !supervisor then raise vectorPrivilegeViolation
  else if single.kind = .illegal then raise vectorIllegalInstruction
  else do
    allowEa single.allowed
    Attempt.require (single.kind ≠ .invalid)
    if single.ea.kind = .immediate ∧
        (single.kind = .tst ∨ single.kind = .moveToSr ∨ single.kind = .moveToCcr) then do
      let fetched ← fetchImmediate ports single.size
      modify fun cpu => cpu.mapRegs (single.consume fetched)
    else do
      let target ← operandAddress ports single.ea single.size
      executeSingleAt ports single target

/-- `execute_cas`, once the operand has an address. -/
def executeCasAt (size : Nat) (extension : BitVec 16) (target : Address) : Exec σ Unit := do
  lockBus
  let value ← readOrUnlock ports target size
  let compared ← Attempt.read fun cpu =>
    aluSub value (cpu.regs.d.get (casCompareRegister extension)) size
  modify fun cpu => cpu.mapRegs fun regs => regs.applyAlu compared
  let update ← Attempt.read fun cpu => (cpu.regs.d.get (casUpdateRegister extension))
  thenUnlock (if compared.z then writeOperand ports target size update
    else writeOperand ports (.ofDataRegister (casCompareRegister extension)) size value)

/-- `execute_cas`. -/
def executeCas (bounds : Bounds) (extension : BitVec 16) : Exec σ Unit := do
  let target ← operandAddress ports bounds.ea bounds.size
  Attempt.require (target.valid ∧ !target.inRegister ∧ !target.immediate)
  executeCasAt ports bounds.size extension target

/-- The address of an operand of `CAS2`, which an extension word names. -/
def cas2Address (regs : Regs) (extension : BitVec 16) : BitVec 32 :=
  if extension.getLsbD 15 then regs.readAddressRegister (field3 extension 12)
  else (regs.d.get (field3 extension 12))

/-- The comparisons of `CAS2`: both operands match, or not, and the condition codes are those of
the comparison that decided. -/
def cas2Compare (regs : Regs) (size : Nat) (first second : BitVec 16) (value₁ value₂ : BitVec 32) :
    AluResult :=
  let compared := aluSub value₁ (regs.d.get (casCompareRegister first)) size
  if compared.z then aluSub value₂ (regs.d.get (casCompareRegister second)) size else compared

/-- The two updates of `CAS2`, in memory, at the addresses of its operands. -/
def cas2Update (size : Nat) (first second : BitVec 16) (address₁ address₂ : BitVec 32) :
    Exec σ Unit := do
  let regs ← Attempt.read Cpu.regs
  writeOperand ports (.ofMemory address₁) size (regs.d.get (casUpdateRegister first))
  writeOperand ports (.ofMemory address₂) size (regs.d.get (casUpdateRegister second))

/-- The two operands of a `CAS2` that did not match, in registers: the first is the one that
remains where they are the same. -/
def cas2Return (size : Nat) (first second : BitVec 16) (value₁ value₂ : BitVec 32) :
    Exec σ Unit := do
  writeOperand ports (.ofDataRegister (casCompareRegister second)) size value₂
  writeOperand ports (.ofDataRegister (casCompareRegister first)) size value₁

/-- `execute_cas2`, once it has its extension words. -/
def executeCas2With (size : Nat) (first second : BitVec 16) : Exec σ Unit := do
  lockBus
  let regs ← Attempt.read Cpu.regs
  let value₁ ← readOrUnlock ports (.ofMemory (cas2Address regs first)) size
  let value₂ ← readOrUnlock ports (.ofMemory (cas2Address regs second)) size
  let compared ← Attempt.read fun cpu => cas2Compare cpu.regs size first second value₁ value₂
  modify fun cpu => cpu.mapRegs fun regs => regs.applyAlu compared
  thenUnlock (if compared.z then
      cas2Update ports size first second (cas2Address regs first) (cas2Address regs second)
    else cas2Return ports size first second value₁ value₂)

/-- `execute_cas2`. -/
def executeCas2 (bounds : Bounds) (first : BitVec 16) : Exec σ Unit := do
  let second ← nextWord ports
  executeCas2With ports bounds.size first second

/-- The condition codes of `CMP2` and `CHK2`. -/
def boundsCcr (ccr : BitVec 16) (value lower upper : BitVec 32) : BitVec 16 :=
  let ccr :=
    if value = lower ∨ value = upper then ccr ||| (1#16 <<< srZBit)
    else ccr &&& ~~~(1#16 <<< srZBit)
  if upper - lower < value - lower then ccr ||| (1#16 <<< srCBit)
  else ccr &&& ~~~(1#16 <<< srCBit)

/-- `CMP2` and `CHK2`, the rest of `execute_bounds`. -/
def executeCompareBounds (bounds : Bounds) (kind : BoundsKind) (extension : BitVec 16) :
    Exec σ Unit := do
  let target ← operandAddress ports bounds.ea bounds.size
  Attempt.require (target.valid ∧ !target.inRegister ∧ !target.immediate)
  let lower ← readOperand ports target bounds.size
  let upper ← readOperand ports
    { target with address := target.address + BitVec.ofNat 32 bounds.size } bounds.size
  let regs ← Attempt.read Cpu.regs
  let reg := field3 extension 12
  let value :=
    if extension.getLsbD 15 then regs.readAddressRegister reg
    else regs.d[reg] &&& sizeMask bounds.size
  let bound (b : BitVec 32) :=
    if extension.getLsbD 15 then signExtend b bounds.size else b &&& sizeMask bounds.size
  modify fun cpu => cpu.mapRegs fun regs =>
    regs.writeCcr (boundsCcr regs.readCcr value (bound lower) (bound upper))
  Attempt.onlyIf (kind = .chk2 ∧ bound upper - bound lower < value - bound lower) (raise vectorChk)

/-- `execute_bounds`. -/
def executeBounds (bounds : Bounds) : Exec σ Unit := do
  let extension ← nextWord ports
  match bounds.kindWith extension with
  | .cas => executeCas ports bounds extension
  | .cas2 => executeCas2 ports bounds extension
  | .cmp2 => executeCompareBounds ports bounds .cmp2 extension
  | .chk2 => executeCompareBounds ports bounds .chk2 extension
  | .invalid => Attempt.fail

end Execute

end Apollo.M68030
