import Apollo.Lib.HostInt
import Apollo.Lib.Slots
import Apollo.M68030.Locked

/-!
# The arithmetic families

`src/core/cpu/m68030/ap_m68030_arith.c`, and `execute_extended` of `ap_m68030_step.c`: the multiplies and
divides of words, the arithmetic with an extend bit, the comparison of two operands in memory and the
exchanges. The host does the arithmetic, and where C does not define what it does, an instruction has an
outcome of its own, `Outcome.undefined`. What only timing uses is left out.
-/

namespace Apollo.M68030

open Apollo.Lib

/-! ## Decoding -/

/-- `ap_m68030_arith_kind_t`. -/
inductive ArithKind
  | or
  | and
  | sub
  | add
  | cmp
  | eor
  | suba
  | adda
  | cmpa
  | divu
  | divs
  | mulu
  | muls
  | subx
  | addx
  | abcd
  | sbcd
  | cmpm
  | exg
  | invalid
deriving DecidableEq, Repr

/-- `ap_m68030_exg_mode_t`. -/
inductive ExgMode
  | none
  | data
  | address
  | mixed
deriving DecidableEq, Repr

/-- `ap_m68030_arith_t`. -/
structure Arith where
  kind : ArithKind
  size : Nat := 0
  reg : Fin 8 := 0
  toEffectiveAddress : Bool := false
  memoryOperands : Bool := false
  sourceReg : Fin 8 := 0
  exg : ExgMode := .none
  ea : Ea := ⟨.dataRegister, 0⟩
deriving DecidableEq

/-- An instruction whose effective address is none is none. -/
def Arith.checked (arith : Arith) : Arith :=
  if arith.ea.kind = .invalid then { arith with kind := .invalid } else arith

/-- The wide forms: what they are depends on the family. -/
def arithDecodeWide (fields : Arith) (family : Nat) (long : Bool) (ea : Ea) : Arith :=
  let size := if long then 4 else 2
  match family with
  | 0x8 => Arith.checked { fields with kind := if long then .divs else .divu, size := 2, ea }
  | 0xC => Arith.checked { fields with kind := if long then .muls else .mulu, size := 2, ea }
  | 0x9 => Arith.checked { fields with kind := .suba, size, ea }
  | 0xB => Arith.checked { fields with kind := .cmpa, size, ea }
  | 0xD => Arith.checked { fields with kind := .adda, size, ea }
  | _ => fields

/-- The register-register forms, which are where a register cannot be a destination. -/
def arithDecodeRegisters (fields : Arith) (family : Nat) (opmode mode : Fin 8) : Arith :=
  match family with
  | 0x8 => if opmode = 4 then { fields with kind := .sbcd, size := 1 } else fields
  | 0x9 => { fields with kind := .subx }
  | 0xD => { fields with kind := .addx }
  | 0xB => if mode = 1 then { fields with kind := .cmpm } else fields
  | 0xC =>
    if opmode = 4 then { fields with kind := .abcd, size := 1 }
    else if opmode = 5 then
      { fields with kind := .exg, size := 4, exg := if mode = 0 then .data else .address }
    else if opmode = 6 ∧ mode = 1 then { fields with kind := .exg, size := 4, exg := .mixed }
    else fields
  | _ => fields

/-- `ap_m68030_arith_decode`. -/
def arithDecode (instruction : BitVec 16) : Arith :=
  let family := (instruction >>> 12 &&& 0xF).toNat
  let opmode := field3 instruction 6
  let mode := field3 instruction 3
  let fields : Arith :=
    { kind := .invalid, reg := field3 instruction 9, sourceReg := field3 instruction 0
      memoryOperands := instruction.getLsbD 3 }
  if opmode = 3 ∨ opmode = 7 then arithDecodeWide fields family (opmode = 7) (wordEa instruction)
  else
    let fields := { fields with toEffectiveAddress := 4 ≤ opmode, size := 1 <<< (opmode.val % 4) }
    -- the destination of `EOR` is data alterable, so it alone has a data register there
    if 4 ≤ opmode ∧ (mode = 0 ∨ mode = 1) ∧ ¬ (family = 0xB ∧ mode = 0) then
      arithDecodeRegisters fields family opmode mode
    else
      let named := { fields with ea := wordEa instruction }
      match family with
      | 0x8 => Arith.checked { named with kind := .or }
      | 0x9 => Arith.checked { named with kind := .sub }
      | 0xB => Arith.checked { named with kind := if 4 ≤ opmode then .eor else .cmp }
      | 0xC => Arith.checked { named with kind := .and }
      | 0xD => Arith.checked { named with kind := .add }
      | _ => fields

/-! ## Multiplying and dividing -/

/-- Whether C defines what an instruction did. -/
inductive Outcome
  | done
  | undefined
deriving DecidableEq, Repr

/-- What a division comes to, once its divisor is not zero. -/
inductive Division
  | undefined
  | overflow
  | exact (quotient remainder : BitVec 32)
deriving DecidableEq

/-- The product of two words. Their numbers are too small for the product of the host not to be there. -/
def multiplyWord (isSigned : Bool) (source destination : BitVec 32) : Option (BitVec 32) :=
  if isSigned then
    HostInt.mul ((source.setWidth 16).signExtend 32) ((destination.setWidth 16).signExtend 32)
  else some ((source &&& 0xFFFF) * (destination &&& 0xFFFF))

/-- The quotient of a long word by a word. -/
def divideWord (isSigned : Bool) (dividend divisor : BitVec 32) : Division :=
  if isSigned then
    let b := (divisor.setWidth 16).signExtend 32
    match HostInt.div dividend b, HostInt.rem dividend b with
    | some q, some r => if q.toInt > 32767 ∨ q.toInt < -32768 then .overflow else .exact q r
    | _, _ => .undefined
  else
    let quotient := dividend / (divisor &&& 0xFFFF)
    let remainder := dividend % (divisor &&& 0xFFFF)
    if quotient > 0xFFFF then .overflow else .exact quotient remainder

/-! ## Execution -/

section Execute

variable {σ : Type} (ports : Ports σ)

/-- The source operand of a multiply or a divide. An immediate is fetched, not addressed. -/
def sourceOperand (ea : Ea) (size : Nat) : Exec σ (BitVec 32) :=
  if ea.kind = .immediate then fetchImmediate ports size
  else do
    let target ← operandAddress ports ea size
    readOperand ports target size

/-- Data registers and condition codes are written. -/
def writeResult (d : Vector (BitVec 32) 8 → Vector (BitVec 32) 8) (ccr : BitVec 16) : Exec σ Unit :=
  modify fun cpu => cpu.mapRegs fun regs => { regs with d := d regs.d }.writeCcr ccr

/-- The end of a division. On overflow only `V` is set. -/
def Division.finish (ccr : BitVec 16) (size : Nat)
    (store : BitVec 32 → BitVec 32 → Vector (BitVec 32) 8 → Vector (BitVec 32) 8) :
    Division → Exec σ Outcome
  | .undefined => pure .undefined
  | .overflow => do
    writeResult id (ccr ||| 1#16 <<< srVBit)
    pure .done
  | .exact quotient remainder => do
    writeResult (store quotient remainder)
      (aluApply ccr (aluTest (quotient &&& sizeMask size) size))
    pure .done

/-- The arm of `execute_extended` for `MULU` and `MULS`. -/
def executeMultiplyWord (isSigned : Bool) (arith : Arith) (ccr : BitVec 16) : Exec σ Outcome := do
  let source ← sourceOperand ports arith.ea 2
  let d ← Attempt.read fun cpu => cpu.regs.d
  match multiplyWord isSigned source (d.get arith.reg &&& 0xFFFF) with
  | none => pure .undefined
  | some product => do
    writeResult (fun d => Lib.put d arith.reg product) (aluApply ccr (aluTest product 4))
    pure .done

/-- The arm of `execute_extended` for `DIVU` and `DIVS`: a quotient in the lower word and a remainder in
the upper one. -/
def executeDivideWord (isSigned : Bool) (arith : Arith) (ccr : BitVec 16) : Exec σ Outcome := do
  let source ← sourceOperand ports arith.ea 2
  if source &&& 0xFFFF = 0 then do
    raise vectorZeroDivide
    pure .done
  else do
    let d ← Attempt.read fun cpu => cpu.regs.d
    (divideWord isSigned (d.get arith.reg) (source &&& 0xFFFF)).finish ccr 2
      fun quotient remainder d =>
        Lib.put d arith.reg (((remainder &&& 0xFFFF) <<< 16) ||| (quotient &&& 0xFFFF))

/-- `read_predecrement_at`. -/
def readPredecrementAt (reg : Fin 8) (size : Nat) : Exec σ (BitVec 32 × Address) := do
  let target ← resolveAddress ports ⟨.predecrement, reg⟩ { operandSize := size }
  let value ← readOperand ports target size
  pure (value, target)

/-- `read_predecrement`. -/
def readPredecrement (reg : Fin 8) (size : Nat) : Exec σ (BitVec 32) := do
  let (value, _) ← readPredecrementAt ports reg size
  pure value

/-- `read_postincrement`. -/
def readPostincrement (reg : Fin 8) (size : Nat) : Exec σ (BitVec 32) := do
  let target ← resolveAddress ports ⟨.postincrement, reg⟩ { operandSize := size }
  readOperand ports target size

/-- The result of the arithmetic with an extend bit. -/
def ArithKind.extended (kind : ArithKind) (destination source : BitVec 32) (size : Nat) (xIn zIn : Bool) :
    AluResult :=
  match kind with
  | addx => aluAddx destination source size xIn zIn
  | subx => aluSubx destination source size xIn zIn
  | abcd => aluAbcd destination source xIn zIn
  | _ => aluSbcd destination source xIn zIn

/-- The size of the operands of the arithmetic with an extend bit: two digits are a byte. -/
def Arith.extendedSize (arith : Arith) : Nat :=
  if arith.kind = .abcd ∨ arith.kind = .sbcd then 1 else arith.size

/-- The arm of `execute_extended` for `ADDX`, `SUBX`, `ABCD` and `SBCD`. In memory the source is first, so
that one register twice is decremented twice. -/
def executeExtendedPair (arith : Arith) (ccr : BitVec 16) : Exec σ Unit := do
  let size := arith.extendedSize
  let result destination source := arith.kind.extended destination source size (ccr.getLsbD srXBit)
    (ccr.getLsbD srZBit)
  if arith.memoryOperands then do
    let source ← readPredecrement ports arith.sourceReg size
    let (destination, target) ← readPredecrementAt ports arith.reg size
    writeOperand ports target size ((result destination source).result &&& sizeMask size)
    modify fun cpu => cpu.mapRegs fun regs => regs.writeCcr (aluApply ccr (result destination source))
  else
    modify fun cpu => cpu.mapRegs fun regs =>
      let mask := sizeMask size
      let whole := regs.d.get arith.reg
      let result := result (whole &&& mask) (regs.d.get arith.sourceReg &&& mask)
      { regs with d := Lib.put regs.d arith.reg ((whole &&& ~~~mask) ||| (result.result &&& mask)) }.writeCcr
        (aluApply ccr result)

/-- The arm of `execute_extended` for `CMPM`. -/
def executeCompareMemory (arith : Arith) (ccr : BitVec 16) : Exec σ Unit := do
  let source ← readPostincrement ports arith.sourceReg arith.size
  let destination ← readPostincrement ports arith.reg arith.size
  modify fun cpu => cpu.mapRegs fun regs =>
    regs.writeCcr (aluApply ccr (aluCmp destination source arith.size))

/-- The arm of `execute_extended` for `EXG`. -/
def executeExchange (arith : Arith) : Exec σ Unit := do
  Attempt.require (arith.exg ≠ .none)
  modify fun cpu => cpu.mapRegs fun regs =>
    match arith.exg with
    | .data =>
      let t := regs.d.get arith.reg
      { regs with d := Lib.put (Lib.put regs.d arith.reg (regs.d.get arith.sourceReg)) arith.sourceReg t }
    | .address =>
      let t := regs.readAddressRegister arith.reg
      (regs.writeAddressRegister arith.reg (regs.readAddressRegister arith.sourceReg)).writeAddressRegister
        arith.sourceReg t
    | .mixed =>
      let t := regs.d.get arith.reg
      { regs with d := Lib.put regs.d arith.reg (regs.readAddressRegister arith.sourceReg)
        }.writeAddressRegister arith.sourceReg t
    | .none => regs

/-- `execute_extended`. -/
def executeExtended (arith : Arith) : Exec σ Outcome := do
  let ccr ← Attempt.read fun cpu => cpu.regs.readCcr
  match arith.kind with
  | .exg => do
    executeExchange arith
    pure .done
  | .mulu => executeMultiplyWord ports false arith ccr
  | .muls => executeMultiplyWord ports true arith ccr
  | .divu => executeDivideWord ports false arith ccr
  | .divs => executeDivideWord ports true arith ccr
  | .addx | .subx | .abcd | .sbcd => do
    executeExtendedPair ports arith ccr
    pure .done
  | .cmpm => do
    executeCompareMemory ports arith ccr
    pure .done
  | _ => Attempt.fail

end Execute

end Apollo.M68030
