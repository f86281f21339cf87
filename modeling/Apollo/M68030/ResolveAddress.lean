import Apollo.M68030.Alu
import Apollo.M68030.BeginStep
import Apollo.M68030.EffectiveAddress

/-!
# Extension words and effective addresses, as an instruction has them

The functions of `ap_m68030_step.c` with which an instruction gets what follows its first word:
`next_word`, the displacements and immediates that are made of such words, and the address of an
operand, with the read of a memory indirection. Clocks and the words that only timing uses are
left out.
-/

namespace Apollo.M68030

open Apollo.Lib

section Words

variable {σ : Type} (ports : Ports σ)

/-- Where the next extension word is. -/
def Cpu.extensionAddress (cpu : Cpu σ) : BitVec 32 :=
  cpu.regs.pc + BitVec.ofNat 32 (2 * cpu.extensionWords)

/-- The end of `next_word`: a word is there, or its fault is noted. -/
def takeWord : Exec σ (BitVec 16) := fun cpu =>
  match fillToDecoded ports 4 cpu with
  | .ok (word, false) cpu => .ok word { cpu with extensionWords := cpu.extensionWords + 1 }
  | .ok (_, true) cpu | .error _ cpu =>
    .error () (cpu.noteFault
      { address := cpu.extensionAddress + 2, size := 2, read := true
        functionCode := cpu.fetch.functionCode, instructionStream := true, dataOutput := 0
        translation := cpu.fetch.pipe.decodedTranslation })

/-- `next_word`. -/
def nextWord : Exec σ (BitVec 16) := do
  modify fun cpu => { cpu with fetch := { cpu.fetch with pipe := cpu.fetch.pipe.advance } }
  takeWord ports

/-- Two extension words. -/
def nextLong : Exec σ (BitVec 32) := do
  let high ← nextWord ports
  let low ← nextWord ports
  pure (high ++ low)

/-- One extension word, with its sign. -/
def nextSigned : Exec σ (BitVec 32) := do
  let word ← nextWord ports
  pure (word.signExtend 32)

/-- `read_displacement`. -/
def readDisplacement : BaseDisplacement → Exec σ (BitVec 32)
  | .null => pure 0
  | .word => nextSigned ports
  | .long => nextLong ports
  | .reserved => Attempt.fail

/-- The outer displacement, which `gather_address_input` reads as a base displacement of the
same size. -/
def readOuterDisplacement : OuterDisplacement → Exec σ (BitVec 32)
  | .null => readDisplacement ports .null
  | .word => readDisplacement ports .word
  | .long => readDisplacement ports .long
  | .none => Attempt.fail

/-- `fetch_immediate`. -/
def fetchImmediate (size : Nat) : Exec σ (BitVec 32) :=
  if size = 4 then nextLong ports
  else do
    let high ← nextWord ports
    pure (if size = 1 then (high.setWidth 8).setWidth 32 else high.setWidth 32)

/-! ## Addresses -/

/-- The arm of `gather_address_input` for the indexed modes. -/
def gatherIndexed (size : Nat) : Exec σ AddressInput := do
  let word ← nextWord ports
  let extensionAddress ← Attempt.read Cpu.extensionAddress
  let input : AddressInput := { operandSize := size, extensionWord := word, extensionAddress }
  let extension := eaDecodeExtension word
  if !extension.fullFormat then pure input
  else do
    Attempt.require (extension.reserved = false)
    let baseDisplacement ← readDisplacement ports extension.baseDisplacementSize
    if extension.indirect = .none then pure { input with baseDisplacement }
    else do
      let outerDisplacement ← readOuterDisplacement ports extension.outerDisplacementSize
      pure { input with baseDisplacement, outerDisplacement }

/-- `gather_address_input`. -/
def gatherAddressInput (kind : EaKind) (size : Nat) : Exec σ AddressInput :=
  match kind with
  | .dataRegister | .addressRegister | .addressIndirect | .postincrement | .predecrement =>
    pure { operandSize := size }
  | .displacement | .pcDisplacement => do
    let displacement ← nextSigned ports
    let extensionAddress ← Attempt.read Cpu.extensionAddress
    pure { operandSize := size, displacement, extensionAddress }
  | .absoluteShort => do
    let displacement ← nextSigned ports
    pure { operandSize := size, displacement }
  | .absoluteLong => do
    let displacement ← nextLong ports
    pure { operandSize := size, displacement }
  | .indexed | .pcIndexed => gatherIndexed ports size
  | .immediate | .invalid => Attempt.fail

/-- A data operand is read. -/
def readOperand (target : Address) (size : Nat) : Exec σ (BitVec 32) := do
  let functionCode ← Attempt.read Cpu.dataFunctionCode
  stepOperandRead ports target size functionCode

/-- A data operand is written. -/
def writeOperand (target : Address) (size : Nat) (value : BitVec 32) : Exec σ Unit := do
  let functionCode ← Attempt.read Cpu.dataFunctionCode
  stepOperandWrite ports target size value functionCode

/-- `resolve_address`: an indirection that cannot be read leaves an address that is not valid, and
that is found out when it is used. -/
def resolveAddress (ea : Ea) (input : AddressInput) : Exec σ Address := do
  let target ← fun cpu =>
    .ok (addressCalculate cpu.regs ea input).1
      { cpu with regs := (addressCalculate cpu.regs ea input).2 }
  if !target.valid || !target.indirectionPending then pure target
  else do
    match ← (readOperand ports (.ofMemory target.address) 4).caught with
    | none => pure { target with valid := false }
    | some value =>
      pure { target with
        address := value + target.postIndirection, indirectionPending := false
        postIndirection := 0 }

/-- The operand that an instruction word names, with what follows the word. -/
def operandAddress (ea : Ea) (size : Nat) : Exec σ Address := do
  let input ← gatherAddressInput ports ea.kind size
  resolveAddress ports ea input

/-- `allow_ea`. -/
def allowEa (allowed : Bool) : Exec σ Unit :=
  if allowed then pure ()
  else do
    modify fun cpu => { cpu with refusedVector := vectorIllegalInstruction }
    Attempt.fail

end Words

end Apollo.M68030
