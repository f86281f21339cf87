import Apollo.M68030.Arith

/-!
# The miscellaneous family

`src/core/cpu/m68030/ap_m68030_misc.c`, and of its instructions in `ap_m68030_step.c` the multiply and
divide of long words, `execute_long_muldiv`: two kinds that an extension word makes four of each. What
only timing uses, and the lengths, are left out.
-/

namespace Apollo.M68030

open Apollo.Lib

/-! ## Decoding -/

/-- `ap_m68030_misc_kind_t`. -/
inductive MiscKind
  | lea
  | chkWord
  | chkLong
  | pea
  | swap
  | bkpt
  | extWord
  | extLong
  | extbLong
  | nbcd
  | movemToMemory
  | movemToRegisters
  | multiplyLong
  | divideLong
  | invalid
deriving DecidableEq, Repr

/-- `ap_m68030_misc_t`. -/
structure Misc where
  kind : MiscKind
  reg : Fin 8 := 0
  size : Nat := 0
  ea : Ea := ⟨.dataRegister, 0⟩
deriving DecidableEq

/-! ## Multiplying and dividing long words -/

/-- The product of two long words. -/
def multiplyLong (isSigned : Bool) (destination source : BitVec 32) : Option (BitVec 64) :=
  if isSigned then HostInt.mul (destination.signExtend 64) (source.signExtend 64)
  else some (destination.setWidth 64 * source.setWidth 64)

/-- Whether a product is too long for one register: the upper half is not the extension of the lower. -/
def productOverflow (isSigned : Bool) (product : BitVec 64) : Bool :=
  if isSigned then product.toInt < -2 ^ 31 ∨ product.toInt > 2 ^ 31 - 1 else product >>> 32 ≠ 0

/-- The dividend, in one register or in two. -/
def longDividend (isSigned quad : Bool) (high low : BitVec 32) : BitVec 64 :=
  if quad then high ++ low else if isSigned then low.signExtend 64 else low.setWidth 64

/-- The quotient by a long word. The one pair that C cannot be asked to divide is an overflow. -/
def divideLong (isSigned : Bool) (dividend : BitVec 64) (source : BitVec 32) : Division :=
  if isSigned then
    let divisor := source.signExtend 64
    if divisor = -1 ∧ dividend = BitVec.intMin 64 then .overflow
    else
      match HostInt.div dividend divisor, HostInt.rem dividend divisor with
      | some q, some r =>
        if q.toInt < -2 ^ 31 ∨ q.toInt > 2 ^ 31 - 1 then .overflow
        else .exact (q.setWidth 32) (r.setWidth 32)
      | _, _ => .undefined
  else
    let q := dividend / source.setWidth 64
    if q > 0xFFFFFFFF then .overflow
    else .exact (q.setWidth 32) ((dividend % source.setWidth 64).setWidth 32)

section Execute

variable {σ : Type} (ports : Ports σ)

/-- The condition codes of a long product. `X` is not affected, and `C` is always cleared. -/
def multiplyLongCcr (ccr : BitVec 16) (negative zero overflow : Bool) : BitVec 16 :=
  (ccr &&& (1#16 <<< srXBit)) ||| ccrFlag negative srNBit ||| ccrFlag zero srZBit |||
    ccrFlag overflow srVBit

/-- The multiply of `execute_long_muldiv`. -/
def executeMultiplyLong (isSigned quad : Bool) (high low : Fin 8) (source : BitVec 32) :
    Exec σ Outcome := do
  let regs ← Attempt.read Cpu.regs
  let ccr := regs.readCcr
  match multiplyLong isSigned (regs.d.get low) source with
  | none => pure .undefined
  | some product => do
    let result := product.setWidth 32
    if quad then
      writeResult (fun d => (d.set high ((product >>> 32).setWidth 32)).set low result)
        (multiplyLongCcr ccr (product >>> 63 ≠ 0) (product = 0) false)
    else
      writeResult (fun d => d.set low result)
        (multiplyLongCcr ccr (result &&& 0x80000000 ≠ 0) (result = 0)
          (productOverflow isSigned product))
    pure .done

/-- The divide of `execute_long_muldiv`: the remainder is first, so that the quotient lands on top of it
where both have one register. -/
def executeDivideLong (isSigned quad : Bool) (high low : Fin 8) (source : BitVec 32) :
    Exec σ Outcome := do
  let regs ← Attempt.read Cpu.regs
  if source = 0 then do
    raise vectorZeroDivide
    pure .done
  else
    (divideLong isSigned (longDividend isSigned quad (regs.d.get high) (regs.d.get low)) source).finish
      regs.readCcr 4 fun quotient remainder d => (d.set high remainder).set low quotient

/-- `execute_long_muldiv`. -/
def executeLongMuldiv (misc : Misc) : Exec σ Outcome := do
  allowEa misc.ea.kind.isData
  let extension ← nextWord ports
  let source ← sourceOperand ports misc.ea 4
  let execute := if misc.kind = .multiplyLong then executeMultiplyLong else executeDivideLong
  execute (extension.getLsbD 11) (extension.getLsbD 10) (field3 extension 0) (field3 extension 12) source

end Execute

end Apollo.M68030
