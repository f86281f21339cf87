import Apollo.M68030.Operand

/-!
# Arithmetic and condition codes of the MC68030

The parts of `src/core/cpu/m68030/ap_m68030_alu.c` that the modelled instructions use. A result
has the operand's width; its flags are the condition codes, and `setsX` tells whether the
operation writes the `X` bit at all.
-/

namespace Apollo.M68030

/-- `ap_m68030_alu_result_t`. -/
structure AluResult where
  result : BitVec 32
  n : Bool
  z : Bool
  v : Bool
  c : Bool
  x : Bool
  setsX : Bool
deriving DecidableEq

/-- `sign_bit`. -/
def signBit (size : Nat) : BitVec 32 :=
  if size = 1 then 0x80 else if size = 2 then 0x8000 else 0x80000000

/-- Whether a value of a size is negative. -/
def negative (value : BitVec 32) (size : Nat) : Bool := value &&& signBit size ≠ 0

/-- `ap_m68030_alu_sub`. The mask of the source, `width_mask`, is the operand path's
`size_mask`. -/
def aluSub (destination source : BitVec 32) (size : Nat) : AluResult :=
  let d := destination &&& sizeMask size
  let s := source &&& sizeMask size
  let result := (d - s) &&& sizeMask size
  let borrow := decide (d < s)
  { result
    n := negative result size
    z := result = 0
    v := negative ((d ^^^ s) &&& (d ^^^ result)) size
    c := borrow
    x := borrow
    setsX := true }

/-- `ap_m68030_alu_subx`: the source and the borrow are taken together, in a wider word. -/
def aluSubx (destination source : BitVec 32) (size : Nat) (xIn zIn : Bool) : AluResult :=
  let d := destination &&& sizeMask size
  let s := source &&& sizeMask size
  let borrow := s.toNat + if xIn then 1 else 0
  let result := (d - BitVec.ofNat 32 borrow) &&& sizeMask size
  let carry := decide (d.toNat < borrow)
  { result
    n := negative result size
    z := zIn && result = 0
    v := negative ((d ^^^ s) &&& (d ^^^ result)) size
    c := carry
    x := carry
    setsX := true }

/-- `ap_m68030_alu_cmp`. -/
def aluCmp (destination source : BitVec 32) (size : Nat) : AluResult :=
  { aluSub destination source size with setsX := false }

/-- `ap_m68030_alu_addx`: the sum and the carry, in a wider word. -/
def aluAddx (destination source : BitVec 32) (size : Nat) (xIn zIn : Bool) : AluResult :=
  let mask := sizeMask size
  let d := destination &&& mask
  let s := source &&& mask
  let wide : BitVec 64 := d.setWidth 64 + s.setWidth 64 + if xIn then 1 else 0
  let result := (wide &&& mask.setWidth 64).setWidth 32
  let carry := decide (wide &&& ~~~(mask.setWidth 64) ≠ 0)
  { result
    n := negative result size
    z := zIn && result = 0
    v := negative (~~~(d ^^^ s) &&& (d ^^^ result)) size
    c := carry
    x := carry
    setsX := true }

/-- `ap_m68030_alu_abcd`: the low digit carries into the high one at ten. -/
def aluAbcd (destination source : BitVec 32) (xIn zIn : Bool) : AluResult :=
  let d := (destination &&& 0xFF).toNat
  let s := (source &&& 0xFF).toNat
  let x := if xIn then 1 else 0
  let low := d % 16 + s % 16 + x
  let high := d / 16 % 16 + s / 16 % 16 + if 9 < low then 1 else 0
  let low := if 9 < low then low - 10 else low
  let carry := decide (9 < high)
  let high := if 9 < high then high - 10 else high
  let result : BitVec 32 := BitVec.ofNat 32 (16 * (high % 16) + low % 16)
  let uncorrected : BitVec 32 := BitVec.ofNat 32 ((d + s + x) % 256)
  { result
    n := result.getLsbD 7
    z := zIn && result = 0
    v := (~~~uncorrected &&& result).getLsbD 7
    c := carry
    x := carry
    setsX := true }

/-- `ap_m68030_alu_sbcd`: the low digit borrows ten from the high one. -/
def aluSbcd (destination source : BitVec 32) (xIn zIn : Bool) : AluResult :=
  let d : Int := (destination &&& 0xFF).toNat
  let s : Int := (source &&& 0xFF).toNat
  let x : Int := if xIn then 1 else 0
  let low := d % 16 - s % 16 - x
  let high := d / 16 % 16 - s / 16 % 16 - if low < 0 then 1 else 0
  let low := if low < 0 then low + 10 else low
  let borrow := decide (high < 0)
  let high := if high < 0 then high + 10 else high
  let result : BitVec 32 := BitVec.ofInt 32 (16 * (high % 16) + low % 16)
  let uncorrected : BitVec 32 := BitVec.ofInt 32 ((d - s - x) % 256)
  { result
    n := result.getLsbD 7
    z := zIn && result = 0
    v := (uncorrected &&& ~~~result).getLsbD 7
    c := borrow
    x := borrow
    setsX := true }

/-- `logic`. -/
def aluLogic (value : BitVec 32) (size : Nat) : AluResult :=
  let result := value &&& sizeMask size
  { result, n := negative result size, z := result = 0, v := false, c := false, x := false
    setsX := false }

/-- `ap_m68030_alu_neg`. -/
def aluNeg (destination : BitVec 32) (size : Nat) : AluResult := aluSub 0 destination size

/-- `ap_m68030_alu_not`. -/
def aluNot (destination : BitVec 32) (size : Nat) : AluResult := aluLogic (~~~destination) size

/-- `ap_m68030_alu_test`. -/
def aluTest (value : BitVec 32) (size : Nat) : AluResult := aluLogic value size

/-- `AP_M68030_SR_X_BIT`. -/
def srXBit : Nat := 4

/-- `AP_M68030_SR_N_BIT`. -/
def srNBit : Nat := 3

/-- `AP_M68030_SR_Z_BIT`. -/
def srZBit : Nat := 2

/-- `AP_M68030_SR_V_BIT`. -/
def srVBit : Nat := 1

/-- `AP_M68030_SR_C_BIT`. -/
def srCBit : Nat := 0

/-- A condition code, in its place. -/
def ccrFlag (set : Bool) (bit : Nat) : BitVec 16 := if set then 1#16 <<< bit else 0

/-- `ap_m68030_alu_apply`. -/
def aluApply (ccr : BitVec 16) (r : AluResult) : BitVec 16 :=
  ccrFlag (if r.setsX then r.x else ccr.getLsbD srXBit) srXBit |||
    ccrFlag r.n srNBit ||| ccrFlag r.z srZBit ||| ccrFlag r.v srVBit ||| ccrFlag r.c srCBit

/-- The register file with the condition codes of a result. -/
def Regs.applyAlu (regs : Regs) (r : AluResult) : Regs := regs.writeCcr (aluApply regs.readCcr r)

end Apollo.M68030
