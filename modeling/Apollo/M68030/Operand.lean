import Apollo.Lib.Attempt
import Apollo.M68030.Regs

/-!
# Operands of the MC68030

`src/core/cpu/m68030/ap_m68030_operand.c`, above the access layer. An operand is in a register
or in memory, and one in memory that crosses a long word boundary takes one access for each of
the long words it is in. What an access does - caches, translation, the board - is a parameter:
`Ports` takes a request to an answer and changes a state `σ`, which is all that is behind the
processor's access contexts. Clocks are left out.
-/

namespace Apollo.M68030

open Apollo.Lib

/-! ## The access layer -/

/-- Which of the processor's two access contexts a request goes through. -/
inductive Stream
  | instruction
  | data
deriving DecidableEq, Repr

/-- One call of `ap_m68030_access_read`, `ap_m68030_access_read_sized` or
`ap_m68030_access_write`, with the switches of the access context that the processor sets
around it. -/
structure Request where
  stream : Stream
  write : Bool
  address : BitVec 32
  functionCode : BitVec 8
  value : BitVec 32
  size : Nat
  rmc : Bool
  noAllocate : Bool
deriving DecidableEq

/-- `ap_m68030_access_result_t`: the long word that the address is in, or a fault. -/
inductive Answer
  | ok (value : BitVec 32)
  | fault (translation : Bool)
deriving DecidableEq

/-- `ap_m68030_iack_t`. -/
structure Iack where
  autovector : Bool
  busError : Bool
  vector : Nat
deriving DecidableEq

/-- What the processor is connected to: the access layer, and the interrupt acknowledge cycle,
whose callback can be `NULL`. -/
structure Ports (σ : Type) where
  access : Request → σ → Answer × σ
  acknowledge : Option (Nat → σ → Iack × σ)

/-! ## Operands -/

/-- `ap_m68030_address_t`. -/
structure Address where
  valid : Bool := false
  inRegister : Bool := false
  addressRegister : Bool := false
  immediate : Bool := false
  reg : Fin 8 := 0
  address : BitVec 32 := 0
  indirectionPending : Bool := false
  postIndirection : BitVec 32 := 0
deriving DecidableEq

/-- An operand in memory. -/
def Address.ofMemory (address : BitVec 32) : Address := { valid := true, address }

/-- An operand in a data register. -/
def Address.ofDataRegister (reg : Fin 8) : Address := { valid := true, inRegister := true, reg }

/-- How an operand access failed, from `ap_m68030_operand_result_t`. -/
structure OperandFault where
  translation : Bool := false
  address : BitVec 32 := 0
deriving DecidableEq

/-- `size_mask`. -/
def sizeMask (size : Nat) : BitVec 32 :=
  if size = 1 then 0xFF else if size = 2 then 0xFFFF else 0xFFFFFFFF

/-- `ap_m68030_sign_extend`. -/
def signExtend (value : BitVec 32) (size : Nat) : BitVec 32 :=
  if size = 1 then (value.setWidth 8).signExtend 32
  else if size = 2 then (value.setWidth 16).signExtend 32
  else value

/-- How much of an operand is in the long word that it starts in. -/
def chunkSize (address : BitVec 32) (remaining : Nat) : Nat :=
  min (4 - (address &&& 3).toNat) remaining

theorem chunkSize_pos (address : BitVec 32) {remaining : Nat} (h : 0 < remaining) :
    0 < chunkSize address remaining := by
  have hoffset : (address &&& 3).toNat = address.toNat % 4 := by
    rw [BitVec.toNat_and]
    exact Nat.and_two_pow_sub_one_eq_mod _ 2
  unfold chunkSize
  omega

theorem chunkSize_le (address : BitVec 32) (remaining : Nat) :
    chunkSize address remaining ≤ remaining :=
  Nat.min_le_right ..

section Operand

variable {σ : Type} (ports : Ports σ)

/-- What an operand access goes through: the switches of the data context, and a function
code. -/
structure AccessMode where
  functionCode : BitVec 8
  rmc : Bool
  noAllocate : Bool
deriving DecidableEq

/-- The request for one chunk of an operand. -/
def AccessMode.request (mode : AccessMode) (write : Bool) (address value : BitVec 32)
    (size : Nat) : Request :=
  { stream := .data, write, address, functionCode := mode.functionCode, value, size
    rmc := mode.rmc, noAllocate := mode.noAllocate }

/-- The loop of `ap_m68030_operand_read`. Every turn takes at least one byte, so an operand has
no more turns than bytes. -/
def readChunks (mode : AccessMode) :
    Nat → BitVec 32 → Nat → BitVec 32 → σ → Except OperandFault (BitVec 32) × σ
  | 0, _, _, value, s => (.ok value, s)
  | turns + 1, address, remaining, value, s =>
    if remaining = 0 then (.ok value, s)
    else
      let offset := (address &&& 3).toNat
      let chunk := chunkSize address remaining
      match ports.access (mode.request false address 0 chunk) s with
      | (.fault translation, s) => (.error { translation, address }, s)
      | (.ok long, s) =>
        let piece := (long >>> ((4 - offset - chunk) * 8)) &&& sizeMask chunk
        readChunks mode turns (address + BitVec.ofNat 32 chunk) (remaining - chunk)
          ((value <<< (chunk * 8)) ||| piece) s

/-- The loop of `ap_m68030_operand_write`. -/
def writeChunks (mode : AccessMode) (value : BitVec 32) :
    Nat → BitVec 32 → Nat → σ → Except OperandFault Unit × σ
  | 0, _, _, s => (.ok (), s)
  | turns + 1, address, remaining, s =>
    if remaining = 0 then (.ok (), s)
    else
      let chunk := chunkSize address remaining
      let piece := (value >>> ((remaining - chunk) * 8)) &&& sizeMask chunk
      match ports.access (mode.request true address piece chunk) s with
      | (.fault translation, s) => (.error { translation, address }, s)
      | (.ok _, s) =>
        writeChunks mode value turns (address + BitVec.ofNat 32 chunk) (remaining - chunk) s

/-- `ap_m68030_operand_read`. -/
def operandRead (mode : AccessMode) (regs : Regs) (target : Address) (size : Nat) (s : σ) :
    Except OperandFault (BitVec 32) × σ :=
  if !target.valid || target.indirectionPending then (.error {}, s)
  else if target.inRegister then
    let whole := if target.addressRegister then regs.readAddressRegister target.reg else regs.d[target.reg]
    (.ok (whole &&& sizeMask size), s)
  else if target.immediate then (.error {}, s)
  else readChunks ports mode size target.address size 0 s

/-- `ap_m68030_operand_write`. -/
def operandWrite (mode : AccessMode) (regs : Regs) (target : Address) (size : Nat)
    (value : BitVec 32) (s : σ) : Except OperandFault Regs × σ :=
  if !target.valid || target.indirectionPending || target.immediate then (.error {}, s)
  else if target.inRegister then
    if target.addressRegister then
      (.ok (regs.writeAddressRegister target.reg (signExtend value size)), s)
    else
      let mask := sizeMask size
      (.ok { regs with
        d := regs.d.set target.reg ((regs.d[target.reg] &&& ~~~mask) ||| (value &&& mask)) }, s)
  else
    match writeChunks ports mode value size target.address size s with
    | (.error fault, s) => (.error fault, s)
    | (.ok (), s) => (.ok regs, s)

end Operand

end Apollo.M68030
