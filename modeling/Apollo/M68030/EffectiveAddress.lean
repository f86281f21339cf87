import Apollo.M68030.Operand

/-!
# Effective addresses of the MC68030

`src/core/cpu/m68030/ap_m68030_ea.c`, `ap_m68030_addr.c` and `ap_m68030_category.c`: the
addressing modes and their categories, the extension words of the indexed modes, and the address
that a mode names. A memory indirection is not done here: the address that it reads from is
returned, and what is added after it. Lengths in words are left out.
-/

namespace Apollo.M68030

/-! ## Modes -/

/-- `ap_m68030_ea_kind_t`. -/
inductive EaKind
  | dataRegister
  | addressRegister
  | addressIndirect
  | postincrement
  | predecrement
  | displacement
  | indexed
  | absoluteShort
  | absoluteLong
  | pcDisplacement
  | pcIndexed
  | immediate
  | invalid
deriving DecidableEq, Repr

/-- `ap_m68030_ea_t`. -/
structure Ea where
  kind : EaKind
  reg : Fin 8 := 0
deriving DecidableEq

/-- Three bits of an instruction word. -/
def field3 (word : BitVec 16) (shift : Nat) : Fin 8 := Fin.ofNat 8 (word >>> shift).toNat

/-- `ap_m68030_ea_decode`. -/
def eaDecode (mode reg : Fin 8) : Ea :=
  match mode with
  | 0 => ⟨.dataRegister, reg⟩
  | 1 => ⟨.addressRegister, reg⟩
  | 2 => ⟨.addressIndirect, reg⟩
  | 3 => ⟨.postincrement, reg⟩
  | 4 => ⟨.predecrement, reg⟩
  | 5 => ⟨.displacement, reg⟩
  | 6 => ⟨.indexed, reg⟩
  | 7 =>
    match reg with
    | 0 => ⟨.absoluteShort, 0⟩
    | 1 => ⟨.absoluteLong, 0⟩
    | 2 => ⟨.pcDisplacement, 0⟩
    | 3 => ⟨.pcIndexed, 0⟩
    | 4 => ⟨.immediate, 0⟩
    | _ => ⟨.invalid, 0⟩

namespace EaKind

/-- `ap_m68030_ea_is_data`. -/
def isData : EaKind → Bool
  | addressRegister | invalid => false
  | _ => true

/-- `ap_m68030_ea_is_memory`. -/
def isMemory : EaKind → Bool
  | dataRegister | addressRegister | invalid => false
  | _ => true

/-- `ap_m68030_ea_is_control`. -/
def isControl : EaKind → Bool
  | dataRegister | addressRegister | postincrement | predecrement | immediate | invalid => false
  | _ => true

/-- `ap_m68030_ea_is_alterable`. -/
def isAlterable : EaKind → Bool
  | pcDisplacement | pcIndexed | immediate | invalid => false
  | _ => true

/-- `ap_m68030_ea_is_data_alterable`. -/
def isDataAlterable (kind : EaKind) : Bool := kind.isData && kind.isAlterable

/-- `ap_m68030_ea_is_memory_alterable`. -/
def isMemoryAlterable (kind : EaKind) : Bool := kind.isMemory && kind.isAlterable

/-- `ap_m68030_ea_is_control_alterable`. -/
def isControlAlterable (kind : EaKind) : Bool := kind.isControl && kind.isAlterable

end EaKind

/-! ## Extension words -/

/-- `ap_m68030_bd_size_t`. -/
inductive BaseDisplacement
  | reserved
  | null
  | word
  | long
deriving DecidableEq, Repr

/-- `ap_m68030_od_size_t`. -/
inductive OuterDisplacement
  | none
  | null
  | word
  | long
deriving DecidableEq, Repr

/-- `ap_m68030_indirect_t`. -/
inductive Indirect
  | none
  | preindexed
  | postindexed
  | memory
  | reserved
deriving DecidableEq, Repr

/-- `ap_m68030_extension_t`. -/
structure Extension where
  indexIsAddressRegister : Bool
  indexRegister : Fin 8
  indexLong : Bool
  scale : Nat
  fullFormat : Bool
  displacement : BitVec 32 := 0
  baseSuppressed : Bool := false
  indexSuppressed : Bool := false
  baseDisplacementSize : BaseDisplacement := .reserved
  indirect : Indirect := .none
  outerDisplacementSize : OuterDisplacement := .none
  reserved : Bool := false
deriving DecidableEq

/-- The `BD SIZE` field. -/
def baseDisplacementOf (word : BitVec 16) : BaseDisplacement :=
  match (word >>> 4 &&& 3).toNat with
  | 0 => .reserved
  | 1 => .null
  | 2 => .word
  | _ => .long

/-- `decode_indirect`: the kind of indirection and the size of the outer displacement that the
`I/IS` field names. -/
def decodeIndirect (indexSuppressed : Bool) (iIs : Fin 8) : Indirect × OuterDisplacement :=
  match indexSuppressed, iIs with
  | _, 0 => (.none, .none)
  | false, 1 => (.preindexed, .null)
  | false, 2 => (.preindexed, .word)
  | false, 3 => (.preindexed, .long)
  | false, 5 => (.postindexed, .null)
  | false, 6 => (.postindexed, .word)
  | false, 7 => (.postindexed, .long)
  | true, 1 => (.memory, .null)
  | true, 2 => (.memory, .word)
  | true, 3 => (.memory, .long)
  | _, _ => (.reserved, .none)

/-- `ap_m68030_ea_decode_extension`. -/
def eaDecodeExtension (word : BitVec 16) : Extension :=
  let brief : Extension :=
    { indexIsAddressRegister := word.getLsbD 15
      indexRegister := field3 word 12
      indexLong := word.getLsbD 11
      scale := 1 <<< (word >>> 9 &&& 3).toNat
      fullFormat := word.getLsbD 8 }
  if !brief.fullFormat then
    { brief with displacement := (word.setWidth 8).signExtend 32 }
  else
    let indexSuppressed := word.getLsbD 6
    let indirection := decodeIndirect indexSuppressed (field3 word 0)
    { brief with
      baseSuppressed := word.getLsbD 7
      indexSuppressed
      baseDisplacementSize := baseDisplacementOf word
      indirect := indirection.1
      outerDisplacementSize := indirection.2
      reserved := baseDisplacementOf word = .reserved || indirection.1 = .reserved }

/-! ## Addresses -/

/-- `ap_m68030_address_input_t`. -/
structure AddressInput where
  operandSize : Nat := 0
  displacement : BitVec 32 := 0
  extensionWord : BitVec 16 := 0
  extensionAddress : BitVec 32 := 0
  baseDisplacement : BitVec 32 := 0
  outerDisplacement : BitVec 32 := 0
deriving DecidableEq

/-- `ap_m68030_address_step`: the stack pointer stays even. -/
def addressStep (reg : Fin 8) (operandSize : Nat) : Nat :=
  if reg = 7 ∧ operandSize = 1 then 2 else operandSize

/-- `index_value`. -/
def indexValue (regs : Regs) (extension : Extension) : BitVec 32 :=
  let raw :=
    if extension.indexIsAddressRegister then regs.readAddressRegister extension.indexRegister
    else regs.d[extension.indexRegister]
  let sized := if extension.indexLong then raw else (raw.setWidth 16).signExtend 32
  sized * BitVec.ofNat 32 extension.scale

/-- The arm of `ap_m68030_address_calculate` for the indexed modes; the base is the register of
the mode, or where its extension word is. -/
def indexedAddress (regs : Regs) (base : BitVec 32) (input : AddressInput) : Address :=
  let extension := eaDecodeExtension input.extensionWord
  if extension.reserved then { valid := false }
  else
    let base := if extension.fullFormat && extension.baseSuppressed then 0 else base
    let index :=
      if extension.fullFormat && extension.indexSuppressed then 0 else indexValue regs extension
    let displacement :=
      if extension.fullFormat then input.baseDisplacement else extension.displacement
    let indirect := extension.fullFormat && extension.indirect ≠ .none
    let indexAfter := indirect && extension.indirect = .postindexed
    { valid := true
      address := base + displacement + if indexAfter then 0 else index
      indirectionPending := indirect
      postIndirection :=
        if indirect then input.outerDisplacement + if indexAfter then index else 0 else 0 }

/-- `ap_m68030_address_calculate`. -/
def addressCalculate (regs : Regs) (ea : Ea) (input : AddressInput) : Address × Regs :=
  match ea.kind with
  | .dataRegister => ({ valid := true, inRegister := true, reg := ea.reg }, regs)
  | .addressRegister =>
    ({ valid := true, inRegister := true, addressRegister := true, reg := ea.reg }, regs)
  | .addressIndirect => (.ofMemory (regs.readAddressRegister ea.reg), regs)
  | .postincrement =>
    let address := regs.readAddressRegister ea.reg
    (.ofMemory address,
      regs.writeAddressRegister ea.reg
        (address + BitVec.ofNat 32 (addressStep ea.reg input.operandSize)))
  | .predecrement =>
    let moved := regs.readAddressRegister ea.reg -
      BitVec.ofNat 32 (addressStep ea.reg input.operandSize)
    (.ofMemory moved, regs.writeAddressRegister ea.reg moved)
  | .displacement => (.ofMemory (regs.readAddressRegister ea.reg + input.displacement), regs)
  | .pcDisplacement => (.ofMemory (input.extensionAddress + input.displacement), regs)
  | .absoluteShort | .absoluteLong => (.ofMemory input.displacement, regs)
  | .immediate => ({ valid := true, immediate := true }, regs)
  | .indexed => (indexedAddress regs (regs.readAddressRegister ea.reg) input, regs)
  | .pcIndexed => (indexedAddress regs input.extensionAddress input, regs)
  | .invalid => ({ valid := false }, regs)

end Apollo.M68030
