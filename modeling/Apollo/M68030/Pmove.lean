import Apollo.M68030.ResolveAddress
import Apollo.M68030.TakeException
import Apollo.M68030.Translate
import Apollo.M68030.OperandMemory
import Apollo.M68030.StackAccess

/-!
# Moves to and from the registers of the MMU

`execute_pmove` of `src/core/cpu/m68030/ap_m68030_step.c`, with what takes a register apart and puts it
together again: `ap_m68030_tc_decode` and `ap_m68030_tc_encode`, `ap_m68030_tt_unpack` and
`ap_m68030_tt_pack`, `pmove_root_from` and `ap_m68030_root_pack_upper`, and the defined bits of
`ap_m68030_mmusr.h`.

The accesses of the processor go through these registers, so what it is connected to is a function of
them. Clocks, and the reports of a move to an observer, are left out.
-/

namespace Apollo.M68030

open Apollo.Lib

/-! ## The translation control register -/

/-- `field` of `ap_m68030_tc.c`. -/
def tcField (value : BitVec 32) (shift : Nat) : BitVec 8 := (value >>> shift).setWidth 8 &&& 0x0F

/-- `ap_m68030_tc_decode`. -/
def tcDecode (value : BitVec 32) : Tc where
  enable := value &&& 0x80000000 ≠ 0
  supervisorRoot := value &&& 0x02000000 ≠ 0
  functionCodeLookup := value &&& 0x01000000 ≠ 0
  pageSizeBits := tcField value 20
  initialShift := tcField value 16
  tableIndex := #v[tcField value 12, tcField value 8, tcField value 4, tcField value 0]

/-- A bit of a register that is there if a flag is set. -/
def flagBit {w : Nat} (flag : Bool) (position : Nat) : BitVec w := if flag then 1#w <<< position else 0

/-- `ap_m68030_tc_encode`; the first of the tables has the highest of the four fields. -/
def tcEncode (tc : Tc) : BitVec 32 :=
  flagBit tc.enable 31 ||| flagBit tc.supervisorRoot 25 ||| flagBit tc.functionCodeLookup 24 |||
    ((tc.pageSizeBits.setWidth 32 &&& 0xF) <<< 20) |||
    ((tc.initialShift.setWidth 32 &&& 0xF) <<< 16) |||
    (((tc.tableIndex.get 0).setWidth 32 &&& 0xF) <<< 12) |||
    (((tc.tableIndex.get 1).setWidth 32 &&& 0xF) <<< 8) |||
    (((tc.tableIndex.get 2).setWidth 32 &&& 0xF) <<< 4) |||
    ((tc.tableIndex.get 3).setWidth 32 &&& 0xF)

/-! ## The transparent translation registers -/

/-- `ap_m68030_tt_unpack`. -/
def ttUnpack (word : BitVec 32) : Tt where
  logicalBase := (word >>> 24).setWidth 8
  logicalMask := (word >>> 16).setWidth 8
  fcBase := (word >>> 4).setWidth 8 &&& 7
  fcMask := word.setWidth 8 &&& 7
  enabled := word.getLsbD 15
  cacheInhibit := word.getLsbD 10
  readTransparent := word.getLsbD 9
  ignoreReadWrite := word.getLsbD 8

/-- `ap_m68030_tt_pack`. -/
def ttPack (tt : Tt) : BitVec 32 :=
  (tt.logicalBase.setWidth 32 <<< 24) ||| (tt.logicalMask.setWidth 32 <<< 16) |||
    flagBit tt.enabled 15 ||| flagBit tt.cacheInhibit 10 ||| flagBit tt.readTransparent 9 |||
    flagBit tt.ignoreReadWrite 8 ||| ((tt.fcBase &&& 7).setWidth 32 <<< 4) |||
    (tt.fcMask &&& 7).setWidth 32

/-! ## The root pointers -/

/-- A root pointer with the descriptor type as it was written. -/
structure HeldRoot extends RootPointer where
  dt : Dt

/-- The code of a descriptor type. -/
def Dt.code : Dt → BitVec 32
  | .invalid => 0
  | .page => 1
  | .valid4Byte => 2
  | .valid8Byte => 3

/-- `pmove_root_from`, and whether the type is invalid. -/
def pmoveRootFrom (upper lower : BitVec 32) : HeldRoot × Bool :=
  let dt := (unpackLong upper lower false).dt
  ({ RootPointer.ofWords upper lower with dt }, dt = .invalid)

/-- `ap_m68030_root_pack_upper`. -/
def rootPackUpper (root : HeldRoot) : BitVec 32 :=
  root.dt.code |||
    if root.hasLimit then
      ((root.limit.setWidth 32 &&& 0x7FFF) <<< 16) ||| flagBit root.lowerLimit 31
    else 0

/-! ## The registers -/

/-- `ap_m68030_mmu_register_t`; none is `none`. -/
inductive MmuRegister
  | tc
  | tt0
  | tt1
  | mmusr
  | srp
  | crp
deriving DecidableEq, Repr

/-- `pmove_register`. -/
def pmoveRegister (extension : BitVec 16) : Option MmuRegister :=
  match field3 extension 13, field3 extension 10 with
  | 2, 0 => some .tc
  | 2, 2 => some .srp
  | 2, 3 => some .crp
  | 3, 0 => some .mmusr
  | 0, 2 => some .tt0
  | 0, 3 => some .tt1
  | _, _ => none

/-- `pmove_size`. -/
def pmoveSize : MmuRegister → Nat
  | .srp | .crp => 8
  | .tc | .tt0 | .tt1 => 4
  | .mmusr => 2

/-- The registers of the MMU as `ap_m68030_cpu_t` holds them. -/
structure HeldRegisters where
  tc : Tc
  crp : HeldRoot
  srp : HeldRoot
  tt0 : Tt
  tt1 : Tt
  mmusr : BitVec 16

namespace HeldRegisters

/-- What a register gives to a move out of it: the upper long word, and the lower or only one. -/
def image (held : HeldRegisters) : MmuRegister → BitVec 32 × BitVec 32
  | .tc => (0, tcEncode held.tc)
  | .tt0 => (0, ttPack held.tt0)
  | .tt1 => (0, ttPack held.tt1)
  | .mmusr => (0, held.mmusr.setWidth 32)
  | .srp => (rootPackUpper held.srp, held.srp.tableAddress)
  | .crp => (rootPackUpper held.crp, held.crp.tableAddress)

/-- What a move into a register leaves, and whether it is an MMU configuration exception. -/
def load (held : HeldRegisters) (which : MmuRegister) (high low : BitVec 32) : HeldRegisters × Bool :=
  match which with
  | .tc =>
    let tc := tcDecode low
    if tc.enable && !tc.isConsistent then ({ held with tc := { tc with enable := false } }, true)
    else ({ held with tc }, false)
  | .tt0 => ({ held with tt0 := ttUnpack low }, false)
  | .tt1 => ({ held with tt1 := ttUnpack low }, false)
  | .mmusr => ({ held with mmusr := low.setWidth 16 }, false)
  | .srp => ({ held with srp := (pmoveRootFrom high low).1 }, (pmoveRootFrom high low).2)
  | .crp => ({ held with crp := (pmoveRootFrom high low).1 }, (pmoveRootFrom high low).2)

end HeldRegisters

/-! ## The instruction -/

/-- The core with the registers of its MMU. -/
structure MmuCpu (σ : Type) where
  cpu : Cpu σ
  held : HeldRegisters

/-- What the core is connected to, by the registers that its accesses are translated with, and the
flush of the address translation cache that is behind them. -/
structure MmuPorts (σ : Type) where
  access : HeldRegisters → Ports σ
  flush : σ → σ

/-- `AP_M68030_VECTOR_LINE_F`. -/
def vectorLineF : Nat := 11

section Execute

variable {σ α : Type} (ports : MmuPorts σ)

/-- A computation of the core, with the registers as they are. -/
def onCpu (x : Ports σ → Exec σ α) : Attempt (MmuCpu σ) α := fun s =>
  match x (ports.access s.held) s.cpu with
  | .ok a cpu => .ok a { s with cpu }
  | .error e cpu => .error e { s with cpu }

/-- A pattern that is not an instruction of this part. -/
def lineF (allowed : Bool) : Exec σ Unit :=
  if allowed then pure ()
  else do
    modify fun cpu => { cpu with refusedVector := vectorLineF }
    Attempt.fail

/-- Where the operand is. -/
def pmoveAddress (ports : Ports σ) (ea : Ea) (size : Nat) : Exec σ Address := do
  let input ← gatherAddressInput ports ea.kind size
  lineF ea.kind.isControlAlterable
  let target ← resolveAddress ports ea input
  Attempt.require target.valid
  pure target

/-- The operand that goes into a register. Both halves of a long one are read, whatever becomes of the
first. -/
def pmoveRead (ports : Ports σ) (target : Address) (size : Nat) : Exec σ (BitVec 32 × BitVec 32) :=
  if size = 8 then do
    let a ← (stepOperandRead ports (.ofMemory target.address) 4 fcSupervisorData).caught
    let b ← (stepOperandRead ports (.ofMemory (target.address + 4)) 4 fcSupervisorData).caught
    match a, b with
    | some high, some low => pure (high, low)
    | _, _ => Attempt.fail
  else do
    let low ← stepOperandRead ports target size fcSupervisorData
    pure (0, low)

/-- The operand that came out of a register. -/
def pmoveWrite (ports : Ports σ) (target : Address) (size : Nat) (image : BitVec 32 × BitVec 32) :
    Exec σ Unit :=
  if size = 8 then do
    writeFrameField ports target.address 4 image.1
    writeFrameField ports (target.address + 4) 4 image.2
  else writeFrameField ports target.address size image.2

/-- A register is loaded, with the exception after it. -/
def pmoveLoad (which : MmuRegister) (operand : BitVec 32 × BitVec 32) (s : MmuCpu σ) : MmuCpu σ :=
  let loaded := s.held.load which operand.1 operand.2
  { held := loaded.1
    cpu := if loaded.2 then { s.cpu with pendingVector := vectorMmuConfiguration } else s.cpu }

/-- The address translation cache is flushed. -/
def flushAtc (s : MmuCpu σ) : MmuCpu σ :=
  { s with cpu := { s.cpu with memory := ports.flush s.cpu.memory } }

/-- `execute_pmove`. -/
def executePmove (ea : Ea) (extension : BitVec 16) : Attempt (MmuCpu σ) Unit :=
  match pmoveRegister extension with
  | none => onCpu ports fun _ => lineF false
  | some which => do
    onCpu ports fun _ => lineF (extension &&& 0x00FF = 0)
    let toMemory := extension.getLsbD 9
    let flushDisabled := extension.getLsbD 8
    let size := pmoveSize which
    let target ← onCpu ports fun ports => pmoveAddress ports ea size
    if toMemory then do
      let image ← Attempt.read fun s => s.held.image which
      onCpu ports fun ports => pmoveWrite ports target size image
    else do
      let operand ← onCpu ports fun ports => pmoveRead ports target size
      modify (pmoveLoad which operand)
      Attempt.onlyIf (flushDisabled = false ∧ which ≠ .mmusr) (modify (flushAtc ports))

end Execute

/-!
## A register of the MMU, loaded and read back

A register of the MMU is held taken apart. `image_load` is what comes of a value that was moved into one:
its defined bits, with the enable bit of an inconsistent translation control cleared - except that a root
pointer of an invalid type has lost its limit, and that the status register keeps bits it has not got
(`Kept`). `pmove_roundTrip` is the same of the two instructions, whatever came between them.
-/

/-! ## Fields of a word -/

section Fields

variable (value : BitVec 32)

theorem field_back (mask : BitVec 8) (shift : ℕ) :
    ((value >>> shift).setWidth 8 &&& mask).setWidth 32 <<< shift =
      value &&& (mask.setWidth 32 <<< shift) := by
  refine BitVec.eq_of_getLsbD_eq fun i hi => ?_
  rw [BitVec.getLsbD_and, BitVec.getLsbD_shiftLeft, BitVec.getLsbD_shiftLeft, BitVec.getLsbD_setWidth,
    BitVec.getLsbD_and, BitVec.getLsbD_setWidth, BitVec.getLsbD_ushiftRight, BitVec.getLsbD_setWidth,
    decide_eq_true hi, decide_eq_true (by omega : i - shift < 32)]
  by_cases hlow : i < shift
  · rw [decide_eq_true hlow]
    simp
  · rw [decide_eq_false hlow, Nat.add_sub_cancel' (by omega)]
    by_cases hbyte : i - shift < 8
    · rw [decide_eq_true hbyte]
      simp
    · rw [BitVec.getLsbD_of_ge mask _ (by omega)]
      simp

theorem flagBit_getLsbD (position : ℕ) :
    flagBit (value.getLsbD position) position = value &&& (1#32 <<< position) := by
  rw [← BitVec.twoPow_eq, BitVec.and_twoPow]
  rfl

theorem and_ne_zero (position : ℕ) (hposition : position < 32) :
    decide (value &&& (1#32 <<< position) ≠ 0) = value.getLsbD position := by
  rw [← BitVec.twoPow_eq, BitVec.and_twoPow]
  cases value.getLsbD position
  · simp
  · have hne : BitVec.twoPow 32 position ≠ 0 := by
      intro hzero
      have := congrArg (BitVec.getLsbD · position) hzero
      simp [hposition] at this
    simpa using hne

theorem tcField_back (shift : ℕ) :
    ((tcField value shift).setWidth 32 &&& 0xF) <<< shift = value &&& (0xF#32 <<< shift) := by
  have hsame : (tcField value shift).setWidth 32 &&& 0xF = (tcField value shift).setWidth 32 := by
    unfold tcField
    rw [BitVec.setWidth_and, BitVec.and_assoc]
    rfl
  rw [hsame, tcField, field_back]
  rfl

end Fields

/-! ## The defined bits -/

/-- The defined bits of a register, in its two long words. -/
def MmuRegister.defined : MmuRegister → BitVec 32 × BitVec 32
  | .tc => (0, 0x83FFFFFF)
  | .tt0 | .tt1 => (0, 0xFFFF8777)
  | .mmusr => (0, 0xEE47)
  | .srp | .crp => (0xFFFF0003, 0xFFFFFFF0)

/-- A value that raises an MMU configuration exception. -/
def Raises (which : MmuRegister) (operand : BitVec 32 × BitVec 32) : Prop :=
  match which with
  | .tc => (tcDecode operand.2).enable = true ∧ (tcDecode operand.2).isConsistent = false
  | .srp | .crp => dtOf operand.1 = .invalid
  | _ => False

instance (which : MmuRegister) (operand : BitVec 32 × BitVec 32) : Decidable (Raises which operand) := by
  cases which <;> unfold Raises <;> infer_instance

/-- What a value is in a register: its defined bits, and a translation control that is refused is not
enabled. -/
def asLoaded (which : MmuRegister) (operand : BitVec 32 × BitVec 32) : BitVec 32 × BitVec 32 :=
  let defined := (operand.1 &&& which.defined.1, operand.2 &&& which.defined.2)
  if which = .tc ∧ Raises which operand then (defined.1, defined.2 &&& 0x7FFFFFFF) else defined

/-- The values that a register keeps: a root pointer of an invalid type has no limit, and the status
register has its defined bits alone. -/
def Kept (which : MmuRegister) (operand : BitVec 32 × BitVec 32) : Prop :=
  match which with
  | .srp | .crp => dtOf operand.1 = .invalid → operand.1 &&& 0xFFFF0000 = 0
  | .mmusr => operand.2 &&& 0x11B8 = 0
  | _ => True

/-! ## Taken apart and put together -/

theorem flagBit_and (value mask : BitVec 32) (position : ℕ) (hposition : position < 32)
    (hmask : mask = 1#32 <<< position) :
    flagBit (decide (value &&& mask ≠ 0)) position = value &&& mask := by
  rw [hmask, and_ne_zero value position hposition, flagBit_getLsbD]

theorem tcEncode_decode_with (value : BitVec 32) (enable : Bool) :
    tcEncode { tcDecode value with enable } = flagBit enable 31 ||| (value &&& 0x03FFFFFF) := by
  have hlast : (tcField value 0).setWidth 32 &&& 0xF = value &&& 0xF := by
    have hfield := tcField_back value 0
    rwa [BitVec.shiftLeft_zero, BitVec.shiftLeft_zero] at hfield
  change flagBit enable 31 ||| flagBit (decide (value &&& 0x02000000 ≠ 0)) 25 |||
      flagBit (decide (value &&& 0x01000000 ≠ 0)) 24 ||| ((tcField value 20).setWidth 32 &&& 0xF) <<< 20 |||
      ((tcField value 16).setWidth 32 &&& 0xF) <<< 16 ||| ((tcField value 12).setWidth 32 &&& 0xF) <<< 12 |||
      ((tcField value 8).setWidth 32 &&& 0xF) <<< 8 ||| ((tcField value 4).setWidth 32 &&& 0xF) <<< 4 |||
      ((tcField value 0).setWidth 32 &&& 0xF) = _
  rw [flagBit_and value 0x02000000 25 (by decide) rfl, flagBit_and value 0x01000000 24 (by decide) rfl,
    tcField_back, tcField_back, tcField_back, tcField_back, tcField_back, hlast]
  simp only [BitVec.or_assoc, ← BitVec.and_or_distrib_left]
  rfl

theorem tcEncode_decode (value : BitVec 32) : tcEncode (tcDecode value) = value &&& 0x83FFFFFF := by
  refine (tcEncode_decode_with value (decide (value &&& 0x80000000 ≠ 0))).trans ?_
  rw [flagBit_and value 0x80000000 31 (by decide) rfl, ← BitVec.and_or_distrib_left]
  rfl

theorem ttPack_unpack (value : BitVec 32) : ttPack (ttUnpack value) = value &&& 0xFFFF8777 := by
  have hbyte (shift : ℕ) : ((value >>> shift).setWidth 8).setWidth 32 <<< shift =
      value &&& (0xFF#32 <<< shift) := by
    have hfield := field_back value 0xFF shift
    rwa [show (0xFF : BitVec 8) = BitVec.allOnes 8 from rfl, BitVec.and_allOnes] at hfield
  have hbits (field : BitVec 8) : field &&& 7 &&& 7 = field &&& 7 := by
    rw [BitVec.and_assoc]
    rfl
  have hlast : (value.setWidth 8 &&& 7).setWidth 32 = value &&& 7 := by
    have hfield := field_back value 7 0
    rwa [BitVec.ushiftRight_zero, BitVec.shiftLeft_zero, BitVec.shiftLeft_zero] at hfield
  unfold ttPack ttUnpack
  rw [hbyte, hbyte, flagBit_getLsbD, flagBit_getLsbD, flagBit_getLsbD, flagBit_getLsbD, hbits, hbits,
    field_back, hlast]
  simp only [← BitVec.and_or_distrib_left]
  rfl

theorem code_dtOf (word : BitVec 32) : (dtOf word).code = word &&& 3 := by
  have hbits : word &&& 3 = flagBit (word.getLsbD 1) 1 ||| flagBit (word.getLsbD 0) 0 := by
    rw [flagBit_getLsbD, flagBit_getLsbD, ← BitVec.and_or_distrib_left]
    rfl
  rw [hbits]
  unfold dtOf
  cases word.getLsbD 1 <;> cases word.getLsbD 0 <;> rfl

theorem unpackLong_dt (upper lower : BitVec 32) : (unpackLong upper lower false).dt = dtOf upper := by
  unfold unpackLong
  cases dtOf upper <;> rfl

theorem unpackLong_limitFields {upper : BitVec 32} (lower : BitVec 32) (h : dtOf upper ≠ .invalid) :
    (unpackLong upper lower false).hasLimit = true ∧
      (unpackLong upper lower false).limit = (upper >>> 16).setWidth 16 &&& 0x7FFF ∧
      (unpackLong upper lower false).lowerLimit = upper.getLsbD 31 := by
  unfold unpackLong
  cases hdt : dtOf upper
  · exact absurd hdt h
  · exact ⟨rfl, rfl, rfl⟩
  · exact ⟨rfl, rfl, rfl⟩
  · exact ⟨rfl, rfl, rfl⟩

theorem limit_back (value : BitVec 32) :
    (((value >>> 16).setWidth 16 &&& 0x7FFF).setWidth 32 &&& 0x7FFF) <<< 16 = value &&& 0x7FFF0000 := by
  have hmask : ∀ i < 32, (0x7FFF0000 : BitVec 32).getLsbD i = decide (16 ≤ i ∧ i < 31) := by decide
  have hfield : ∀ i < 32, (0x7FFF : BitVec 32).getLsbD i = decide (i < 15) := by decide
  have hhalf : ∀ i < 16, (0x7FFF : BitVec 16).getLsbD i = decide (i < 15) := by decide
  refine BitVec.eq_of_getLsbD_eq fun i hi => ?_
  rw [BitVec.getLsbD_and, hmask i hi, BitVec.getLsbD_shiftLeft, decide_eq_true hi]
  by_cases hlow : i < 16
  · rw [decide_eq_true hlow, decide_eq_false (by omega : ¬ (16 ≤ i ∧ i < 31))]
    simp
  · rw [decide_eq_false hlow, BitVec.getLsbD_and, hfield _ (by omega), BitVec.getLsbD_setWidth,
      BitVec.getLsbD_and, hhalf _ (by omega), BitVec.getLsbD_setWidth, BitVec.getLsbD_ushiftRight,
      Nat.add_sub_cancel' (by omega), decide_eq_true (by omega : i - 16 < 32),
      decide_eq_true (by omega : i - 16 < 16)]
    by_cases htop : i < 31
    · rw [decide_eq_true (by omega : i - 16 < 15), decide_eq_true (by omega : 16 ≤ i ∧ i < 31)]
      simp
    · rw [decide_eq_false (by omega : ¬ i - 16 < 15), decide_eq_false (by omega : ¬ (16 ≤ i ∧ i < 31))]
      simp

/-- WHAT A ROOT POINTER GIVES BACK of its upper long word: the type alone, where that is invalid. -/
theorem rootPackUpper_rootFrom (upper lower : BitVec 32) :
    rootPackUpper (pmoveRootFrom upper lower).1 =
      if dtOf upper = .invalid then 0 else upper &&& 0xFFFF0003 := by
  change (unpackLong upper lower false).dt.code |||
    (if (unpackLong upper lower false).hasLimit = true then
      (((unpackLong upper lower false).limit.setWidth 32 &&& 0x7FFF) <<< 16) |||
        flagBit (unpackLong upper lower false).lowerLimit 31
    else 0) = _
  rw [unpackLong_dt]
  by_cases hdt : dtOf upper = .invalid
  · have hlimit : (unpackLong upper lower false).hasLimit = false := by
      unfold unpackLong
      rw [hdt]
      rfl
    rw [if_pos hdt, hdt, hlimit, if_neg Bool.false_ne_true]
    rfl
  · obtain ⟨hhas, hlimit, hlower⟩ := unpackLong_limitFields lower hdt
    rw [if_neg hdt, hhas, hlimit, hlower, if_pos rfl, code_dtOf, limit_back, flagBit_getLsbD]
    simp only [← BitVec.and_or_distrib_left]
    rfl

namespace HeldRegisters

variable (held : HeldRegisters) (which : MmuRegister) (operand : BitVec 32 × BitVec 32)

theorem load_raises : (held.load which operand.1 operand.2).2 = decide (Raises which operand) := by
  have hroot : (pmoveRootFrom operand.1 operand.2).2 = decide (dtOf operand.1 = .invalid) := by
    change decide ((unpackLong operand.1 operand.2 false).dt = .invalid) = _
    rw [unpackLong_dt]
  cases which with
  | tc =>
    by_cases hrefused : Raises .tc operand
    · have hif : ((tcDecode operand.2).enable && !(tcDecode operand.2).isConsistent) = true := by
        rw [hrefused.1, hrefused.2]
        rfl
      rw [decide_eq_true hrefused]
      unfold load
      dsimp only
      rw [if_pos hif]
    · have hif : ¬ ((tcDecode operand.2).enable && !(tcDecode operand.2).isConsistent) = true := by
        intro hboth
        rw [Bool.and_eq_true, Bool.not_eq_true'] at hboth
        exact hrefused hboth
      rw [decide_eq_false hrefused]
      unfold load
      dsimp only
      rw [if_neg hif]
  | srp => exact hroot
  | crp => exact hroot
  | tt0 => rfl
  | tt1 => rfl
  | mmusr => rfl

theorem image_load_tc : (held.load .tc operand.1 operand.2).1.image .tc =
    (0, if Raises .tc operand then operand.2 &&& 0x03FFFFFF else operand.2 &&& 0x83FFFFFF) := by
  have hraises := held.load_raises .tc operand
  unfold load at hraises ⊢
  dsimp only at hraises ⊢
  split at hraises
  · next hrefused =>
    rw [if_pos hrefused, if_pos (of_decide_eq_true hraises.symm)]
    exact congrArg (Prod.mk 0) ((tcEncode_decode_with operand.2 false).trans BitVec.zero_or)
  · next hrefused =>
    rw [if_neg hrefused, if_neg (of_decide_eq_false hraises.symm)]
    exact congrArg (Prod.mk 0) (tcEncode_decode operand.2)

theorem image_root (upper lower : BitVec 32) :
    (rootPackUpper (pmoveRootFrom upper lower).1, (pmoveRootFrom upper lower).1.tableAddress) =
        (upper &&& 0xFFFF0003, lower &&& 0xFFFFFFF0) ↔
      (dtOf upper = .invalid → upper &&& 0xFFFF0000 = 0) := by
  have hsplit : upper &&& 0xFFFF0003 = (upper &&& 0xFFFF0000) ||| (dtOf upper).code := by
    rw [code_dtOf, ← BitVec.and_or_distrib_left]
    rfl
  rw [rootPackUpper_rootFrom, Prod.mk.injEq]
  by_cases hdt : dtOf upper = .invalid
  · have hcode : (dtOf upper).code = 0 := by rw [hdt]; rfl
    rw [if_pos hdt, hsplit, hcode, BitVec.ofNat_eq_ofNat, BitVec.or_zero]
    exact ⟨fun h _ => h.1.symm, fun h => ⟨(h hdt).symm, rfl⟩⟩
  · rw [if_neg hdt]
    exact ⟨fun _ h => absurd h hdt, fun _ => ⟨rfl, rfl⟩⟩

theorem image_mmusr (low : BitVec 32) :
    (low.setWidth 16).setWidth 32 = low &&& 0xEE47 ↔ low &&& 0x11B8 = 0 := by
  have hword : (low.setWidth 16).setWidth 32 = low &&& 0xFFFF := by
    have hbit : ∀ i < 32, (0xFFFF : BitVec 32).getLsbD i = decide (i < 16) := by decide
    refine BitVec.eq_of_getLsbD_eq fun i hi => ?_
    rw [BitVec.getLsbD_setWidth, BitVec.getLsbD_setWidth, BitVec.getLsbD_and, hbit i hi,
      decide_eq_true hi, Bool.true_and, Bool.and_comm]
  rw [hword]
  constructor
  · intro h
    calc low &&& 0x11B8 = (low &&& 0xFFFF) &&& 0x11B8 := by rw [BitVec.and_assoc]; rfl
      _ = (low &&& 0xEE47) &&& 0x11B8 := by rw [h]
      _ = 0 := by
        rw [BitVec.and_assoc]
        exact BitVec.and_zero
  · intro h
    calc low &&& 0xFFFF = (low &&& 0xEE47) ||| (low &&& 0x11B8) := by
          rw [← BitVec.and_or_distrib_left]
          rfl
      _ = low &&& 0xEE47 := by
        rw [h]
        exact BitVec.or_zero

/-- A VALUE THAT WAS LOADED is its defined bits, exactly where it is one that the register keeps. -/
theorem image_load :
    (held.load which operand.1 operand.2).1.image which = asLoaded which operand ↔
      Kept which operand := by
  have hnone : operand.1 &&& 0 = 0 := BitVec.and_zero
  have htransparent : (0, ttPack (ttUnpack operand.2)) =
      (operand.1 &&& 0, operand.2 &&& 0xFFFF8777) := by
    rw [ttPack_unpack, hnone]
  cases which with
  | tc =>
    refine iff_of_true ?_ trivial
    rw [image_load_tc]
    by_cases hraises : Raises .tc operand
    · rw [if_pos hraises, asLoaded, if_pos ⟨rfl, hraises⟩, MmuRegister.defined, BitVec.and_assoc, hnone]
      rfl
    · rw [if_neg hraises, asLoaded, if_neg fun h => hraises h.2, MmuRegister.defined, hnone]
  | srp => exact image_root operand.1 operand.2
  | crp => exact image_root operand.1 operand.2
  | tt0 => exact iff_of_true htransparent trivial
  | tt1 => exact iff_of_true htransparent trivial
  | mmusr =>
    have himage := image_mmusr operand.2
    change (0, (operand.2.setWidth 16).setWidth 32) = (operand.1 &&& 0, operand.2 &&& 0xEE47) ↔ _
    rw [hnone, Prod.mk.injEq]
    exact ⟨fun h => himage.mp h.2, fun h => ⟨rfl, himage.mpr h⟩⟩

theorem image_load_of_ne {other : MmuRegister} (h : other ≠ which) :
    (held.load which operand.1 operand.2).1.image other = held.image other := by
  cases which with
  | tc =>
    unfold load
    dsimp only
    split <;> cases other <;> first | exact absurd rfl h | rfl
  | srp => cases other <;> first | exact absurd rfl h | rfl
  | crp => cases other <;> first | exact absurd rfl h | rfl
  | tt0 => cases other <;> first | exact absurd rfl h | rfl
  | tt1 => cases other <;> first | exact absurd rfl h | rfl
  | mmusr => cases other <;> first | exact absurd rfl h | rfl

end HeldRegisters

/-! ## The two moves -/

/-- The operand of a move, in memory. -/
def operandAt (m : ByteMemory 32) (address : BitVec 32) (which : MmuRegister) : BitVec 32 × BitVec 32 :=
  if pmoveSize which = 8 then (m.loadAt address 4, m.loadAt (address + 4) 4)
  else (0, m.loadAt address (pmoveSize which))

section Moves

variable {σ : Type}

/-- A move of a register that is carried out. `before` is the core when it knows where the operand is. -/
structure Moves (ports : MmuPorts σ) (which : MmuRegister) (toMemory : Bool) (ea : Ea)
    (extension : BitVec 16) (place : Address) (s : MmuCpu σ) (before : Cpu σ) (s' : MmuCpu σ) : Prop where
  register : pmoveRegister extension = some which
  direction : extension.getLsbD 9 = toMemory
  resolves : pmoveAddress (ports.access s.held) ea (pmoveSize which) s.cpu = .ok place before
  run : executePmove ports ea extension s = .ok () s'

theorem onCpu_eq_ok {α : Type} {ports : MmuPorts σ} {x : Ports σ → Exec σ α} {s s' : MmuCpu σ} {a : α} :
    onCpu ports x s = .ok a s' ↔
      ∃ cpu, x (ports.access s.held) s.cpu = .ok a cpu ∧ s' = { s with cpu } := by
  unfold onCpu
  cases hx : x (ports.access s.held) s.cpu with
  | ok b cpu =>
    constructor
    · intro h
      cases h
      exact ⟨cpu, rfl, rfl⟩
    · rintro ⟨cpu', h, rfl⟩
      cases h
      rfl
  | error e cpu => exact ⟨(fun h => nomatch h), fun ⟨_, h, _⟩ => nomatch h⟩

theorem lineF_eq_ok {allowed : Bool} {cpu cpu' : Cpu σ} (h : lineF allowed cpu = .ok () cpu') :
    cpu' = cpu := by
  unfold lineF at h
  split at h
  · cases h
    rfl
  · rw [Attempt.modify_bind] at h
    exact nomatch h

/-- A place that is in memory and known. -/
structure PlacedInMemory (place : Address) : Prop where
  valid : place.valid = true
  register : place.inRegister = false
  immediate : place.immediate = false
  known : place.indirectionPending = false

theorem addressCalculate_control (regs : Regs) {ea : Ea} (input : AddressInput)
    (hkind : ea.kind.isControlAlterable = true) :
    (addressCalculate regs ea input).1.inRegister = false ∧
      (addressCalculate regs ea input).1.immediate = false := by
  obtain ⟨kind, reg⟩ := ea
  have hindexed (base : BitVec 32) : (indexedAddress regs base input).inRegister = false ∧
      (indexedAddress regs base input).immediate = false := by
    unfold indexedAddress
    dsimp only
    split <;> exact ⟨rfl, rfl⟩
  cases kind with
  | addressIndirect => exact ⟨rfl, rfl⟩
  | displacement => exact ⟨rfl, rfl⟩
  | absoluteShort => exact ⟨rfl, rfl⟩
  | absoluteLong => exact ⟨rfl, rfl⟩
  | indexed => exact hindexed _
  | dataRegister => exact nomatch hkind
  | addressRegister => exact nomatch hkind
  | postincrement => exact nomatch hkind
  | predecrement => exact nomatch hkind
  | pcDisplacement => exact nomatch hkind
  | pcIndexed => exact nomatch hkind
  | immediate => exact nomatch hkind
  | invalid => exact nomatch hkind

theorem pmoveAddress_ok {ports : Ports σ} {ea : Ea} {size : ℕ} {place : Address} {cpu before : Cpu σ}
    (h : pmoveAddress ports ea size cpu = .ok place before) : PlacedInMemory place := by
  unfold pmoveAddress at h
  obtain ⟨input, cpu₁, -, h⟩ := Attempt.bind_eq_ok.mp h
  obtain ⟨_, cpu₂, hallowed, h⟩ := Attempt.bind_eq_ok.mp h
  obtain ⟨target, cpu₃, hresolve, h⟩ := Attempt.bind_eq_ok.mp h
  obtain ⟨_, cpu₄, hrequire, h⟩ := Attempt.bind_eq_ok.mp h
  obtain ⟨hvalid, -⟩ := Attempt.require_eq_ok.mp hrequire
  cases h
  have hkind : ea.kind.isControlAlterable = true := by
    by_contra hnot
    rw [Bool.not_eq_true] at hnot
    rw [hnot, lineF, if_neg Bool.false_ne_true] at hallowed
    exact nomatch hallowed
  unfold resolveAddress at hresolve
  obtain ⟨first, cpu₅, hfirst, hresolve⟩ := Attempt.bind_eq_ok.mp hresolve
  obtain ⟨hregister, himmediate⟩ := addressCalculate_control cpu₂.regs input hkind
  cases hfirst
  split at hresolve
  · next hdone =>
    cases hresolve
    rw [hvalid] at hdone
    exact ⟨hvalid, hregister, himmediate, by simpa using hdone⟩
  · obtain ⟨answer, cpu₆, -, hresolve⟩ := Attempt.bind_eq_ok.mp hresolve
    cases answer with
    | none =>
      cases hresolve
      exact nomatch hvalid
    | some value =>
      cases hresolve
      exact ⟨hvalid, hregister, himmediate, rfl⟩

theorem PlacedInMemory.stepOperandRead {place : Address} (h : PlacedInMemory place) (ports : Ports σ) (size : ℕ)
    (functionCode : BitVec 8) :
    stepOperandRead ports place size functionCode =
      M68030.stepOperandRead ports (.ofMemory place.address) size functionCode := by
  funext cpu
  have hread : operandRead ports (cpu.accessMode functionCode) cpu.regs place size cpu.memory =
      operandRead ports (cpu.accessMode functionCode) cpu.regs (.ofMemory place.address) size
        cpu.memory := by
    unfold operandRead
    rw [h.valid, h.register, h.immediate, h.known]
    rfl
  unfold M68030.stepOperandRead
  rw [hread]

variable {ports : MmuPorts σ} (view : ∀ held, MemoryPorts (ports.access held) fcSupervisorData)
  {which : MmuRegister} {ea : Ea} {extension : BitVec 16} {place : Address} {s s' : MmuCpu σ}
  {before : Cpu σ}

theorem pmoveRead_ok {held : HeldRegisters} {cpu cpu' : Cpu σ} {operand : BitVec 32 × BitVec 32}
    (hplace : PlacedInMemory place)
    (h : pmoveRead (ports.access held) place (pmoveSize which) cpu = .ok operand cpu') :
    operand = operandAt ((view held).memory cpu.memory) place.address which ∧
      ∃ memory, cpu' = { cpu with memory } := by
  unfold pmoveRead at h
  unfold operandAt
  split at h
  · next hsize =>
    obtain ⟨upper, cpu₁, hupper, h⟩ := Attempt.bind_eq_ok.mp h
    obtain ⟨lower, cpu₂, hlower, h⟩ := Attempt.bind_eq_ok.mp h
    obtain ⟨high, rfl, hhigh⟩ | ⟨rfl, -⟩ := Attempt.caught_eq_ok.mp hupper
    · obtain ⟨low, rfl, hlow⟩ | ⟨rfl, -⟩ := Attempt.caught_eq_ok.mp hlower
      · cases h
        obtain ⟨memory₁, rfl, hmemory₁, rfl⟩ := (view held).stepOperandRead_ok (by decide) hhigh
        obtain ⟨memory₂, rfl, hmemory₂, rfl⟩ := (view held).stepOperandRead_ok (by decide) hlow
        rw [if_pos hsize, hmemory₁]
        exact ⟨rfl, memory₂, rfl⟩
      · exact nomatch h
    · exact nomatch h
  · next hsize =>
    obtain ⟨low, cpu₁, hlow, h⟩ := Attempt.bind_eq_ok.mp h
    cases h
    rw [hplace.stepOperandRead] at hlow
    obtain ⟨memory, rfl, hmemory, rfl⟩ := (view held).stepOperandRead_ok
      (by cases which <;> first | decide | exact absurd rfl hsize) hlow
    rw [if_neg hsize]
    exact ⟨rfl, memory, rfl⟩

theorem pmoveWrite_ok {held : HeldRegisters} {cpu cpu' : Cpu σ} {image : BitVec 32 × BitVec 32}
    (hfits : pmoveSize which ≠ 8 → image.1 = 0 ∧ ByteMemory.Fits image.2 (pmoveSize which))
    (h : pmoveWrite (ports.access held) place (pmoveSize which) image cpu = .ok () cpu') :
    operandAt ((view held).memory cpu'.memory) place.address which = image := by
  unfold pmoveWrite at h
  unfold operandAt
  split at h
  · next hsize =>
    obtain ⟨_, cpu₁, hupper, hlower⟩ := Attempt.bind_eq_ok.mp h
    obtain ⟨memory₁, rfl, hmemory₁⟩ := (view held).writeFrameField_ok (by decide) hupper
    obtain ⟨memory₂, rfl, hmemory₂⟩ := (view held).writeFrameField_ok (by decide) hlower
    have hapart : ∀ i < 4, 4 ≤ (place.address + BitVec.ofNat 32 i - (place.address + 4)).toNat := by
      intro i hi
      rw [show (4 : BitVec 32) = BitVec.ofNat 32 4 from rfl, ByteMemory.toNat_sub_add _ _ (by omega),
        ByteMemory.toNat_add_ofNat_sub _ (by omega), if_neg (by omega)]
      omega
    rw [if_pos hsize, hmemory₂, ByteMemory.loadAt_storeAt_of_le hapart, hmemory₁,
      ByteMemory.loadAt_storeAt (by decide) (by decide) (fits_long _),
      ByteMemory.loadAt_storeAt (by decide) (by decide) (fits_long _)]
  · next hsize =>
    have hle : pmoveSize which ≤ 4 := by cases which <;> first | decide | exact absurd rfl hsize
    obtain ⟨memory, rfl, hmemory⟩ := (view held).writeFrameField_ok hle h
    obtain ⟨hzero, hfits⟩ := hfits hsize
    rw [if_neg hsize, hmemory, ByteMemory.loadAt_storeAt hle (by omega) hfits, ← hzero]

theorem HeldRegisters.image_fits (held : HeldRegisters) (which : MmuRegister) (h : pmoveSize which ≠ 8) :
    (held.image which).1 = 0 ∧ ByteMemory.Fits (held.image which).2 (pmoveSize which) := by
  cases which with
  | tc => exact ⟨rfl, fits_long _⟩
  | tt0 => exact ⟨rfl, fits_long _⟩
  | tt1 => exact ⟨rfl, fits_long _⟩
  | mmusr => exact ⟨rfl, fits_word _⟩
  | srp => exact absurd rfl h
  | crp => exact absurd rfl h

theorem Moves.carried {toMemory : Bool} (h : Moves ports which toMemory ea extension place s before s') :
    (if toMemory = true then do
      let image ← Attempt.read fun s => s.held.image which
      onCpu ports fun ports => pmoveWrite ports place (pmoveSize which) image
    else do
      let operand ← onCpu ports fun ports => pmoveRead ports place (pmoveSize which)
      modify (pmoveLoad which operand)
      Attempt.onlyIf (extension.getLsbD 8 = false ∧ which ≠ .mmusr) (modify (flushAtc ports)) :
      Attempt (MmuCpu σ) Unit) { s with cpu := before } = .ok () s' := by
  have hrun := h.run
  unfold executePmove at hrun
  rw [h.register] at hrun
  dsimp only at hrun
  obtain ⟨_, s₁, hfirst, hrun⟩ := Attempt.bind_eq_ok.mp hrun
  obtain ⟨cpu₁, hallowed, rfl⟩ := onCpu_eq_ok.mp hfirst
  obtain rfl := lineF_eq_ok hallowed
  obtain ⟨target, s₂, hsecond, hrun⟩ := Attempt.bind_eq_ok.mp hrun
  obtain ⟨cpu₂, htarget, rfl⟩ := onCpu_eq_ok.mp hsecond
  cases h.resolves.symm.trans htarget
  rw [h.direction] at hrun
  exact hrun

/-- THE MOVE INTO A REGISTER: the register is loaded, and the exception, if there is one, is after it. -/
theorem Moves.load (h : Moves ports which false ea extension place s before s') :
    let operand := operandAt ((view s.held).memory before.memory) place.address which
    s'.held = (s.held.load which operand.1 operand.2).1 ∧
      s'.cpu.pendingVector =
        if Raises which operand then vectorMmuConfiguration else before.pendingVector := by
  have hrun := h.carried
  rw [if_neg Bool.false_ne_true] at hrun
  obtain ⟨operand, s₃, hfirst, hrun⟩ := Attempt.bind_eq_ok.mp hrun
  obtain ⟨cpu₃, hread, rfl⟩ := onCpu_eq_ok.mp hfirst
  obtain ⟨rfl, memory, rfl⟩ := pmoveRead_ok view (pmoveAddress_ok h.resolves) hread
  dsimp only at hrun hread ⊢
  generalize operandAt ((view s.held).memory before.memory) place.address which = operand at hrun hread ⊢
  rw [Attempt.modify_bind] at hrun
  have hloaded : (pmoveLoad which operand { cpu := { before with memory }, held := s.held }).held =
        (s.held.load which operand.1 operand.2).1 ∧
      (pmoveLoad which operand { cpu := { before with memory }, held := s.held }).cpu.pendingVector =
        if Raises which operand then vectorMmuConfiguration else before.pendingVector := by
    refine ⟨rfl, ?_⟩
    unfold pmoveLoad
    dsimp only
    rw [s.held.load_raises which operand]
    by_cases hraises : Raises which operand
    · rw [if_pos hraises, if_pos (decide_eq_true hraises)]
    · rw [if_neg hraises, if_neg (by simpa using hraises)]
  unfold Attempt.onlyIf at hrun
  split at hrun
  · cases hrun
    exact hloaded
  · cases hrun
    exact hloaded

/-- THE MOVE OUT OF A REGISTER: what is in memory is what the register gives. -/
theorem Moves.store (h : Moves ports which true ea extension place s before s') :
    operandAt ((view s.held).memory s'.cpu.memory) place.address which = s.held.image which := by
  have hrun := h.carried
  rw [if_pos rfl, Attempt.read_bind] at hrun
  obtain ⟨cpu₃, hwrite, rfl⟩ := onCpu_eq_ok.mp hrun
  exact pmoveWrite_ok view (s.held.image_fits which) hwrite

end Moves

/-! ## On plain memory -/

/-- A processor on plain memory with a long word at 0 and one at 4, and an MMU that is not enabled. -/
def flatMmuCpu (high low : BitVec 32) : MmuCpu (ByteMemory 32) where
  cpu := { flatCpu .m68030 0x2700 0x8000 0x9000 with
    memory := (ByteMemory.storeAt (fun _ => 0) 0 4 high).storeAt 4 4 low }
  held :=
    { tc := tcDecode 0, crp := (pmoveRootFrom 0 0).1, srp := (pmoveRootFrom 0 0).1, tt0 := ttUnpack 0
      tt1 := ttUnpack 0, mmusr := 0 }

/-- Plain memory that refuses nothing, whatever the registers are. -/
def flatMmuPorts : MmuPorts (ByteMemory 32) where
  access _ := flatPorts fun _ => false
  flush m := m

/-- Plain memory is memory, whatever the registers are. -/
def flatMmuView (held : HeldRegisters) :
    MemoryPorts (flatMmuPorts.access held) fcSupervisorData := flatMemory _ _

theorem pmoveAddress_indirect {σ : Type} (ports : Ports σ) (size : ℕ) (cpu : Cpu σ) :
    pmoveAddress ports ⟨.addressIndirect, 0⟩ size cpu =
      .ok (.ofMemory (cpu.regs.readAddressRegister 0)) cpu := rfl

/-- Two moves that are carried out on plain memory, one into a register and one out of it. -/
structure FlatMoves (which : MmuRegister) (extension extensionBack : BitVec 16)
    (s s' t' : MmuCpu (ByteMemory 32)) : Prop where
  into : Moves flatMmuPorts which false ⟨.addressIndirect, 0⟩ extension
    (.ofMemory (s.cpu.regs.readAddressRegister 0)) s s.cpu s'
  out : Moves flatMmuPorts which true ⟨.addressIndirect, 0⟩ extensionBack
    (.ofMemory (s'.cpu.regs.readAddressRegister 0)) s' s'.cpu t'

theorem flat_moves (which : MmuRegister) (extension extensionBack : BitVec 16) (s : MmuCpu (ByteMemory 32))
    (hin : pmoveRegister extension = some which ∧ extension.getLsbD 9 = false)
    (hout : pmoveRegister extensionBack = some which ∧ extensionBack.getLsbD 9 = true)
    (hrun : (executePmove flatMmuPorts ⟨.addressIndirect, 0⟩ extension >>= fun _ =>
      executePmove flatMmuPorts ⟨.addressIndirect, 0⟩ extensionBack).runsTo s (fun _ => True) = true) :
    ∃ s' t', FlatMoves which extension extensionBack s s' t' := by
  obtain ⟨_, t', hboth, -⟩ := Attempt.exists_ok_of_runsTo hrun
  obtain ⟨_, s', hfirst, hsecond⟩ := Attempt.bind_eq_ok.mp hboth
  exact ⟨s', t', ⟨hin.1, hin.2, pmoveAddress_indirect .., hfirst⟩,
    ⟨hout.1, hout.2, pmoveAddress_indirect .., hsecond⟩⟩

/-- What the second of two moves leaves in memory. -/
def backAt (which : MmuRegister) (s' t' : MmuCpu (ByteMemory 32)) : BitVec 32 × BitVec 32 :=
  operandAt t'.cpu.memory (s'.cpu.regs.readAddressRegister 0) which

/-! ## There and back -/

section Moves

variable {σ : Type} {ports : MmuPorts σ}
  (view : ∀ held, MemoryPorts (ports.access held) fcSupervisorData)
  {which : MmuRegister} {ea : Ea} {extension : BitVec 16} {place : Address} {s s' : MmuCpu σ}
  {before : Cpu σ}

/-- WHAT A MOVE THERE AND BACK SHOULD BE, for the register, the operand that is moved into it, what the
move out of it then leaves in memory, and the core before and after the load. -/
structure RoundTrip (which : MmuRegister) (operand back : BitVec 32 × BitVec 32) (s : MmuCpu σ)
    (before : Cpu σ) (s' : MmuCpu σ) : Prop where
  /-- The value comes back with its undefined bits as zeros. -/
  back : back = asLoaded which operand
  /-- A value that is refused is loaded all the same, and the exception is pending. -/
  raised : s'.cpu.pendingVector =
    if Raises which operand then vectorMmuConfiguration else before.pendingVector
  /-- No other register is touched. -/
  others : ∀ other, other ≠ which → s'.held.image other = s.held.image other

/-- A MOVE THERE AND BACK IS WHAT IT SHOULD BE exactly for the values that the register keeps. Between
the two moves there can be anything that leaves the registers as they are. -/
theorem pmove_roundTrip {eaBack : Ea} {extensionBack : BitVec 16} {placeBack : Address}
    {t t' : MmuCpu σ} {beforeBack : Cpu σ}
    (hin : Moves ports which false ea extension place s before s') (hheld : t.held = s'.held)
    (hout : Moves ports which true eaBack extensionBack placeBack t beforeBack t') :
    RoundTrip which (operandAt ((view s.held).memory before.memory) place.address which)
        (operandAt ((view t.held).memory t'.cpu.memory) placeBack.address which) s before s' ↔
      Kept which (operandAt ((view s.held).memory before.memory) place.address which) := by
  obtain ⟨hloaded, hraised⟩ := hin.load view
  rw [hout.store view, hheld, hloaded]
  generalize operandAt ((view s.held).memory before.memory) place.address which = operand
    at hloaded hraised ⊢
  refine ⟨fun h => (s.held.image_load which operand).mp h.back,
    fun h => ⟨?_, hraised, fun other hne => ?_⟩⟩
  · exact (s.held.image_load which operand).mpr h
  · rw [hloaded]
    exact s.held.image_load_of_ne which operand hne

end Moves

/-- An enabled translation control whose fields do not add up comes back without its enable bit and its
undefined bits, and there is an exception. -/
theorem pmove_roundTrip_tc :
    ∃ s' t', FlatMoves .tc 0x4000 0x4200 (flatMmuCpu 0xFDC08888 0) s' t' ∧
      RoundTrip .tc (0, 0xFDC08888) (backAt .tc s' t') (flatMmuCpu 0xFDC08888 0)
        (flatMmuCpu 0xFDC08888 0).cpu s' ∧
      s'.cpu.pendingVector = vectorMmuConfiguration ∧ asLoaded .tc (0, 0xFDC08888) = (0, 0x01C08888) := by
  obtain ⟨s', t', h⟩ := flat_moves .tc 0x4000 0x4200 (flatMmuCpu 0xFDC08888 0) (by decide)
    (by decide) (by decide +kernel)
  have hoperand : operandAt ((flatMmuView (flatMmuCpu 0xFDC08888 0).held).memory
      (flatMmuCpu 0xFDC08888 0).cpu.memory) (Address.ofMemory
        ((flatMmuCpu 0xFDC08888 0).cpu.regs.readAddressRegister 0)).address .tc = (0, 0xFDC08888) := by
    decide +kernel
  have htrip := (pmove_roundTrip flatMmuView h.into rfl h.out).mpr trivial
  rw [hoperand] at htrip
  exact ⟨s', t', h, htrip, htrip.raised, by decide⟩

/-- A ROOT POINTER OF AN INVALID TYPE comes back without its limit, and A STATUS REGISTER with bits that
it has not got. -/
theorem pmove_defects :
    (∃ s' t', FlatMoves .crp 0x4C00 0x4E00 (flatMmuCpu 0x12340000 0x5000) s' t' ∧
      backAt .crp s' t' = (0, 0x5000) ∧
      ¬ RoundTrip .crp (0x12340000, 0x5000) (backAt .crp s' t') (flatMmuCpu 0x12340000 0x5000)
        (flatMmuCpu 0x12340000 0x5000).cpu s') ∧
    ∃ s' t', FlatMoves .mmusr 0x6000 0x6200 (flatMmuCpu 0xFFFF0000 0) s' t' ∧
      backAt .mmusr s' t' = (0, 0xFFFF) ∧
      ¬ RoundTrip .mmusr (0, 0xFFFF) (backAt .mmusr s' t') (flatMmuCpu 0xFFFF0000 0)
        (flatMmuCpu 0xFFFF0000 0).cpu s' := by
  constructor
  · obtain ⟨s', t', h⟩ := flat_moves .crp 0x4C00 0x4E00 (flatMmuCpu 0x12340000 0x5000) (by decide)
      (by decide) (by decide +kernel)
    have hback : backAt .crp s' t' = (0, 0x5000) := by
      refine (h.out.store flatMmuView).trans ?_
      rw [(h.into.load flatMmuView).1]
      decide +kernel
    exact ⟨s', t', h, hback, fun htrip => absurd (hback.symm.trans htrip.back) (by decide)⟩
  · obtain ⟨s', t', h⟩ := flat_moves .mmusr 0x6000 0x6200 (flatMmuCpu 0xFFFF0000 0) (by decide)
      (by decide) (by decide +kernel)
    have hback : backAt .mmusr s' t' = (0, 0xFFFF) := by
      refine (h.out.store flatMmuView).trans ?_
      rw [(h.into.load flatMmuView).1]
      decide +kernel
    exact ⟨s', t', h, hback, fun htrip => absurd (hback.symm.trans htrip.back) (by decide)⟩

end Apollo.M68030
