import Apollo.M68030.Walk

/-!
# Where a logical address goes on the MC68030

`src/core/cpu/m68030/ap_m68030_tt.c`, the translation that is in the middle of
`ap_m68030_access_read_sized` and of `ap_m68030_access_write` (`ap_m68030_access.c`), the searches
of `PTEST` and `PLOAD` (`execute_ptest` and `execute_pflush_or_pload` of `ap_m68030_step.c`), and
the observers `ap_machine_walk` and `ap_machine_translate` (`src/core/machine/ap_machine.c`) on a
machine with this part.

The registers are those of the processor, to which the access contexts that `ap_machine_init`
builds point. Clocks, reports of refusals and the 68040's branch are left out.
-/

namespace Apollo.M68030

/-! ## Transparent translation -/

/-- `ap_m68030_tt_t`. -/
structure Tt where
  logicalBase : BitVec 8 := 0
  logicalMask : BitVec 8 := 0
  fcBase : BitVec 8 := 0
  fcMask : BitVec 8 := 0
  enabled : Bool := false
  cacheInhibit : Bool := false
  readTransparent : Bool := false
  ignoreReadWrite : Bool := false
deriving DecidableEq

/-- `ap_m68030_access_t`. -/
structure Access where
  address : BitVec 32
  functionCode : BitVec 8
  read : Bool
  readModifyWrite : Bool

/-- `masked_equal`. -/
def maskedEqual (a b mask : BitVec 8) : Bool := (a ^^^ b) &&& ~~~mask == 0

/-- `ap_m68030_tt_matches`. -/
def Tt.matches (tt : Tt) (access : Access) : Bool :=
  if !tt.enabled then false
  else if access.readModifyWrite && !tt.ignoreReadWrite then false
  else if !tt.ignoreReadWrite && access.read != tt.readTransparent then false
  else
    maskedEqual ((access.address >>> 24).setWidth 8) tt.logicalBase tt.logicalMask &&
      maskedEqual (access.functionCode &&& 7) (tt.fcBase &&& 7) (tt.fcMask &&& 7)

/-- `ap_m68030_tt_result_t`. -/
structure TtResult where
  transparent : Bool := false
  physical : BitVec 32 := 0
  cacheInhibit : Bool := false
deriving DecidableEq

/-- `ap_m68030_tt_translate`. -/
def ttTranslate (tt0 tt1 : Tt) (access : Access) : TtResult :=
  let hit0 := tt0.matches access
  let hit1 := tt1.matches access
  if !hit0 && !hit1 then {}
  else
    { transparent := true
      physical := access.address
      cacheInhibit := (hit0 && tt0.cacheInhibit) || (hit1 && tt1.cacheInhibit) }

theorem ttTranslate_physical {tt0 tt1 : Tt} {access : Access}
    (h : (ttTranslate tt0 tt1 access).transparent = true) :
    (ttTranslate tt0 tt1 access).physical = access.address := by
  unfold ttTranslate at h ⊢
  dsimp only at h ⊢
  split at h
  · cases h
  · next hhit => rw [if_neg hhit]

/-! ## Registers -/

/-- A root pointer that `PMOVE` has loaded: the table address has no bits below its 16 bytes. -/
structure RootPointer extends Root where
  aligned : tableAddress &&& 15 = 0

/-- `pmove_root_from`; that it can report an invalid type is left out. -/
def RootPointer.ofWords (upper lower : BitVec 32) : RootPointer :=
  let descriptor := unpackLong upper lower false
  { tableAddress := lower &&& 0xFFFFFFF0
    longFormat := descriptor.dt = .valid8Byte
    pageDescriptor := descriptor.dt = .page
    limit := descriptor.limit
    lowerLimit := descriptor.lowerLimit
    hasLimit := descriptor.hasLimit
    aligned := by
      rw [BitVec.and_assoc]
      exact BitVec.and_zero }

/-- Which of the two root pointers. -/
inductive WhichRoot
  | crp
  | srp
deriving DecidableEq

/-- The registers of the MMU and its address translation cache. -/
structure MmuRegisters where
  tc : Tc
  crp : RootPointer
  srp : RootPointer
  tt0 : Tt
  tt1 : Tt
  atc : Atc

namespace MmuRegisters

variable {τ : Type} (mmu : MmuRegisters)

/-- A root pointer. -/
def root : WhichRoot → RootPointer
  | .crp => mmu.crp
  | .srp => mmu.srp

/-- FC2 of a function code. -/
def supervisorOf (functionCode : BitVec 8) : Bool := functionCode &&& 4 != 0

/-- `root_for`, and the same selection in the two observers. -/
def rootFor (functionCode : BitVec 8) : WhichRoot :=
  if mmu.tc.supervisorRoot && supervisorOf functionCode then .srp else .crp

/-- The root pointer of both access contexts, as `ap_machine_init_model` builds them. -/
def accessRoot : WhichRoot := .crp

/-! ## Accesses -/

/-- What `ap_m68030_access_result_t` says of a translation. -/
structure AccessTranslation where
  physical : BitVec 32 := 0
  cacheInhibit : Bool := false
  transparent : Bool := false
  descriptorFetches : Nat := 0
  translationFault : Bool := false
deriving DecidableEq

/-- The table search of an access whose page is not in the ATC. -/
def searchForAccess (cb : Callbacks τ) (access : SearchAccess) (logical : BitVec 32)
    (functionCode : BitVec 8) (t : τ) : AccessTranslation × MmuRegisters × τ :=
  let (walked, t) := walk cb mmu.tc (mmu.root accessRoot).toRoot logical access t
  let (_, atc) := walkFillAtc mmu.atc walked access functionCode logical mmu.tc.pageSizeBits
  let out : AccessTranslation := { descriptorFetches := walked.descriptorFetches }
  if !walked.ok || (access.write && !walked.search.permitsWrite) ||
      !walked.search.permitsAccess access.supervisor then
    ({ out with translationFault := true }, { mmu with atc }, t)
  else
    ({ out with physical := walked.physical, cacheInhibit := walked.search.cacheInhibited },
      { mmu with atc }, t)

/-- The translation of an access under the context's RMC. -/
def translateAccess (cb : Callbacks τ) (write rmc : Bool) (logical : BitVec 32)
    (functionCode : BitVec 8) (t : τ) : AccessTranslation × MmuRegisters × τ :=
  let transparent := ttTranslate mmu.tt0 mmu.tt1
    { address := logical, functionCode, read := !write, readModifyWrite := rmc }
  if transparent.transparent then
    ({ physical := transparent.physical, cacheInhibit := transparent.cacheInhibit,
       transparent := true }, mmu, t)
  else if mmu.tc.enable then
    let lookup := mmu.atc.lookup functionCode logical mmu.tc.pageSizeBits write false
    let mmu := { mmu with atc := mmu.atc.markUsed lookup.index }
    match lookup.status with
    | .hit => ({ physical := lookup.physical, cacheInhibit := lookup.cacheInhibit }, mmu, t)
    | .fault => ({ translationFault := true }, mmu, t)
    | .miss | .modify =>
      mmu.searchForAccess cb
        { write, readModifyWrite := rmc, supervisor := supervisorOf functionCode } logical
        functionCode t
  else ({ physical := logical }, mmu, t)

/-- The translation in `ap_m68030_access_read_sized`. -/
def translateRead (cb : Callbacks τ) (rmc : Bool) (logical : BitVec 32) (functionCode : BitVec 8)
    (t : τ) : AccessTranslation × MmuRegisters × τ :=
  mmu.translateAccess cb false rmc logical functionCode t

/-! ## Instructions -/

/-- The search of `PTEST` at the levels from one on. -/
def ptest (cb : Callbacks τ) (level : Nat) (write : Bool) (logical : BitVec 32)
    (functionCode : BitVec 8) (t : τ) : WalkResult × τ :=
  walkToLevel { cb with update := none } mmu.tc (mmu.root (mmu.rootFor functionCode)).toRoot logical
    { write, supervisor := supervisorOf functionCode } level t

/-- `PLOAD`. -/
def pload (cb : Callbacks τ) (write : Bool) (logical : BitVec 32) (functionCode : BitVec 8)
    (t : τ) : WalkResult × MmuRegisters × τ :=
  let access : SearchAccess := { write, supervisor := supervisorOf functionCode }
  let atc := mmu.atc.flushEntry functionCode 7 logical mmu.tc.pageSizeBits
  let (walked, t) := walk cb mmu.tc (mmu.root (mmu.rootFor functionCode)).toRoot logical access t
  let (_, atc) := walkFillAtc atc walked access functionCode logical mmu.tc.pageSizeBits
  (walked, { mmu with atc }, t)

/-! ## Observers -/

/-- The search of an observer. -/
def probe (cb : Callbacks τ) (logical : BitVec 32) (functionCode : BitVec 8) (t : τ) :
    WalkResult × τ :=
  walk { cb with update := none } mmu.tc (mmu.root (mmu.rootFor functionCode)).toRoot logical
    { supervisor := supervisorOf functionCode } t

/-- `ap_machine_walk`. -/
def machineWalk (cb : Callbacks τ) (logical : BitVec 32) (functionCode : BitVec 8) (t : τ) :
    WalkResult × τ :=
  if !mmu.tc.enable then ({}, t) else mmu.probe cb logical functionCode t

/-- `ap_machine_translate`: a physical address, if there is one. -/
def machineTranslate (cb : Callbacks τ) (logical : BitVec 32) (functionCode : BitVec 8) (t : τ) :
    Option (BitVec 32) × τ :=
  let transparent := ttTranslate mmu.tt0 mmu.tt1
    { address := logical, functionCode, read := true, readModifyWrite := false }
  if transparent.transparent then (some transparent.physical, t)
  else if !mmu.tc.enable then (some logical, t)
  else
    let (walked, t) := mmu.probe cb logical functionCode t
    (if !walked.ok then none else some walked.physical, t)

end MmuRegisters

end Apollo.M68030
