import Mathlib
import Apollo.M68030.Atc

/-!
# The translation control register

`src/core/cpu/m68030/ap_m68030_tc.c`: how a logical address is split into the indices of
the table levels and a page offset.
-/

namespace Apollo.M68030

/-- `ap_m68030_tc_t`. -/
structure Tc where
  enable : Bool := false
  supervisorRoot : Bool := false
  functionCodeLookup : Bool := false
  pageSizeBits : BitVec 8
  initialShift : BitVec 8
  tableIndex : Vector (BitVec 8) 4

namespace Tc

/-- `ap_m68030_tc_page_size`. -/
def pageSize (tc : Tc) : BitVec 32 :=
  if tc.pageSizeBits.toNat < 8 || 15 < tc.pageSizeBits.toNat then 0
  else 1#32 <<< tc.pageSizeBits.toNat

/-- The table index widths up to the first that is zero. -/
def widths (tc : Tc) : List Nat :=
  (tc.tableIndex.toList.map BitVec.toNat).takeWhile (· ≠ 0)

/-- `ap_m68030_tc_is_consistent`, without the total it can report. -/
def isConsistent (tc : Tc) : Bool :=
  tc.widths.sum + tc.pageSizeBits.toNat + tc.initialShift.toNat == 32 && tc.pageSize != 0

/-- `ap_m68030_tc_split_t`; `levels` is the length of the list. -/
structure Split where
  index : List (BitVec 32)
  pageOffset : BitVec 32

/-- The loop of `ap_m68030_tc_split`. -/
def splitFrom (address : BitVec 32) : Nat → List Nat → List (BitVec 32)
  | _, [] => []
  | consumed, width :: widths =>
    if width = 0 then []
    else if 32 < consumed + width then []
    else
      ((address >>> (32 - consumed - width)) &&& ((1#32 <<< width) - 1)) ::
        splitFrom address (consumed + width) widths

/-- `ap_m68030_tc_split`. -/
def split (tc : Tc) (address : BitVec 32) : Split :=
  { index := splitFrom address tc.initialShift.toNat (tc.tableIndex.toList.map BitVec.toNat)
    pageOffset := if tc.pageSize = 0 then 0 else address &&& (tc.pageSize - 1) }

end Tc

/-!
## Translation table descriptors

`src/core/cpu/m68030/ap_m68030_desc.c`, and the decoding of descriptors from memory in
`ap_m68030_walk.c`. What a descriptor's type field means depends on the level it was
found at (`descRole`), and so does how many of its bits are address.
-/

/-- `ap_m68030_dt_t`. -/
inductive Dt
  | invalid
  | page
  | valid4Byte
  | valid8Byte
deriving DecidableEq

/-- `ap_m68030_desc_role_t`. -/
inductive Role
  | invalid
  | page
  | earlyPage
  | table
  | indirect
deriving DecidableEq

/-- `ap_m68030_desc_role`. -/
def descRole : Dt → Bool → Role
  | .invalid, _ => .invalid
  | .page, true => .page
  | .page, false => .earlyPage
  | .valid4Byte, true => .indirect
  | .valid4Byte, false => .table
  | .valid8Byte, true => .indirect
  | .valid8Byte, false => .table

/-- `ap_m68030_desc_index_within_limit`. -/
def indexWithinLimit (limit : BitVec 16) (lowerLimit : Bool) (index : BitVec 32) : Bool :=
  let bound := (limit &&& 0x7FFF).setWidth 32
  if lowerLimit then bound ≤ index else index ≤ bound

/-- `ap_m68030_desc_page_address`. -/
def descPageAddress (pageAddressField : BitVec 32) (pageSizeBits : BitVec 8) : BitVec 32 :=
  let base := (pageAddressField &&& 0x00FFFFFF) <<< 8
  if pageSizeBits.toNat ≤ 8 then base
  else
    let alignment := 1#32 <<< pageSizeBits.toNat
    base &&& ~~~(alignment - 1)

/-- `ap_m68030_search_t`. -/
structure Search where
  writeProtected : Bool := false
  supervisorOnly : Bool := false
  cacheInhibited : Bool := false
  limitViolation : Bool := false
  invalid : Bool := false
deriving DecidableEq

namespace Search

/-- `ap_m68030_search_accumulate`. -/
def accumulate (s : Search) (writeProtect supervisor cacheInhibit : Bool) : Search :=
  { s with
    writeProtected := s.writeProtected || writeProtect
    supervisorOnly := s.supervisorOnly || supervisor
    cacheInhibited := s.cacheInhibited || cacheInhibit }

/-- `ap_m68030_search_fail_limit`. -/
def failLimit (s : Search) : Search := { s with limitViolation := true }

/-- `ap_m68030_search_fail_invalid`. -/
def failInvalid (s : Search) : Search := { s with invalid := true }

/-- `ap_m68030_search_permits_write`. -/
def permitsWrite (s : Search) : Bool := !s.writeProtected && !s.invalid && !s.limitViolation

/-- `ap_m68030_search_permits_access`. -/
def permitsAccess (s : Search) (supervisorAccess : Bool) : Bool :=
  if s.invalid || s.limitViolation then false else supervisorAccess || !s.supervisorOnly

/-- `ap_m68030_search_should_set_modified`. -/
def shouldSetModified (s : Search) (write readModifyWrite supervisorAccess modifiedAlready : Bool) :
    Bool :=
  if !write && !readModifyWrite then false
  else if modifiedAlready then false
  else if s.writeProtected then false
  else if s.supervisorOnly && !supervisorAccess then false
  else !s.invalid && !s.limitViolation

end Search

/-- `ap_m68030_descriptor_t`. -/
structure Descriptor where
  dt : Dt := .invalid
  addressField : BitVec 32 := 0
  limit : BitVec 16 := 0
  lowerLimit : Bool := false
  hasLimit : Bool := false
  writeProtect : Bool := false
  supervisor : Bool := false
  cacheInhibit : Bool := false
  modified : Bool := false
  used : Bool := false
deriving DecidableEq

/-- The DT field of a descriptor's first long word. -/
def dtOf (word : BitVec 32) : Dt :=
  match word.getLsbD 1, word.getLsbD 0 with
  | false, false => .invalid
  | false, true => .page
  | true, false => .valid4Byte
  | true, true => .valid8Byte

/-- `ap_m68030_descriptor_unpack_short`. -/
def unpackShort (word : BitVec 32) (inPageTable : Bool) : Descriptor :=
  let dt := dtOf word
  match descRole dt inPageTable with
  | .invalid => { dt }
  | .indirect => { dt, addressField := word &&& 0xFFFFFFFC, used := true }
  | .page | .earlyPage =>
    { dt
      addressField := (word >>> 8) &&& 0x00FFFFFF
      cacheInhibit := word.getLsbD 6
      modified := word.getLsbD 4
      used := word.getLsbD 3
      writeProtect := word.getLsbD 2 }
  | .table =>
    { dt
      addressField := word &&& 0xFFFFFFF0
      used := word.getLsbD 3
      writeProtect := word.getLsbD 2 }

/-- `ap_m68030_descriptor_unpack_long`. -/
def unpackLong (upper lower : BitVec 32) (inPageTable : Bool) : Descriptor :=
  let dt := dtOf upper
  let role := descRole dt inPageTable
  if role = .invalid then { dt }
  else
    let descriptor : Descriptor :=
      { dt
        hasLimit := true
        limit := (upper >>> 16).setWidth 16 &&& 0x7FFF
        lowerLimit := upper.getLsbD 31
        supervisor := upper.getLsbD 8
        used := upper.getLsbD 3
        writeProtect := upper.getLsbD 2 }
    match role with
    | .indirect => { descriptor with addressField := lower &&& 0xFFFFFFFC, hasLimit := false }
    | .page | .earlyPage =>
      { descriptor with
        addressField := (lower >>> 8) &&& 0x00FFFFFF
        cacheInhibit := upper.getLsbD 6
        modified := upper.getLsbD 4 }
    | .table => { descriptor with addressField := lower &&& 0xFFFFFFF0 }
    | .invalid => descriptor

/-!
## The table search of the MC68030

`src/core/cpu/m68030/ap_m68030_walk.c`. The callbacks of the search are parameters, with
`τ` for what stands behind the C code's `context`: a fetch and an update may change it.

The loop of `ap_m68030_walk_to_level` is `walkFrom`, a recursion over the indices that are
left, and its body is `walkLevel`. `in_page_table` is then that no index is left.
-/

/-- `ap_m68030_search_access_t`. -/
structure SearchAccess where
  write : Bool := false
  readModifyWrite : Bool := false
  supervisor : Bool := false
deriving DecidableEq

/-- `ap_m68030_fetch_fn` and `ap_m68030_update_fn`; an update can be `NULL`. -/
structure Callbacks (τ : Type) where
  fetch : τ → BitVec 32 → Bool → Option Descriptor × τ
  update : Option (τ → BitVec 32 → Bool → Bool → Bool × τ)

/-- `ap_m68030_walk_result_t`. -/
structure WalkResult where
  ok : Bool := false
  physical : BitVec 32 := 0
  search : Search := {}
  descriptorFetches : Nat := 0
  historyWrites : Nat := 0
  levelsWalked : Nat := 0
  lastDescriptorAddress : BitVec 32 := 0
  truncated : Bool := false
  earlyTermination : Bool := false
  usedIndirect : Bool := false
  pageModified : Bool := false
  busError : Bool := false
deriving DecidableEq

/-- `ap_m68030_root_t`, without the type field that only `PMOVE` reads back. -/
structure Root where
  tableAddress : BitVec 32
  longFormat : Bool := false
  limit : BitVec 16 := 0
  lowerLimit : Bool := false
  hasLimit : Bool := false
  pageDescriptor : Bool := false

/-- The table the search has come to, and the limit on the index into it. -/
structure Table where
  tableAddress : BitVec 32
  longFormat : Bool
  haveLimit : Bool
  limit : BitVec 16
  lowerLimit : Bool

/-- The table a root pointer names. -/
def Root.table (root : Root) : Table :=
  { tableAddress := root.tableAddress
    longFormat := root.longFormat
    haveLimit := root.hasLimit
    limit := root.limit
    lowerLimit := root.lowerLimit }

/-- The table a table descriptor names. -/
def Descriptor.table (d : Descriptor) : Table :=
  { tableAddress := d.addressField
    longFormat := d.dt = .valid8Byte
    haveLimit := d.hasLimit
    limit := d.limit
    lowerLimit := d.lowerLimit }

/-- Where an index leads in a table. -/
def Table.descriptorAddress (table : Table) (index : BitVec 32) : BitVec 32 :=
  table.tableAddress + index * (if table.longFormat then 8 else 4)

/-- `bits_consumed_before`. -/
def bitsConsumedBefore (tc : Tc) (level : Nat) : Nat :=
  tc.initialShift.toNat + ((tc.tableIndex.toList.take level).map BitVec.toNat).sum

/-- `remaining_offset`. -/
def remainingOffset (tc : Tc) (levelsUsed : Nat) (address : BitVec 32) : BitVec 32 :=
  let consumed := bitsConsumedBefore tc levelsUsed
  if 32 ≤ consumed then 0
  else
    let width := 32 - consumed
    address &&& (if 32 ≤ width then 0xFFFFFFFF else (1#32 <<< width) - 1)

section Search

variable {τ : Type}

/-- `update_history`. -/
def updateHistory (cb : Callbacks τ) (access : SearchAccess) (descriptorAddress : BitVec 32)
    (descriptor : Descriptor) (isPage : Bool) (result : WalkResult) (t : τ) :
    Bool × WalkResult × τ :=
  let violated := !result.search.permitsAccess access.supervisor
  let setUsed := !descriptor.used && !violated
  let setModified := isPage && result.search.shouldSetModified access.write access.readModifyWrite
    access.supervisor descriptor.modified
  match cb.update with
  | none => (true, if isPage then { result with pageModified := descriptor.modified } else result, t)
  | some update =>
    let result :=
      if isPage then { result with pageModified := descriptor.modified || setModified } else result
    if !setUsed && !setModified then (true, result, t)
    else
      let result := { result with historyWrites := result.historyWrites + 1 }
      let (written, t) := update t descriptorAddress setUsed setModified
      if !written then (false, { result with busError := true }, t) else (true, result, t)

/-- The result of a search that failed. -/
def WalkResult.failInvalid (r : WalkResult) : WalkResult := { r with search := r.search.failInvalid }

/-- What a page descriptor in a page table gives. -/
def WalkResult.pageAt (r : WalkResult) (tc : Tc) (address : BitVec 32) (d : Descriptor) :
    WalkResult :=
  { r with
    ok := true
    physical :=
      descPageAddress d.addressField tc.pageSizeBits ||| (address &&& (tc.pageSize - 1)) }

/-- The indirect case of the loop: one more fetch, and what it yields is the page
descriptor. -/
def walkIndirect (cb : Callbacks τ) (tc : Tc) (address : BitVec 32) (access : SearchAccess)
    (pointedAddress : BitVec 32) (pointedLong : Bool) (result : WalkResult) (t : τ) :
    WalkResult × τ :=
  let result :=
    { result with descriptorFetches := result.descriptorFetches + 1, usedIndirect := true }
  match cb.fetch t pointedAddress pointedLong with
  | (none, t) => ({ result with busError := true }.failInvalid, t)
  | (some pointed, t) =>
    let result :=
      { result with
        lastDescriptorAddress := pointedAddress
        search := result.search.accumulate pointed.writeProtect pointed.supervisor
          pointed.cacheInhibit }
    if pointed.dt ≠ .page then (result.failInvalid, t)
    else
      match updateHistory cb access pointedAddress pointed true result t with
      | (false, result, t) => (result.failInvalid, t)
      | (true, result, t) => (result.pageAt tc address pointed, t)

/-- One level of the loop of `ap_m68030_walk_to_level`, and the table it goes on with, if
it does. -/
def walkLevel (cb : Callbacks τ) (tc : Tc) (address : BitVec 32) (access : SearchAccess)
    (inPageTable : Bool) (level : Nat) (index : BitVec 32) (table : Table) (result : WalkResult)
    (t : τ) : Option Table × WalkResult × τ :=
  if table.haveLimit && !indexWithinLimit table.limit table.lowerLimit index then
    (none, { result with search := result.search.failLimit }, t)
  else
    let descriptorAddress := table.descriptorAddress index
    let result := { result with descriptorFetches := result.descriptorFetches + 1 }
    match cb.fetch t descriptorAddress table.longFormat with
    | (none, t) => (none, { result with busError := true }.failInvalid, t)
    | (some descriptor, t) =>
      let result :=
        { result with
          lastDescriptorAddress := descriptorAddress
          levelsWalked := level + 1
          search := result.search.accumulate descriptor.writeProtect descriptor.supervisor
            descriptor.cacheInhibit }
      match descRole descriptor.dt inPageTable with
      | .invalid => (none, result.failInvalid, t)
      | .indirect =>
        match updateHistory cb access descriptorAddress descriptor false result t with
        | (false, result, t) => (none, result.failInvalid, t)
        | (true, result, t) =>
          (none, walkIndirect cb tc address access descriptor.addressField
            (descriptor.dt = .valid8Byte) result t)
      | .page =>
        match updateHistory cb access descriptorAddress descriptor true result t with
        | (false, result, t) => (none, result.failInvalid, t)
        | (true, result, t) => (none, result.pageAt tc address descriptor, t)
      | .earlyPage =>
        match updateHistory cb access descriptorAddress descriptor true result t with
        | (false, result, t) => (none, result.failInvalid, t)
        | (true, result, t) =>
          (none,
            { result with
              ok := true
              earlyTermination := true
              physical := ((descriptor.addressField &&& 0x00FFFFFF) <<< 8) |||
                remainingOffset tc (level + 1) address },
            t)
      | .table =>
        match updateHistory cb access descriptorAddress descriptor false result t with
        | (false, result, t) => (none, result.failInvalid, t)
        | (true, result, t) => (some descriptor.table, result, t)

/-- The loop of `ap_m68030_walk_to_level`; a ceiling of 0 is none. -/
def walkFrom (cb : Callbacks τ) (tc : Tc) (address : BitVec 32) (access : SearchAccess)
    (maxLevels : Nat) : List (BitVec 32) → Nat → Table → WalkResult → τ → WalkResult × τ
  | [], _, _, result, t => (result.failInvalid, t)
  | index :: indices, level, table, result, t =>
    if maxLevels ≠ 0 ∧ maxLevels ≤ level then ({ result with truncated := true }, t)
    else
      match walkLevel cb tc address access indices.isEmpty level index table result t with
      | (none, result, t) => (result, t)
      | (some table, result, t) =>
        walkFrom cb tc address access maxLevels indices (level + 1) table result t

/-- `ap_m68030_walk_to_level`. -/
def walkToLevel (cb : Callbacks τ) (tc : Tc) (root : Root) (address : BitVec 32)
    (access : SearchAccess) (maxLevels : Nat) (t : τ) : WalkResult × τ :=
  let split := tc.split address
  if root.pageDescriptor then
    if root.hasLimit && 0 < split.index.length &&
        !indexWithinLimit root.limit root.lowerLimit (split.index.headD 0) then
      ({ search := Search.failLimit {} }, t)
    else ({ ok := true, physical := address + root.tableAddress }, t)
  else walkFrom cb tc address access maxLevels split.index 0 root.table {} t

/-- `ap_m68030_walk`. -/
def walk (cb : Callbacks τ) (tc : Tc) (root : Root) (address : BitVec 32) (access : SearchAccess)
    (t : τ) : WalkResult × τ :=
  walkToLevel cb tc root address access 0 t

end Search

/-- `ap_m68030_walk_fill_atc`. -/
def walkFillAtc (atc : Atc) (result : WalkResult) (access : SearchAccess) (functionCode : BitVec 8)
    (address : BitVec 32) (pageSizeBits : BitVec 8) : Fin atcEntries × Atc :=
  let busError := result.search.invalid || result.search.limitViolation ||
    !result.search.permitsAccess access.supervisor
  let physicalPage : BitVec 32 := if busError then 0 else result.physical >>> 8
  atc.insert functionCode address pageSizeBits physicalPage result.search.writeProtected
    result.search.cacheInhibited result.pageModified busError

end Apollo.M68030
