import Apollo.Lib.Sizes
import Mathlib

/-!
# Registers and descriptors of the MC68040 MMU

`src/core/cpu/m68040/ap_m68040_regs.c` and `ap_m68040_descriptor.c`: how the translation
control, transparent translation and status registers and the three kinds of descriptors are
read. Bits 3 and 4 of a descriptor are its history; only an indirect descriptor has address
bits there.
-/

namespace Apollo.M68040

/-- `ap_m68040_page_size_t`. -/
inductive PageSize
  | page4K
  | page8K
deriving DecidableEq

/-- `ap_m68040_page_bytes`. -/
def PageSize.bytes : PageSize → BitVec 32
  | .page4K => 4096
  | .page8K => 8192

/-- `ap_m68040_cache_mode_t`. -/
inductive CacheMode
  | cachableWriteThrough
  | cachableCopyback
  | noncachableSerialized
  | noncachable
deriving DecidableEq

/-- The two bits of a CM field. -/
def CacheMode.ofBits (high low : Bool) : CacheMode :=
  match high, low with
  | false, false => .cachableWriteThrough
  | false, true => .cachableCopyback
  | true, false => .noncachableSerialized
  | true, true => .noncachable

/-- `ap_m68040_tcr_t`. -/
structure Tcr where
  enable : Bool
  pageSize : PageSize

/-- `ap_m68040_tcr_decode`. -/
def Tcr.decode (value : BitVec 16) : Tcr :=
  { enable := value.getLsbD 15
    pageSize := if value.getLsbD 14 then .page8K else .page4K }

/-- `ap_m68040_tt_mode_t`. -/
inductive TtMode
  | userOnly
  | supervisorOnly
  | any
deriving DecidableEq

/-- `ap_m68040_ttr_t`. -/
structure Ttr where
  logicalBase : BitVec 8
  logicalMask : BitVec 8
  enable : Bool
  supervisorMode : TtMode
  userAttribute1 : Bool
  userAttribute0 : Bool
  cacheMode : CacheMode
  writeProtect : Bool

/-- `ap_m68040_ttr_decode`. -/
def Ttr.decode (value : BitVec 32) : Ttr :=
  { logicalBase := value.extractLsb' 24 8
    logicalMask := value.extractLsb' 16 8
    enable := value.getLsbD 15
    supervisorMode :=
      if value.getLsbD 14 then .any else if value.getLsbD 13 then .supervisorOnly else .userOnly
    userAttribute1 := value.getLsbD 9
    userAttribute0 := value.getLsbD 8
    cacheMode := .ofBits (value.getLsbD 6) (value.getLsbD 5)
    writeProtect := value.getLsbD 2 }

/-- `ap_m68040_ttr_matches`. -/
def Ttr.matches (ttr : Ttr) (address : BitVec 32) (functionCode : BitVec 32) : Bool :=
  if !ttr.enable then false
  else
    let supervisor := functionCode.getLsbD 2
    let here :=
      match ttr.supervisorMode with
      | .userOnly => !supervisor
      | .supervisorOnly => supervisor
      | .any => true
    let compared := ~~~ttr.logicalMask
    here && (address.extractLsb' 24 8 &&& compared) == (ttr.logicalBase &&& compared)

/-- `ap_m68040_mmusr_t`. -/
structure Mmusr where
  physicalAddress : BitVec 32 := 0
  busError : Bool := false
  global : Bool := false
  userAttribute1 : Bool := false
  userAttribute0 : Bool := false
  supervisor : Bool := false
  cacheMode : CacheMode := .cachableWriteThrough
  modified : Bool := false
  writeProtect : Bool := false
  transparent : Bool := false
  resident : Bool := false
deriving DecidableEq

/-- `ap_m68040_mmusr_bus_error`. -/
def Mmusr.ofBusError : Mmusr := { busError := true }

/-- `ap_m68040_mmusr_transparent`. -/
def Mmusr.ofTransparent : Mmusr := { transparent := true, resident := true }

/-! ## Descriptors -/

/-- `ap_m68040_udt_t`. -/
inductive Udt
  | invalid
  | resident
deriving DecidableEq

/-- `ap_m68040_pdt_t`. -/
inductive Pdt
  | invalid
  | resident
  | indirect
deriving DecidableEq

/-- `ap_m68040_table_descriptor_t`. -/
structure TableDescriptor where
  type : Udt
  writeProtect : Bool
  used : Bool
  tableAddress : BitVec 32
deriving DecidableEq

/-- `decode_table`. -/
def decodeTable (value addressMask : BitVec 32) : TableDescriptor :=
  { type := if value.getLsbD 1 then .resident else .invalid
    writeProtect := value.getLsbD 2
    used := value.getLsbD 3
    tableAddress := value &&& addressMask }

/-- `ap_m68040_root_descriptor`. -/
def rootDescriptor (value : BitVec 32) : TableDescriptor := decodeTable value 0xFFFFFE00

/-- `ap_m68040_pointer_descriptor`. -/
def pointerDescriptor (value : BitVec 32) : PageSize → TableDescriptor
  | .page8K => decodeTable value 0xFFFFFF80
  | .page4K => decodeTable value 0xFFFFFF00

/-- `ap_m68040_page_descriptor_t`. -/
structure PageDescriptor where
  type : Pdt
  writeProtect : Bool
  used : Bool
  modified : Bool
  cacheMode : CacheMode
  supervisor : Bool
  userAttribute0 : Bool
  userAttribute1 : Bool
  global : Bool
  address : BitVec 32
deriving DecidableEq

/-- The `PDT` of a descriptor in a page table. -/
def pdtOf (value : BitVec 32) : Pdt :=
  match value.getLsbD 1, value.getLsbD 0 with
  | false, false => .invalid
  | true, false => .indirect
  | _, true => .resident

/-- The bits of a page descriptor that are its frame. -/
def PageSize.frameMask : PageSize → BitVec 32
  | .page8K => 0xFFFFE000
  | .page4K => 0xFFFFF000

/-- `ap_m68040_page_descriptor`. -/
def pageDescriptor (value : BitVec 32) (pageSize : PageSize) : PageDescriptor :=
  let type := pdtOf value
  { type
    writeProtect := value.getLsbD 2
    used := value.getLsbD 3
    modified := value.getLsbD 4
    cacheMode := .ofBits (value.getLsbD 6) (value.getLsbD 5)
    supervisor := value.getLsbD 7
    userAttribute0 := value.getLsbD 8
    userAttribute1 := value.getLsbD 9
    global := value.getLsbD 10
    address := if type = .indirect then value &&& 0xFFFFFFFC else value &&& pageSize.frameMask }

/-! ## History -/

/-- Words that differ in history bits at most, of which none was cleared. -/
def Marked (word word' : BitVec 32) : Prop :=
  (∀ i, i ≠ 3 → i ≠ 4 → word'.getLsbD i = word.getLsbD i) ∧
    (word.getLsbD 3 = true → word'.getLsbD 3 = true) ∧
    (word.getLsbD 4 = true → word'.getLsbD 4 = true)

namespace Marked

variable {w w' w'' : BitVec 32}

theorem refl (w : BitVec 32) : Marked w w := ⟨fun _ _ _ => rfl, id, id⟩

theorem trans (h : Marked w w') (h' : Marked w' w'') : Marked w w'' :=
  ⟨fun i hthree hfour => (h'.1 i hthree hfour).trans (h.1 i hthree hfour), h'.2.1 ∘ h.2.1,
    h'.2.2 ∘ h.2.2⟩

theorem and_eq (h : Marked w w') {mask : BitVec 32} (hthree : mask.getLsbD 3 = false)
    (hfour : mask.getLsbD 4 = false) : w' &&& mask = w &&& mask := by
  apply BitVec.eq_of_getLsbD_eq
  intro i _
  rw [BitVec.getLsbD_and, BitVec.getLsbD_and]
  by_cases hi : i = 3
  · rw [hi, hthree, Bool.and_false, Bool.and_false]
  · by_cases hi' : i = 4
    · rw [hi', hfour, Bool.and_false, Bool.and_false]
    · rw [h.1 i hi hi']

theorem decodeTable (h : Marked w w') {mask : BitVec 32} (hthree : mask.getLsbD 3 = false)
    (hfour : mask.getLsbD 4 = false) :
    decodeTable w' mask = { decodeTable w mask with used := w'.getLsbD 3 } := by
  simp only [M68040.decodeTable, h.1 1 (by decide) (by decide), h.1 2 (by decide) (by decide),
    h.and_eq hthree hfour]

theorem rootDescriptor (h : Marked w w') :
    rootDescriptor w' = { rootDescriptor w with used := w'.getLsbD 3 } :=
  h.decodeTable (by decide) (by decide)

theorem pointerDescriptor (h : Marked w w') (pageSize : PageSize) :
    pointerDescriptor w' pageSize = { pointerDescriptor w pageSize with used := w'.getLsbD 3 } := by
  cases pageSize with
  | page4K => exact h.decodeTable (by decide) (by decide)
  | page8K => exact h.decodeTable (by decide) (by decide)

theorem pdtOf (h : Marked w w') : pdtOf w' = pdtOf w := by
  rw [M68040.pdtOf, M68040.pdtOf, h.1 1 (by decide) (by decide), h.1 0 (by decide) (by decide)]

theorem pageDescriptor (h : Marked w w') {pageSize : PageSize}
    (htype : M68040.pdtOf w ≠ .indirect) :
    pageDescriptor w' pageSize =
      { pageDescriptor w pageSize with used := w'.getLsbD 3, modified := w'.getLsbD 4 } := by
  have hframe : w' &&& pageSize.frameMask = w &&& pageSize.frameMask := by
    cases pageSize with
    | page4K => exact h.and_eq (by decide) (by decide)
    | page8K => exact h.and_eq (by decide) (by decide)
  have hbit : ∀ i, i ≠ 3 → i ≠ 4 → w'.getLsbD i = w.getLsbD i := h.1
  simp only [M68040.pageDescriptor, h.pdtOf, if_neg htype, hframe, hbit 2 (by decide) (by decide),
    hbit 5 (by decide) (by decide), hbit 6 (by decide) (by decide), hbit 7 (by decide) (by decide),
    hbit 8 (by decide) (by decide), hbit 9 (by decide) (by decide),
    hbit 10 (by decide) (by decide)]

end Marked

end Apollo.M68040
