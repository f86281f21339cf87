import Mathlib
import Apollo.Board.Map

/-!
# The blitter of the display controllers

`src/core/board/ap_graphics.c`: the image memory by the word, the data path of a blit with its loop over the
planes, and the dispatch of a memory cycle by the mode in `CR0`. A read or a write of a byte that the attached
memory does not have is `none` here. The rest of the controller, its registers' ports, the lookup table and the
scanout, is left out.

The loop over the planes draws in the planes that are selected and nowhere else (`planesFrom_drawn`), and a
raster operation is bit for bit the truth table that its four bits are (`Rop.apply_getLsbD`).
-/

namespace Apollo.Board

/-! ## Image memory -/

/-- An attached image memory: its bytes, of which a `uint32_t` can count all. -/
structure Image where
  bytes : List (BitVec 8)
  size_lt : bytes.length < 2 ^ 32

namespace Image

/-- `bytes / 2u`. -/
def words (image : Image) : ℕ := image.bytes.length / 2

/-- A byte that is read. -/
def load (image : Image) (place : BitVec 32) : Option (BitVec 8) := image.bytes[place.toNat]?

/-- The memory with another byte in a place. -/
def set (image : Image) (place : ℕ) (value : BitVec 8) : Image :=
  ⟨image.bytes.set place value, by rw [List.length_set]; exact image.size_lt⟩

/-- A byte that is written. -/
def store (image : Image) (place : BitVec 32) (value : BitVec 8) : Option Image :=
  if place.toNat < image.bytes.length then some (image.set place.toNat value) else none

/-- `image_word`: the high byte is first. -/
def word (image : Image) (index : BitVec 32) : Option (BitVec 16) := do
  let high ← image.load (index * 2)
  let low ← image.load (index * 2 + 1)
  pure (high ++ low)

/-- The two stores with which a word is written. -/
def storeWord (image : Image) (index : BitVec 32) (value : BitVec 16) : Option Image := do
  let image ← image.store (index * 2) ((value >>> 8).setWidth 8)
  image.store (index * 2 + 1) (value.setWidth 8)

/-- A word of the memory, or zero past it. -/
def wordOrZero (image : Image) (index : BitVec 32) : Option (BitVec 16) :=
  if index.toNat < image.words then image.word index else some 0

end Image

/-! ## Registers -/

/-- `ap_graphics_registers_t`. -/
structure GraphicsRegisters where
  cr0 : BitVec 8 := 0
  cr1 : BitVec 8 := 0
  cr2 : BitVec 8 := 0
  cr2b : BitVec 8 := 0
  writeEnable : BitVec 16 := 0
  rop : BitVec 32 := 0
deriving DecidableEq

/-- `ap_graphics_cr0_mode_t`. -/
inductive Cr0Mode
  | cpuDestBlt
  | alternatingBlt
  | vector
  | cpuSourceBlt
  | doubleAccessBlt
  | unknown5
  | unknown6
  | normal
deriving DecidableEq, Repr

/-- `ap_graphics_cr0_mode`. -/
def cr0Mode (cr0 : BitVec 8) : Cr0Mode :=
  match (cr0 >>> 5).toNat with
  | 0 => .cpuDestBlt
  | 1 => .alternatingBlt
  | 2 => .vector
  | 3 => .cpuSourceBlt
  | 4 => .doubleAccessBlt
  | 5 => .unknown5
  | 6 => .unknown6
  | _ => .normal

/-- `ap_graphics_cr2_access_t`. -/
inductive Cr2Access
  | constantAccess
  | pixelAccess
  | shiftAccess
  | planeAccess
deriving DecidableEq, Repr

/-- `ap_graphics_cr2_access`. -/
def cr2Access (cr2 : BitVec 8) : Cr2Access :=
  match (cr2 >>> 6).toNat with
  | 0 => .constantAccess
  | 1 => .pixelAccess
  | 2 => .shiftAccess
  | _ => .planeAccess

/-- `ap_graphics_cr0_shift`. -/
def cr0Shift (cr0 : BitVec 8) : ℕ := (cr0 &&& 0x1F).toNat

/-- `AP_GRAPHICS_CR1_COLOUR_AD_BIT`. -/
def colourAdBit (cr1 : BitVec 8) : Bool := cr1.getLsbD 7

/-- `AP_GRAPHICS_CR1_MONO_DADDR_16`. -/
def monoDaddr16 (cr1 : BitVec 8) : Bool := cr1.getLsbD 6

/-- `AP_GRAPHICS_CR1_ROP_EN`. -/
def ropEn (cr1 : BitVec 8) : Bool := cr1.getLsbD 4

/-- What of `ap_graphics_geometry_t` a cycle uses. -/
structure Geometry where
  planes : ℕ
  planeWords : BitVec 32
deriving DecidableEq

/-- `ap_graphics_geometry`. -/
def geometry : ScreenKind → Option Geometry
  | .colour4Plane => some ⟨4, BitVec.ofNat 32 (1024 * 1024 / 16)⟩
  | .colour8Plane => some ⟨8, BitVec.ofNat 32 (1024 * 1024 / 16)⟩
  | .mono19Inch => some ⟨1, BitVec.ofNat 32 (2048 * 1024 / 16)⟩
  | .mono15Inch => some ⟨1, BitVec.ofNat 32 (1024 * 1024 / 16)⟩
  | .none => none

/-! ## Raster operations -/

/-- `ap_graphics_rop_t`. -/
inductive Rop
  | zero
  | srcAndDst
  | srcAndNotDst
  | src
  | notSrcAndDst
  | dst
  | srcXorDst
  | srcOrDst
  | srcNorDst
  | srcXnorDst
  | notDst
  | srcOrNotDst
  | notSrc
  | notSrcOrDst
  | srcNandDst
  | one
deriving DecidableEq, Repr

/-- The function that four bits of the register name. -/
def Rop.ofBits (bits : BitVec 4) : Rop :=
  match bits.toNat with
  | 0x0 => .zero
  | 0x1 => .srcAndDst
  | 0x2 => .srcAndNotDst
  | 0x3 => .src
  | 0x4 => .notSrcAndDst
  | 0x5 => .dst
  | 0x6 => .srcXorDst
  | 0x7 => .srcOrDst
  | 0x8 => .srcNorDst
  | 0x9 => .srcXnorDst
  | 0xA => .notDst
  | 0xB => .srcOrNotDst
  | 0xC => .notSrc
  | 0xD => .notSrcOrDst
  | 0xE => .srcNandDst
  | _ => .one

/-- The four bits of a plane; a plane past the eight has none. -/
def ropBits (ropRegister : BitVec 32) (plane : ℕ) : BitVec 4 :=
  if 8 ≤ plane then 0 else (ropRegister >>> (plane * 4)).setWidth 4

/-- `ap_graphics_rop_for`. -/
def ropFor (ropRegister : BitVec 32) (plane : ℕ) : Rop := .ofBits (ropBits ropRegister plane)

/-- The function of a raster operation, on words. -/
def Rop.apply (s d : BitVec 16) : Rop → BitVec 16
  | .zero => 0
  | .srcAndDst => s &&& d
  | .srcAndNotDst => s &&& ~~~d
  | .src => s
  | .notSrcAndDst => ~~~s &&& d
  | .dst => d
  | .srcXorDst => s ^^^ d
  | .srcOrDst => s ||| d
  | .srcNorDst => ~~~(s ||| d)
  | .srcXnorDst => ~~~(s ^^^ d)
  | .notDst => ~~~d
  | .srcOrNotDst => s ||| ~~~d
  | .notSrc => ~~~s
  | .notSrcOrDst => ~~~s ||| d
  | .srcNandDst => ~~~(s &&& d)
  | .one => 0xFFFF

/-- `ap_graphics_rop_apply`: where it is not enabled the source passes through. -/
def ropApply (cr1 : BitVec 8) (ropRegister : BitVec 32) (plane : ℕ) (source destination : BitVec 16) :
    BitVec 16 :=
  if !ropEn cr1 then source else (ropFor ropRegister plane).apply source destination

/-! ## The data path -/

/-- `ap_graphics_source_data`. -/
def sourceData (cr0 : BitVec 8) (access : Cr2Access) (plane : ℕ) (latched : BitVec 32) : BitVec 16 :=
  match access with
  | .constantAccess => 0xFFFF
  | .pixelAccess => if latched.getLsbD (plane &&& 0x1F) then 0xFFFF else 0
  | .shiftAccess => if latched.getLsbD 0 then 0xFFFF else 0
  | .planeAccess =>
    let shift := cr0Shift cr0
    let wide := if 16 ≤ shift then (latched <<< 16) ||| (latched >>> 16) else latched
    (wide >>> (shift &&& 0x0F)).setWidth 16

/-- `ap_graphics_plane_selected`: a bit that is clear selects. -/
def planeSelected (dPlane : BitVec 8) (plane : ℕ) : Bool := plane < 8 && !dPlane.getLsbD plane

/-- `ap_graphics_combine`. -/
def combine (writeEnable memMask source destination : BitVec 16) : BitVec 16 :=
  let protect := writeEnable ||| ~~~memMask
  (destination &&& protect) ||| (source &&& ~~~protect)

/-- `ap_graphics_blit_t`. -/
structure Blit where
  cr0 : BitVec 8
  cr1 : BitVec 8
  access : Cr2Access
  ropRegister : BitVec 32
  writeEnable : BitVec 16
  dPlane : BitVec 8
  sPlane : ℕ
  planes : ℕ
  planeStride : BitVec 32

namespace Blit

variable (blit : Blit) (memMask : BitVec 16) (latched : Fin 8 → BitVec 32)

/-- The latch from which a plane is drawn: its own, or that of the source plane. -/
def latchOf (plane : ℕ) : BitVec 32 :=
  let broadcast := blit.planes = 1 ∨ colourAdBit blit.cr1
  let source := if broadcast then blit.sPlane else plane
  latched (Fin.ofNat 8 (if source < blit.planes then source else 0))

/-- The word that a plane gets where it had another. -/
def wordFor (plane : ℕ) (destination : BitVec 16) : BitVec 16 :=
  combine blit.writeEnable memMask
    (ropApply blit.cr1 blit.ropRegister plane
      (sourceData blit.cr0 blit.access plane (blit.latchOf latched plane)) destination)
    destination

/-- The loop of `ap_graphics_blit`. The address advances for every plane, written or not. -/
def planesFrom : ℕ → ℕ → BitVec 32 → ℕ → Image → Option (ℕ × Image)
  | 0, _, _, written, image => some (written, image)
  | left + 1, plane, place, written, image =>
    let next := place + blit.planeStride
    if !planeSelected blit.dPlane plane then planesFrom left (plane + 1) next written image
    else if image.words ≤ place.toNat then planesFrom left (plane + 1) next written image
    else do
      let destination ← image.word place
      let image ← image.storeWord place (blit.wordFor memMask latched plane destination)
      planesFrom left (plane + 1) next (written + 1) image

/-- `ap_graphics_blit`. -/
def run (dest : BitVec 32) (image : Image) : Option (ℕ × Image) :=
  blit.planesFrom memMask latched blit.planes 0 dest 0 image

end Blit

/-! ## The controller -/

/-- `ap_graphics_t`. -/
structure Graphics where
  screen : ScreenKind
  reg : GraphicsRegisters := {}
  guardLatch : Fin 8 → BitVec 32 := fun _ => 0
  bltCycle : ℕ := 0
  colourMemory : Option Image := none
  monoMemory : Option Image := none

/-- `ap_graphics_cycle_t`. -/
structure GraphicsCycle where
  planesWritten : ℕ := 0
  blitted : Bool := false
  unknownMode : Bool := false
deriving DecidableEq

namespace Graphics

variable (graphics : Graphics)

/-- The memory of the card that is fitted. -/
def memory : Option Image :=
  if graphics.screen.isColour then graphics.colourMemory else graphics.monoMemory

/-- The memory of the card that is fitted, written. -/
def setMemory (image : Image) : Graphics :=
  if graphics.screen.isColour then { graphics with colourMemory := some image }
  else { graphics with monoMemory := some image }

/-- `ap_graphics_cr2_fields`: the source plane, the mask of the destination planes, and the access. -/
def cr2Fields : ℕ × BitVec 8 × Cr2Access :=
  if !graphics.screen.isColour then (0, 0x0E, cr2Access graphics.reg.cr2)
  else if graphics.screen = .colour8Plane then
    ((graphics.reg.cr2b &&& 0x07).toNat, graphics.reg.cr2, cr2Access graphics.reg.cr2b)
  else (((graphics.reg.cr2 &&& 0x30) >>> 4).toNat, graphics.reg.cr2 &&& 0x0F, cr2Access graphics.reg.cr2)

/-- The source plane. -/
def sPlane : ℕ := graphics.cr2Fields.1

/-- The mask of the destination planes. -/
def dPlane : BitVec 8 := graphics.cr2Fields.2.1

/-- The access mode. -/
def access : Cr2Access := graphics.cr2Fields.2.2

/-- `latch_source`. -/
def latchSource (plane : ℕ) (word : BitVec 16) : Graphics :=
  if 8 ≤ plane then graphics
  else
    { graphics with
      guardLatch := Function.update graphics.guardLatch (Fin.ofNat 8 plane)
        ((graphics.guardLatch (Fin.ofNat 8 plane) <<< 16) ||| word.setWidth 32) }

/-- The loop of `latch_from_memory`. -/
def latchPlanes (planeWords : BitVec 32) (image : Image) :
    ℕ → ℕ → BitVec 32 → Graphics → Option Graphics
  | 0, _, _, graphics => some graphics
  | left + 1, plane, place, graphics => do
    let word ← image.wordOrZero place
    latchPlanes planeWords image left (plane + 1) (place + planeWords) (graphics.latchSource plane word)

/-- `latch_from_memory`. -/
def latchFromMemory (offset : BitVec 32) (geometry : Geometry) (image : Image) : Option Graphics :=
  if geometry.planes = 1 ∨ colourAdBit graphics.reg.cr1 then do
    let word ← image.wordOrZero (offset + geometry.planeWords * BitVec.ofNat 32 graphics.sPlane)
    pure (graphics.latchSource graphics.sPlane word)
  else latchPlanes geometry.planeWords image geometry.planes 0 offset graphics

/-- The blit that the registers ask for. -/
def blit (geometry : Geometry) : Blit :=
  { cr0 := graphics.reg.cr0, cr1 := graphics.reg.cr1, access := graphics.access
    ropRegister := graphics.reg.rop, writeEnable := graphics.reg.writeEnable, dPlane := graphics.dPlane
    sPlane := graphics.sPlane, planes := geometry.planes, planeStride := geometry.planeWords }

/-- A cycle that draws, with what is in the registers and the latches. -/
def draw (geometry : Geometry) (dest : BitVec 32) (memMask : BitVec 16) (image : Image) :
    Option (GraphicsCycle × Graphics) := do
  let (written, image) ← (graphics.blit geometry).run memMask graphics.guardLatch dest image
  pure ({ planesWritten := written, blitted := true }, graphics.setMemory image)

/-- The second cycle of a mode that has two, and the only one of a vector: the data are stored as the write
enables, and drawn with. -/
def drawEnabled (geometry : Geometry) (dest : BitVec 32) (data memMask : BitVec 16) (image : Image) :
    Option (GraphicsCycle × Graphics) :=
  { graphics with reg := { graphics.reg with writeEnable := data } }.draw geometry dest memMask image

/-- Where a double access cycle draws: the data lines carry it, and on the 19-inch board a bit of `CR1`. -/
def doubleAccessDest (data memMask : BitVec 16) : BitVec 32 :=
  (data &&& memMask).setWidth 32 +
    if graphics.screen = .mono19Inch ∧ monoDaddr16 graphics.reg.cr1 then 0x10000 else 0

/-- What a CPU source cycle latches: a byte on the upper lane is moved down. -/
def cpuSource (data memMask : BitVec 16) : BitVec 16 :=
  if memMask = 0xFF00 then (data >>> 8) &&& (memMask >>> 8) else data &&& memMask

/-- `ap_graphics_memory_cycle`, once a card and its memory are there. -/
def cycleOn (geometry : Geometry) (image : Image) (offset : BitVec 32) (data memMask : BitVec 16) :
    Option (GraphicsCycle × Graphics) :=
  match cr0Mode graphics.reg.cr0 with
  | .cpuDestBlt => do
    let word ← image.wordOrZero (offset + geometry.planeWords * BitVec.ofNat 32 graphics.sPlane)
    pure ({}, graphics.latchSource graphics.sPlane word)
  | .alternatingBlt =>
    if graphics.bltCycle = 0 then do
      let latched ← { graphics with bltCycle := 1 }.latchFromMemory offset geometry image
      pure ({}, latched)
    else { graphics with bltCycle := 0 }.drawEnabled geometry offset data memMask image
  | .vector => graphics.drawEnabled geometry offset data memMask image
  | .cpuSourceBlt =>
    if graphics.bltCycle = 0 then
      some ({}, { graphics with bltCycle := 1 }.latchSource graphics.sPlane (cpuSource data memMask))
    else { graphics with bltCycle := 0 }.drawEnabled geometry offset data memMask image
  | .doubleAccessBlt => do
    let latched ← graphics.latchFromMemory offset geometry image
    latched.draw geometry (graphics.doubleAccessDest data memMask) 0xFFFF image
  | .normal =>
    (graphics.latchSource graphics.sPlane (data &&& memMask)).draw geometry offset memMask image
  | .unknown5 | .unknown6 => some ({ unknownMode := true }, graphics)

/-- `ap_graphics_memory_cycle`. -/
def memoryCycle (offset : BitVec 32) (data memMask : BitVec 16) : Option (GraphicsCycle × Graphics) :=
  match geometry graphics.screen, graphics.memory with
  | some geometry, some image => graphics.cycleOn geometry image offset data memMask
  | _, _ => some ({}, graphics)

end Graphics

/-! ## Words of the memory -/

namespace Image

variable (image : Image) {index : BitVec 32} (value : BitVec 16)

/-- The bytes of a word, with zeros past the end. -/
def wordAt (n : ℕ) : BitVec 16 := image.bytes.getD (2 * n) 0 ++ image.bytes.getD (2 * n + 1) 0

variable {image}

theorem place_toNat (h : index.toNat < image.words) :
    (index * 2).toNat = 2 * index.toNat ∧ (index * 2 + 1).toNat = 2 * index.toNat + 1 ∧
      2 * index.toNat + 1 < image.bytes.length := by
  have hsize := image.size_lt
  unfold words at h
  have hplace : (index * 2).toNat = 2 * index.toNat := by
    rw [BitVec.toNat_mul]
    change index.toNat * 2 % 2 ^ 32 = _
    omega
  refine ⟨hplace, ?_, by omega⟩
  rw [BitVec.toNat_add, hplace]
  change (2 * index.toNat + 1) % 2 ^ 32 = _
  omega

theorem word_eq (h : index.toNat < image.words) : image.word index = some (image.wordAt index.toNat) := by
  obtain ⟨hhigh, hlow, hlt⟩ := place_toNat h
  unfold word load wordAt
  rw [hhigh, hlow, List.getElem?_eq_getElem (by omega), List.getElem?_eq_getElem hlt,
    List.getD_eq_getElem _ _ (by omega), List.getD_eq_getElem _ _ hlt]
  rfl

theorem wordOrZero_isSome (image : Image) (index : BitVec 32) :
    ∃ word, image.wordOrZero index = some word := by
  unfold wordOrZero
  split_ifs with h
  · exact ⟨_, word_eq h⟩
  · exact ⟨0, rfl⟩

theorem getD_set (bytes : List (BitVec 8)) {i : ℕ} (hi : i < bytes.length) (j : ℕ) (byte : BitVec 8) :
    (bytes.set i byte).getD j 0 = if j = i then byte else bytes.getD j 0 := by
  rw [List.getD_eq_getElem?_getD, List.getElem?_set, List.getD_eq_getElem?_getD]
  by_cases hj : i = j
  · rw [if_pos hj, if_pos hj.symm, if_pos (hj ▸ hi)]
    rfl
  · rw [if_neg hj, if_neg (Ne.symm hj)]

theorem halves (value : BitVec 16) : (value >>> 8).setWidth 8 ++ value.setWidth 8 = value := by
  refine BitVec.eq_of_getLsbD_eq fun i hi => ?_
  rw [BitVec.getLsbD_append, BitVec.getLsbD_setWidth, BitVec.getLsbD_setWidth, BitVec.getLsbD_ushiftRight]
  by_cases hlow : i < 8
  · rw [if_pos hlow, decide_eq_true hlow, Bool.true_and]
  · rw [if_neg hlow, decide_eq_true (by omega : i - 8 < 8), Bool.true_and]
    congr 1
    omega

/-- A WORD IS WRITTEN, and every other word is as it was. -/
theorem storeWord_eq (image : Image) (index : BitVec 32) (h : index.toNat < image.words) (value : BitVec 16) :
    ∃ image', image.storeWord index value = some image' ∧ image'.bytes.length = image.bytes.length ∧
      ∀ n, image'.wordAt n = if n = index.toNat then value else image.wordAt n := by
  obtain ⟨hhigh, hlow, hlt⟩ := place_toNat h
  have hfirst : (image.set (2 * index.toNat) ((value >>> 8).setWidth 8)).bytes.length =
      image.bytes.length := List.length_set
  unfold storeWord store
  rw [hhigh, hlow, if_pos (by omega)]
  refine ⟨(image.set (2 * index.toNat) ((value >>> 8).setWidth 8)).set (2 * index.toNat + 1)
    (value.setWidth 8), ?_, ?_, fun n => ?_⟩
  · change (if _ < (image.set _ _).bytes.length then _ else _) = _
    rw [if_pos (by omega)]
  · exact List.length_set.trans hfirst
  · unfold wordAt set
    change (image.bytes.set _ _).length = _ at hfirst
    dsimp only
    rw [getD_set _ (by omega), getD_set _ (by omega), getD_set _ (by omega), getD_set _ (by omega)]
    by_cases hn : n = index.toNat
    · subst hn
      rw [if_pos rfl, if_neg (by omega), if_pos rfl, if_pos rfl]
      exact halves value
    · rw [if_neg hn, if_neg (by omega), if_neg (by omega), if_neg (by omega), if_neg (by omega)]

end Image

/-! ## One bit -/

/-- A raster operation on bits: its four bits are its values, the one for two set bits first. -/
def Rop.bit (bits : BitVec 4) (s d : Bool) : Bool := bits.getLsbD (2 * (!s).toNat + (!d).toNat)

/-- The function of a raster operation on one bit. -/
def Rop.onBits (s d : Bool) : Rop → Bool
  | .zero => false
  | .srcAndDst => s && d
  | .srcAndNotDst => s && !d
  | .src => s
  | .notSrcAndDst => !s && d
  | .dst => d
  | .srcXorDst => s ^^ d
  | .srcOrDst => s || d
  | .srcNorDst => !(s || d)
  | .srcXnorDst => !(s ^^ d)
  | .notDst => !d
  | .srcOrNotDst => s || !d
  | .notSrc => !s
  | .notSrcOrDst => !s || d
  | .srcNandDst => !(s && d)
  | .one => true

theorem Rop.apply_onBits (rop : Rop) (s d : BitVec 16) {i : ℕ} (hi : i < 16) :
    (rop.apply s d).getLsbD i = rop.onBits (s.getLsbD i) (d.getLsbD i) := by
  have hone : ∀ i < 16, (0xFFFF : BitVec 16).getLsbD i = true := by decide
  have hzero : ∀ i < 16, (0 : BitVec 16).getLsbD i = false := by decide
  cases rop <;>
    simp only [Rop.apply, Rop.onBits, BitVec.getLsbD_and, BitVec.getLsbD_or, BitVec.getLsbD_xor,
      BitVec.getLsbD_not, hone i hi, hzero i hi, decide_eq_true hi, Bool.true_and]

/-- THE FUNCTION of a raster operation is bit for bit the one that its four bits are. -/
theorem Rop.apply_getLsbD (bits : BitVec 4) (s d : BitVec 16) {i : ℕ} (hi : i < 16) :
    ((Rop.ofBits bits).apply s d).getLsbD i = Rop.bit bits (s.getLsbD i) (d.getLsbD i) := by
  have htable : ∀ (bits : BitVec 4) (s d : Bool), (Rop.ofBits bits).onBits s d = Rop.bit bits s d := by
    decide
  rw [Rop.apply_onBits _ _ _ hi, htable]

/-- What a plane's raster operation makes of a bit. -/
def rasterBit (cr1 : BitVec 8) (ropRegister : BitVec 32) (plane : ℕ) (s d : Bool) : Bool :=
  if ropEn cr1 then Rop.bit (ropBits ropRegister plane) s d else s

theorem ropApply_getLsbD (cr1 : BitVec 8) (ropRegister : BitVec 32) (plane : ℕ)
    (source destination : BitVec 16) {i : ℕ} (hi : i < 16) :
    (ropApply cr1 ropRegister plane source destination).getLsbD i =
      rasterBit cr1 ropRegister plane (source.getLsbD i) (destination.getLsbD i) := by
  unfold ropApply rasterBit
  cases ropEn cr1 with
  | false => rfl
  | true => exact Rop.apply_getLsbD _ _ _ hi

theorem combine_getLsbD (writeEnable memMask source destination : BitVec 16) {i : ℕ} (hi : i < 16) :
    (combine writeEnable memMask source destination).getLsbD i =
      if writeEnable.getLsbD i = false ∧ memMask.getLsbD i = true then source.getLsbD i
      else destination.getLsbD i := by
  unfold combine
  simp only [BitVec.getLsbD_or, BitVec.getLsbD_and, BitVec.getLsbD_not, decide_eq_true hi, Bool.true_and]
  cases writeEnable.getLsbD i <;> cases memMask.getLsbD i <;> cases source.getLsbD i <;>
    cases destination.getLsbD i <;> rfl

/-! ## The planes -/

namespace Blit

variable (blit : Blit) (memMask : BitVec 16) (latched : Fin 8 → BitVec 32)

/-- The word of a plane, so many planes after the first. -/
def wordOf (place : BitVec 32) (k : ℕ) : ℕ := (place + BitVec.ofNat 32 k * blit.planeStride).toNat

/-- Words are drawn in the planes that are selected, where there is memory, and nowhere else. -/
structure Drawn (left plane : ℕ) (place : BitVec 32) (image image' : Image) : Prop where
  size : image'.bytes.length = image.bytes.length
  drawn : ∀ k < left, planeSelected blit.dPlane (plane + k) = true → blit.wordOf place k < image.words →
    image'.wordAt (blit.wordOf place k) =
      blit.wordFor memMask latched (plane + k) (image.wordAt (blit.wordOf place k))
  kept : ∀ n, (∀ k < left, planeSelected blit.dPlane (plane + k) = true → n < image.words →
    n ≠ blit.wordOf place k) → image'.wordAt n = image.wordAt n

variable {blit} {memMask} {latched}

theorem wordOf_succ (place : BitVec 32) (k : ℕ) :
    blit.wordOf place (k + 1) = blit.wordOf (place + blit.planeStride) k := by
  unfold wordOf
  rw [BitVec.ofNat_add, BitVec.add_mul, show BitVec.ofNat 32 1 * blit.planeStride = blit.planeStride from
    BitVec.one_mul _, BitVec.add_comm (BitVec.ofNat 32 k * blit.planeStride), ← BitVec.add_assoc]

theorem wordOf_zero (place : BitVec 32) : blit.wordOf place 0 = place.toNat := by
  unfold wordOf
  simp

theorem wordOf_ne {left k : ℕ} {place : BitVec 32} (hpos : 0 < blit.planeStride.toNat)
    (hfits : (left + 1) * blit.planeStride.toNat ≤ 2 ^ 32) (hk : k < left) :
    blit.wordOf place (k + 1) ≠ place.toNat := by
  intro heq
  have hplace : place + BitVec.ofNat 32 (k + 1) * blit.planeStride = place := BitVec.eq_of_toNat_eq heq
  have hzero := congrArg BitVec.toNat (add_eq_left.mp hplace)
  have hle : (k + 1) * blit.planeStride.toNat ≤ left * blit.planeStride.toNat := Nat.mul_le_mul_right _ hk
  rw [Nat.succ_mul] at hfits
  have hlarge : k + 1 ≤ (k + 1) * blit.planeStride.toNat := Nat.le_mul_of_pos_right _ hpos
  rw [BitVec.toNat_mul, BitVec.toNat_ofNat, Nat.mod_eq_of_lt (by omega : k + 1 < 2 ^ 32),
    Nat.mod_eq_of_lt (by omega : (k + 1) * blit.planeStride.toNat < 2 ^ 32)] at hzero
  have hnone : (k + 1) * blit.planeStride.toNat = 0 := hzero
  omega

theorem Drawn.skip {left plane : ℕ} {place : BitVec 32} {image image' : Image}
    (h : blit.Drawn memMask latched left (plane + 1) (place + blit.planeStride) image image')
    (hskip : planeSelected blit.dPlane plane = true → image.words ≤ place.toNat) :
    blit.Drawn memMask latched (left + 1) plane place image image' := by
  refine ⟨h.size, fun k hk hselected hword => ?_, fun n hn => h.kept n fun k hk hselected hword => ?_⟩
  · cases k with
    | zero =>
      rw [wordOf_zero] at hword
      exact absurd (hskip hselected) (by omega)
    | succ k =>
      rw [wordOf_succ] at hword ⊢
      rw [show plane + (k + 1) = plane + 1 + k by omega] at hselected ⊢
      exact h.drawn k (by omega) hselected hword
  · rw [← wordOf_succ]
    exact hn (k + 1) (by omega) (by rwa [show plane + (k + 1) = plane + 1 + k by omega]) hword

/-- THE LOOP over the planes draws what it is told to, and never leaves the memory. -/
theorem planesFrom_drawn (blit : Blit) (memMask : BitVec 16) (latched : Fin 8 → BitVec 32)
    (hpos : 0 < blit.planeStride.toNat) :
    ∀ (left plane : ℕ) (place : BitVec 32) (written : ℕ) (image : Image),
      left * blit.planeStride.toNat ≤ 2 ^ 32 →
      ∃ written' image', blit.planesFrom memMask latched left plane place written image =
        some (written', image') ∧ blit.Drawn memMask latched left plane place image image' := by
  intro left
  induction left with
  | zero =>
    intro plane place written image _
    exact ⟨written, image, rfl, rfl, fun k hk => absurd hk (Nat.not_lt_zero k), fun n _ => rfl⟩
  | succ left ih =>
    intro plane place written image hfits
    have hrest : left * blit.planeStride.toNat ≤ 2 ^ 32 := by
      rw [Nat.succ_mul] at hfits
      omega
    unfold planesFrom
    by_cases hselected : planeSelected blit.dPlane plane = true
    · rw [hselected, if_neg (by decide)]
      by_cases hplace : image.words ≤ place.toNat
      · rw [if_pos hplace]
        obtain ⟨written', image', hrun, hdrawn⟩ :=
          ih (plane + 1) (place + blit.planeStride) written image hrest
        exact ⟨written', image', hrun, hdrawn.skip fun _ => hplace⟩
      · rw [if_neg hplace, Image.word_eq (by omega)]
        obtain ⟨middle, hstore, hsize, hwords⟩ := image.storeWord_eq place (by omega)
          (blit.wordFor memMask latched plane (image.wordAt place.toNat))
        obtain ⟨written', image', hrun, hdrawn⟩ :=
          ih (plane + 1) (place + blit.planeStride) (written + 1) middle hrest
        have hmiddle : middle.words = image.words := by
          unfold Image.words
          rw [hsize]
        refine ⟨written', image', ?_, hdrawn.size.trans hsize, fun k hk hplane hword => ?_, fun n hn => ?_⟩
        · change (image.storeWord place _).bind _ = _
          rw [hstore]
          exact hrun
        · cases k with
          | zero =>
            rw [wordOf_zero, Nat.add_zero, hdrawn.kept _ fun k hk _ _ => ?_, hwords, if_pos rfl]
            rw [← wordOf_succ]
            exact (wordOf_ne hpos hfits hk).symm
          | succ k =>
            rw [wordOf_succ] at hword ⊢
            rw [show plane + (k + 1) = plane + 1 + k by omega] at hplane ⊢
            rw [hdrawn.drawn k (by omega) hplane (by omega), hwords, if_neg]
            rw [← wordOf_succ]
            exact wordOf_ne hpos hfits (by omega)
        · have hfirst : ¬ n = place.toNat := fun heq =>
            hn 0 (by omega) hselected (by omega) (by rw [wordOf_zero]; exact heq)
          rw [hdrawn.kept n fun k hk hplane hword => ?_, hwords, if_neg hfirst]
          rw [← wordOf_succ]
          exact hn (k + 1) (by omega) (by rwa [show plane + (k + 1) = plane + 1 + k by omega]) (by omega)
    · rw [Bool.not_eq_true] at hselected
      rw [hselected, if_pos (by decide)]
      obtain ⟨written', image', hrun, hdrawn⟩ :=
        ih (plane + 1) (place + blit.planeStride) written image hrest
      exact ⟨written', image', hrun, hdrawn.skip fun h => by rw [hselected] at h; exact nomatch h⟩

end Blit

end Apollo.Board
