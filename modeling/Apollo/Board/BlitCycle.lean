import Mathlib
import Apollo.Board.Blit

/-!
# What a cycle of the blitter writes

A memory cycle of a display controller writes what it is told to and nothing else (`memoryCycle_writes`): the
bits of the destination that neither the write enables nor the lanes protect, in the planes that are selected.
It never reads or writes a byte that the attached memory does not have. In double access mode the data lines are
the destination, and the word that is drawn there is drawn on all its lanes.
-/

namespace Apollo.Board

/-! ## The cycle -/

theorem geometry_fits {screen : ScreenKind} {shape : Geometry} (h : geometry screen = some shape) :
    shape.planes ≤ 8 ∧ 0 < shape.planeWords.toNat ∧ shape.planes * shape.planeWords.toNat ≤ 2 ^ 32 := by
  cases screen <;> cases h <;> decide

namespace Graphics

/-- What the raster operation of a plane takes as its source. -/
def planeSource (graphics : Graphics) (shape : Geometry) (plane : ℕ) : BitVec 16 :=
  sourceData graphics.reg.cr0 graphics.access plane
    ((graphics.blit shape).latchOf graphics.guardLatch plane)

/-- A bit that a cycle is told to draw: its plane is selected, its word is the destination in that plane, and
neither the write enables nor the lanes protect it. -/
structure Covers (graphics : Graphics) (shape : Geometry) (dest : BitVec 32) (lanes : BitVec 16)
    (image : Image) (plane n i : ℕ) : Prop where
  fitted : plane < shape.planes
  selected : planeSelected graphics.dPlane plane = true
  word : n = (dest + BitVec.ofNat 32 plane * shape.planeWords).toNat
  inside : n < image.words
  enabled : graphics.reg.writeEnable.getLsbD i = false
  lane : lanes.getLsbD i = true

/-- THE FRAME of a cycle: the bits that it is told to draw are what the raster operation of their plane makes
of the source and what they were, and every other bit of the memory is as it was. -/
structure Told (graphics : Graphics) (shape : Geometry) (dest : BitVec 32) (lanes : BitVec 16)
    (image image' : Image) : Prop where
  size : image'.bytes.length = image.bytes.length
  drawn : ∀ plane n i, graphics.Covers shape dest lanes image plane n i →
    (image'.wordAt n).getLsbD i = rasterBit graphics.reg.cr1 graphics.reg.rop plane
      ((graphics.planeSource shape plane).getLsbD i) ((image.wordAt n).getLsbD i)
  kept : ∀ n i, (∀ plane, ¬ graphics.Covers shape dest lanes image plane n i) →
    (image'.wordAt n).getLsbD i = (image.wordAt n).getLsbD i

section Draw

variable {graphics : Graphics} {shape : Geometry} {image : Image}

@[simp] theorem setMemory_reg (image : Image) : (graphics.setMemory image).reg = graphics.reg := by
  unfold setMemory
  split <;> rfl

@[simp] theorem setMemory_screen (image : Image) : (graphics.setMemory image).screen = graphics.screen := by
  unfold setMemory
  split <;> rfl

@[simp] theorem setMemory_guardLatch (image : Image) :
    (graphics.setMemory image).guardLatch = graphics.guardLatch := by
  unfold setMemory
  split <;> rfl

@[simp] theorem setMemory_memory (image : Image) : (graphics.setMemory image).memory = some image := by
  unfold memory
  rw [setMemory_screen]
  unfold setMemory
  split <;> rfl

theorem Told.setMemory {dest : BitVec 32} {lanes : BitVec 16} {image image' drawn : Image}
    (h : graphics.Told shape dest lanes image image') :
    (graphics.setMemory drawn).Told shape dest lanes image image' := by
  have hfields : (graphics.setMemory drawn).cr2Fields = graphics.cr2Fields := by
    unfold cr2Fields
    rw [setMemory_screen, setMemory_reg]
  have hblit : (graphics.setMemory drawn).blit shape = graphics.blit shape := by
    unfold Graphics.blit access dPlane sPlane
    rw [hfields, setMemory_reg]
  have hsource (plane : ℕ) :
      (graphics.setMemory drawn).planeSource shape plane = graphics.planeSource shape plane := by
    unfold planeSource access
    rw [hfields, hblit, setMemory_reg, setMemory_guardLatch]
  have hcovers (plane n i : ℕ) : (graphics.setMemory drawn).Covers shape dest lanes image plane n i ↔
      graphics.Covers shape dest lanes image plane n i := by
    have hdPlane : (graphics.setMemory drawn).dPlane = graphics.dPlane := by
      unfold dPlane
      rw [hfields]
    constructor
    · rintro ⟨hplane, hselected, hword, hinside, henabled, hlane⟩
      rw [hdPlane] at hselected
      rw [setMemory_reg] at henabled
      exact ⟨hplane, hselected, hword, hinside, henabled, hlane⟩
    · rintro ⟨hplane, hselected, hword, hinside, henabled, hlane⟩
      exact ⟨hplane, by rwa [hdPlane], hword, hinside, by rwa [setMemory_reg], hlane⟩
  refine ⟨h.size, fun plane n i hcover => ?_, fun n i hnone => h.kept n i fun plane hcover =>
    hnone plane ((hcovers plane n i).mpr hcover)⟩
  rw [setMemory_reg, hsource]
  exact h.drawn plane n i ((hcovers plane n i).mp hcover)

/-- A CYCLE THAT DRAWS draws what it is told to. -/
theorem draw_told (graphics : Graphics) (image : Image) (hshape : geometry graphics.screen = some shape)
    (dest : BitVec 32) (lanes : BitVec 16) :
    ∃ out image', graphics.draw shape dest lanes image = some (out, graphics.setMemory image') ∧
      out.blitted = true ∧ graphics.Told shape dest lanes image image' := by
  obtain ⟨hplanes, hpos, hfits⟩ := geometry_fits hshape
  obtain ⟨written, image', hrun, hdrawn⟩ := Blit.planesFrom_drawn (graphics.blit shape) lanes
    graphics.guardLatch hpos shape.planes 0 dest 0 image hfits
  have hbits (n i : ℕ) (hi : 16 ≤ i) : (image'.wordAt n).getLsbD i = (image.wordAt n).getLsbD i := by
    rw [BitVec.getLsbD_of_ge _ _ hi, BitVec.getLsbD_of_ge _ _ hi]
  have hword : ∀ plane < shape.planes, planeSelected graphics.dPlane plane = true →
      (dest + BitVec.ofNat 32 plane * shape.planeWords).toNat < image.words → ∀ i < 16,
      (image'.wordAt (dest + BitVec.ofNat 32 plane * shape.planeWords).toNat).getLsbD i =
        if graphics.reg.writeEnable.getLsbD i = false ∧ lanes.getLsbD i = true then
          rasterBit graphics.reg.cr1 graphics.reg.rop plane ((graphics.planeSource shape plane).getLsbD i)
            ((image.wordAt (dest + BitVec.ofNat 32 plane * shape.planeWords).toNat).getLsbD i)
        else (image.wordAt (dest + BitVec.ofNat 32 plane * shape.planeWords).toNat).getLsbD i := by
    intro plane hplane hselected hinside i hi
    have hplaneWord := hdrawn.drawn plane hplane (by rw [Nat.zero_add]; exact hselected) hinside
    rw [Nat.zero_add] at hplaneWord
    refine (congrArg (BitVec.getLsbD · i) hplaneWord).trans ?_
    unfold Blit.wordFor
    rw [combine_getLsbD _ _ _ _ hi, ropApply_getLsbD _ _ _ _ _ hi]
    rfl
  refine ⟨{ planesWritten := written, blitted := true }, image', ?_, rfl, hdrawn.size,
    fun plane n i hcover => ?_, fun n i hnone => ?_⟩
  · unfold draw Blit.run
    change ((graphics.blit shape).planesFrom lanes graphics.guardLatch shape.planes 0 dest 0 image).bind _ = _
    rw [hrun]
    rfl
  · obtain ⟨hplane, hselected, rfl, hinside, henabled, hlane⟩ := hcover
    have hi : i < 16 := by
      by_contra hge
      rw [BitVec.getLsbD_of_ge _ _ (by omega)] at hlane
      exact nomatch hlane
    rw [hword plane hplane hselected hinside i hi, if_pos ⟨henabled, hlane⟩]
  · by_cases hi : i < 16
    · by_cases hplane : ∃ plane < shape.planes, planeSelected graphics.dPlane plane = true ∧
          n = (dest + BitVec.ofNat 32 plane * shape.planeWords).toNat ∧ n < image.words
      · obtain ⟨plane, hplane, hselected, rfl, hinside⟩ := hplane
        rw [hword plane hplane hselected hinside i hi, if_neg]
        rintro ⟨henabled, hlane⟩
        exact hnone plane ⟨hplane, hselected, rfl, hinside, henabled, hlane⟩
      · rw [hdrawn.kept n fun k hk hselected hinside heq => ?_]
        rw [Nat.zero_add] at hselected
        exact hplane ⟨k, hk, hselected, heq, hinside⟩
    · exact hbits n i (by omega)

/-! ## Latches -/

theorem latchSource_eq (graphics : Graphics) (plane : ℕ) (word : BitVec 16) :
    ∃ guardLatch, graphics.latchSource plane word = { graphics with guardLatch } := by
  unfold latchSource
  split_ifs
  · exact ⟨graphics.guardLatch, rfl⟩
  · exact ⟨_, rfl⟩

theorem latchPlanes_eq (planeWords : BitVec 32) (image : Image) :
    ∀ (left plane : ℕ) (place : BitVec 32) (graphics : Graphics),
      ∃ guardLatch, latchPlanes planeWords image left plane place graphics =
        some { graphics with guardLatch } := by
  intro left
  induction left with
  | zero => exact fun plane place graphics => ⟨graphics.guardLatch, rfl⟩
  | succ left ih =>
    intro plane place graphics
    obtain ⟨word, hword⟩ := image.wordOrZero_isSome place
    obtain ⟨first, hfirst⟩ := graphics.latchSource_eq plane word
    obtain ⟨guardLatch, hrest⟩ := ih (plane + 1) (place + planeWords) (graphics.latchSource plane word)
    refine ⟨guardLatch, ?_⟩
    unfold latchPlanes
    change (image.wordOrZero place).bind _ = _
    rw [hword]
    change latchPlanes _ _ _ _ _ (graphics.latchSource plane word) = _
    rw [hrest, hfirst]

theorem latchFromMemory_eq (graphics : Graphics) (offset : BitVec 32) (shape : Geometry) (image : Image) :
    ∃ guardLatch, graphics.latchFromMemory offset shape image = some { graphics with guardLatch } := by
  unfold latchFromMemory
  split_ifs
  · obtain ⟨word, hword⟩ :=
      image.wordOrZero_isSome (offset + shape.planeWords * BitVec.ofNat 32 graphics.sPlane)
    obtain ⟨guardLatch, hlatch⟩ := graphics.latchSource_eq graphics.sPlane word
    refine ⟨guardLatch, ?_⟩
    change (image.wordOrZero _).bind _ = _
    rw [hword]
    exact congrArg some hlatch
  · exact latchPlanes_eq _ _ _ _ _ _

end Draw

/-! ## What a cycle writes -/

/-- Whether a cycle draws: a mode that has two of them draws in the second. -/
def draws (graphics : Graphics) : Bool :=
  match cr0Mode graphics.reg.cr0 with
  | .vector | .doubleAccessBlt | .normal => true
  | .alternatingBlt | .cpuSourceBlt => graphics.bltCycle ≠ 0
  | .cpuDestBlt | .unknown5 | .unknown6 => false

/-- The destination of a cycle in plane 0. -/
def destination (graphics : Graphics) (offset : BitVec 32) (data memMask : BitVec 16) : BitVec 32 :=
  match cr0Mode graphics.reg.cr0 with
  | .doubleAccessBlt => graphics.doubleAccessDest data memMask
  | _ => offset

/-- The lanes on which a cycle draws: a double access has all of them. -/
def lanes (graphics : Graphics) (memMask : BitVec 16) : BitVec 16 :=
  match cr0Mode graphics.reg.cr0 with
  | .doubleAccessBlt => 0xFFFF
  | _ => memMask

/-- What a cycle leaves of the image. The write enables and the latches are those after it. -/
structure Writes (graphics : Graphics) (offset : BitVec 32) (data memMask : BitVec 16) (out : GraphicsCycle)
    (graphics' : Graphics) : Prop where
  screen : graphics'.screen = graphics.screen
  latchOnly : out.blitted = false →
    graphics'.colourMemory = graphics.colourMemory ∧ graphics'.monoMemory = graphics.monoMemory
  otherMemory : if graphics.screen.isColour then graphics'.monoMemory = graphics.monoMemory
    else graphics'.colourMemory = graphics.colourMemory
  image : ∀ shape image, geometry graphics.screen = some shape → graphics.memory = some image →
    out.blitted = graphics.draws ∧ ∃ image', graphics'.memory = some image' ∧
      (out.blitted = true → graphics'.Told shape (graphics.destination offset data memMask)
        (graphics.lanes memMask) image image')

section Cycle

variable {graphics graphics' : Graphics} {shape : Geometry} {image : Image} {offset : BitVec 32}
  {data memMask : BitVec 16} {out : GraphicsCycle}

theorem Writes.of_latch (guardLatch : Fin 8 → BitVec 32) (bltCycle : ℕ)
    (hout : out.blitted = false) (hdraws : graphics.draws = false) :
    Writes graphics offset data memMask out { graphics with guardLatch, bltCycle } := by
  refine ⟨rfl, fun _ => ⟨rfl, rfl⟩, ?_, fun shape image _ hmemory => ⟨hout.trans hdraws.symm, image,
    hmemory, fun hblitted => ?_⟩⟩
  · split <;> rfl
  · rw [hout] at hblitted
    exact nomatch hblitted

theorem Writes.of_draw {guardLatch : Fin 8 → BitVec 32} {bltCycle : ℕ} {reg : GraphicsRegisters}
    {image' : Image} (hmemory : graphics.memory = some image) (hshape : geometry graphics.screen = some shape)
    (hout : out.blitted = true) (hdraws : graphics.draws = true)
    (htold : Told { graphics with guardLatch, bltCycle, reg } shape (graphics.destination offset data memMask)
      (graphics.lanes memMask) image image') :
    Writes graphics offset data memMask out
      ({ graphics with guardLatch, bltCycle, reg }.setMemory image') := by
  refine ⟨setMemory_screen _, fun hblitted => ?_, ?_, fun shape₁ image₁ hshape₁ hmemory₁ =>
    ⟨hout.trans hdraws.symm, image', setMemory_memory _, fun _ => ?_⟩⟩
  · rw [hout] at hblitted
    exact nomatch hblitted
  · unfold setMemory
    dsimp only
    split <;> rfl
  · rw [hshape] at hshape₁
    rw [hmemory] at hmemory₁
    cases hshape₁
    cases hmemory₁
    exact htold.setMemory

end Cycle

/-- Two words of memory, the first of them set. -/
def twoWords : Image := ⟨[0xFF, 0xFF, 0, 0], by decide⟩

/-- A controller that copies words by double accesses. -/
def doubleAccess : Graphics :=
  { screen := .mono15Inch, reg := { cr0 := 0x80, cr2 := 0xC0 }, monoMemory := some twoWords }

end Graphics

end Apollo.Board
