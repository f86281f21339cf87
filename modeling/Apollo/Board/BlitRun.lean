import Mathlib
import Apollo.Board.BlitCycle

/-!
# Runs of shifted blits

A copy of pixels that are not aligned: words of a source row go through the guard latches one after another, and
each goes to the destination with what the shift takes over from the word before it. A run is made of alternating
blits or of double accesses, with plane access and the source raster operation.

What a run leaves is first said by the word (`copyRun_copied`), for any words in any order. A row that is walked
upwards with a count below 16, or downwards with one from 16 on, is then the source as one stream of bits,
displaced by the count as a signed number (`shifted_copy`).
-/

namespace Apollo.Board

/-! ## A run -/

/-- `ap_graphics_cr0_shift_signed`. -/
def cr0ShiftSigned (cr0 : BitVec 8) : ℤ :=
  if 16 ≤ cr0Shift cr0 then (cr0Shift cr0 : ℤ) - 32 else cr0Shift cr0

/-- One word of a run: where it is from, where it goes, and the write enables it is drawn with. The data and
the lanes of the cycle that only carries the source address are not looked at. -/
structure CopyStep where
  source : BitVec 32
  dest : BitVec 32
  enables : BitVec 16
  data : BitVec 16 := 0
  lanes : BitVec 16 := 0xFFFF
deriving DecidableEq

namespace Graphics

/-- The cycles with which a word is copied: the two of an alternating blit, or the write enables and a double
access. -/
def copyWord (graphics : Graphics) (step : CopyStep) : Option Graphics :=
  match cr0Mode graphics.reg.cr0 with
  | .alternatingBlt => do
    let (_, latched) ← graphics.memoryCycle step.source step.data step.lanes
    let (_, drawn) ← latched.memoryCycle step.dest step.enables 0xFFFF
    pure drawn
  | _ => do
    let (_, drawn) ← { graphics with reg := { graphics.reg with writeEnable := step.enables } }.memoryCycle
      step.source (step.dest.setWidth 16) 0xFFFF
    pure drawn

/-- A run. -/
def copyRun : List CopyStep → Graphics → Option Graphics
  | [], graphics => some graphics
  | step :: steps, graphics => do
    let next ← graphics.copyWord step
    copyRun steps next

/-- The latch that a plane is drawn from. -/
def latchOf (graphics : Graphics) (shape : Geometry) (plane : ℕ) : ℕ :=
  if shape.planes = 1 ∨ colourAdBit graphics.reg.cr1 then graphics.sPlane else plane

/-- A word of the fitted card's memory, or zero where there is none. -/
def sourceWord (graphics : Graphics) (n : ℕ) : BitVec 16 :=
  match graphics.memory with
  | some image => if n < image.words then image.wordAt n else 0
  | none => 0

/-- Where a word is in a plane. -/
def inPlane (shape : Geometry) (place : BitVec 32) (plane : ℕ) : ℕ :=
  (place + BitVec.ofNat 32 plane * shape.planeWords).toNat

/-- The words that a run feeds to the latch of a plane. -/
def fed (shape : Geometry) (latch : ℕ) : List CopyStep → Graphics → List (BitVec 16)
  | [], _ => []
  | step :: steps, graphics =>
    graphics.sourceWord (inPlane shape step.source latch) ::
      match graphics.copyWord step with
      | some next => fed shape latch steps next
      | none => []

/-- A controller that is set up for a run. -/
structure Copies (graphics : Graphics) (shape : Geometry) : Prop where
  fitted : geometry graphics.screen = some shape
  memory : graphics.memory.isSome = true
  mode : (cr0Mode graphics.reg.cr0 = .alternatingBlt ∧ graphics.bltCycle = 0) ∨
    cr0Mode graphics.reg.cr0 = .doubleAccessBlt
  access : graphics.access = .planeAccess
  rop : ∀ plane < shape.planes, ropEn graphics.reg.cr1 = true → ropFor graphics.reg.rop plane = .src

/-- A destination that the data lines of a double access can carry. -/
def Carries (graphics : Graphics) (dest : BitVec 32) : Prop :=
  cr0Mode graphics.reg.cr0 = .doubleAccessBlt →
    graphics.doubleAccessDest (dest.setWidth 16) 0xFFFF = dest

/-- The word that the shift makes of a word and the one that was latched before it. -/
def shifted (cr0 : BitVec 8) (before word : BitVec 16) : BitVec 16 :=
  sourceData cr0 .planeAccess 0 ((before.setWidth 32 <<< 16) ||| word.setWidth 32)

/-- A word that is drawn where the write enables are clear. -/
def drawnWith (enables word old : BitVec 16) : BitVec 16 := (old &&& enables) ||| (word &&& ~~~enables)

/-! ## Latches -/

section Latch

variable {graphics : Graphics} {shape : Geometry} {image : Image}

theorem sPlane_lt (h : geometry graphics.screen = some shape) : graphics.sPlane < shape.planes := by
  have hthree : ∀ cr : BitVec 8, (cr &&& 0x07).toNat < 8 := by decide
  have htwo : ∀ cr : BitVec 8, ((cr &&& 0x30) >>> 4).toNat < 4 := by decide
  unfold sPlane cr2Fields
  rcases hscreen : graphics.screen <;> rw [hscreen] at h <;> cases h
  · exact htwo _
  · exact Nat.one_pos
  · exact hthree _
  · exact Nat.one_pos

theorem latchOf_lt (h : geometry graphics.screen = some shape) {plane : ℕ} (hplane : plane < shape.planes) :
    graphics.latchOf shape plane < shape.planes := by
  unfold latchOf
  split_ifs
  · exact sPlane_lt h
  · exact hplane

theorem wordOrZero_eq (hmemory : graphics.memory = some image) (index : BitVec 32) :
    image.wordOrZero index = some (graphics.sourceWord index.toNat) := by
  unfold Image.wordOrZero sourceWord
  rw [hmemory]
  dsimp only
  split_ifs with h
  · exact Image.word_eq h
  · rfl

theorem latchSource_latch {plane : ℕ} (hplane : plane < 8) (word : BitVec 16) :
    graphics.latchSource plane word =
      { graphics with
        guardLatch := fun q =>
          if q.val = plane then (graphics.guardLatch q <<< 16) ||| word.setWidth 32
          else graphics.guardLatch q } := by
  have hself : (Fin.ofNat 8 plane).val = plane := Nat.mod_eq_of_lt hplane
  have hlatch : Function.update graphics.guardLatch (Fin.ofNat 8 plane)
      ((graphics.guardLatch (Fin.ofNat 8 plane) <<< 16) ||| word.setWidth 32) =
      fun q => if q.val = plane then (graphics.guardLatch q <<< 16) ||| word.setWidth 32
        else graphics.guardLatch q := by
    funext q
    by_cases hq : q.val = plane
    · obtain rfl : q = Fin.ofNat 8 plane := Fin.ext (hq.trans hself.symm)
      rw [Function.update_self, if_pos hq]
    · rw [Function.update_of_ne fun heq => hq ((congrArg Fin.val heq).trans hself), if_neg hq]
  unfold latchSource
  rw [if_neg (by omega), hlatch]

theorem latchPlanes_latch (word : BitVec 32 → BitVec 16)
    (hword : ∀ index, image.wordOrZero index = some (word index)) :
    ∀ (left plane : ℕ) (place : BitVec 32) (graphics : Graphics), plane + left ≤ 8 →
      latchPlanes shape.planeWords image left plane place graphics =
        some { graphics with
          guardLatch := fun q =>
            if plane ≤ q.val ∧ q.val < plane + left then
              (graphics.guardLatch q <<< 16) |||
                (word (place + BitVec.ofNat 32 (q.val - plane) * shape.planeWords)).setWidth 32
            else graphics.guardLatch q } := by
  intro left
  induction left with
  | zero =>
    intro plane place graphics _
    have hnone : (fun q : Fin 8 => if plane ≤ q.val ∧ q.val < plane + 0 then
        (graphics.guardLatch q <<< 16) |||
          (word (place + BitVec.ofNat 32 (q.val - plane) * shape.planeWords)).setWidth 32
        else graphics.guardLatch q) = graphics.guardLatch := funext fun q => if_neg (by omega)
    rw [hnone]
    rfl
  | succ left ih =>
    intro plane place graphics hle
    unfold latchPlanes
    change (image.wordOrZero place).bind _ = _
    rw [hword, Option.bind_some, latchSource_latch (by omega), ih _ _ _ (by omega)]
    refine congrArg (fun latch => some { graphics with guardLatch := latch }) (funext fun q => ?_)
    dsimp only
    by_cases hq : q.val = plane
    · rw [if_neg (by omega), if_pos hq, if_pos (by omega), hq, Nat.sub_self]
      simp
    · by_cases hlater : plane + 1 ≤ q.val ∧ q.val < plane + 1 + left
      · have hplace : place + shape.planeWords + BitVec.ofNat 32 (q.val - (plane + 1)) * shape.planeWords =
            place + BitVec.ofNat 32 (q.val - plane) * shape.planeWords := by
          rw [show q.val - plane = q.val - (plane + 1) + 1 by omega, BitVec.ofNat_add, BitVec.add_mul,
            show BitVec.ofNat 32 1 * shape.planeWords = shape.planeWords from BitVec.one_mul _,
            BitVec.add_comm (BitVec.ofNat 32 _ * shape.planeWords), ← BitVec.add_assoc]
        rw [if_pos hlater, if_neg hq, if_pos (by omega), hplace]
      · rw [if_neg hlater, if_neg hq, if_neg (by omega)]

/-- The latches after a word was latched from memory: each plane's, or only the source plane's, has taken in the
word of its own plane. -/
def latchedFrom (graphics : Graphics) (shape : Geometry) (offset : BitVec 32) : Fin 8 → BitVec 32 := fun q =>
  if if shape.planes = 1 ∨ colourAdBit graphics.reg.cr1 then q.val = graphics.sPlane else q.val < shape.planes
  then (graphics.guardLatch q <<< 16) ||| (graphics.sourceWord (inPlane shape offset q.val)).setWidth 32
  else graphics.guardLatch q

theorem latchFromMemory_latch (graphics : Graphics) (hshape : geometry graphics.screen = some shape)
    (hmemory : graphics.memory = some image) (offset : BitVec 32) :
    graphics.latchFromMemory offset shape image =
      some { graphics with guardLatch := graphics.latchedFrom shape offset } := by
  obtain ⟨height, -, -⟩ := geometry_fits hshape
  unfold latchFromMemory latchedFrom
  by_cases hbroadcast : shape.planes = 1 ∨ colourAdBit graphics.reg.cr1
  · have hlt := sPlane_lt hshape
    rw [if_pos hbroadcast]
    simp only [if_pos hbroadcast]
    change (image.wordOrZero _).bind _ = _
    rw [wordOrZero_eq hmemory, Option.bind_some, latchSource_latch (by omega), BitVec.mul_comm]
    refine congrArg (fun latch => some { graphics with guardLatch := latch }) (funext fun q => ?_)
    split_ifs with hq
    · rw [hq]
      rfl
    · rfl
  · rw [if_neg hbroadcast]
    simp only [if_neg hbroadcast]
    rw [latchPlanes_latch _ (wordOrZero_eq hmemory) _ _ _ _ (by omega)]
    refine congrArg (fun latch => some { graphics with guardLatch := latch }) (funext fun q => ?_)
    by_cases hq : q.val < shape.planes
    · rw [if_pos hq, if_pos (by omega)]
      rfl
    · rw [if_neg hq, if_neg (by omega)]

/-- THE LATCH that a plane is drawn from has taken in the word of its source. -/
theorem latchedFrom_latchOf (hshape : geometry graphics.screen = some shape) (offset : BitVec 32) {plane : ℕ}
    (hplane : plane < shape.planes) :
    graphics.latchedFrom shape offset (Fin.ofNat 8 (graphics.latchOf shape plane)) =
      (graphics.guardLatch (Fin.ofNat 8 (graphics.latchOf shape plane)) <<< 16) |||
        (graphics.sourceWord (inPlane shape offset (graphics.latchOf shape plane))).setWidth 32 := by
  obtain ⟨height, -, -⟩ := geometry_fits hshape
  have hlt := latchOf_lt hshape hplane
  have hval : (Fin.ofNat 8 (graphics.latchOf shape plane)).val = graphics.latchOf shape plane :=
    Nat.mod_eq_of_lt (by omega)
  unfold latchedFrom
  rw [hval, if_pos]
  by_cases hbroadcast : shape.planes = 1 ∨ colourAdBit graphics.reg.cr1
  · rw [if_pos hbroadcast]
    unfold latchOf
    exact if_pos hbroadcast
  · rw [if_neg hbroadcast]
    exact hlt

end Latch

/-! ## One word -/

section Word

variable {graphics next : Graphics} {shape : Geometry} {image : Image} {step : CopyStep}

theorem drawnWith_getLsbD (enables word old : BitVec 16) {i : ℕ} (hi : i < 16) :
    (drawnWith enables word old).getLsbD i =
      if enables.getLsbD i = false then word.getLsbD i else old.getLsbD i := by
  unfold drawnWith
  rw [BitVec.getLsbD_or, BitVec.getLsbD_and, BitVec.getLsbD_and, BitVec.getLsbD_not, decide_eq_true hi,
    Bool.true_and]
  cases enables.getLsbD i <;> cases word.getLsbD i <;> cases old.getLsbD i <;> rfl

theorem rasterBit_src {cr1 : BitVec 8} {rop : BitVec 32} {plane : ℕ}
    (h : ropEn cr1 = true → ropFor rop plane = .src) (s d : Bool) : rasterBit cr1 rop plane s d = s := by
  have htable : ∀ bits : BitVec 4, Rop.ofBits bits = .src → ∀ s d : Bool, Rop.bit bits s d = s := by decide
  unfold rasterBit
  split_ifs with henabled
  · exact htable _ (h henabled) s d
  · rfl

theorem latched_low (latch : BitVec 32) : (latch.setWidth 16).setWidth 32 <<< 16 = latch <<< 16 := by
  refine BitVec.eq_of_getLsbD_eq fun i hi => ?_
  rw [BitVec.getLsbD_shiftLeft, BitVec.getLsbD_shiftLeft, BitVec.getLsbD_setWidth, BitVec.getLsbD_setWidth]
  by_cases hlow : i < 16
  · rw [decide_eq_true hlow]
    simp
  · rw [decide_eq_true (by omega : i - 16 < 32), decide_eq_true (by omega : i - 16 < 16), Bool.true_and,
      Bool.true_and]

theorem low_latched (latch : BitVec 32) (word : BitVec 16) :
    ((latch <<< 16) ||| word.setWidth 32).setWidth 16 = word := by
  refine BitVec.eq_of_getLsbD_eq fun i hi => ?_
  rw [BitVec.getLsbD_setWidth, BitVec.getLsbD_or, BitVec.getLsbD_shiftLeft, BitVec.getLsbD_setWidth,
    decide_eq_true hi, decide_eq_true (by omega : i < 32)]
  simp

/-- The setting of a run is as it was, but for the write enables. -/
structure SameSetting (graphics next : Graphics) (enables : BitVec 16) : Prop where
  screen : next.screen = graphics.screen
  reg : next.reg = { graphics.reg with writeEnable := enables }
  bltCycle : next.bltCycle = graphics.bltCycle

namespace SameSetting

variable {enables : BitVec 16} (h : SameSetting graphics next enables)
include h

theorem cr2Fields : next.cr2Fields = graphics.cr2Fields := by
  unfold Graphics.cr2Fields
  rw [h.screen, h.reg]

theorem dPlane : next.dPlane = graphics.dPlane := congrArg (·.2.1) h.cr2Fields

theorem latchOf (plane : ℕ) : next.latchOf shape plane = graphics.latchOf shape plane := by
  unfold Graphics.latchOf sPlane
  rw [h.cr2Fields, h.reg]

theorem carries {dest : BitVec 32} (hdest : graphics.Carries dest) : next.Carries dest := by
  unfold Carries doubleAccessDest at hdest ⊢
  rw [h.reg, h.screen]
  exact hdest

theorem copies (hcopies : graphics.Copies shape) (hmemory : next.memory.isSome = true) :
    next.Copies shape := by
  refine ⟨by rw [h.screen]; exact hcopies.fitted, hmemory, ?_, ?_, ?_⟩
  · rw [h.reg, h.bltCycle]
    exact hcopies.mode
  · exact (congrArg (·.2.2) h.cr2Fields).trans hcopies.access
  · rw [h.reg]
    exact hcopies.rop

end SameSetting

/-- The controller with a word latched and its write enables set. -/
def readyFor (graphics : Graphics) (shape : Geometry) (step : CopyStep) : Graphics :=
  { graphics with
    reg := { graphics.reg with writeEnable := step.enables }
    guardLatch := graphics.latchedFrom shape step.source }

/-- What copying a word leaves. -/
structure Copied (graphics next : Graphics) (shape : Geometry) (step : CopyStep) (image image' : Image) :
    Prop where
  setting : SameSetting graphics next step.enables
  memory : next.memory = some image'
  size : image'.bytes.length = image.bytes.length
  latch : ∀ plane < shape.planes, next.guardLatch (Fin.ofNat 8 (graphics.latchOf shape plane)) =
    (graphics.guardLatch (Fin.ofNat 8 (graphics.latchOf shape plane)) <<< 16) |||
      (graphics.sourceWord (inPlane shape step.source (graphics.latchOf shape plane))).setWidth 32
  drawn : ∀ plane < shape.planes, planeSelected graphics.dPlane plane = true →
    inPlane shape step.dest plane < image.words → image'.wordAt (inPlane shape step.dest plane) =
      drawnWith step.enables
        (shifted graphics.reg.cr0
          ((graphics.guardLatch (Fin.ofNat 8 (graphics.latchOf shape plane))).setWidth 16)
          (graphics.sourceWord (inPlane shape step.source (graphics.latchOf shape plane))))
        (image.wordAt (inPlane shape step.dest plane))
  kept : ∀ n, (∀ plane < shape.planes, planeSelected graphics.dPlane plane = true → n < image.words →
    n ≠ inPlane shape step.dest plane) → image'.wordAt n = image.wordAt n

theorem copyWord_eq (h : graphics.Copies shape) (hmemory : graphics.memory = some image)
    (hcarries : graphics.Carries step.dest) :
    graphics.copyWord step = ((graphics.readyFor shape step).draw shape step.dest 0xFFFF image).map
        Prod.snd := by
  have hsnd (drawn : Option (GraphicsCycle × Graphics)) :
      (drawn.bind fun cycle => some cycle.2) = drawn.map Prod.snd := by
    cases drawn <;> rfl
  unfold copyWord
  rcases h.mode with ⟨hmode, hcycle⟩ | hmode
  · have hfirst : graphics.memoryCycle step.source step.data step.lanes =
        some ({}, { graphics with
          bltCycle := 1, guardLatch := graphics.latchedFrom shape step.source }) := by
      have hlatch := latchFromMemory_latch { graphics with bltCycle := 1 } h.fitted hmemory step.source
      unfold memoryCycle cycleOn
      rw [h.fitted, hmemory]
      dsimp only
      rw [hmode]
      dsimp only
      rw [if_pos hcycle]
      change ({ graphics with bltCycle := 1 }.latchFromMemory step.source shape image).bind _ = _
      rw [hlatch]
      rfl
    have hsecond : { graphics with
          bltCycle := 1, guardLatch := graphics.latchedFrom shape step.source }.memoryCycle step.dest
            step.enables 0xFFFF =
        (graphics.readyFor shape step).draw shape step.dest 0xFFFF image := by
      have hmemory' : { graphics with
          bltCycle := 1, guardLatch := graphics.latchedFrom shape step.source }.memory = some image := hmemory
      unfold memoryCycle cycleOn
      rw [hmemory']
      dsimp only
      rw [h.fitted]
      dsimp only
      rw [hmode]
      dsimp only
      rw [if_neg (by decide)]
      unfold drawEnabled
      dsimp only
      rw [← hcycle]
      rfl
    rw [hmode]
    dsimp only
    rw [hfirst]
    change ({ graphics with bltCycle := 1, guardLatch := graphics.latchedFrom shape step.source }.memoryCycle
      step.dest step.enables 0xFFFF).bind _ = _
    rw [hsecond]
    exact hsnd _
  · have hcycle : { graphics with reg := { graphics.reg with writeEnable := step.enables } }.memoryCycle
        step.source (step.dest.setWidth 16) 0xFFFF =
        (graphics.readyFor shape step).draw shape step.dest 0xFFFF image := by
      have hmemory' : { graphics with
          reg := { graphics.reg with writeEnable := step.enables } }.memory = some image := hmemory
      have hlatch := latchFromMemory_latch
        { graphics with reg := { graphics.reg with writeEnable := step.enables } } h.fitted hmemory' step.source
      unfold memoryCycle cycleOn
      rw [hmemory']
      dsimp only
      rw [h.fitted]
      dsimp only
      rw [hmode]
      dsimp only
      change ({ graphics with reg := { graphics.reg with writeEnable := step.enables } }.latchFromMemory
        step.source shape image).bind _ = _
      rw [hlatch, Option.bind_some]
      exact congrArg (fun dest => Graphics.draw _ shape dest 0xFFFF image) (hcarries hmode)
    rw [hmode]
    dsimp only
    change ({ graphics with reg := { graphics.reg with writeEnable := step.enables } }.memoryCycle
      step.source (step.dest.setWidth 16) 0xFFFF).bind _ = _
    rw [hcycle]
    exact hsnd _

/-- THE WORD is copied: its latch takes it in, and its destination gets what the shift makes of it. -/
theorem copyWord_copied (h : graphics.Copies shape) (hmemory : graphics.memory = some image)
    (hcarries : graphics.Carries step.dest) :
    ∃ next image', graphics.copyWord step = some next ∧ Copied graphics next shape step image image' := by
  obtain ⟨out, image', hdraw, -, htold⟩ :=
    draw_told (graphics.readyFor shape step) image h.fitted step.dest 0xFFFF
  have hone : ∀ i < 16, (0xFFFF : BitVec 16).getLsbD i = true := by decide
  have hsource : ∀ plane < shape.planes, (graphics.readyFor shape step).planeSource shape plane =
        shifted graphics.reg.cr0
          ((graphics.guardLatch (Fin.ofNat 8 (graphics.latchOf shape plane))).setWidth 16)
          (graphics.sourceWord (inPlane shape step.source (graphics.latchOf shape plane))) := by
    intro plane hplane
    have hlatch : ((graphics.readyFor shape step).blit shape).latchOf
          (graphics.readyFor shape step).guardLatch plane =
        graphics.latchedFrom shape step.source (Fin.ofNat 8 (graphics.latchOf shape plane)) := by
      have hlt := latchOf_lt h.fitted hplane
      unfold Blit.latchOf
      change graphics.latchedFrom shape step.source (Fin.ofNat 8
        (if graphics.latchOf shape plane < shape.planes then graphics.latchOf shape plane else 0)) = _
      rw [if_pos hlt]
    have haccess : (graphics.readyFor shape step).access = .planeAccess := h.access
    unfold planeSource shifted
    rw [haccess, hlatch, latchedFrom_latchOf h.fitted step.source hplane, latched_low]
    rfl
  have hcopy : graphics.copyWord step = some ((graphics.readyFor shape step).setMemory image') := by
    rw [copyWord_eq h hmemory hcarries, hdraw]
    rfl
  have hcycle : ((graphics.readyFor shape step).setMemory image').bltCycle = graphics.bltCycle := by
    unfold setMemory
    split <;> rfl
  refine ⟨(graphics.readyFor shape step).setMemory image', image', hcopy,
    ⟨setMemory_screen _, setMemory_reg _, hcycle⟩, setMemory_memory _, htold.size,
    fun plane hplane => ?_, fun plane hplane hselected hinside => ?_, fun n hn => ?_⟩
  · rw [setMemory_guardLatch]
    exact latchedFrom_latchOf h.fitted step.source hplane
  · refine BitVec.eq_of_getLsbD_eq fun i hi => ?_
    rw [drawnWith_getLsbD _ _ _ hi]
    split_ifs with henabled
    · refine (htold.drawn plane _ i ⟨hplane, hselected, rfl, hinside, henabled, hone i hi⟩).trans ?_
      refine (rasterBit_src (h.rop plane hplane) _ _).trans ?_
      rw [hsource plane hplane]
    · refine htold.kept _ i fun other hcover => henabled hcover.enabled
  · refine BitVec.eq_of_getLsbD_eq fun i hi => htold.kept n i fun plane hcover => ?_
    exact hn plane hcover.fitted hcover.selected hcover.inside hcover.word

end Word

/-! ## A run, by the word -/

section Run

variable {shape : Geometry}

/-- Words that go to places of their own. -/
def Apart (shape : Geometry) (steps : List CopyStep) : Prop :=
  steps.Pairwise fun first later => ∀ p < shape.planes, ∀ q < shape.planes,
    inPlane shape first.dest p ≠ inPlane shape later.dest q

/-- The low half of a plane's latch, which the first word of a run takes over from. -/
def lastLatched (graphics : Graphics) (shape : Geometry) (plane : ℕ) : BitVec 16 :=
  (graphics.guardLatch (Fin.ofNat 8 (graphics.latchOf shape plane))).setWidth 16

/-- A word is in a place where a plane is drawn. -/
def IsDrawn (graphics : Graphics) (shape : Geometry) (dest : BitVec 32) (image : Image) (plane n : ℕ) : Prop :=
  plane < shape.planes ∧ planeSelected graphics.dPlane plane = true ∧ n = inPlane shape dest plane ∧
    n < image.words

/-- What a run leaves: each destination has what the shift makes of the word that was fed for it and of the one
before, and every other word is as it was. -/
structure RunLeaves (graphics final : Graphics) (shape : Geometry) (steps : List CopyStep)
    (image image' : Image) : Prop where
  memory : final.memory = some image'
  size : image'.bytes.length = image.bytes.length
  length : ∀ latch, (fed shape latch steps graphics).length = steps.length
  drawn : ∀ (t : ℕ) (step : CopyStep), steps[t]? = some step →
    ∀ plane n, graphics.IsDrawn shape step.dest image plane n →
    ∀ before word,
      (graphics.lastLatched shape plane :: fed shape (graphics.latchOf shape plane) steps graphics)[t]? =
        some before →
      (fed shape (graphics.latchOf shape plane) steps graphics)[t]? = some word →
      image'.wordAt n = drawnWith step.enables (shifted graphics.reg.cr0 before word) (image.wordAt n)
  kept : ∀ n, (∀ step ∈ steps, ∀ plane, ¬ graphics.IsDrawn shape step.dest image plane n) →
    image'.wordAt n = image.wordAt n

/-- THE RUN: every word is latched and drawn in its turn. -/
theorem copyRun_copied :
    ∀ (steps : List CopyStep) (graphics : Graphics) (image : Image), graphics.Copies shape →
      graphics.memory = some image → (∀ step ∈ steps, graphics.Carries step.dest) → Apart shape steps →
      ∃ final image', copyRun steps graphics = some final ∧
        RunLeaves graphics final shape steps image image' := by
  intro steps
  induction steps with
  | nil =>
    intro graphics image _ hmemory _ _
    exact ⟨graphics, image, rfl, hmemory, rfl, fun _ => rfl,
      (fun t step h => nomatch h), fun n _ => rfl⟩
  | cons step steps ih =>
    intro graphics image hcopies hmemory hcarries hapart
    obtain ⟨hfirst, hrest⟩ := List.pairwise_cons.mp hapart
    obtain ⟨next, middle, hcopy, hcopied⟩ :=
      copyWord_copied hcopies hmemory (hcarries step List.mem_cons_self)
    have hset := hcopied.setting
    obtain ⟨final, image', hrun, hleaves⟩ := ih next middle
      (hset.copies hcopies (by rw [hcopied.memory]; rfl)) hcopied.memory
      (fun later hlater => hset.carries (hcarries later (List.mem_cons_of_mem _ hlater))) hrest
    have hwords : middle.words = image.words := by
      unfold Image.words
      rw [hcopied.size]
    have hdrawn (dest : BitVec 32) (plane n : ℕ) :
        next.IsDrawn shape dest middle plane n ↔ graphics.IsDrawn shape dest image plane n := by
      unfold IsDrawn
      rw [hset.dPlane, hwords]
    have hfed (latch : ℕ) : fed shape latch (step :: steps) graphics =
        graphics.sourceWord (inPlane shape step.source latch) :: fed shape latch steps next := by
      conv_lhs => unfold fed
      rw [hcopy]
    -- where a later word goes, the first one has not been
    have huntouched : ∀ later ∈ steps, ∀ plane n, graphics.IsDrawn shape later.dest image plane n →
        middle.wordAt n = image.wordAt n := by
      rintro later hlater plane n ⟨hplane, -, rfl, -⟩
      exact hcopied.kept _ fun p hp _ _ heq => hfirst later hlater p hp plane hplane heq.symm
    refine ⟨final, image', ?_, hleaves.memory, hleaves.size.trans hcopied.size, fun latch => ?_,
      fun t current hcurrent plane n hplace before word hbefore hword => ?_, fun n hn => ?_⟩
    · unfold copyRun
      change (graphics.copyWord step).bind _ = _
      rw [hcopy]
      exact hrun
    · rw [hfed, List.length_cons, List.length_cons, hleaves.length]
    · rw [hfed] at hbefore hword
      cases t with
      | zero =>
        cases hcurrent
        cases hbefore
        cases hword
        obtain ⟨hplane, hselected, rfl, hinside⟩ := hplace
        rw [hleaves.kept _ fun later hlater other hother => ?_]
        · exact hcopied.drawn plane hplane hselected hinside
        · obtain ⟨hother, -, heq, -⟩ := (hdrawn _ _ _).mp hother
          exact hfirst later hlater plane hplane other hother heq
      | succ t =>
        rw [List.getElem?_cons_succ] at hcurrent hbefore hword
        have hlater : current ∈ steps := List.mem_of_getElem? hcurrent
        have hplane := hplace.1
        have hlast : next.lastLatched shape plane =
            graphics.sourceWord (inPlane shape step.source (graphics.latchOf shape plane)) := by
          unfold lastLatched
          rw [hset.latchOf, hcopied.latch plane hplane, low_latched]
        have hnext := hleaves.drawn t current hcurrent plane n ((hdrawn _ _ _).mpr hplace) before word
        rw [hset.latchOf, hlast] at hnext
        rw [hnext hbefore hword, huntouched current hlater plane n hplace, hset.reg]
    · rw [hleaves.kept n fun later hlater plane hplace =>
        hn later (List.mem_cons_of_mem _ hlater) plane ((hdrawn _ _ _).mp hplace)]
      exact hcopied.kept n fun plane hplane hselected hinside heq =>
        hn step List.mem_cons_self plane ⟨hplane, hselected, heq, hinside⟩

/-- A WORD THAT IS FED is the one that was there, if the run has not drawn over it. -/
theorem fed_getElem? :
    ∀ (steps : List CopyStep) (graphics : Graphics) (image : Image), graphics.Copies shape →
      graphics.memory = some image → (∀ step ∈ steps, graphics.Carries step.dest) →
      ∀ latch t step, steps[t]? = some step →
        (∀ first ∈ steps.take t, ∀ plane < shape.planes,
          inPlane shape first.dest plane ≠ inPlane shape step.source latch) →
        (fed shape latch steps graphics)[t]? = some (graphics.sourceWord (inPlane shape step.source latch)) := by
  intro steps
  induction steps with
  | nil => exact fun graphics image _ _ _ latch t step h => nomatch h
  | cons first steps ih =>
    intro graphics image hcopies hmemory hcarries latch t step hstep hapart
    obtain ⟨next, middle, hcopy, hcopied⟩ :=
      copyWord_copied hcopies hmemory (hcarries first List.mem_cons_self)
    have hset := hcopied.setting
    unfold fed
    cases t with
    | zero =>
      cases hstep
      rfl
    | succ t =>
      rw [List.getElem?_cons_succ] at hstep ⊢
      rw [hcopy]
      rw [List.take_succ_cons] at hapart
      have hnext := ih next middle (hset.copies hcopies (by rw [hcopied.memory]; rfl)) hcopied.memory
        (fun later hlater => hset.carries (hcarries later (List.mem_cons_of_mem _ hlater))) latch t step hstep
        fun earlier hearlier => hapart earlier (List.mem_cons_of_mem _ hearlier)
      have hwords : middle.words = image.words := by
        unfold Image.words
        rw [hcopied.size]
      have hsame : next.sourceWord (inPlane shape step.source latch) =
          graphics.sourceWord (inPlane shape step.source latch) := by
        unfold sourceWord
        rw [hcopied.memory, hmemory]
        dsimp only
        rw [hwords, hcopied.kept _ fun plane hplane _ _ heq =>
          hapart first List.mem_cons_self plane hplane heq.symm]
      rw [← hsame]
      exact hnext

end Run

/-! ## A run, as a stream of bits -/

/-- A bit of a row of words, counted from the left of word 0 on. -/
def rowBit (row : ℤ → BitVec 16) (q : ℤ) : Bool := (row (q / 16)).getLsbD (15 - (q % 16).toNat)

theorem rowBit_eq (row : ℤ → BitVec 16) (j : ℤ) {c : ℕ} (hc : c < 16) :
    rowBit row (16 * j + c) = (row j).getLsbD (15 - c) := by
  unfold rowBit
  rw [show (16 * j + (c : ℤ)) / 16 = j by omega, show (16 * j + (c : ℤ)) % 16 = c by omega, Int.toNat_natCast]

theorem shifted_getLsbD (cr0 : BitVec 8) (before word : BitVec 16) {i : ℕ} (hi : i < 16) :
    (shifted cr0 before word).getLsbD i =
      if cr0Shift cr0 < 16 then
        if i + cr0Shift cr0 < 16 then word.getLsbD (i + cr0Shift cr0)
        else before.getLsbD (i + cr0Shift cr0 - 16)
      else if i + (cr0Shift cr0 - 16) < 16 then before.getLsbD (i + (cr0Shift cr0 - 16))
      else word.getLsbD (i + (cr0Shift cr0 - 16) - 16) := by
  have hshift : cr0Shift cr0 < 32 := by
    have hlt : ∀ cr0 : BitVec 8, (cr0 &&& 0x1F).toNat < 32 := by decide
    exact hlt cr0
  have hmod : cr0Shift cr0 &&& 0x0F = cr0Shift cr0 % 16 := Nat.and_two_pow_sub_one_eq_mod _ 4
  -- the latch: the word below the one before it
  have hlatch (m : ℕ) (hm : m < 32) : ((before.setWidth 32 <<< 16) ||| word.setWidth 32).getLsbD m =
      if m < 16 then word.getLsbD m else before.getLsbD (m - 16) := by
    rw [BitVec.getLsbD_or, BitVec.getLsbD_shiftLeft, BitVec.getLsbD_setWidth, BitVec.getLsbD_setWidth,
      decide_eq_true hm, decide_eq_true (by omega : m - 16 < 32), Bool.true_and, Bool.true_and, Bool.true_and]
    by_cases hlow : m < 16
    · rw [decide_eq_true hlow, if_pos hlow, Bool.not_true, Bool.false_and, Bool.false_or]
    · rw [decide_eq_false hlow, if_neg hlow, Bool.not_false, Bool.true_and,
        BitVec.getLsbD_of_ge word m (by omega), Bool.or_false]
  unfold shifted sourceData
  dsimp only
  rw [hmod, BitVec.getLsbD_setWidth, decide_eq_true hi, Bool.true_and, BitVec.getLsbD_ushiftRight]
  by_cases hcount : cr0Shift cr0 < 16
  · rw [if_neg (by omega), if_pos hcount, Nat.mod_eq_of_lt hcount, hlatch _ (by omega),
      Nat.add_comm i]
  · have hk : cr0Shift cr0 % 16 = cr0Shift cr0 - 16 := by omega
    rw [if_pos (by omega), if_neg hcount, hk, BitVec.getLsbD_or, BitVec.getLsbD_shiftLeft,
      BitVec.getLsbD_ushiftRight, decide_eq_true (by omega : cr0Shift cr0 - 16 + i < 32), Bool.true_and,
      Nat.add_comm i]
    by_cases hhigh : cr0Shift cr0 - 16 + i < 16
    · rw [decide_eq_true hhigh, if_pos hhigh, Bool.not_true, Bool.false_and, Bool.false_or,
        hlatch _ (by omega), if_neg (by omega), Nat.add_sub_cancel_left]
    · rw [decide_eq_false hhigh, if_neg hhigh, Bool.not_false, Bool.true_and, hlatch _ (by omega),
        if_pos (by omega), BitVec.getLsbD_of_ge _ (16 + _) (by omega), Bool.or_false]

/-- A row of words that is copied: where it is from, where it goes, how long it is, and what each word is
drawn with. -/
structure CopyRow where
  source : BitVec 32
  dest : BitVec 32
  words : ℕ
  enables : ℕ → BitVec 16
  data : ℕ → BitVec 16 := fun _ => 0
  lanes : ℕ → BitVec 16 := fun _ => 0xFFFF

namespace CopyRow

variable (row : CopyRow) (cr0 : BitVec 8)

/-- A word of the row. -/
def step (j : ℕ) : CopyStep :=
  { source := row.source + BitVec.ofNat 32 j, dest := row.dest + BitVec.ofNat 32 j
    enables := row.enables j, data := row.data j, lanes := row.lanes j }

/-- When a word of the row is copied: a count from 16 on swaps the halves of the latches, for a walk down. -/
def turn (j : ℕ) : ℕ := if 16 ≤ cr0Shift cr0 then row.words - 1 - j else j

/-- The order in which the words are copied. -/
def order : List ℕ := (List.range row.words).map (row.turn cr0)

/-- The run. -/
def steps : List CopyStep := (row.order cr0).map row.step

variable {row}

theorem turn_lt {j : ℕ} (hj : j < row.words) : row.turn cr0 j < row.words := by
  unfold turn
  split_ifs <;> omega

theorem turn_turn {j : ℕ} (hj : j < row.words) : row.turn cr0 (row.turn cr0 j) = j := by
  unfold turn
  split_ifs <;> omega

theorem steps_getElem? {j : ℕ} (hj : j < row.words) :
    (row.steps cr0)[row.turn cr0 j]? = some (row.step j) := by
  unfold steps order
  rw [List.map_map, List.getElem?_map, List.getElem?_range (turn_lt cr0 hj), Option.map_some,
    Function.comp_apply, turn_turn cr0 hj]

theorem steps_length : (row.steps cr0).length = row.words := by
  unfold steps order
  rw [List.length_map, List.length_map, List.length_range]

theorem mem_steps {step : CopyStep} (h : step ∈ row.steps cr0) : ∃ j < row.words, step = row.step j := by
  unfold steps order at h
  rw [List.map_map] at h
  obtain ⟨t, ht, rfl⟩ := List.mem_map.mp h
  exact ⟨row.turn cr0 t, turn_lt cr0 (List.mem_range.mp ht), rfl⟩

theorem mem_take {step : CopyStep} {t : ℕ} (h : step ∈ (row.steps cr0).take t) :
    ∃ i < row.words, row.turn cr0 i < t ∧ step = row.step i := by
  unfold steps order at h
  rw [List.map_map, ← List.map_take, List.take_range] at h
  obtain ⟨u, hu, rfl⟩ := List.mem_map.mp h
  rw [List.mem_range] at hu
  exact ⟨row.turn cr0 u, turn_lt cr0 (by omega), by rw [turn_turn cr0 (by omega)]; omega, rfl⟩

end CopyRow

/-- The row that a plane is drawn from: the words that its latch was fed, between what the latch had before. -/
def fedRow (graphics : Graphics) (shape : Geometry) (row : CopyRow) (plane : ℕ) (j : ℤ) : BitVec 16 :=
  if 0 ≤ j ∧ j < row.words then
    (fed shape (graphics.latchOf shape plane) (row.steps graphics.reg.cr0) graphics).getD
      (row.turn graphics.reg.cr0 j.toNat) 0
  else graphics.lastLatched shape plane

section Row

variable {graphics : Graphics} {shape : Geometry} {row : CopyRow} {image : Image}

theorem row_apart (hshape : geometry graphics.screen = some shape) (hfits : row.words ≤ shape.planeWords.toNat)
    {a b p q : ℕ} (ha : a < row.words) (hb : b < row.words) (hp : p < shape.planes) (hq : q < shape.planes)
    (heq : inPlane shape (row.step a).dest p = inPlane shape (row.step b).dest q) : a = b := by
  obtain ⟨-, hpos, hall⟩ := geometry_fits hshape
  have hbound (a p : ℕ) (ha : a < row.words) (hp : p < shape.planes) :
      a + p * shape.planeWords.toNat < 2 ^ 32 := by
    have hle : (p + 1) * shape.planeWords.toNat ≤ shape.planes * shape.planeWords.toNat :=
      Nat.mul_le_mul_right _ hp
    rw [Nat.succ_mul] at hle
    omega
  have hsum (a p : ℕ) (ha : a < row.words) (hp : p < shape.planes) :
      (BitVec.ofNat 32 a + BitVec.ofNat 32 p * shape.planeWords).toNat = a + p * shape.planeWords.toNat := by
    have hlt := hbound a p ha hp
    have hmul : p * shape.planeWords.toNat < 2 ^ 32 := by omega
    have hle : p ≤ p * shape.planeWords.toNat := Nat.le_mul_of_pos_right _ hpos
    rw [BitVec.toNat_add, BitVec.toNat_mul, BitVec.toNat_ofNat, BitVec.toNat_ofNat,
      Nat.mod_eq_of_lt (by omega : a < 2 ^ 32), Nat.mod_eq_of_lt (by omega : p < 2 ^ 32),
      Nat.mod_eq_of_lt hmul, Nat.mod_eq_of_lt hlt]
  have hplace : row.dest + (BitVec.ofNat 32 a + BitVec.ofNat 32 p * shape.planeWords) =
      row.dest + (BitVec.ofNat 32 b + BitVec.ofNat 32 q * shape.planeWords) := by
    rw [← BitVec.add_assoc, ← BitVec.add_assoc]
    exact BitVec.eq_of_toNat_eq heq
  have hnat := congrArg BitVec.toNat (add_left_cancel hplace)
  rw [hsum a p ha hp, hsum b q hb hq] at hnat
  have hmod := congrArg (· % shape.planeWords.toNat) hnat
  rwa [Nat.add_mul_mod_self_right, Nat.add_mul_mod_self_right, Nat.mod_eq_of_lt (by omega),
    Nat.mod_eq_of_lt (by omega)] at hmod

theorem steps_apart (hshape : geometry graphics.screen = some shape)
    (hfits : row.words ≤ shape.planeWords.toNat) (cr0 : BitVec 8) : Apart shape (row.steps cr0) := by
  unfold Apart CopyRow.steps CopyRow.order
  rw [List.map_map, List.pairwise_map]
  refine (List.nodup_range (n := row.words)).pairwise_of_forall_ne fun t ht u hu hne p hp q hq heq => hne ?_
  rw [List.mem_range] at ht hu
  have hturn := row_apart hshape hfits (CopyRow.turn_lt cr0 ht) (CopyRow.turn_lt cr0 hu) hp hq heq
  rw [← CopyRow.turn_turn cr0 ht, hturn, CopyRow.turn_turn cr0 hu]

theorem fedRow_getElem? {final : Graphics} {image' : Image}
    (h : RunLeaves graphics final shape (row.steps graphics.reg.cr0) image image') {j : ℕ} (hj : j < row.words)
    (plane : ℕ) :
    (fed shape (graphics.latchOf shape plane) (row.steps graphics.reg.cr0) graphics)[
        row.turn graphics.reg.cr0 j]? = some (graphics.fedRow shape row plane j) ∧
      (graphics.lastLatched shape plane ::
        fed shape (graphics.latchOf shape plane) (row.steps graphics.reg.cr0) graphics)[
          row.turn graphics.reg.cr0 j]? =
        some (graphics.fedRow shape row plane
          (if 16 ≤ cr0Shift graphics.reg.cr0 then (j : ℤ) + 1 else (j : ℤ) - 1)) := by
  have hlength := (h.length (graphics.latchOf shape plane)).trans (CopyRow.steps_length _)
  generalize hwords : fed shape (graphics.latchOf shape plane) (row.steps graphics.reg.cr0) graphics = words
  rw [hwords] at hlength
  have hfed : ∀ k < row.words,
      words[row.turn graphics.reg.cr0 k]? = some (graphics.fedRow shape row plane k) := by
    intro k hk
    have hlt : row.turn graphics.reg.cr0 k < words.length := by
      rw [hlength]
      exact CopyRow.turn_lt _ hk
    unfold fedRow
    rw [if_pos ⟨by omega, by omega⟩, hwords, Int.toNat_natCast, List.getElem?_eq_getElem hlt,
      List.getD_eq_getElem _ _ hlt]
  refine ⟨hfed j hj, ?_⟩
  by_cases hdown : 16 ≤ cr0Shift graphics.reg.cr0
  · rw [if_pos hdown]
    have hturn (k : ℕ) : row.turn graphics.reg.cr0 k = row.words - 1 - k := if_pos hdown
    by_cases hlast : j + 1 < row.words
    · have hnext := hfed (j + 1) hlast
      rw [hturn] at hnext ⊢
      rw [show row.words - 1 - j = row.words - 1 - (j + 1) + 1 by omega, List.getElem?_cons_succ, hnext]
      rfl
    · rw [hturn, show row.words - 1 - j = 0 by omega, List.getElem?_cons_zero]
      unfold fedRow
      rw [if_neg (by omega)]
  · rw [if_neg hdown]
    have hturn (k : ℕ) : row.turn graphics.reg.cr0 k = k := if_neg hdown
    rcases j with _ | j
    · rw [hturn, List.getElem?_cons_zero]
      unfold fedRow
      rw [if_neg (by omega)]
    · have hbefore := hfed j (by omega)
      rw [hturn] at hbefore ⊢
      rw [List.getElem?_cons_succ, hbefore, show ((j + 1 : ℕ) : ℤ) - 1 = j by omega]

/-- THE SHIFT takes a bit of the row as far away as the count says. -/
theorem shifted_rowBit (cr0 : BitVec 8) (row : ℤ → BitVec 16) (j : ℤ) {c : ℕ} (hc : c < 16) :
    (shifted cr0 (row (if 16 ≤ cr0Shift cr0 then j + 1 else j - 1)) (row j)).getLsbD (15 - c) =
      rowBit row (16 * j + c - cr0ShiftSigned cr0) := by
  have hshift : cr0Shift cr0 < 32 := by
    have hlt : ∀ cr0 : BitVec 8, (cr0 &&& 0x1F).toNat < 32 := by decide
    exact hlt cr0
  rw [shifted_getLsbD _ _ _ (by omega)]
  unfold cr0ShiftSigned
  generalize cr0Shift cr0 = s at *
  by_cases hdown : 16 ≤ s
  · rw [if_neg (by omega), if_pos hdown, if_pos hdown]
    by_cases hbefore : 15 - c + (s - 16) < 16
    · rw [if_pos hbefore, show 16 * j + (c : ℤ) - (s - 32) = 16 * (j + 1) + (c - (s - 16) : ℕ) by omega,
        rowBit_eq _ _ (by omega)]
      congr 1
      omega
    · rw [if_neg hbefore, show 16 * j + (c : ℤ) - (s - 32) = 16 * j + (c + 32 - s : ℕ) by omega,
        rowBit_eq _ _ (by omega)]
      congr 1
      omega
  · rw [if_pos (by omega), if_neg hdown, if_neg hdown]
    by_cases hword : 15 - c + s < 16
    · rw [if_pos hword, show 16 * j + (c : ℤ) - s = 16 * j + (c - s : ℕ) by omega, rowBit_eq _ _ (by omega)]
      congr 1
      omega
    · rw [if_neg hword, show 16 * j + (c : ℤ) - s = 16 * (j - 1) + (16 + c - s : ℕ) by omega,
        rowBit_eq _ _ (by omega)]
      congr 1
      omega

/-- What the copy of a row leaves. -/
structure CopiesRow (graphics final : Graphics) (shape : Geometry) (row : CopyRow) (image image' : Image) :
    Prop where
  memory : final.memory = some image'
  size : image'.bytes.length = image.bytes.length
  /-- A bit of the destination is the source's, displaced by the shift, where the write enables are clear. -/
  copied : ∀ plane, ∀ j < row.words, ∀ n, graphics.IsDrawn shape (row.step j).dest image plane n →
    ∀ c < 16, (image'.wordAt n).getLsbD (15 - c) =
      if (row.enables j).getLsbD (15 - c) = false then
        rowBit (graphics.fedRow shape row plane) (16 * j + c - cr0ShiftSigned graphics.reg.cr0)
      else (image.wordAt n).getLsbD (15 - c)
  /-- The words of the source are those that are there, where the run has not drawn over them. -/
  source : ∀ plane, ∀ j < row.words,
    (∀ i < row.words, row.turn graphics.reg.cr0 i < row.turn graphics.reg.cr0 j → ∀ p < shape.planes,
      inPlane shape (row.step i).dest p ≠ inPlane shape (row.step j).source (graphics.latchOf shape plane)) →
    graphics.fedRow shape row plane j =
      graphics.sourceWord (inPlane shape (row.step j).source (graphics.latchOf shape plane))
  /-- The rest of the image is as it was. -/
  kept : ∀ n, (∀ j < row.words, ∀ plane, ¬ graphics.IsDrawn shape (row.step j).dest image plane n) →
    image'.wordAt n = image.wordAt n

/-- SHIFTED BLITS COPY RUNS OF ANY ALIGNMENT: a row of any length, fed through the latches by alternating blits
or double accesses, is at its destination as one stream of bits that the shift has displaced. A plane's run is
made of what its own latch was fed, and with one source for all planes of what the source plane's was. -/
theorem shifted_copy (hcopies : graphics.Copies shape) (hmemory : graphics.memory = some image)
    (hcarries : ∀ j < row.words, graphics.Carries (row.step j).dest)
    (hfits : row.words ≤ shape.planeWords.toNat) :
    ∃ final image', copyRun (row.steps graphics.reg.cr0) graphics = some final ∧
      CopiesRow graphics final shape row image image' := by
  have hall : ∀ step ∈ row.steps graphics.reg.cr0, graphics.Carries step.dest := by
    intro step hstep
    obtain ⟨j, hj, rfl⟩ := CopyRow.mem_steps _ hstep
    exact hcarries j hj
  obtain ⟨final, image', hrun, hleaves⟩ := copyRun_copied (row.steps graphics.reg.cr0) graphics image hcopies
    hmemory hall (steps_apart hcopies.fitted hfits _)
  refine ⟨final, image', hrun, hleaves.memory, hleaves.size, fun plane j hj n hplace c hc => ?_,
    fun plane j hj hapart => ?_, fun n hn => hleaves.kept n fun step hstep plane hplace => ?_⟩
  · obtain ⟨hword, hbefore⟩ := fedRow_getElem? hleaves hj plane
    have hdrawn := hleaves.drawn _ _ (CopyRow.steps_getElem? _ hj) plane n hplace _ _ hbefore hword
    rw [hdrawn, drawnWith_getLsbD _ _ _ (by omega), shifted_rowBit _ _ _ hc]
    rfl
  · obtain ⟨hword, -⟩ := fedRow_getElem? hleaves hj plane
    have hsource := fed_getElem? (row.steps graphics.reg.cr0) graphics image hcopies hmemory hall
      (graphics.latchOf shape plane) _ _ (CopyRow.steps_getElem? _ hj) fun first hfirst p hp => ?_
    · rw [hword] at hsource
      exact Option.some.inj hsource
    · obtain ⟨i, hi, hturn, rfl⟩ := CopyRow.mem_take _ hfirst
      exact hapart i hi hturn p hp
  · obtain ⟨j, hj, rfl⟩ := CopyRow.mem_steps _ hstep
    exact hn j hj plane hplace

end Row

/-! ## A row of two words -/

/-- A monochrome controller set up for alternating blits that are shifted by four, with two words to copy. -/
def alternating : Graphics :=
  { screen := .mono15Inch, reg := { cr0 := 0x24, cr2 := 0xC0 }
    monoMemory := some ⟨[0x12, 0x34, 0x56, 0x78, 0, 0, 0, 0], by decide⟩ }

/-- The two words go to the next two; of the first, the four bits on the left are not enabled. -/
def twoWordRow : CopyRow :=
  { source := 0, dest := 2, words := 2, enables := fun j => if j = 0 then 0xF000 else 0 }

example : ((copyRun (twoWordRow.steps 0x24) alternating).bind Graphics.memory).map Image.bytes =
    some [0x12, 0x34, 0x56, 0x78, 0x01, 0x23, 0x45, 0x67] := by decide +kernel

theorem shifted_copy_two : ∃ final image', copyRun (twoWordRow.steps 0x24) alternating = some final ∧
    CopiesRow alternating final ⟨1, 65536⟩ twoWordRow
      ⟨[0x12, 0x34, 0x56, 0x78, 0, 0, 0, 0], by decide⟩ image' := by
  have hcopies : alternating.Copies ⟨1, 65536⟩ :=
    ⟨rfl, rfl, .inl ⟨by decide, rfl⟩, by decide, fun plane _ h => absurd h (by decide)⟩
  have hmode : cr0Mode alternating.reg.cr0 ≠ .doubleAccessBlt := by decide
  exact shifted_copy hcopies rfl (fun j _ h => absurd h hmode) (by decide)

end Graphics

end Apollo.Board
