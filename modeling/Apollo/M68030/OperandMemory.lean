import Apollo.Lib.ByteMemory
import Apollo.M68030.Cpu

/-!
# Operands over memory

`MemoryPorts` is what the access layer is when there is a memory of bytes behind it, for the
accesses of one function code: a read that is answered gives the bytes that are there, a write
that is answered stores its bytes, and nothing else changes memory. An operand that an access
at a time is read or written is then loaded from or stored in that memory as a whole.
-/

namespace Apollo.M68030

open Apollo.Lib

variable {σ : Type}

/-- A chunk that is in one long word. -/
def InLong (address : BitVec 32) (size : Nat) : Prop :=
  1 ≤ size ∧ (address &&& 3).toNat + size ≤ 4

/-- There is a memory of bytes behind the data accesses of a function code. -/
structure MemoryPorts (ports : Ports σ) (functionCode : BitVec 8) where
  memory : σ → ByteMemory 32
  read : ∀ (mode : AccessMode) address size s, mode.functionCode = functionCode →
    InLong address size →
    memory (ports.access (mode.request false address 0 size) s).2 = memory s
  read_ok : ∀ (mode : AccessMode) address size s long, mode.functionCode = functionCode →
    InLong address size →
    (ports.access (mode.request false address 0 size) s).1 = .ok long →
    ∀ i < size, byteAt long ((address &&& 3).toNat + i) = memory s (address + BitVec.ofNat 32 i)
  write_ok : ∀ (mode : AccessMode) address size value s answer, mode.functionCode = functionCode →
    InLong address size →
    (ports.access (mode.request true address value size) s).1 = .ok answer →
    memory (ports.access (mode.request true address value size) s).2 =
      (memory s).storeAt address size value
  write_fault : ∀ (mode : AccessMode) address size value s translation,
    mode.functionCode = functionCode → InLong address size →
    (ports.access (mode.request true address value size) s).1 = .fault translation →
    memory (ports.access (mode.request true address value size) s).2 = memory s

theorem offset_toNat (a : BitVec 32) : (a &&& 3).toNat = a.toNat % 4 := by
  rw [BitVec.toNat_and]
  exact Nat.and_two_pow_sub_one_eq_mod _ 2

theorem inLong_chunk (address : BitVec 32) {remaining : Nat} (h : 0 < remaining) :
    InLong address (chunkSize address remaining) := by
  have hpos := chunkSize_pos address h
  have hoffset := offset_toNat address
  refine ⟨hpos, ?_⟩
  unfold chunkSize at *
  omega

/-! ## The pieces of an operand -/

theorem sizeMask_getLsbD {size i : Nat} (hi : i < 32) :
    (sizeMask size).getLsbD i =
      decide (i < if size = 1 then 8 else if size = 2 then 16 else 32) := by
  have hone : ∀ i < 32, (0xFF : BitVec 32).getLsbD i = decide (i < 8) := by decide
  have htwo : ∀ i < 32, (0xFFFF : BitVec 32).getLsbD i = decide (i < 16) := by decide
  have hfour : ∀ i < 32, (0xFFFFFFFF : BitVec 32).getLsbD i = decide (i < 32) := by decide
  unfold sizeMask
  split
  · exact hone i hi
  · split
    · exact htwo i hi
    · exact hfour i hi

theorem byteAt_piece (value : BitVec 32) {chunk remaining i : Nat} (hi : i < chunk)
    (hchunk : chunk ≤ remaining) (hsize : remaining ≤ 4) :
    byteAt ((value >>> ((remaining - chunk) * 8)) &&& sizeMask chunk) (4 - chunk + i) =
      byteAt value (4 - remaining + i) := by
  apply BitVec.eq_of_getLsbD_eq
  intro j hj
  rw [byteAt_getLsbD _ _ hj, byteAt_getLsbD _ _ hj, BitVec.getLsbD_and,
    BitVec.getLsbD_ushiftRight, sizeMask_getLsbD (by omega)]
  have hmask : 8 * (3 - (4 - chunk + i)) + j <
      if chunk = 1 then 8 else if chunk = 2 then 16 else 32 := by
    split
    · omega
    · split <;> omega
  rw [decide_eq_true hmask, Bool.and_true]
  congr 1
  omega

theorem byteAt_gathered (acc long : BitVec 32) {offset chunk j : Nat} (hlong : offset + chunk ≤ 4)
    (hchunk : 1 ≤ chunk) (hj : j < 4) (hlow : 4 - chunk ≤ j) :
    byteAt ((acc <<< (chunk * 8)) |||
        ((long >>> ((4 - offset - chunk) * 8)) &&& sizeMask chunk)) j =
      byteAt long (offset + (j - (4 - chunk))) := by
  apply BitVec.eq_of_getLsbD_eq
  intro i hi
  rw [byteAt_getLsbD _ _ hi, byteAt_getLsbD _ _ hi, BitVec.getLsbD_or, BitVec.getLsbD_shiftLeft,
    BitVec.getLsbD_and, BitVec.getLsbD_ushiftRight, sizeMask_getLsbD (by omega)]
  have hmask : 8 * (3 - j) + i < if chunk = 1 then 8 else if chunk = 2 then 16 else 32 := by
    split
    · omega
    · split <;> omega
  rw [decide_eq_true hmask, decide_eq_true (by omega : 8 * (3 - j) + i < chunk * 8)]
  simp only [Bool.and_true, Bool.not_true, Bool.and_false, Bool.false_and, Bool.false_or]
  congr 1
  omega

/-- The bytes that were read before a chunk, after it. Three bytes from the second of a long
word on come with the first. -/
theorem byteAt_gathered_before (acc long : BitVec 32) {offset chunk j : Nat}
    (hlong : offset + chunk ≤ 4) (hchunk : 1 ≤ chunk) (hclean : chunk = 3 → offset ≠ 1)
    (hhigh : j < 4 - chunk) :
    byteAt ((acc <<< (chunk * 8)) |||
        ((long >>> ((4 - offset - chunk) * 8)) &&& sizeMask chunk)) j = byteAt acc (j + chunk) := by
  apply BitVec.eq_of_getLsbD_eq
  intro i hi
  rw [byteAt_getLsbD _ _ hi, byteAt_getLsbD _ _ hi, BitVec.getLsbD_or, BitVec.getLsbD_shiftLeft,
    BitVec.getLsbD_and, BitVec.getLsbD_ushiftRight, sizeMask_getLsbD (by omega)]
  rw [decide_eq_true (by omega : 8 * (3 - j) + i < 32),
    decide_eq_false (by omega : ¬ 8 * (3 - j) + i < chunk * 8)]
  have hpiece : (long.getLsbD ((4 - offset - chunk) * 8 + (8 * (3 - j) + i)) &&
      decide (8 * (3 - j) + i < if chunk = 1 then 8 else if chunk = 2 then 16 else 32)) =
        false := by
    by_cases hthree : chunk = 3
    · -- the offset is zero, and the mask leaves what is shifted out
      have hoffset := hclean hthree
      rw [BitVec.getLsbD_of_ge _ _ (by omega), Bool.false_and]
    · have hmask : ¬ 8 * (3 - j) + i < if chunk = 1 then 8 else if chunk = 2 then 16 else 32 := by
        split
        · omega
        · split <;> omega
      rw [decide_eq_false hmask, Bool.and_false]
  rw [hpiece]
  simp only [Bool.true_and, Bool.not_false, Bool.or_false]
  congr 1
  omega

/-! ## Whole operands -/

namespace MemoryPorts

variable {ports : Ports σ} {functionCode : BitVec 8} (view : MemoryPorts ports functionCode)
  {mode : AccessMode}

theorem writeChunks_ok (hmode : mode.functionCode = functionCode) (value : BitVec 32) :
    ∀ (turns : Nat) (address : BitVec 32) (remaining : Nat) (s s' : σ), remaining ≤ turns →
      remaining ≤ 4 → writeChunks ports mode value turns address remaining s = (.ok (), s') →
      view.memory s' = (view.memory s).storeAt address remaining value := by
  intro turns
  induction turns with
  | zero =>
    intro address remaining s s' hturns hsize h
    obtain rfl : remaining = 0 := by omega
    cases h
    funext x
    rw [ByteMemory.storeAt_of_le (by omega)]
  | succ turns ih =>
    intro address remaining s s' hturns hsize h
    unfold writeChunks at h
    split at h
    · rename_i hzero
      cases h
      funext x
      rw [ByteMemory.storeAt_of_le (by omega)]
    · rename_i hzero
      dsimp only at h
      have hlong := inLong_chunk address (Nat.pos_of_ne_zero hzero)
      have hle := chunkSize_le address remaining
      generalize chunkSize address remaining = chunk at h hlong hle
      generalize hpiece : (value >>> ((remaining - chunk) * 8)) &&& sizeMask chunk = piece at h
      split at h
      · cases h
      · rename_i answer s₁ haccess
        have hstored := view.write_ok mode address chunk piece s answer hmode hlong
          (congrArg Prod.fst haccess)
        rw [haccess] at hstored
        dsimp only at hstored
        rw [ih _ _ s₁ s' (by have := hlong.1; omega) (by omega) h, hstored]
        refine ByteMemory.storeAt_split hle hsize (by omega) fun i hi => ?_
        rw [← hpiece]
        exact byteAt_piece value hi hle hsize

theorem readChunks_ok (hmode : mode.functionCode = functionCode) :
    ∀ (turns : Nat) (address : BitVec 32) (remaining : Nat) (acc : BitVec 32) (s s' : σ)
      (value : BitVec 32), remaining ≤ turns → remaining ≤ 4 →
      (remaining = 3 → (address &&& 3).toNat ≠ 1) →
      readChunks ports mode turns address remaining acc s = (.ok value, s') →
      view.memory s' = view.memory s ∧
        ∀ j < 4, byteAt value j =
          if 4 - remaining ≤ j then
            view.memory s (address + BitVec.ofNat 32 (j - (4 - remaining)))
          else byteAt acc (j + remaining) := by
  intro turns
  induction turns with
  | zero =>
    intro address remaining acc s s' value hturns hsize hclean h
    obtain rfl : remaining = 0 := by omega
    cases h
    refine ⟨rfl, fun j hj => ?_⟩
    rw [if_neg (by omega)]
    rfl
  | succ turns ih =>
    intro address remaining acc s s' value hturns hsize hclean h
    unfold readChunks at h
    split at h
    · rename_i hzero
      cases h
      refine ⟨rfl, fun j hj => ?_⟩
      rw [if_neg (by omega), hzero]
      rfl
    · rename_i hzero
      dsimp only at h
      have hlong := inLong_chunk address (Nat.pos_of_ne_zero hzero)
      have hle := chunkSize_le address remaining
      have hnext : chunkSize address remaining < remaining →
          ((address + BitVec.ofNat 32 (chunkSize address remaining)) &&& 3).toNat = 0 := by
        intro hmore
        have hchunk : chunkSize address remaining = 4 - (address &&& 3).toNat := by
          unfold chunkSize at hmore ⊢
          omega
        rw [hchunk, offset_toNat, offset_toNat, BitVec.toNat_add, BitVec.toNat_ofNat]
        omega
      generalize chunkSize address remaining = chunk at h hlong hle hnext
      split at h
      · cases h
      · rename_i long s₁ haccess
        have hsame := view.read mode address chunk s hmode hlong
        rw [haccess] at hsame
        dsimp only at hsame
        have hbytes := view.read_ok mode address chunk s long hmode hlong
          (congrArg Prod.fst haccess)
        obtain ⟨hmemory, hvalue⟩ := ih _ _ _ s₁ s' value (by have := hlong.1; omega) (by omega)
          (fun hthree => by rw [hnext (by omega)]; decide) h
        refine ⟨hmemory.trans hsame, fun j hj => ?_⟩
        rw [hvalue j hj]
        by_cases hlast : 4 - (remaining - chunk) ≤ j
        · rw [if_pos hlast, if_pos (by omega), hsame, BitVec.add_assoc, ← BitVec.ofNat_add]
          congr 3
          omega
        · rw [if_neg hlast]
          by_cases hhere : 4 - remaining ≤ j
          · have := hlong.2
            rw [if_pos hhere, byteAt_gathered acc long hlong.2 hlong.1 (by omega) (by omega),
              hbytes _ (by omega)]
            congr 3
            omega
          · rw [if_neg hhere, byteAt_gathered_before acc long hlong.2 hlong.1
              (fun hthree => by omega) (by omega)]
            congr 1
            omega

end MemoryPorts

/-!
## A processor on plain memory

The smallest of what can be behind the access contexts: a memory of bytes, with no cache and no
translation, on a board that refuses some requests and answers all others. Every access of it is
one of that memory, so what holds over `MemoryPorts` can be run on it.
-/

/-- A board of plain memory that refuses some requests; an interrupt is autovectored. -/
def flatPorts (refuses : Request → Bool) : Ports (ByteMemory 32) where
  access request m :=
    if refuses request then (.fault false, m)
    else if request.write then (.ok 0, m.storeAt request.address request.size request.value)
    else (.ok (m.loadAt (request.address &&& ~~~3) 4), m)
  acknowledge := some fun _ m => ({ autovector := true, busError := false, vector := 0 }, m)

/-- A processor on plain memory, in a supervisor state. -/
def flatCpu (frameVariant : FrameVariant) (sr : BitVec 16) (isp msp : BitVec 32) :
    Cpu (ByteMemory 32) where
  regs :=
    { d := .replicate 8 0, a := .replicate 7 0, usp := 0x800, isp, msp, pc := 0x400
      sr := .ofWord sr, vbr := 0, sfc := 0, dfc := 0 }
  fetch := { functionCode := 6 }
  memory := fun _ => 0
  dataFunctionCode := 5
  entryRegs :=
    { d := .replicate 8 0, a := .replicate 7 0, usp := 0x800, isp, msp, pc := 0x400
      sr := .ofWord sr, vbr := 0, sfc := 0, dfc := 0 }
  frameVariant

theorem aligned_add_offset (address : BitVec 32) (i : Nat) :
    (address &&& ~~~3) + BitVec.ofNat 32 ((address &&& 3).toNat + i) =
      address + BitVec.ofNat 32 i := by
  have hsplit : (address &&& ~~~3) + (address &&& 3) = address := by
    rw [BitVec.add_eq_or_of_and_eq_zero]
    · rw [← BitVec.and_or_distrib_left, BitVec.not_or_self]
      exact BitVec.and_allOnes
    · rw [show (address &&& ~~~3) &&& (address &&& 3) = address &&& (~~~3 &&& 3) by
          rw [BitVec.and_assoc, ← BitVec.and_assoc (~~~3) address, BitVec.and_comm (~~~3) address,
            BitVec.and_assoc, ← BitVec.and_assoc address address, BitVec.and_self]]
      exact BitVec.and_zero
  rw [BitVec.ofNat_add, BitVec.ofNat_toNat, BitVec.setWidth_eq, ← BitVec.add_assoc, hsplit]

/-- Plain memory is memory. -/
def flatMemory (refuses : Request → Bool) (functionCode : BitVec 8) :
    MemoryPorts (flatPorts refuses) functionCode where
  memory m := m
  read mode address size m _ _ := by
    unfold flatPorts AccessMode.request
    dsimp only
    split
    · rfl
    · rfl
  read_ok mode address size m long _ hlong h i hi := by
    unfold flatPorts AccessMode.request at h
    dsimp only at h
    split at h
    · exact nomatch h
    · cases h
      rw [ByteMemory.byteAt_loadAt (by have := hlong.2; omega), if_pos (Nat.zero_le _),
        Nat.sub_self, Nat.sub_zero, aligned_add_offset]
  write_ok mode address size value m answer _ _ h := by
    unfold flatPorts AccessMode.request at h ⊢
    dsimp only at h ⊢
    split at h
    · exact nomatch h
    · rename_i hrefused
      rw [if_neg hrefused]
      rfl
  write_fault mode address size value m translation _ _ h := by
    unfold flatPorts AccessMode.request at h ⊢
    dsimp only at h ⊢
    split at h
    · rename_i hrefused
      rw [if_pos hrefused]
    · exact nomatch h

end Apollo.M68030
