import Apollo.M68030.OperandMemory
import Apollo.M68030.TakeException

/-!
# The supervisor stack over memory

What `write_frame_field` and `read_stack` are when there is a memory of bytes behind the
accesses to supervisor data: fields of a frame are stored in it, and fields of the stack are
loaded from it. `StaysReadable` says that an area can be read, now and after any reading of it.
-/

namespace Apollo.M68030

open Apollo.Lib

/-- A memory after fields of a frame were stored in it. -/
def storeFields (frame : BitVec 32) (m : ByteMemory 32) :
    List (Nat × Nat × BitVec 32) → ByteMemory 32
  | [] => m
  | (offset, size, value) :: fields =>
    storeFields frame (m.storeAt (frame + BitVec.ofNat 32 offset) size value) fields

/-- Every access to an area that reads it is answered, and leaves it so. -/
def StaysReadable {σ : Type} (ports : Ports σ) (functionCode : BitVec 8)
    (area : BitVec 32 → Prop) (s : σ) : Prop :=
  ∃ J : σ → Prop, J s ∧ ∀ t, J t → ∀ (mode : AccessMode) address size,
    mode.functionCode = functionCode → InLong address size →
    (∀ i < size, area (address + BitVec.ofNat 32 i)) →
    (∃ long, (ports.access (mode.request false address 0 size) t).1 = .ok long) ∧
      J (ports.access (mode.request false address 0 size) t).2

section Fields

variable {frame x : BitVec 32} {m m' : ByteMemory 32} {fields fields' : List (Nat × Nat × BitVec 32)}

theorem storeFields_append :
    storeFields frame m (fields ++ fields') = storeFields frame (storeFields frame m fields) fields' := by
  induction fields generalizing m with
  | nil => rfl
  | cons field fields ih => exact ih

theorem storeFields_of_lt {d : Nat} (hd : (x - frame).toNat = d)
    (h : ∀ field ∈ fields, d < field.1 ∧ field.1 + field.2.1 ≤ 2 ^ 32) :
    storeFields frame m fields x = m x := by
  induction fields generalizing m with
  | nil => rfl
  | cons field fields ih =>
    obtain ⟨offset, size, value⟩ := field
    obtain ⟨hbelow, hend⟩ := h (offset, size, value) (List.mem_cons_self ..)
    dsimp only at hbelow hend
    rw [storeFields, ih fun field hfield => h field (List.mem_cons_of_mem _ hfield)]
    by_cases hoffset : offset < 2 ^ 32
    · apply ByteMemory.storeAt_of_le
      rw [ByteMemory.toNat_sub_add frame x hoffset, hd, if_neg (by omega)]
      omega
    · rw [ByteMemory.storeAt, if_neg (by omega)]

theorem storeFields_congr (h : m x = m' x) :
    storeFields frame m fields x = storeFields frame m' fields x := by
  induction fields generalizing m m' with
  | nil => exact h
  | cons field fields ih =>
    obtain ⟨offset, size, value⟩ := field
    refine ih ?_
    unfold ByteMemory.storeAt
    rw [h]

theorem fits_word (w : BitVec 16) : ByteMemory.Fits (w.setWidth 32) 2 := by
  intro j hj
  apply BitVec.eq_of_getLsbD_eq
  intro i hi
  rw [byteAt_getLsbD _ _ hi, BitVec.getLsbD_setWidth, BitVec.getLsbD_of_ge _ _ (by omega),
    Bool.and_false]
  exact BitVec.getLsbD_zero.symm

theorem fits_long (value : BitVec 32) : ByteMemory.Fits value 4 := fun j hj => by omega

/-- What the header of a frame says, as it is read back. -/
structure HasHeader (m : ByteMemory 32) (frame : BitVec 32) (format : FrameFormat)
    (sr : StatusRegister) (pc : BitVec 32) : Prop where
  sr : .ofWord ((m.loadAt (frame + BitVec.ofNat 32 0) 2).setWidth 16) = sr
  pc : m.loadAt (frame + BitVec.ofNat 32 2) 4 = pc
  format : frameFormatOf ((m.loadAt (frame + BitVec.ofNat 32 6) 2).setWidth 16) = some format

theorem HasHeader.congr {format : FrameFormat} {sr : StatusRegister} {pc : BitVec 32}
    (h : HasHeader m frame format sr pc)
    (hbytes : ∀ i < 8, m' (frame + BitVec.ofNat 32 i) = m (frame + BitVec.ofNat 32 i)) :
    HasHeader m' frame format sr pc := by
  have hload : ∀ offset size, offset + size ≤ 8 →
      m'.loadAt (frame + BitVec.ofNat 32 offset) size =
        m.loadAt (frame + BitVec.ofNat 32 offset) size := by
    intro offset size hin
    refine ByteMemory.loadAt_congr fun i hi => ?_
    rw [BitVec.add_assoc, ← BitVec.ofNat_add]
    exact hbytes (offset + i) (by omega)
  exact ⟨by rw [hload 0 2 (by omega), h.sr], by rw [hload 2 4 (by omega), h.pc],
    by rw [hload 6 2 (by omega), h.format]⟩

theorem storeFields_header_congr (format : FrameFormat) (vector : Nat) (stackedPc : BitVec 32)
    (savedSr : BitVec 16) (hx : (x - frame).toNat < 8) :
    storeFields frame m (frameHeader format vector stackedPc savedSr ++ fields) x =
      storeFields frame m' (frameHeader format vector stackedPc savedSr ++ fields) x := by
  rw [storeFields_append, storeFields_append]
  refine storeFields_congr ?_
  have hdistance := (x - frame).isLt
  simp only [frameHeader, storeFields]
  unfold ByteMemory.storeAt
  have hcovered : (x - (frame + BitVec.ofNat 32 6)).toNat < 2 ∨
      (x - (frame + BitVec.ofNat 32 2)).toNat < 4 ∨
      (x - (frame + BitVec.ofNat 32 0)).toNat < 2 := by
    rw [ByteMemory.toNat_sub_add frame x (by omega), ByteMemory.toNat_sub_add frame x (by omega),
      ByteMemory.toNat_sub_add frame x (by omega)]
    split <;> split <;> split <;> omega
  by_cases hsix : (x - (frame + BitVec.ofNat 32 6)).toNat < 2
  · rw [if_pos hsix, if_pos hsix]
  · rw [if_neg hsix, if_neg hsix]
    by_cases htwo : (x - (frame + BitVec.ofNat 32 2)).toNat < 4
    · rw [if_pos htwo, if_pos htwo]
    · rw [if_neg htwo, if_neg htwo, if_pos (by tauto), if_pos (by tauto)]

theorem hasHeader_storeFields (frame : BitVec 32) (m : ByteMemory 32)
    (fields : List (Nat × Nat × BitVec 32)) (format : FrameFormat) (vector : Nat) (stackedPc : BitVec 32)
    (savedSr : BitVec 16)
    (h : ∀ field ∈ fields, 8 ≤ field.1 ∧ field.1 + field.2.1 ≤ 2 ^ 32) :
    HasHeader (storeFields frame m (frameHeader format vector stackedPc savedSr ++ fields)) frame
      format (.ofWord savedSr) stackedPc := by
  rw [storeFields_append]
  refine HasHeader.congr (m := storeFields frame m (frameHeader format vector stackedPc savedSr))
    ?_ fun i hi => ?_
  · have hapart : ∀ offset size offset' size', offset + size ≤ offset' →
        offset' + size' ≤ 8 → ∀ i < size, size' ≤
          (frame + BitVec.ofNat 32 offset + BitVec.ofNat 32 i -
            (frame + BitVec.ofNat 32 offset')).toNat := by
      intro offset size offset' size' hle hend i hi
      rw [BitVec.add_assoc, ← BitVec.ofNat_add, ByteMemory.toNat_sub_add _ _ (by omega),
        ByteMemory.toNat_add_ofNat_sub _ (by omega), if_neg (by omega)]
      omega
    have hword : ∀ w : BitVec 16, (w.setWidth 32).setWidth 16 = w := fun w => by
      rw [BitVec.setWidth_setWidth_of_le _ (by omega), BitVec.setWidth_eq]
    simp only [frameHeader, storeFields]
    refine ⟨?_, ?_, ?_⟩
    · rw [ByteMemory.loadAt_storeAt_of_le (hapart 0 2 6 2 (by omega) (by omega)),
        ByteMemory.loadAt_storeAt_of_le (hapart 0 2 2 4 (by omega) (by omega)),
        ByteMemory.loadAt_storeAt (by omega) (by omega) (fits_word _), hword]
    · rw [ByteMemory.loadAt_storeAt_of_le (hapart 2 4 6 2 (by omega) (by omega)),
        ByteMemory.loadAt_storeAt (by omega) (by omega) (fits_long _)]
    · rw [ByteMemory.loadAt_storeAt (by omega) (by omega) (fits_word _), hword,
        frameFormatOf_frameFormatWord]
  · refine storeFields_of_lt (d := i) (ByteMemory.toNat_add_ofNat_sub _ (by omega)) ?_
    intro field hfield
    obtain ⟨hbelow, hend⟩ := h field hfield
    exact ⟨by omega, hend⟩

end Fields

/-! ## Fields of a frame -/

section Access

variable {σ : Type} {ports : Ports σ}

theorem operandRead_ofMemory (mode : AccessMode) (regs : Regs) (address : BitVec 32) (size : Nat)
    (s : σ) :
    operandRead ports mode regs (.ofMemory address) size s =
      readChunks ports mode size address size 0 s := rfl

theorem operandWrite_ofMemory (mode : AccessMode) (regs : Regs) (address : BitVec 32)
    (size : Nat) (value : BitVec 32) (s : σ) :
    operandWrite ports mode regs (.ofMemory address) size value s =
      match writeChunks ports mode value size address size s with
      | (.error fault, s) => (.error fault, s)
      | (.ok (), s) => (.ok regs, s) := rfl

variable {functionCode : BitVec 8} (view : MemoryPorts ports functionCode) {cpu cpu' : Cpu σ}
  {address value : BitVec 32} {size : Nat}

theorem MemoryPorts.stepOperandWrite_ok (hsize : size ≤ 4)
    (h : stepOperandWrite ports (.ofMemory address) size value functionCode cpu = .ok () cpu') :
    ∃ memory, cpu' = { cpu with memory } ∧
      view.memory memory = (view.memory cpu.memory).storeAt address size value := by
  unfold stepOperandWrite at h
  rw [operandWrite_ofMemory] at h
  rcases hchunks : writeChunks ports (cpu.accessMode functionCode) value size address size
    cpu.memory with ⟨outcome, memory⟩
  rw [hchunks] at h
  cases outcome with
  | error fault => exact nomatch h
  | ok u =>
    cases u
    cases h
    exact ⟨memory, rfl, view.writeChunks_ok rfl value size address size _ _ (le_refl _) hsize
      hchunks⟩

theorem MemoryPorts.stepOperandRead_ok (hsize : size = 1 ∨ size = 2 ∨ size = 4)
    (h : stepOperandRead ports (.ofMemory address) size functionCode cpu = .ok value cpu') :
    ∃ memory, cpu' = { cpu with memory } ∧ view.memory memory = view.memory cpu.memory ∧
      value = (view.memory cpu.memory).loadAt address size := by
  unfold stepOperandRead at h
  rw [operandRead_ofMemory] at h
  rcases hchunks : readChunks ports (cpu.accessMode functionCode) size address size 0
    cpu.memory with ⟨outcome, memory⟩
  rw [hchunks] at h
  cases outcome with
  | error fault => exact nomatch h
  | ok read =>
    cases h
    obtain ⟨hmemory, hbytes⟩ := view.readChunks_ok rfl size address size 0 _ _ _ (le_refl _)
      (by omega) (fun hthree => by omega) hchunks
    refine ⟨memory, rfl, hmemory, eq_of_byteAt fun j hj => ?_⟩
    rw [hbytes j hj, ByteMemory.byteAt_loadAt hj]
    split
    · rfl
    · apply BitVec.eq_of_getLsbD_eq
      intro i hi
      rw [byteAt_getLsbD _ _ hi]
      exact BitVec.getLsbD_zero.trans BitVec.getLsbD_zero.symm

end Access

/-! ## The stack -/

section Stack

variable {σ : Type} {ports : Ports σ} (view : MemoryPorts ports fcSupervisorData)
  {cpu cpu' : Cpu σ} {frame value : BitVec 32}

theorem MemoryPorts.writeFrameField_ok {address : BitVec 32} {size : Nat} (hsize : size ≤ 4)
    (h : writeFrameField ports address size value cpu = .ok () cpu') :
    ∃ memory, cpu' = { cpu with memory, noAllocate := false } ∧
      view.memory memory = (view.memory cpu.memory).storeAt address size value := by
  unfold writeFrameField at h
  rw [Attempt.modify_bind] at h
  obtain ⟨wrote, cpu₁, hcaught, h⟩ := Attempt.bind_eq_ok.mp h
  rw [Attempt.modify_bind] at h
  obtain ⟨hwrote, rfl⟩ := Attempt.require_eq_ok.mp h
  obtain ⟨u, -, hwrite⟩ | ⟨rfl, -⟩ := Attempt.caught_eq_ok.mp hcaught
  · obtain ⟨memory, rfl, hmemory⟩ := view.stepOperandWrite_ok hsize hwrite
    exact ⟨memory, rfl, hmemory⟩
  · exact nomatch hwrote

theorem MemoryPorts.writeFields_ok {fields : List (Nat × Nat × BitVec 32)}
    (hsize : ∀ field ∈ fields, field.2.1 ≤ 4)
    (h : writeFields ports frame fields cpu = .ok () cpu') :
    ∃ memory noAllocate, cpu' = { cpu with memory, noAllocate } ∧
      view.memory memory = storeFields frame (view.memory cpu.memory) fields := by
  induction fields generalizing cpu with
  | nil =>
    cases h
    exact ⟨cpu'.memory, cpu'.noAllocate, rfl, rfl⟩
  | cons field fields ih =>
    obtain ⟨offset, size, value⟩ := field
    obtain ⟨u, cpu₁, hfirst, hrest⟩ := Attempt.bind_eq_ok.mp h
    obtain ⟨memory₁, rfl, hmemory₁⟩ :=
      view.writeFrameField_ok (hsize (offset, size, value) (List.mem_cons_self ..)) hfirst
    obtain ⟨memory, noAllocate, rfl, hmemory⟩ :=
      ih (fun field hfield => hsize field (List.mem_cons_of_mem _ hfield)) hrest
    exact ⟨memory, noAllocate, rfl, by rw [hmemory, hmemory₁]; rfl⟩

theorem MemoryPorts.readStack_ok {offset size : Nat} (hsize : size = 1 ∨ size = 2 ∨ size = 4)
    (h : readStack ports offset size cpu = .ok value cpu') :
    ∃ memory, cpu' = { cpu with memory } ∧ view.memory memory = view.memory cpu.memory ∧
      value = (view.memory cpu.memory).loadAt (cpu.regs.readA7 + BitVec.ofNat 32 offset) size := by
  unfold readStack at h
  rw [Attempt.read_bind] at h
  exact view.stepOperandRead_ok hsize h

variable {area : BitVec 32 → Prop}

theorem StaysReadable.readChunks {functionCode : BitVec 8} (mode : AccessMode)
    (hmode : mode.functionCode = functionCode) :
    ∀ (turns : Nat) (address : BitVec 32) (remaining : Nat) (acc : BitVec 32) (s : σ),
      remaining ≤ turns → StaysReadable ports functionCode area s →
      (∀ i < remaining, area (address + BitVec.ofNat 32 i)) →
      ∃ value s', M68030.readChunks ports mode turns address remaining acc s = (.ok value, s') ∧
        StaysReadable ports functionCode area s' := by
  intro turns
  induction turns with
  | zero => exact fun address remaining acc s _ h _ => ⟨acc, s, rfl, h⟩
  | succ turns ih =>
    intro address remaining acc s hturns h harea
    unfold M68030.readChunks
    split
    · exact ⟨acc, s, rfl, h⟩
    · rename_i hzero
      have hlong := inLong_chunk address (Nat.pos_of_ne_zero hzero)
      have hle := chunkSize_le address remaining
      dsimp only
      generalize chunkSize address remaining = chunk at hlong hle
      obtain ⟨J, hs, hJ⟩ := h
      obtain ⟨⟨long, hanswer⟩, hnext⟩ :=
        hJ s hs mode address chunk hmode hlong fun i hi => harea i (by omega)
      rcases haccess : ports.access (mode.request false address 0 chunk) s with ⟨answer, s'⟩
      rw [haccess] at hanswer hnext
      dsimp only at hanswer hnext
      subst hanswer
      refine ih _ _ _ s' (by have := hlong.1; omega) ⟨J, hnext, hJ⟩ fun i hi => ?_
      rw [BitVec.add_assoc, ← BitVec.ofNat_add]
      exact harea (chunk + i) (by omega)

theorem StaysReadable.readStack {offset size : Nat}
    (h : StaysReadable ports fcSupervisorData area cpu.memory)
    (harea : ∀ i < size, area (cpu.regs.readA7 + BitVec.ofNat 32 (offset + i))) :
    ∃ value memory, M68030.readStack ports offset size cpu = .ok value { cpu with memory } ∧
      StaysReadable ports fcSupervisorData area memory := by
  obtain ⟨value, memory, hchunks, hreadable⟩ :=
    h.readChunks (cpu.accessMode fcSupervisorData) rfl size
      (cpu.regs.readA7 + BitVec.ofNat 32 offset) size 0 cpu.memory (le_refl _) fun i hi => by
        rw [BitVec.add_assoc, ← BitVec.ofNat_add]
        exact harea i hi
  refine ⟨value, memory, ?_, hreadable⟩
  unfold M68030.readStack
  rw [Attempt.read_bind]
  unfold stepOperandRead
  rw [operandRead_ofMemory, hchunks]

end Stack

end Apollo.M68030
