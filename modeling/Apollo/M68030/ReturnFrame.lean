import Apollo.M68030.StackAccess

/-!
# What RTE does to a stack of frames

`execute_rte` from its memory: through a frame whose header says that it can be returned
through, past a throwaway frame, and, the other way about, what a return that succeeded has
read. Every frame that is passed moves one stack pointer up by its length.
-/

namespace Apollo.M68030

open Apollo.Lib

section Return

variable {σ : Type} {ports : Ports σ} (view : MemoryPorts ports fcSupervisorData)
  {cpu cpu' : Cpu σ} {format : FrameFormat} {sr : StatusRegister} {pc : BitVec 32}
  {area : BitVec 32 → Prop} {frames : Nat}

/-! ## Reading a frame -/

theorem MemoryPorts.readStack_eq (cpu : Cpu σ) (offset : Nat) {size : Nat} (hsize : size = 1 ∨ size = 2 ∨ size = 4)
    (hreadable : StaysReadable ports fcSupervisorData area cpu.memory)
    (harea : ∀ i < size, area (cpu.regs.readA7 + BitVec.ofNat 32 (offset + i))) :
    ∃ memory,
      readStack ports offset size cpu =
        .ok ((view.memory cpu.memory).loadAt (cpu.regs.readA7 + BitVec.ofNat 32 offset) size)
          { cpu with memory } ∧
      view.memory memory = view.memory cpu.memory ∧
      StaysReadable ports fcSupervisorData area memory := by
  obtain ⟨value, memory, hread, hstays⟩ := hreadable.readStack harea
  obtain ⟨memory', hcpu, hmemory, rfl⟩ := view.readStack_ok hsize hread
  cases (show memory = memory' from congrArg Cpu.memory hcpu)
  exact ⟨memory, hread, hmemory, hstays⟩

theorem MemoryPorts.readDiscarded_eq (cpu : Cpu σ) (offsets : List Nat)
    (hreadable : StaysReadable ports fcSupervisorData area cpu.memory)
    (harea : ∀ offset ∈ offsets, ∀ i < 4,
      area (cpu.regs.readA7 + BitVec.ofNat 32 (offset + i))) :
    ∃ memory, readDiscarded ports offsets cpu = .ok () { cpu with memory } ∧
      view.memory memory = view.memory cpu.memory ∧
      StaysReadable ports fcSupervisorData area memory := by
  induction offsets generalizing cpu with
  | nil => exact ⟨cpu.memory, rfl, rfl, hreadable⟩
  | cons offset offsets ih =>
    obtain ⟨memory₁, hread, hmemory₁, hreadable₁⟩ := view.readStack_eq cpu offset (.inr (.inr rfl)) hreadable
      (harea offset (List.mem_cons_self ..))
    obtain ⟨memory, hrest, hmemory, hstays⟩ := ih { cpu with memory := memory₁ }
      hreadable₁ fun offset hoffset => harea offset (List.mem_cons_of_mem _ hoffset)
    refine ⟨memory, ?_, hmemory.trans hmemory₁, hstays⟩
    unfold readDiscarded
    rw [Attempt.bind_of_ok hread, hrest]

/-- The registers after a return through a frame. -/
def returnRegs (regs : Regs) (bytes : Nat) (sr : StatusRegister) : Regs :=
  { regs.writeA7 (regs.readA7 + BitVec.ofNat 32 bytes) with sr }

theorem returnBytes_bounds {formatWord : BitVec 16} {variant : FrameVariant}
    (hof : frameFormatOf formatWord = some format)
    (hdefined : frameFormatDefined formatWord variant = true) :
    8 ≤ returnBytes format variant ∧ returnBytes format variant ≤ 92 ∧
      (returnBytes format variant - 8) / 4 * 4 + 8 ≤ returnBytes format variant := by
  unfold frameFormatDefined at hdefined
  rw [hof] at hdefined
  cases format <;> cases variant <;> first | exact absurd hdefined (by decide) | decide

/-- RTE THROUGH A FRAME: the status register and the program counter are those of the frame, and
the stack pointer moves past it. -/
theorem MemoryPorts.returnFrames_frame (frames : Nat)
    (hheader : HasHeader (view.memory cpu.memory) cpu.regs.readA7 format sr pc)
    (hthrowaway : format ≠ .throwaway) (hmid : format ≠ .coprocessorMid)
    (hdefined : ∀ formatWord, frameFormatOf formatWord = some format →
      frameFormatDefined formatWord cpu.frameVariant = true)
    (hreadable : StaysReadable ports fcSupervisorData area cpu.memory)
    (harea : ∀ i < returnBytes format cpu.frameVariant,
      area (cpu.regs.readA7 + BitVec.ofNat 32 i)) :
    ∃ memory, returnFrames ports (frames + 1) cpu =
        .ok () (jumpTo pc { cpu with
          memory, regs := returnRegs cpu.regs (returnBytes format cpu.frameVariant) sr }) := by
  obtain ⟨hlow, -, hwords⟩ := returnBytes_bounds hheader.format (hdefined _ hheader.format)
  obtain ⟨memory₁, hformat, hmemory₁, hreadable₁⟩ := view.readStack_eq cpu 6
    (.inr (.inl rfl)) hreadable fun i hi => harea _ (by omega)
  obtain ⟨memory₂, hsr, hmemory₂, hreadable₂⟩ :=
    view.readStack_eq { cpu with memory := memory₁ } 0 (.inr (.inl rfl)) hreadable₁ fun i hi => harea _ (by omega)
  obtain ⟨memory₃, hpc, hmemory₃, hreadable₃⟩ :=
    view.readStack_eq { cpu with memory := memory₂ } 2 (.inr (.inr rfl)) hreadable₂ fun i hi => harea _ (by omega)
  dsimp only at hsr hpc hmemory₂ hmemory₃
  rw [hmemory₁] at hsr hmemory₂
  rw [hmemory₂, hheader.pc] at hpc
  have hrest : ∃ memory, Attempt.onlyIf (format = .shortBusFault ∨ format = .longBusFault)
      (readDiscarded ports
        ((List.range ((returnBytes format cpu.frameVariant - 8) / 4)).map fun i => 8 + 4 * i))
      { cpu with memory := memory₃ } = .ok () { cpu with memory } := by
    unfold Attempt.onlyIf
    split
    · obtain ⟨memory, hrest, -⟩ := view.readDiscarded_eq { cpu with memory := memory₃ }
        ((List.range ((returnBytes format cpu.frameVariant - 8) / 4)).map
          fun i => 8 + 4 * i) hreadable₃ fun offset hoffset i hi => by
          obtain ⟨k, hk, rfl⟩ := List.mem_map.mp hoffset
          rw [List.mem_range] at hk
          exact harea _ (by omega)
      exact ⟨memory, hrest⟩
    · exact ⟨memory₃, rfl⟩
  obtain ⟨memory, hrest⟩ := hrest
  refine ⟨memory, ?_⟩
  unfold returnFrames
  rw [Attempt.bind_of_ok hformat, Attempt.read_bind, hdefined _ hheader.format]
  simp only [Bool.not_true, Bool.false_eq_true, if_false]
  rw [Attempt.bind_of_ok hsr, hheader.format, if_neg fun h => hthrowaway (by simpa using h)]
  dsimp only
  unfold returnThrough
  rw [Attempt.bind_of_ok (Attempt.require_of hmid), Attempt.bind_of_ok hpc, Attempt.read_bind]
  dsimp only
  rw [Attempt.bind_of_ok hrest, Attempt.modify_bind, Attempt.modify_bind]
  rw [← hheader.sr]
  rfl

theorem MemoryPorts.returnFrames_throwaway (frames : Nat)
    (hheader : HasHeader (view.memory cpu.memory) cpu.regs.readA7 .throwaway sr pc)
    (hreadable : StaysReadable ports fcSupervisorData area cpu.memory)
    (harea : ∀ i < 8, area (cpu.regs.readA7 + BitVec.ofNat 32 i)) :
    ∃ memory, returnFrames ports (frames + 1) cpu =
        returnFrames ports frames { cpu with memory, regs := returnRegs cpu.regs 8 sr } ∧
      view.memory memory = view.memory cpu.memory ∧
      StaysReadable ports fcSupervisorData area memory := by
  obtain ⟨memory₁, hformat, hmemory₁, hreadable₁⟩ := view.readStack_eq cpu 6
    (.inr (.inl rfl)) hreadable fun i hi => harea _ (by omega)
  obtain ⟨memory₂, hsr, hmemory₂, hreadable₂⟩ :=
    view.readStack_eq { cpu with memory := memory₁ } 0 (.inr (.inl rfl)) hreadable₁ fun i hi => harea _ (by omega)
  dsimp only at hsr hmemory₂
  rw [hmemory₁] at hsr hmemory₂
  have hdefined : frameFormatDefined
      (((view.memory cpu.memory).loadAt (cpu.regs.readA7 + BitVec.ofNat 32 6) 2).setWidth 16)
      cpu.frameVariant = true := by
    unfold frameFormatDefined
    rw [hheader.format]
  refine ⟨memory₂, ?_, hmemory₂, hreadable₂⟩
  conv => lhs; unfold returnFrames
  rw [Attempt.bind_of_ok hformat, Attempt.read_bind, hdefined]
  simp only [Bool.not_true, Bool.false_eq_true, if_false]
  rw [Attempt.bind_of_ok hsr, if_pos hheader.format, Attempt.modify_bind, Attempt.modify_bind,
    ← hheader.sr]
  rfl

/-! ## What a return has read -/

include view in
theorem MemoryPorts.readDiscarded_ok {offsets : List Nat}
    (h : readDiscarded ports offsets cpu = .ok () cpu') :
    ∃ memory, cpu' = { cpu with memory } := by
  induction offsets generalizing cpu with
  | nil =>
    cases h
    exact ⟨cpu'.memory, rfl⟩
  | cons offset offsets ih =>
    obtain ⟨value, cpu₁, hread, hrest⟩ := Attempt.bind_eq_ok.mp h
    obtain ⟨memory₁, rfl, -⟩ := view.readStack_ok (.inr (.inr rfl)) hread
    obtain ⟨memory, rfl⟩ := ih hrest
    exact ⟨memory, rfl⟩

theorem MemoryPorts.returnThrough_ok {savedSr : BitVec 16}
    (h : returnThrough ports format savedSr cpu = .ok () cpu') :
    cpu'.regs = { returnRegs cpu.regs (returnBytes format cpu.frameVariant) (.ofWord savedSr) with
      pc := (view.memory cpu.memory).loadAt (cpu.regs.readA7 + BitVec.ofNat 32 2) 4 } := by
  unfold returnThrough at h
  obtain ⟨u, cpu₁, hrequire, hthen⟩ := Attempt.bind_eq_ok.mp h
  obtain ⟨-, hcpu₁⟩ := Attempt.require_eq_ok.mp hrequire
  subst hcpu₁
  obtain ⟨savedPc, cpu₂, hpc, hrest⟩ := Attempt.bind_eq_ok.mp hthen
  obtain ⟨memory, rfl, -, rfl⟩ := view.readStack_ok (.inr (.inr rfl)) hpc
  rw [Attempt.read_bind] at hrest
  dsimp only at hrest
  obtain ⟨u', cpu₃, hdiscarded, hend⟩ := Attempt.bind_eq_ok.mp hrest
  have hcpu₃ : ∃ memory', cpu₃ = { cpu₁ with memory := memory' } := by
    unfold Attempt.onlyIf at hdiscarded
    split at hdiscarded
    · obtain ⟨memory', rfl⟩ := view.readDiscarded_ok hdiscarded
      exact ⟨memory', rfl⟩
    · cases hdiscarded
      exact ⟨memory, rfl⟩
  obtain ⟨memory', rfl⟩ := hcpu₃
  rw [Attempt.modify_bind, Attempt.modify_bind] at hend
  cases hend
  rfl

/-- What a return that succeeded has read: a frame that it went through, or a throwaway frame
and what was behind it. -/
theorem MemoryPorts.returnFrames_ok (h : returnFrames ports (frames + 1) cpu = .ok () cpu')
    (hpending : cpu'.pendingVector = 0) :
    (∃ format formatWord sr pc, HasHeader (view.memory cpu.memory) cpu.regs.readA7 format sr pc ∧
        format ≠ .throwaway ∧ frameFormatOf formatWord = some format ∧
        frameFormatDefined formatWord cpu.frameVariant = true ∧
        cpu'.regs =
          { returnRegs cpu.regs (returnBytes format cpu.frameVariant) sr with pc }) ∨
      ∃ cpu₁ sr, cpu₁.regs = returnRegs cpu.regs 8 sr ∧
        returnFrames ports frames cpu₁ = .ok () cpu' := by
  unfold returnFrames at h
  obtain ⟨word, cpu₁, hformat, hthen⟩ := Attempt.bind_eq_ok.mp h
  obtain ⟨memory₁, rfl, hmemory₁, hword⟩ := view.readStack_ok (.inr (.inl rfl)) hformat
  rw [Attempt.read_bind] at hthen
  dsimp only at hthen
  split at hthen
  · -- a format error is not a return
    cases hthen
    exact absurd (show vectorFormatError = 0 from hpending) (by decide)
  · rename_i hdefined
    obtain ⟨savedSr, cpu₂, hsr, hrest⟩ := Attempt.bind_eq_ok.mp hthen
    obtain ⟨memory₂, rfl, hmemory₂, hsaved⟩ := view.readStack_ok (.inr (.inl rfl)) hsr
    dsimp only at hrest hmemory₂ hsaved
    rw [hmemory₁] at hmemory₂ hsaved
    split at hrest
    · rw [Attempt.modify_bind, Attempt.modify_bind] at hrest
      exact .inr ⟨_, _, rfl, hrest⟩
    · rename_i hthrowaway
      rcases hof : frameFormatOf (word.setWidth 16) with _ | format
      · rw [hof] at hrest
        exact nomatch hrest
      · rw [hof] at hrest
        have hregs := view.returnThrough_ok hrest
        dsimp only at hregs
        rw [hmemory₂] at hregs
        exact .inl ⟨format, _, .ofWord (savedSr.setWidth 16), _,
          ⟨by rw [hsaved], rfl, by rw [← hword, hof]⟩, fun h => hthrowaway (by rw [hof, h]), hof,
          by simpa using hdefined, hregs⟩

/-- The three stack pointers together. -/
def Regs.stackSum (regs : Regs) : BitVec 32 := regs.usp + regs.isp + regs.msp

theorem stackSum_returnRegs (regs : Regs) (bytes : Nat) (sr : StatusRegister) :
    (returnRegs regs bytes sr).stackSum = regs.stackSum + BitVec.ofNat 32 bytes := by
  unfold returnRegs Regs.writeA7 Regs.readA7 Regs.stackSum
  cases regs.activeStack <;> simp only [Regs.setStackPointer, Regs.stackPointer] <;> ring

include view in
theorem MemoryPorts.stackSum_returnFrames (h : returnFrames ports frames cpu = .ok () cpu')
    (hpending : cpu'.pendingVector = 0) :
    ∃ k, 8 ≤ k ∧ k ≤ 8 * frames + 92 ∧ cpu'.regs.stackSum = cpu.regs.stackSum + BitVec.ofNat 32 k := by
  induction frames generalizing cpu with
  | zero =>
    cases h
    exact absurd (show vectorFormatError = 0 from hpending) (by decide)
  | succ frames ih =>
    obtain ⟨format, formatWord, sr, pc, -, -, hof, hdefined, hregs⟩ | ⟨cpu₁, sr, hregs, hrest⟩ :=
      view.returnFrames_ok h hpending
    · obtain ⟨hlow, hhigh, -⟩ := returnBytes_bounds hof hdefined
      refine ⟨_, hlow, by omega, ?_⟩
      rw [hregs]
      exact stackSum_returnRegs cpu.regs _ sr
    · obtain ⟨k, hlow, hhigh, hsum⟩ := ih hrest
      refine ⟨8 + k, by omega, by omega, ?_⟩
      rw [hsum, hregs, stackSum_returnRegs, BitVec.ofNat_add, BitVec.add_assoc]

end Return

end Apollo.M68030
