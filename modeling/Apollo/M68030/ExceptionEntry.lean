import Apollo.M68030.StackAccess

/-!
# What an exception entry leaves

Of an entry that completed: which registers it changed, and which frame it stacked. The stack
pointer that the handler uses has moved down by the frame's length, the status register has the
`S` bit set and the trace bits clear, and the other stack pointers stay.
-/

namespace Apollo.M68030

open Apollo.Lib

section Entry

variable {σ : Type} {ports : Ports σ} (view : MemoryPorts ports fcSupervisorData)
  {cpu entered : Cpu σ} {out : ExceptionResult} {format : FrameFormat} {vector : Nat}
  {stackedPc instructionAddress frame : BitVec 32} {savedSr : BitVec 16}

/-! ## Fields -/

theorem size_frameHeader {field : Nat × Nat × BitVec 32}
    (h : field ∈ frameHeader format vector stackedPc savedSr) : field.2.1 ≤ 4 := by
  simp only [frameHeader, List.mem_cons, List.not_mem_nil, or_false] at h
  obtain rfl | rfl | rfl := h <;> norm_num

/-- The fields that an exception frame has after its header. -/
def exceptionTail (format : FrameFormat) (instructionAddress : BitVec 32) :
    List (Nat × Nat × BitVec 32) :=
  (if format = .sixWord ∨ format = .coprocessorMid then [(8, 4, instructionAddress)] else []) ++
    (if format = .coprocessorMid then [(12, 4, 0), (16, 4, 0)] else [])

theorem exceptionFields_eq :
    exceptionFields format vector stackedPc instructionAddress savedSr =
      frameHeader format vector stackedPc savedSr ++ exceptionTail format instructionAddress := by
  rw [exceptionFields, exceptionTail, List.append_assoc]

theorem mem_exceptionTail {field : Nat × Nat × BitVec 32}
    (h : field ∈ exceptionTail format instructionAddress) :
    8 ≤ field.1 ∧ field.1 + field.2.1 ≤ 2 ^ 32 ∧ field.2.1 ≤ 4 := by
  cases format <;> simp [exceptionTail] at h
  · subst h
    norm_num
  · obtain rfl | rfl | rfl := h <;> norm_num

/-- The fields of a bus error frame are its header, after zeroes in the 68040's, and fields
behind the header. -/
theorem busFaultFields_eq (cpu : Cpu σ) (format : FrameFormat) (vector : Nat)
    (savedSr : BitVec 16) (stackedPc : BitVec 32) (ssw : SpecialStatus) (faultAddress dataOutput : BitVec 32) :
    ∃ before after,
      busFaultFields cpu format vector savedSr stackedPc ssw faultAddress dataOutput =
        before ++ (frameHeader format vector stackedPc savedSr ++ after) ∧
      (∀ field ∈ before, field.2.1 ≤ 4) ∧
      ∀ field ∈ after, 8 ≤ field.1 ∧ field.1 + field.2.1 ≤ 2 ^ 32 ∧ field.2.1 ≤ 4 := by
  unfold busFaultFields
  dsimp only
  split
  · refine ⟨_, _, List.append_assoc .., ?_, ?_⟩
    · intro field hfield
      obtain ⟨i, -, rfl⟩ := List.mem_map.mp hfield
      norm_num
    · intro field hfield
      simp only [List.mem_cons, List.not_mem_nil, or_false] at hfield
      obtain rfl | rfl | rfl | rfl | rfl | rfl := hfield <;> simp
  · refine ⟨[], _, rfl, fun field hfield => (List.not_mem_nil hfield).elim, ?_⟩
    intro field hfield
    obtain ⟨i, hi, rfl⟩ := List.mem_map.mp hfield
    rw [List.mem_range] at hi
    have hwords : frameWords format * 2 ≤ 92 := by cases format <;> decide
    dsimp only
    omega

/-! ## Entries -/

/-- The registers of a handler whose frame is at an address. -/
def handlerRegs (regs : Regs) (frame : BitVec 32) : Regs :=
  (regs.writeSr (handlerSr regs.sr)).writeA7 frame

/-- Which stack a handler's frame is on. -/
def handlerStack (regs : Regs) : Stack := if regs.master then .msp else .isp

theorem activeStack_writeSr_handlerSr (regs : Regs) :
    (regs.writeSr (handlerSr regs.sr)).activeStack = handlerStack regs := by
  have hmasks : (0xF71F#16).getLsbD 13 = true ∧ (0xF71F#16).getLsbD 12 = true ∧
      (1#16 <<< 13).getLsbD 13 = true ∧ (1#16 <<< 15).getLsbD 13 = false ∧
      (1#16 <<< 14).getLsbD 13 = false ∧ (1#16 <<< 13).getLsbD 12 = false ∧
      (1#16 <<< 15).getLsbD 12 = false ∧ (1#16 <<< 14).getLsbD 12 = false := by decide
  obtain ⟨hs, hm, h1, h2, h3, h4, h5, h6⟩ := hmasks
  have hsupervisor : (regs.writeSr (handlerSr regs.sr)).supervisor = true := by
    simp only [Regs.supervisor, Regs.writeSr, StatusRegister.ofWord, handlerSr, srDefined, srSBit,
      srT1Bit, srT0Bit, BitVec.getLsbD_and, BitVec.getLsbD_or, BitVec.getLsbD_not, h1, h2, h3]
    simp
  have hmaster : (regs.writeSr (handlerSr regs.sr)).master = regs.master := by
    simp only [Regs.master, Regs.writeSr, StatusRegister.ofWord, handlerSr, srDefined, srSBit,
      srMBit, srT1Bit, srT0Bit, BitVec.getLsbD_and, BitVec.getLsbD_or, BitVec.getLsbD_not, h4, h5, h6]
    simp
  rw [Regs.activeStack, hsupervisor, hmaster]
  rfl

theorem MemoryPorts.fetchVector_ok {noAllocate : Bool}
    (h : fetchVector ports vector frame format noAllocate cpu = .ok out entered) :
    ∃ memory noAllocate handler, entered =
        jumpTo handler { cpu with memory, noAllocate, regs := cpu.regs.writeA7 frame } ∧
      view.memory memory = view.memory cpu.memory := by
  unfold fetchVector at h
  rw [Attempt.modify_bind, Attempt.read_bind] at h
  obtain ⟨u, cpu₁, hbefore, hfetch⟩ := Attempt.bind_eq_ok.mp h
  obtain ⟨read, cpu₂, hcaught, hrest⟩ := Attempt.bind_eq_ok.mp hfetch
  obtain ⟨u', cpu₃, hafter, hend⟩ := Attempt.bind_eq_ok.mp hrest
  have honly : ∀ {b : Bool} {s s' : Cpu σ} {u : Unit},
      Attempt.onlyIf (noAllocate = true) (modify fun cpu => { cpu with noAllocate := b }) s =
        .ok u s' → ∃ b', s' = { s with noAllocate := b' } := by
    intro b s s' u hs
    unfold Attempt.onlyIf at hs
    split at hs
    · cases hs
      exact ⟨b, rfl⟩
    · cases hs
      exact ⟨s.noAllocate, rfl⟩
  obtain ⟨b₁, rfl⟩ := honly hbefore
  obtain ⟨b₂, rfl⟩ := honly hafter
  cases read with
  | none => exact nomatch hend
  | some handler =>
    dsimp only at hend
    rw [Attempt.modify_bind] at hend
    cases hend
    obtain ⟨read, hread, hok⟩ | ⟨hnone, -⟩ := Attempt.caught_eq_ok.mp hcaught
    · obtain ⟨memory, rfl, hmemory, -⟩ := view.stepOperandRead_ok (.inr (.inr rfl)) hok
      exact ⟨memory, b₂, handler, rfl, hmemory⟩
    · exact nomatch hnone

/-- WHAT AN EXCEPTION LEAVES. -/
theorem MemoryPorts.takeExceptionWith_ok
    (h : takeExceptionWith ports vector stackedPc instructionAddress savedSr cpu =
      .ok out entered) :
    ∃ memory noAllocate handler,
      entered = jumpTo handler { cpu with
        memory, noAllocate
        regs := handlerRegs cpu.regs
          (cpu.regs.stackPointer (handlerStack cpu.regs) -
            BitVec.ofNat 32 (frameWords (frameForVector vector) * 2)) } ∧
      view.memory memory = storeFields
        (cpu.regs.stackPointer (handlerStack cpu.regs) -
          BitVec.ofNat 32 (frameWords (frameForVector vector) * 2))
        (view.memory cpu.memory)
        (exceptionFields (frameForVector vector) vector stackedPc instructionAddress savedSr) := by
  unfold takeExceptionWith at h
  obtain ⟨u, cpu₁, hreset, hthen⟩ := Attempt.bind_eq_ok.mp h
  obtain ⟨-, hcpu₁⟩ := Attempt.require_eq_ok.mp hreset
  subst hcpu₁
  obtain ⟨u', cpu₂, hrequire, hentry⟩ := Attempt.bind_eq_ok.mp hthen
  obtain ⟨hformat, hcpu₂⟩ := Attempt.require_eq_ok.mp hrequire
  subst hcpu₂
  have hnotLong : frameForVector vector ≠ .longBusFault := by
    intro hlong
    rw [hlong] at hformat
    exact absurd hformat (by decide)
  rw [Attempt.modify_bind, Attempt.read_bind, Attempt.read_bind, if_neg hnotLong] at hentry
  have hframe : (enterSupervisor cpu₂).regs.readA7 =
      cpu₂.regs.stackPointer (handlerStack cpu₂.regs) := by
    rw [Regs.readA7, enterSupervisor, Cpu.mapRegs]
    dsimp only
    rw [activeStack_writeSr_handlerSr, Regs.stackPointer_writeSr]
  rw [hframe] at hentry
  obtain ⟨u'', cpu₃, hfields, hvector⟩ := Attempt.bind_eq_ok.mp hentry
  obtain ⟨memory₁, noAllocate₁, rfl, hmemory₁⟩ := view.writeFields_ok (fun field hfield => by
    rw [exceptionFields_eq] at hfield
    obtain hfield | hfield := List.mem_append.mp hfield
    · exact size_frameHeader hfield
    · exact (mem_exceptionTail hfield).2.2) hfields
  obtain ⟨memory, noAllocate, handler, rfl, hmemory⟩ := view.fetchVector_ok hvector
  exact ⟨memory, noAllocate, handler, rfl, hmemory.trans hmemory₁⟩

/-- WHAT A BUS OR ADDRESS ERROR LEAVES. -/
theorem MemoryPorts.takeBusFaultWith_ok {ssw : SpecialStatus} {faultAddress dataOutput : BitVec 32}
    (hformat : format = faultFormat cpu.frameVariant ssw faultAddress instructionAddress)
    (h : takeBusFaultWith ports vector instructionAddress ssw faultAddress dataOutput cpu =
      .ok out entered) :
    ∃ memory noAllocate handler,
      entered = jumpTo handler { cpu with
        memory, noAllocate
        regs := handlerRegs cpu.regs
          (cpu.regs.stackPointer (handlerStack cpu.regs) - BitVec.ofNat 32 (frameWords format * 2)) } ∧
      view.memory memory = storeFields
        (cpu.regs.stackPointer (handlerStack cpu.regs) - BitVec.ofNat 32 (frameWords format * 2))
        (view.memory cpu.memory)
        (busFaultFields cpu format vector cpu.regs.sr.word
          (if format = .longBusFault then instructionAddress else cpu.regs.pc) ssw faultAddress
          dataOutput) := by
  subst hformat
  unfold takeBusFaultWith at h
  rw [Attempt.read_bind, Attempt.modify_bind, Attempt.read_bind] at h
  have hframe : (enterSupervisor cpu).regs.readA7 =
      cpu.regs.stackPointer (handlerStack cpu.regs) := by
    rw [Regs.readA7, enterSupervisor, Cpu.mapRegs]
    dsimp only
    rw [activeStack_writeSr_handlerSr, Regs.stackPointer_writeSr]
  rw [hframe] at h
  dsimp only [id] at h
  obtain ⟨u, cpu₁, hfields, hvector⟩ := Attempt.bind_eq_ok.mp h
  obtain ⟨before, after, hsplit, hbefore, hafter⟩ :=
    busFaultFields_eq cpu
      (faultFormat cpu.frameVariant ssw faultAddress instructionAddress)
      vector cpu.regs.sr.word
      (if faultFormat cpu.frameVariant ssw faultAddress instructionAddress =
        .longBusFault then instructionAddress else cpu.regs.pc) ssw faultAddress dataOutput
  obtain ⟨memory₁, noAllocate₁, rfl, hmemory₁⟩ := view.writeFields_ok (fun field hfield => by
    rw [hsplit] at hfield
    obtain hfield | hfield := List.mem_append.mp hfield
    · exact hbefore field hfield
    · obtain hfield | hfield := List.mem_append.mp hfield
      · exact size_frameHeader hfield
      · exact (hafter field hfield).2.2) hfields
  obtain ⟨memory, noAllocate, handler, rfl, hmemory⟩ := view.fetchVector_ok hvector
  exact ⟨memory, noAllocate, handler, rfl, hmemory.trans hmemory₁⟩

end Entry

end Apollo.M68030
