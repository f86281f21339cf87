import Mathlib
import Apollo.M68030.Misc
import Apollo.Lib.LaidOut
import Apollo.M68030.OperandMemory
import Apollo.M68030.OperandAccess
import Apollo.M68030.SameContext

/-!
# MOVEM

`execute_movem` of `src/core/cpu/m68030/ap_m68030_step.c`: the registers of a mask, one after another, to
memory or from it. There is one loop from bit 0 to bit 15, and a predecrement only names the registers the
other way round. What only timing uses is left out.
-/

namespace Apollo.M68030

open Apollo.Lib

section Movem

/-- `movem_register`. -/
def movemRegister (bit : Fin 16) (predecrement : Bool) : Fin 16 := if predecrement then bit.rev else bit

/-- `movem_read_register`: the first eight are data registers, the others address registers. -/
def movemReadRegister (regs : Regs) (index : Fin 16) : BitVec 32 :=
  if h : index.val < 8 then regs.d.get ⟨index.val, h⟩
  else regs.readAddressRegister ⟨index.val - 8, by omega⟩

/-- `movem_write_register`. -/
def movemWriteRegister (regs : Regs) (index : Fin 16) (value : BitVec 32) : Regs :=
  if h : index.val < 8 then { regs with d := regs.d.set index.val value h }
  else regs.writeAddressRegister ⟨index.val - 8, by omega⟩ value

/-- The register that an addressing register is. -/
def movemIndex (reg : Fin 8) : Fin 16 := ⟨reg.val + 8, by omega⟩

/-- Whether a `MOVEM` stores. -/
def Misc.toMemory (misc : Misc) : Bool := misc.kind = .movemToMemory

/-- The effective addresses of `MOVEM`: each direction has one of the two modes that step. -/
def Misc.movemAllowed (misc : Misc) : Bool :=
  if misc.toMemory then misc.ea.kind.isControlAlterable || misc.ea.kind = .predecrement
  else misc.ea.kind.isControl || misc.ea.kind = .postincrement

variable {σ : Type} (ports : Ports σ)

/-- One register is stored. The addressing register is stored as it was, less the size. -/
def movemStore (misc : Misc) (index : Fin 16) (address : BitVec 32) : Exec σ Unit := do
  let value ← Attempt.read fun cpu => movemReadRegister cpu.regs index
  let addressing := misc.ea.kind = .predecrement ∧ index = movemIndex misc.ea.reg
  writeOperand ports (.ofMemory address) misc.size
    (if addressing then value - BitVec.ofNat 32 misc.size else value)

/-- One register is loaded, with the sign of a word. -/
def movemLoad (misc : Misc) (index : Fin 16) (address : BitVec 32) : Exec σ Unit := do
  let value ← readOperand ports (.ofMemory address) misc.size
  modify fun cpu => cpu.mapRegs fun regs => movemWriteRegister regs index (signExtend value misc.size)

/-- The loop of `execute_movem`; it returns where the walk stopped. -/
def movemLoop (misc : Misc) (mask : BitVec 16) : List (Fin 16) → BitVec 32 → Exec σ (BitVec 32)
  | [], address => pure address
  | bit :: bits, address =>
    if !mask.getLsbD bit then movemLoop misc mask bits address
    else do
      let predecrement : Bool := misc.ea.kind = .predecrement
      let index := movemRegister bit predecrement
      let address := if predecrement then address - BitVec.ofNat 32 misc.size else address
      if misc.toMemory then movemStore ports misc index address else movemLoad ports misc index address
      movemLoop misc mask bits
        (if predecrement then address else address + BitVec.ofNat 32 misc.size)

/-- Where the walk starts: a mode that steps starts from its register as it is. -/
def movemAddress (misc : Misc) : Exec σ (BitVec 32) :=
  if misc.ea.kind = .predecrement ∨ misc.ea.kind = .postincrement then
    Attempt.read fun cpu => cpu.regs.readAddressRegister misc.ea.reg
  else do
    let target ← operandAddress ports misc.ea misc.size
    Attempt.require (target.valid = true ∧ target.inRegister = false ∧ target.immediate = false ∧
      target.indirectionPending = false)
    pure target.address

/-- `execute_movem`. -/
def executeMovem (misc : Misc) : Exec σ Unit := do
  let mask ← nextWord ports
  allowEa misc.movemAllowed
  let address ← movemAddress ports misc
  let stopped ← movemLoop ports misc mask (List.finRange 16) address
  Attempt.onlyIf (misc.ea.kind = .predecrement ∨ misc.ea.kind = .postincrement)
    (modify fun cpu => cpu.mapRegs fun regs => regs.writeAddressRegister misc.ea.reg stopped)

end Movem

/-!
## MOVEM saves and restores

The loop of `MOVEM` over memory: stores lay the registers of a set out side by side, the data registers
first, whichever way the walk goes (`movemLoop_up`, `movemLoop_down`), and loads give each register of the set what is in
its place (`movemLoop_load`). From the two follow the save and the restore of a set, the image that the two
ways of storing share, and the sign of words (`movem_saves_restores`).
-/

/-! ## Sets of registers -/

section Sets

variable (regs : Regs) (i j : Fin 16) (value : BitVec 32)

theorem movemReadRegister_write :
    movemReadRegister (movemWriteRegister regs i value) j =
      if j = i then value else movemReadRegister regs j := by
  unfold movemReadRegister movemWriteRegister
  by_cases hi : i.val < 8
  · rw [dif_pos hi]
    by_cases hj : j.val < 8
    · rw [dif_pos hj, dif_pos hj]
      by_cases heq : j = i
      · subst heq
        rw [if_pos rfl]
        exact Vector.getElem_set_self _
      · rw [if_neg heq]
        exact Vector.getElem_set_ne (by omega) (by omega) fun h => heq (Fin.ext h.symm)
    · have hne : j ≠ i := fun h => hj (h ▸ hi)
      rw [dif_neg hj, dif_neg hj, if_neg hne]
      rfl
  · rw [dif_neg hi]
    by_cases hj : j.val < 8
    · have hne : j ≠ i := fun h => hi (h ▸ hj)
      rw [dif_pos hj, dif_pos hj, if_neg hne, Regs.writeAddressRegister_d]
    · rw [dif_neg hj, dif_neg hj, Regs.readAddressRegister_write]
      have hiff : (⟨j.val - 8, by omega⟩ : Fin 8) = ⟨i.val - 8, by omega⟩ ↔ j = i := by
        rw [Fin.mk.injEq, Fin.ext_iff]
        omega
      by_cases heq : j = i
      · rw [if_pos heq, if_pos (hiff.mpr heq)]
      · rw [if_neg heq, if_neg (mt hiff.mp heq)]

theorem movemReadRegister_index (reg : Fin 8) :
    movemReadRegister regs (movemIndex reg) = regs.readAddressRegister reg := by
  unfold movemReadRegister movemIndex
  rw [dif_neg (by simp)]
  exact congrArg regs.readAddressRegister (Fin.ext (by simp))

theorem movemWriteRegister_index (reg : Fin 8) :
    movemWriteRegister regs (movemIndex reg) value = regs.writeAddressRegister reg value := by
  unfold movemWriteRegister movemIndex
  rw [dif_neg (by simp)]
  exact congrArg (regs.writeAddressRegister · value) (Fin.ext (by simp))

/-- The registers that a mask names, the data registers first. -/
def movemSet (mask : BitVec 16) (predecrement : Bool) : List (Fin 16) :=
  (List.finRange 16).filter fun i => mask.getLsbD (movemRegister i predecrement)

/-- The registers of a walk, in its order. -/
def movemOrder (mask : BitVec 16) (predecrement : Bool) (bits : List (Fin 16)) : List (Fin 16) :=
  (bits.filter fun bit => mask.getLsbD bit.val).map fun bit => movemRegister bit predecrement

theorem movemSet_nodup (mask : BitVec 16) (predecrement : Bool) : (movemSet mask predecrement).Nodup :=
  (List.nodup_finRange 16).filter _

theorem movemSet_length_le (mask : BitVec 16) (predecrement : Bool) :
    (movemSet mask predecrement).length ≤ 16 :=
  (List.length_filter_le _ _).trans List.length_finRange.le

theorem movemOrder_eq (mask : BitVec 16) :
    movemOrder mask false (List.finRange 16) = movemSet mask false ∧
      movemOrder mask true (List.finRange 16) = (movemSet mask true).reverse := by
  constructor
  · unfold movemOrder movemSet movemRegister
    simp
  · unfold movemOrder movemSet movemRegister
    simp only [if_true]
    rw [← List.filter_reverse, List.finRange_reverse, List.filter_map]
    simp only [Function.comp_def, Fin.rev_rev]

end Sets

/-! ## The loop -/

section Loop

variable {σ : Type} {ports : Ports σ} {functionCode : BitVec 8} (view : MemoryPorts ports functionCode)
  {misc : Misc} {mask : BitVec 16}

/-- What is stored of a register. -/
def storedValue (misc : Misc) (regs : Regs) (index : Fin 16) : BitVec 32 :=
  if misc.ea.kind = .predecrement ∧ index = movemIndex misc.ea.reg then
    movemReadRegister regs index - BitVec.ofNat 32 misc.size
  else movemReadRegister regs index

theorem movemStore_ok {cpu cpu' : Cpu σ} {index : Fin 16} {address : BitVec 32}
    (hcode : cpu.dataFunctionCode = functionCode) (hsize : OperandSize misc.size)
    (h : movemStore ports misc index address cpu = .ok () cpu') :
    ∃ memory, cpu' = { cpu with memory } ∧ view.memory memory =
      (view.memory cpu.memory).storeAt address misc.size (storedValue misc cpu.regs index) := by
  unfold movemStore at h
  rw [Attempt.read_bind] at h
  exact view.writeOperand_ok hcode hsize h

theorem movemLoad_ok {cpu cpu' : Cpu σ} {index : Fin 16} {address : BitVec 32}
    (hcode : cpu.dataFunctionCode = functionCode) (hsize : OperandSize misc.size)
    (h : movemLoad ports misc index address cpu = .ok () cpu') :
    ∃ memory, cpu' = { cpu with
        regs := movemWriteRegister cpu.regs index
          (signExtend ((view.memory cpu.memory).loadAt address misc.size) misc.size)
        memory } ∧ view.memory memory = view.memory cpu.memory := by
  unfold movemLoad at h
  obtain ⟨value, cpu₁, hread, h⟩ := Attempt.bind_eq_ok.mp h
  obtain ⟨memory, rfl, hmemory, rfl⟩ := view.readOperand_ok hcode hsize hread
  cases h
  exact ⟨memory, rfl, hmemory⟩

theorem movemOrder_cons (predecrement : Bool) (bit : Fin 16) (bits : List (Fin 16)) :
    movemOrder mask predecrement (bit :: bits) =
      if mask.getLsbD bit.val then
        movemRegister bit predecrement :: movemOrder mask predecrement bits
      else movemOrder mask predecrement bits := by
  unfold movemOrder
  rw [List.filter_cons]
  split_ifs <;> rfl

theorem size_bounds (hsize : OperandSize misc.size) : 0 < misc.size ∧ misc.size < 2 ^ 32 := by
  have hle := hsize.width_le
  have hpos := hsize.width_pos
  omega

/-- STORES UPWARDS lay the registers out from the first on. -/
theorem movemLoop_up (hsize : OperandSize misc.size) (hstore : misc.toMemory = true)
    (hup : misc.ea.kind ≠ .predecrement) :
    ∀ (bits : List (Fin 16)) (address stopped : BitVec 32) (cpu cpu' : Cpu σ),
      cpu.dataFunctionCode = functionCode →
      misc.size * (movemOrder mask false bits).length ≤ 2 ^ 32 →
      movemLoop ports misc mask bits address cpu = .ok stopped cpu' →
      ∃ memory, cpu' = { cpu with memory } ∧ view.memory memory = ByteMemory.layOut
        (view.memory cpu.memory) address misc.size
        ((movemOrder mask false bits).map (storedValue misc cpu.regs)) := by
  intro bits
  induction bits with
  | nil =>
    intro address stopped cpu cpu' _ _ h
    cases h
    exact ⟨cpu.memory, rfl, ByteMemory.layOut_nil.symm⟩
  | cons bit bits ih =>
    intro address stopped cpu cpu' hcode hfits h
    unfold movemLoop at h
    rw [movemOrder_cons] at hfits ⊢
    by_cases hbit : mask.getLsbD bit.val = true
    · rw [if_pos hbit] at hfits ⊢
      rw [hbit, if_neg (by decide)] at h
      dsimp only at h
      rw [decide_eq_false hup, if_neg Bool.false_ne_true, if_pos hstore, if_neg Bool.false_ne_true] at h
      obtain ⟨u, cpu₁, hfirst, hrest⟩ := Attempt.bind_eq_ok.mp h
      obtain ⟨memory₁, rfl, hmemory₁⟩ := movemStore_ok view hcode hsize hfirst
      rw [List.length_cons] at hfits
      obtain ⟨memory, rfl, hmemory⟩ := ih _ _ _ _ (by exact hcode)
        ((Nat.mul_le_mul_left _ (Nat.le_succ _)).trans hfits) hrest
      refine ⟨memory, rfl, hmemory.trans ?_⟩
      have hbounds := size_bounds hsize
      rw [List.map_cons, ByteMemory.layOut_cons hbounds.1 (by rwa [List.length_map]) hbounds.2]
      rw [← hmemory₁]
    · rw [if_neg hbit] at hfits ⊢
      rw [Bool.eq_false_iff.mpr hbit, if_pos (by decide)] at h
      exact ih _ _ _ _ hcode hfits h

/-- STORES DOWNWARDS lay the registers out from the last on. -/
theorem movemLoop_down (hsize : OperandSize misc.size) (hstore : misc.toMemory = true)
    (hdown : misc.ea.kind = .predecrement) :
    ∀ (bits : List (Fin 16)) (address stopped : BitVec 32) (cpu cpu' : Cpu σ),
      cpu.dataFunctionCode = functionCode →
      misc.size * (movemOrder mask true bits).length ≤ 2 ^ 32 →
      movemLoop ports misc mask bits address cpu = .ok stopped cpu' →
      stopped = address - BitVec.ofNat 32 (misc.size * (movemOrder mask true bits).length) ∧
      ∃ memory, cpu' = { cpu with memory } ∧ view.memory memory = ByteMemory.layOut
        (view.memory cpu.memory) stopped misc.size
        ((movemOrder mask true bits).reverse.map (storedValue misc cpu.regs)) := by
  intro bits
  induction bits with
  | nil =>
    intro address stopped cpu cpu' _ _ h
    cases h
    refine ⟨?_, cpu.memory, rfl, ByteMemory.layOut_nil.symm⟩
    change address = address - BitVec.ofNat 32 (misc.size * 0)
    simp
  | cons bit bits ih =>
    intro address stopped cpu cpu' hcode hfits h
    unfold movemLoop at h
    rw [movemOrder_cons] at hfits ⊢
    by_cases hbit : mask.getLsbD bit.val = true
    · rw [if_pos hbit] at hfits ⊢
      rw [hbit, if_neg (by decide)] at h
      dsimp only at h
      rw [decide_eq_true hdown, if_pos rfl, if_pos hstore, if_pos rfl] at h
      obtain ⟨u, cpu₁, hfirst, hrest⟩ := Attempt.bind_eq_ok.mp h
      obtain ⟨memory₁, rfl, hmemory₁⟩ := movemStore_ok view hcode hsize hfirst
      rw [List.length_cons] at hfits ⊢
      obtain ⟨hstopped, memory, rfl, hmemory⟩ := ih _ _ _ _ (by exact hcode)
        ((Nat.mul_le_mul_left _ (Nat.le_succ _)).trans hfits) hrest
      refine ⟨?_, memory, rfl, hmemory.trans ?_⟩
      · rw [hstopped, Nat.mul_succ, BitVec.ofNat_add]
        ring
      · have hbounds := size_bounds hsize
        have hlast : stopped + BitVec.ofNat 32
            (misc.size * ((movemOrder mask true bits).reverse.map (storedValue misc cpu.regs)).length) =
            address - BitVec.ofNat 32 misc.size := by
          rw [hstopped, List.length_map, List.length_reverse]
          ring
        rw [List.reverse_cons, List.map_append, List.map_singleton,
          ByteMemory.layOut_append hbounds.1 hbounds.2 _ _ _ (by simpa using hfits), hlast, ← hmemory₁]
    · rw [if_neg hbit] at hfits ⊢
      rw [Bool.eq_false_iff.mpr hbit, if_pos (by decide)] at h
      exact ih _ _ _ _ hcode hfits h

/-- What a load gives a register of a walk. -/
def loadedValue (m : ByteMemory 32) (size : ℕ) (address : BitVec 32) (order : List (Fin 16))
    (index : Fin 16) : BitVec 32 :=
  signExtend (m.loadAt (address + BitVec.ofNat 32 (size * order.idxOf index)) size) size

theorem movemLoop_load (hsize : OperandSize misc.size) (hload : misc.toMemory = false)
    (hup : misc.ea.kind ≠ .predecrement) :
    ∀ (bits : List (Fin 16)) (address stopped : BitVec 32) (cpu cpu' : Cpu σ),
      cpu.dataFunctionCode = functionCode → (movemOrder mask false bits).Nodup →
      movemLoop ports misc mask bits address cpu = .ok stopped cpu' →
      stopped = address + BitVec.ofNat 32 (misc.size * (movemOrder mask false bits).length) ∧
      view.memory cpu'.memory = view.memory cpu.memory ∧
      ∀ j, movemReadRegister cpu'.regs j =
        if j ∈ movemOrder mask false bits then
          loadedValue (view.memory cpu.memory) misc.size address (movemOrder mask false bits) j
        else movemReadRegister cpu.regs j := by
  intro bits
  induction bits with
  | nil =>
    intro address stopped cpu cpu' _ _ h
    cases h
    refine ⟨?_, rfl, fun j => (if_neg List.not_mem_nil).symm⟩
    change address = address + BitVec.ofNat 32 (misc.size * 0)
    simp
  | cons bit bits ih =>
    intro address stopped cpu cpu' hcode hnodup h
    unfold movemLoop at h
    rw [movemOrder_cons] at hnodup ⊢
    by_cases hbit : mask.getLsbD bit.val = true
    · rw [if_pos hbit] at hnodup ⊢
      rw [hbit, if_neg (by decide)] at h
      dsimp only at h
      rw [decide_eq_false hup, if_neg Bool.false_ne_true, hload, if_neg Bool.false_ne_true,
        if_neg Bool.false_ne_true] at h
      obtain ⟨u, cpu₁, hfirst, hrest⟩ := Attempt.bind_eq_ok.mp h
      obtain ⟨memory₁, rfl, hmemory₁⟩ := movemLoad_ok view hcode hsize hfirst
      obtain ⟨hstopped, hmemory, hregisters⟩ := ih _ _ _ _ (by exact hcode) hnodup.of_cons hrest
      dsimp only at hmemory hregisters
      rw [hmemory₁] at hmemory
      refine ⟨?_, hmemory, fun j => ?_⟩
      · rw [hstopped, List.length_cons, Nat.mul_succ, BitVec.ofNat_add]
        ring
      · rw [hregisters j, movemReadRegister_write, hmemory₁]
        generalize movemRegister bit false = first at hnodup ⊢
        unfold loadedValue
        by_cases hhead : j = first
        · subst hhead
          rw [if_neg hnodup.notMem, if_pos rfl, if_pos List.mem_cons_self, List.idxOf_cons_self,
            Nat.mul_zero]
          simp
        · have hmem : j ∈ first :: movemOrder mask false bits ↔ j ∈ movemOrder mask false bits := by
            rw [List.mem_cons]
            exact or_iff_right hhead
          by_cases hrest : j ∈ movemOrder mask false bits
          · rw [if_pos hrest, if_pos (hmem.mpr hrest), List.idxOf_cons_ne _ (Ne.symm hhead),
              Nat.succ_eq_add_one, Nat.mul_succ, BitVec.ofNat_add, BitVec.add_assoc,
              BitVec.add_comm (BitVec.ofNat 32 misc.size)]
          · rw [if_neg hrest, if_neg (mt hmem.mp hrest), if_neg hhead]
    · rw [if_neg hbit] at hnodup ⊢
      rw [Bool.eq_false_iff.mpr hbit, if_pos (by decide)] at h
      exact ih _ _ _ _ hcode hnodup h

end Loop

/-! ## The instruction -/

section Instruction

variable {σ : Type} {ports : Ports σ} {functionCode : BitVec 8} (view : MemoryPorts ports functionCode)
  {misc : Misc} {mask : BitVec 16} {cpu cpu₁ cpu₂ cpu' : Cpu σ} {address : BitVec 32}

theorem nextWord_regs {word : BitVec 16} (h : nextWord ports cpu = .ok word cpu') :
    cpu'.regs = cpu.regs := by
  unfold nextWord at h
  rw [Attempt.modify_bind] at h
  unfold takeWord at h
  split at h
  · rename_i hrun
    cases h
    have hregs := fillToDecoded_regs hrun
    exact hregs
  · exact nomatch h
  · exact nomatch h

theorem executeMovem_eq_ok (hmask : nextWord ports cpu = .ok mask cpu₁)
    (h : executeMovem ports misc cpu = .ok () cpu') :
    misc.movemAllowed = true ∧ ∃ address cpu₂ stopped cpu₃,
      movemAddress ports misc cpu₁ = .ok address cpu₂ ∧
      movemLoop ports misc mask (List.finRange 16) address cpu₂ = .ok stopped cpu₃ ∧
      cpu' = if misc.ea.kind = .predecrement ∨ misc.ea.kind = .postincrement then
        cpu₃.mapRegs fun regs => regs.writeAddressRegister misc.ea.reg stopped else cpu₃ := by
  unfold executeMovem at h
  rw [Attempt.bind_of_ok hmask] at h
  obtain ⟨u, cpu₁', hallowed, h⟩ := Attempt.bind_eq_ok.mp h
  unfold allowEa at hallowed
  by_cases hkind : misc.movemAllowed = true
  · rw [if_pos hkind] at hallowed
    cases hallowed
    obtain ⟨address, cpu₂, haddress, h⟩ := Attempt.bind_eq_ok.mp h
    obtain ⟨stopped, cpu₃, hloop, h⟩ := Attempt.bind_eq_ok.mp h
    refine ⟨hkind, address, cpu₂, stopped, cpu₃, haddress, hloop, ?_⟩
    unfold Attempt.onlyIf at h
    split_ifs at h ⊢ <;> cases h <;> rfl
  · rw [if_neg hkind] at hallowed
    exact nomatch hallowed

/-- `MOVEM` to memory before an address register. -/
def movemSave (reg : Fin 8) (size : ℕ) : Misc :=
  { kind := .movemToMemory, size, ea := ⟨.predecrement, reg⟩ }

/-- `MOVEM` from memory at an address register, which it leaves after it. -/
def movemRestore (reg : Fin 8) (size : ℕ) : Misc :=
  { kind := .movemToRegisters, size, ea := ⟨.postincrement, reg⟩ }

/-- Where a set of registers is stored before an address register. -/
def movemBottom (regs : Regs) (reg : Fin 8) (size : ℕ) (set : List (Fin 16)) : BitVec 32 :=
  regs.readAddressRegister reg - BitVec.ofNat 32 (size * set.length)

theorem movemSet_fits {size : ℕ} (hsize : OperandSize size) (mask : BitVec 16) (predecrement : Bool) :
    size * (movemSet mask predecrement).length ≤ 2 ^ 32 := by
  have hle := Nat.mul_le_mul hsize.width_le (movemSet_length_le mask predecrement)
  have hset := movemSet_length_le mask predecrement
  have hwidth := hsize.width_le
  calc size * (movemSet mask predecrement).length ≤ 4 * 16 := Nat.mul_le_mul (by omega) hset
    _ ≤ 2 ^ 32 := by norm_num

/-- THE SAVE of a set: its registers are laid out below the register, and it is left there. -/
theorem movemSave_ok {reg : Fin 8} {size : ℕ} (hsize : OperandSize size)
    (hmask : nextWord ports cpu = .ok mask cpu₁) (hcode : cpu₁.dataFunctionCode = functionCode)
    (h : executeMovem ports (movemSave reg size) cpu = .ok () cpu') :
    view.memory cpu'.memory = ByteMemory.layOut (view.memory cpu₁.memory)
        (movemBottom cpu.regs reg size (movemSet mask true)) size
        ((movemSet mask true).map (storedValue (movemSave reg size) cpu.regs)) ∧
      cpu'.regs = cpu.regs.writeAddressRegister reg
        (movemBottom cpu.regs reg size (movemSet mask true)) := by
  obtain ⟨-, address, cpu₂, stopped, cpu₃, haddress, hloop, rfl⟩ := executeMovem_eq_ok hmask h
  have hregs := nextWord_regs hmask
  cases haddress
  have horder := (movemOrder_eq mask).2
  obtain ⟨rfl, memory, rfl, hmemory⟩ := movemLoop_down view hsize (by rfl) rfl _ _ _ _ _ hcode
    (by rw [horder, List.length_reverse]; exact movemSet_fits hsize mask true) hloop
  rw [horder, List.reverse_reverse, List.length_reverse] at hmemory
  rw [horder, List.length_reverse, if_pos (.inl rfl), ← hregs]
  exact ⟨hmemory, rfl⟩

theorem movemStore_control (hsize : OperandSize misc.size) (hkind : misc.kind = .movemToMemory)
    (hup : misc.ea.kind ≠ .predecrement) (hmask : nextWord ports cpu = .ok mask cpu₁)
    (haddress : movemAddress ports misc cpu₁ = .ok address cpu₂)
    (hcode : cpu₂.dataFunctionCode = functionCode) (h : executeMovem ports misc cpu = .ok () cpu') :
    view.memory cpu'.memory = ByteMemory.layOut (view.memory cpu₂.memory) address misc.size
      ((movemSet mask false).map (movemReadRegister cpu₂.regs)) := by
  obtain ⟨-, address', cpu₂', stopped, cpu₃, haddress', hloop, rfl⟩ := executeMovem_eq_ok hmask h
  rw [haddress] at haddress'
  cases haddress'
  have horder := (movemOrder_eq mask).1
  obtain ⟨memory, rfl, hmemory⟩ := movemLoop_up view hsize (decide_eq_true hkind) hup _ _ _ _ _ hcode
    (by rw [horder]; exact movemSet_fits hsize mask false) hloop
  have hvalue : storedValue misc cpu₂.regs = movemReadRegister cpu₂.regs := by
    funext index
    exact if_neg fun hboth => hup hboth.1
  rw [horder, hvalue] at hmemory
  split_ifs
  · exact hmemory
  · exact hmemory

theorem movemLoad_all (hsize : OperandSize misc.size) (hkind : misc.kind = .movemToRegisters)
    (hmask : nextWord ports cpu = .ok mask cpu₁)
    (haddress : movemAddress ports misc cpu₁ = .ok address cpu₂)
    (hcode : cpu₂.dataFunctionCode = functionCode) (h : executeMovem ports misc cpu = .ok () cpu') (j : Fin 16) :
    movemReadRegister cpu'.regs j =
      if misc.ea.kind = .postincrement ∧ j = movemIndex misc.ea.reg then
        address + BitVec.ofNat 32 (misc.size * (movemSet mask false).length)
      else if j ∈ movemSet mask false then
        loadedValue (view.memory cpu₂.memory) misc.size address (movemSet mask false) j
      else movemReadRegister cpu₂.regs j := by
  obtain ⟨hallowed, address', cpu₂', stopped, cpu₃, haddress', hloop, rfl⟩ := executeMovem_eq_ok hmask h
  rw [haddress] at haddress'
  cases haddress'
  have hload : misc.toMemory = false := by
    unfold Misc.toMemory
    rw [hkind]
    rfl
  have hup : misc.ea.kind ≠ .predecrement := by
    intro hpredecrement
    unfold Misc.movemAllowed at hallowed
    rw [hload, hpredecrement] at hallowed
    exact absurd hallowed (by decide)
  have horder := (movemOrder_eq mask).1
  obtain ⟨rfl, -, hregisters⟩ := movemLoop_load view hsize hload hup _ _ _ _ _ hcode
    (by rw [horder]; exact movemSet_nodup mask false) hloop
  rw [horder] at hregisters ⊢
  by_cases hstep : misc.ea.kind = .postincrement
  · rw [if_pos (.inr hstep)]
    change movemReadRegister (cpu₃.regs.writeAddressRegister misc.ea.reg _) j = _
    rw [← movemWriteRegister_index, movemReadRegister_write]
    by_cases hj : j = movemIndex misc.ea.reg
    · rw [if_pos hj, if_pos ⟨hstep, hj⟩]
    · rw [if_neg hj, if_neg fun hboth => hj hboth.2]
      exact hregisters j
  · rw [if_neg fun heither => heither.elim hup hstep, if_neg fun hboth => hstep hboth.1]
    exact hregisters j

end Instruction

/-! ## Saving and restoring -/

section SaveRestore

variable {σ : Type} {ports : Ports σ} {functionCode : BitVec 8} (view : MemoryPorts ports functionCode)

/-- Two masks of one set: a predecrement has its mask the other way round. -/
def SameSet (mask mask' : BitVec 16) : Prop := ∀ i : Fin 16, mask.getLsbD i.rev.val = mask'.getLsbD i.val

theorem SameSet.eq {mask mask' : BitVec 16} (h : SameSet mask mask') :
    movemSet mask true = movemSet mask' false := by
  unfold movemSet movemRegister
  exact congrArg (List.filter · (List.finRange 16)) (funext fun i => h i)

/-- A `MOVEM` that runs: `cpu₁` is the processor once its mask is fetched. -/
structure MovemRuns (ports : Ports σ) (functionCode : BitVec 8) (misc : Misc) (mask : BitVec 16)
    (cpu cpu₁ cpu' : Cpu σ) : Prop where
  word : nextWord ports cpu = .ok mask cpu₁
  code : cpu₁.dataFunctionCode = functionCode
  run : executeMovem ports misc cpu = .ok () cpu'

/-- The place of a register among those of a set. -/
def movemSlot (size : ℕ) (bottom : BitVec 32) (set : List (Fin 16)) (index : Fin 16) : BitVec 32 :=
  bottom + BitVec.ofNat 32 (size * set.idxOf index)

/-- A byte of a register's place. -/
def InSlot (size : ℕ) (bottom : BitVec 32) (set : List (Fin 16)) (index : Fin 16) (x : BitVec 32) : Prop :=
  index ∈ set ∧ (x - movemSlot size bottom set index).toNat < size

/-- A SAVE is restored: every register has its value again, the addressing register too, and the save has
written the places of the set and nothing else. -/
structure SaveRestores (reg : Fin 8) (set : List (Fin 16)) (cpu cpu₁ saved restored : Cpu σ) : Prop where
  registers : ∀ i ∈ set, i ≠ movemIndex reg →
    movemReadRegister restored.regs i = movemReadRegister cpu.regs i
  addressing : restored.regs.readAddressRegister reg = cpu.regs.readAddressRegister reg
  below : saved.regs.readAddressRegister reg + BitVec.ofNat 32 (4 * set.length) =
    cpu.regs.readAddressRegister reg
  slots : ∀ i ∈ set, (view.memory saved.memory).loadAt
      (movemSlot 4 (movemBottom cpu.regs reg 4 set) set i) 4 =
    if i = movemIndex reg then movemReadRegister cpu.regs i - 4 else movemReadRegister cpu.regs i
  others : ∀ x, 4 * set.length ≤ (x - movemBottom cpu.regs reg 4 set).toNat →
    view.memory saved.memory x = view.memory cpu₁.memory x

section Lemmas

variable {view} {reg : Fin 8} {cpu cpu₁ saved : Cpu σ} {mask : BitVec 16} {size : ℕ}

theorem map_idxOf {set : List (Fin 16)} {i : Fin 16} (hi : i ∈ set) (value : Fin 16 → BitVec 32) :
    (set.map value)[set.idxOf i]? = some (value i) := by
  rw [List.getElem?_map, List.getElem?_idxOf hi]
  rfl

theorem loadAt_saved (hsave : MovemRuns ports functionCode (movemSave reg 4) mask cpu cpu₁ saved)
    {i : Fin 16} (hi : i ∈ movemSet mask true) :
    (view.memory saved.memory).loadAt
        (movemSlot 4 (movemBottom cpu.regs reg 4 (movemSet mask true)) (movemSet mask true) i) 4 =
      storedValue (movemSave reg 4) cpu.regs i := by
  rw [(movemSave_ok view (.inr (.inr rfl)) hsave.word hsave.code hsave.run).1]
  exact ByteMemory.loadAt_layOut (le_refl 4) (fits_long _) (map_idxOf hi _)
    (by rw [List.length_map]; exact movemSet_fits (.inr (.inr rfl)) mask true)

theorem saved_addressing (hsize : OperandSize size)
    (hsave : MovemRuns ports functionCode (movemSave reg size) mask cpu cpu₁ saved)
    (view : MemoryPorts ports functionCode) :
    saved.regs.readAddressRegister reg = movemBottom cpu.regs reg size (movemSet mask true) := by
  rw [(movemSave_ok view hsize hsave.word hsave.code hsave.run).2, Regs.readAddressRegister_write,
    if_pos rfl]

/-- THE ROUND TRIP of a set. -/
theorem saveRestores {body body₁ restored : Cpu σ} {mask' : BitVec 16}
    (hsave : MovemRuns ports functionCode (movemSave reg 4) mask cpu cpu₁ saved)
    (hrestore : MovemRuns ports functionCode (movemRestore reg 4) mask' body body₁ restored)
    (hset : SameSet mask mask')
    (haddress : body.regs.readAddressRegister reg = saved.regs.readAddressRegister reg)
    (hslots : ∀ i ∈ movemSet mask true, ∀ x,
      InSlot 4 (movemBottom cpu.regs reg 4 (movemSet mask true)) (movemSet mask true) i x →
        view.memory body₁.memory x = view.memory saved.memory x) :
    SaveRestores view reg (movemSet mask true) cpu cpu₁ saved restored := by
  have hsize : OperandSize 4 := .inr (.inr rfl)
  obtain ⟨hmemory, -⟩ := movemSave_ok view hsize hsave.word hsave.code hsave.run
  have hleft := saved_addressing hsize hsave view
  have hstart : movemAddress ports (movemRestore reg 4) body₁ =
      .ok (movemBottom cpu.regs reg 4 (movemSet mask true)) body₁ := by
    rw [← hleft, ← haddress, ← nextWord_regs hrestore.word]
    rfl
  have hloaded := movemLoad_all view hsize rfl hrestore.word hstart hrestore.code hrestore.run
  rw [← hset.eq] at hloaded
  have hback : movemBottom cpu.regs reg 4 (movemSet mask true) +
      BitVec.ofNat 32 (4 * (movemSet mask true).length) = cpu.regs.readAddressRegister reg := by
    unfold movemBottom
    ring
  refine ⟨fun i hi hne => ?_, ?_, ?_, fun i hi => ?_, fun x hx => ?_⟩
  · rw [hloaded i, if_neg fun hboth => hne hboth.2, if_pos hi]
    change (view.memory body₁.memory).loadAt
      (movemSlot 4 (movemBottom cpu.regs reg 4 (movemSet mask true)) (movemSet mask true) i) 4 = _
    have hsame : (view.memory body₁.memory).loadAt
          (movemSlot 4 (movemBottom cpu.regs reg 4 (movemSet mask true)) (movemSet mask true) i) 4 =
        (view.memory saved.memory).loadAt
          (movemSlot 4 (movemBottom cpu.regs reg 4 (movemSet mask true)) (movemSet mask true) i) 4 :=
      ByteMemory.loadAt_congr fun k hk => hslots i hi _ ⟨hi, by
        rw [ByteMemory.toNat_add_ofNat_sub _ (by omega)]
        exact hk⟩
    rw [hsame, loadAt_saved hsave hi]
    exact if_neg fun hboth => hne hboth.2
  · rw [← movemReadRegister_index, hloaded, if_pos ⟨rfl, rfl⟩]
    exact hback
  · rw [hleft]
    exact hback
  · rw [loadAt_saved hsave hi]
    unfold storedValue
    by_cases hi : i = movemIndex reg
    · rw [if_pos ⟨rfl, hi⟩, if_pos hi]
      rfl
    · rw [if_neg fun hboth => hi hboth.2, if_neg hi]
  · rw [hmemory]
    exact ByteMemory.layOut_of_le (by rwa [List.length_map]) (by decide)

/-- THE IMAGES of the two ways of storing a set. -/
theorem images_agree {bottom : BitVec 32} {m : ByteMemory 32} {set : List (Fin 16)} (hset : set.Nodup)
    (hsize : OperandSize size) (hfits : size * set.length ≤ 2 ^ 32) {value value' : Fin 16 → BitVec 32}
    {index : Fin 16} (hvalue : ∀ i, i ≠ index → value i = value' i) {x : BitVec 32}
    (hx : ¬ InSlot size bottom set index x) :
    ByteMemory.layOut m bottom size (set.map value) x =
      ByteMemory.layOut m bottom size (set.map value') x := by
  unfold ByteMemory.layOut
  rw [List.getElem?_map, List.getElem?_map]
  rcases hi : set[(x - bottom).toNat / size]? with _ | i
  · rfl
  · obtain ⟨hlt, rfl⟩ := List.getElem?_eq_some_iff.mp hi
    refine congrArg (byteAt · _) (hvalue _ fun hindex => hx ?_)
    -- the byte is in the place of the register that its index names
    have hpos := hsize.width_pos
    have hplace : set.idxOf index = (x - bottom).toNat / size := by
      rw [← hindex]
      exact hset.idxOf_getElem _ hlt
    have hdivmod := Nat.div_add_mod (x - bottom).toNat size
    have hmod := Nat.mod_lt (x - bottom).toNat (show 0 < size by omega)
    have hend : size * ((x - bottom).toNat / size + 1) ≤ size * set.length := Nat.mul_le_mul_left _ hlt
    rw [Nat.mul_succ] at hend
    refine ⟨hindex ▸ List.getElem_mem hlt, ?_⟩
    unfold movemSlot
    rw [hplace, ByteMemory.toNat_sub_add _ _ (by omega), if_pos (by omega)]
    omega

theorem movemAddress_code {misc : Misc} {address : BitVec 32} {cpu cpu' : Cpu σ}
    (h : movemAddress ports misc cpu = .ok address cpu') :
    cpu'.dataFunctionCode = cpu.dataFunctionCode := by
  have hleaves : LeavesContext (movemAddress ports misc) := by
    unfold movemAddress
    split_ifs
    · exact leavesContext_read _
    · exact (leavesContext_operandAddress ports _ _).bind fun _ =>
        (leavesContext_require _).bind fun _ => leavesContext_pure _
  have hrun := hleaves.run cpu
  rw [h] at hrun
  exact hrun.dataFunctionCode

end Lemmas

/-- MOVEM SAVES AND RESTORES: a set that is saved before a register is restored from it; a predecrement
leaves the image that a store of the same set at the final address leaves, but for the register's own place;
and a word is loaded with its sign. -/
theorem movem_saves_restores (reg : Fin 8) {cpu cpu₁ saved : Cpu σ} {mask : BitVec 16} :
    (MovemRuns ports functionCode (movemSave reg 4) mask cpu cpu₁ saved →
      ∀ body body₁ restored mask', MovemRuns ports functionCode (movemRestore reg 4) mask' body body₁ restored →
        SameSet mask mask' →
        body.regs.readAddressRegister reg = saved.regs.readAddressRegister reg →
        (∀ i ∈ movemSet mask true, ∀ x,
          InSlot 4 (movemBottom cpu.regs reg 4 (movemSet mask true)) (movemSet mask true) i x →
            view.memory body₁.memory x = view.memory saved.memory x) →
        SaveRestores view reg (movemSet mask true) cpu cpu₁ saved restored) ∧
    (∀ size, OperandSize size →
      MovemRuns ports functionCode (movemSave reg size) mask cpu cpu₁ saved →
      ∀ misc other other₁ other₂ stored mask', misc.kind = .movemToMemory → misc.size = size →
        misc.ea.kind ≠ .predecrement → MovemRuns ports functionCode misc mask' other other₁ stored →
        SameSet mask mask' →
        movemAddress ports misc other₁ =
          .ok (movemBottom cpu.regs reg size (movemSet mask true)) other₂ →
        (∀ i, movemReadRegister other₂.regs i = movemReadRegister cpu.regs i) →
        view.memory other₂.memory = view.memory cpu₁.memory →
        ∀ x, ¬ InSlot size (movemBottom cpu.regs reg size (movemSet mask true)) (movemSet mask true)
            (movemIndex reg) x →
          view.memory saved.memory x = view.memory stored.memory x) ∧
    (∀ misc other other₁ other₂ address loaded mask', misc.kind = .movemToRegisters → misc.size = 2 →
      MovemRuns ports functionCode misc mask' other other₁ loaded →
      movemAddress ports misc other₁ = .ok address other₂ →
      ∀ i ∈ movemSet mask' false, ¬ (misc.ea.kind = .postincrement ∧ i = movemIndex misc.ea.reg) →
        movemReadRegister loaded.regs i =
          (((view.memory other₂.memory).loadAt (movemSlot 2 address (movemSet mask' false) i)
            2).setWidth 16).signExtend 32) := by
  refine ⟨fun hsave body body₁ restored mask' hrestore hset haddress hslots =>
    saveRestores hsave hrestore hset haddress hslots, ?_, ?_⟩
  · intro size hsize hsave misc other other₁ other₂ stored mask' hkind hmisc hup hstore hset haddress hsame
      hmemory x hx
    subst hmisc
    have hcode := (movemAddress_code haddress).trans hstore.code
    rw [(movemSave_ok view hsize hsave.word hsave.code hsave.run).1,
      movemStore_control view hsize hkind hup hstore.word haddress hcode hstore.run, ← hset.eq, hmemory]
    refine images_agree (movemSet_nodup mask true) hsize (movemSet_fits hsize mask true) ?_ hx
    intro i hi
    rw [hsame i]
    exact if_neg fun hboth => hi hboth.2
  · intro misc other other₁ other₂ address loaded mask' hkind hsize hload haddress i hi hne
    have hcode := (movemAddress_code haddress).trans hload.code
    rw [movemLoad_all view (by rw [hsize]; exact .inr (.inl rfl)) hkind hload.word haddress hcode hload.run i,
      if_neg hne, if_pos hi]
    unfold loadedValue
    rw [hsize]
    rfl

end SaveRestore

/-! ## A save that runs -/

section Witness

theorem flat_fillToDecoded (refuses : Request → Bool) (turns : ℕ) :
    ∀ (cpu cpu' : Cpu (ByteMemory 32)) decoded,
      fillToDecoded (flatPorts refuses) turns cpu = .ok decoded cpu' → cpu'.memory = cpu.memory := by
  have hprefetch : ∀ (fetch : Fetch) (m : ByteMemory 32),
      (fetch.prefetch (flatPorts refuses) m).2 = m := by
    intro fetch m
    have haccess : ((flatPorts refuses).access fetch.request m).2 = m := by
      unfold flatPorts
      dsimp only
      rw [if_neg (show ¬ fetch.request.write = true from Bool.false_ne_true)]
      split <;> rfl
    unfold Fetch.prefetch
    dsimp only
    split
    · rfl
    · rcases hanswer : (flatPorts refuses).access fetch.request m with ⟨_ | _, m'⟩ <;>
      · rw [hanswer] at haccess
        exact haccess
  induction turns with
  | zero =>
    intro cpu cpu' decoded h
    unfold fillToDecoded at h
    split at h
    · cases h
      rfl
    · exact nomatch h
  | succ turns ih =>
    intro cpu cpu' decoded h
    unfold fillToDecoded at h
    split at h
    · cases h
      rfl
    · exact (ih _ _ _ h).trans (hprefetch _ _)

theorem flat_nextWord {refuses : Request → Bool} {cpu cpu' : Cpu (ByteMemory 32)} {word : BitVec 16}
    (h : nextWord (flatPorts refuses) cpu = .ok word cpu') : cpu'.memory = cpu.memory := by
  unfold nextWord at h
  rw [Attempt.modify_bind] at h
  unfold takeWord at h
  split at h
  · rename_i hrun
    cases h
    have hmemory := flat_fillToDecoded refuses 4 _ _ _ hrun
    exact hmemory
  · exact nomatch h
  · exact nomatch h

/-- A processor on a memory of masks, each of `D0` and `A7` in either direction. -/
def movemCpu : Cpu (ByteMemory 32) :=
  { flatCpu .m68030 0x2000 0x2000 0x1000 with
    memory := fun x => if x.getLsbD 0 then 0x01 else 0x80 }

/-- `MOVEM.L D0/A7,-(A0)` and `MOVEM.L (A0)+,D0/A7`. -/
theorem movem_saves_restores_long : ∃ cpu₁ saved restored : Cpu (ByteMemory 32),
    SaveRestores (flatMemory (fun _ => false) 5) 0 (movemSet 0x8001 true) movemCpu cpu₁ saved restored := by
  have hmask : Attempt.runsTo (do
      let mask ← nextWord (flatPorts fun _ => false)
      let code ← Attempt.read Cpu.dataFunctionCode
      Attempt.require (mask = 0x8001 ∧ code = 5)) movemCpu (fun _ => True) = true := by decide +kernel
  have hmask' : Attempt.runsTo (do
      executeMovem (flatPorts fun _ => false) (movemSave 0 4)
      let mask ← nextWord (flatPorts fun _ => false)
      let code ← Attempt.read Cpu.dataFunctionCode
      Attempt.require (mask = 0x8001 ∧ code = 5)) movemCpu (fun _ => True) = true := by decide +kernel
  have hrestore : Attempt.runsTo (do
      executeMovem (flatPorts fun _ => false) (movemSave 0 4)
      executeMovem (flatPorts fun _ => false) (movemRestore 0 4)) movemCpu (fun _ => True) = true := by
    decide +kernel
  obtain ⟨u₁, s₁, h₁, -⟩ := Attempt.exists_ok_of_runsTo hmask
  obtain ⟨mask, cpu₁, hword, hrequire⟩ := Attempt.bind_eq_ok.mp h₁
  rw [Attempt.read_bind] at hrequire
  obtain ⟨⟨rfl, hcode⟩, -⟩ := Attempt.require_eq_ok.mp hrequire
  obtain ⟨u₂, s₂, h₂, -⟩ := Attempt.exists_ok_of_runsTo hmask'
  obtain ⟨u₃, saved, hsave, h₂⟩ := Attempt.bind_eq_ok.mp h₂
  obtain ⟨mask', body₁, hword', hrequire'⟩ := Attempt.bind_eq_ok.mp h₂
  rw [Attempt.read_bind] at hrequire'
  obtain ⟨⟨rfl, hcode'⟩, -⟩ := Attempt.require_eq_ok.mp hrequire'
  obtain ⟨u₄, restored, h₃, -⟩ := Attempt.exists_ok_of_runsTo hrestore
  obtain ⟨u₅, saved', hsave', hrun⟩ := Attempt.bind_eq_ok.mp h₃
  rw [hsave] at hsave'
  cases hsave'
  have hset : SameSet 0x8001 0x8001 := by
    unfold SameSet
    decide
  refine ⟨cpu₁, saved, restored, (movem_saves_restores (flatMemory (fun _ => false) 5) 0).1
    ⟨hword, hcode, hsave⟩ saved body₁ restored 0x8001 ⟨hword', hcode', hrun⟩ hset rfl
    fun i _ x _ => ?_⟩
  exact congrFun (flat_nextWord hword') x

end Witness

end Apollo.M68030
