import Apollo.M68030.Locked
import Apollo.M68030.OperandMemory
import Apollo.M68030.SameContext

/-!
# The lock on the bus

Of the three instructions that lock the bus, over any ports, with every request that they make
noted: from the first read of an operand on, every access is made under the lock, and on every
path out of the instruction the bus is free. No exception that the step takes after it locks the
bus again.
-/

namespace Apollo.M68030

open Apollo.Lib

variable {σ : Type}

/-! ## Requests, noted -/

/-- The same ports, with every request noted. -/
def Ports.logged (ports : Ports σ) : Ports (σ × List Request) where
  access request s :=
    ((ports.access request s.1).1, ((ports.access request s.1).2, s.2 ++ [request]))
  acknowledge := ports.acknowledge.map fun acknowledge level s =>
    ((acknowledge level s.1).1, ((acknowledge level s.1).2, s.2))

/-- The memory behind ports of which every request is noted. -/
def MemoryPorts.logged {ports : Ports σ} {functionCode : BitVec 8}
    (view : MemoryPorts ports functionCode) : MemoryPorts ports.logged functionCode where
  memory s := view.memory s.1
  read mode address size s := view.read mode address size s.1
  read_ok mode address size s := view.read_ok mode address size s.1
  write_ok mode address size value s := view.write_ok mode address size value s.1
  write_fault mode address size value s := view.write_fault mode address size value s.1

/-- The accesses that were made between two states were made under the lock. -/
def LockedSince (cpu cpu' : Cpu (σ × List Request)) : Prop :=
  ∃ requests, cpu'.memory.2 = cpu.memory.2 ++ requests ∧ ∀ r ∈ requests, r.rmc = true

theorem LockedSince.of_eq {cpu cpu' : Cpu (σ × List Request)}
    (h : cpu'.memory.2 = cpu.memory.2) : LockedSince cpu cpu' :=
  ⟨[], by rw [h, List.append_nil], nofun⟩

theorem LockedSince.trans {cpu cpu' cpu'' : Cpu (σ × List Request)} (h : LockedSince cpu cpu')
    (h' : LockedSince cpu' cpu'') : LockedSince cpu cpu'' := by
  obtain ⟨requests, hlog, hlocked⟩ := h
  obtain ⟨requests', hlog', hlocked'⟩ := h'
  refine ⟨requests ++ requests', by rw [hlog', hlog, List.append_assoc], fun r hr => ?_⟩
  obtain hr | hr := List.mem_append.mp hr
  · exact hlocked r hr
  · exact hlocked' r hr

/-- From a state in which the bus is locked, it stays so. -/
def KeepsLock (cpu cpu' : Cpu (σ × List Request)) : Prop :=
  cpu.rmc = true → cpu'.rmc = true ∧ LockedSince cpu cpu'

/-- From a state in which the bus is locked, it is freed. -/
def FreesLock (cpu cpu' : Cpu (σ × List Request)) : Prop :=
  cpu.rmc = true → cpu'.rmc = false ∧ LockedSince cpu cpu'

theorem KeepsLock.refl (cpu : Cpu (σ × List Request)) : KeepsLock cpu cpu :=
  fun h => ⟨h, .of_eq rfl⟩

theorem KeepsLock.trans (cpu cpu' cpu'' : Cpu (σ × List Request)) (h : KeepsLock cpu cpu')
    (h' : KeepsLock cpu' cpu'') : KeepsLock cpu cpu'' := fun hrmc =>
  have hfirst := h hrmc
  have hsecond := h' hfirst.1
  ⟨hsecond.1, hfirst.2.trans hsecond.2⟩

theorem KeepsLock.frees (cpu cpu' cpu'' : Cpu (σ × List Request)) (h : KeepsLock cpu cpu')
    (h' : FreesLock cpu' cpu'') : FreesLock cpu cpu'' := fun hrmc =>
  have hfirst := h hrmc
  have hsecond := h' hfirst.1
  ⟨hsecond.1, hfirst.2.trans hsecond.2⟩

theorem KeepsLock.of_eq {cpu cpu' : Cpu (σ × List Request)} (hrmc : cpu'.rmc = cpu.rmc)
    (hmemory : cpu'.memory = cpu.memory) : KeepsLock cpu cpu' :=
  fun h => ⟨hrmc.trans h, .of_eq (congrArg Prod.snd hmemory)⟩

/-- The bytes of a request are bytes of an operand. -/
def Request.Within (r : Request) (address : BitVec 32) (size : Nat) : Prop :=
  ∀ j < r.size, ∃ i < size, r.address + BitVec.ofNat 32 j = address + BitVec.ofNat 32 i

theorem Request.Within.of_rest {r : Request} {address : BitVec 32} {size chunk : Nat}
    (h : r.Within (address + BitVec.ofNat 32 chunk) (size - chunk)) : r.Within address size := by
  intro j hj
  obtain ⟨i, hi, heq⟩ := h j hj
  refine ⟨chunk + i, by omega, ?_⟩
  rw [heq, BitVec.add_assoc, BitVec.ofNat_add]

section Operands

variable (ports : Ports σ)

theorem within_chunk (mode : AccessMode) (write : Bool) (address value : BitVec 32) (remaining : Nat) :
    (mode.request write address value (chunkSize address remaining)).Within address remaining :=
  fun j hj => ⟨j, lt_of_lt_of_le hj (chunkSize_le address remaining), rfl⟩

theorem readChunks_log (mode : AccessMode) :
    ∀ (turns : Nat) (address : BitVec 32) (remaining : Nat) (acc : BitVec 32)
      (s : σ × List Request),
      ∃ requests, (readChunks ports.logged mode turns address remaining acc s).2.2 =
          s.2 ++ requests ∧ ∀ r ∈ requests, r.rmc = mode.rmc ∧ r.Within address remaining := by
  intro turns
  induction turns with
  | zero => exact fun address remaining acc s => ⟨[], (List.append_nil _).symm, nofun⟩
  | succ turns ih =>
    intro address remaining acc s
    unfold readChunks
    split
    · exact ⟨[], (List.append_nil _).symm, nofun⟩
    · dsimp only
      generalize hrequest : mode.request false address 0 (chunkSize address remaining) = request
      have hrmc : request.rmc = mode.rmc ∧ request.Within address remaining := by
        rw [← hrequest]
        exact ⟨rfl, within_chunk _ _ _ _ _⟩
      have hlog : (ports.logged.access request s).2.2 = s.2 ++ [request] := rfl
      split
      · rename_i translation s' haccess
        rw [haccess] at hlog
        exact ⟨[request], hlog, by simpa using hrmc⟩
      · rename_i long s' haccess
        rw [haccess] at hlog
        obtain ⟨requests, hrest, hmode⟩ := ih (address + BitVec.ofNat 32 (chunkSize address remaining))
          (remaining - chunkSize address remaining)
          ((acc <<< (chunkSize address remaining * 8)) |||
            ((long >>> ((4 - (address &&& 3).toNat - chunkSize address remaining) * 8)) &&&
              sizeMask (chunkSize address remaining))) s'
        refine ⟨request :: requests, ?_, ?_⟩
        · rw [hrest]
          simp only at hlog
          rw [hlog, List.append_assoc, List.singleton_append]
        · rintro r (_ | ⟨_, hr⟩)
          · exact hrmc
          · exact ⟨(hmode r hr).1, (hmode r hr).2.of_rest⟩

theorem writeChunks_log (mode : AccessMode) (value : BitVec 32) :
    ∀ (turns : Nat) (address : BitVec 32) (remaining : Nat) (s : σ × List Request),
      ∃ requests, (writeChunks ports.logged mode value turns address remaining s).2.2 =
          s.2 ++ requests ∧ ∀ r ∈ requests, r.rmc = mode.rmc ∧ r.Within address remaining := by
  intro turns
  induction turns with
  | zero => exact fun address remaining s => ⟨[], (List.append_nil _).symm, nofun⟩
  | succ turns ih =>
    intro address remaining s
    unfold writeChunks
    split
    · exact ⟨[], (List.append_nil _).symm, nofun⟩
    · dsimp only
      generalize hrequest : mode.request true address
        ((value >>> ((remaining - chunkSize address remaining) * 8)) &&&
          sizeMask (chunkSize address remaining)) (chunkSize address remaining) = request
      have hrmc : request.rmc = mode.rmc ∧ request.Within address remaining := by
        rw [← hrequest]
        exact ⟨rfl, within_chunk _ _ _ _ _⟩
      have hlog : (ports.logged.access request s).2.2 = s.2 ++ [request] := rfl
      split
      · rename_i translation s' haccess
        rw [haccess] at hlog
        exact ⟨[request], hlog, by simpa using hrmc⟩
      · rename_i answer s' haccess
        rw [haccess] at hlog
        obtain ⟨requests, hrest, hmode⟩ := ih (address + BitVec.ofNat 32 (chunkSize address remaining))
          (remaining - chunkSize address remaining) s'
        refine ⟨request :: requests, ?_, ?_⟩
        · rw [hrest]
          simp only at hlog
          rw [hlog, List.append_assoc, List.singleton_append]
        · rintro r (_ | ⟨_, hr⟩)
          · exact hrmc
          · exact ⟨(hmode r hr).1, (hmode r hr).2.of_rest⟩

theorem ends_readOperand (target : Address) (size : Nat) :
    Attempt.Ends KeepsLock KeepsLock (readOperand ports.logged target size) := by
  refine ⟨fun cpu => ?_⟩
  unfold readOperand
  rw [Attempt.read_bind]
  unfold stepOperandRead
  have hlog : ∃ requests, (operandRead ports.logged (cpu.accessMode cpu.dataFunctionCode) cpu.regs
      target size cpu.memory).2.2 = cpu.memory.2 ++ requests ∧ ∀ r ∈ requests, r.rmc = cpu.rmc := by
    unfold operandRead
    split
    · exact ⟨[], (List.append_nil _).symm, nofun⟩
    · split
      · exact ⟨[], (List.append_nil _).symm, nofun⟩
      · split
        · exact ⟨[], (List.append_nil _).symm, nofun⟩
        · obtain ⟨requests, hchunks, hmode⟩ := readChunks_log ports
            (cpu.accessMode cpu.dataFunctionCode) size target.address size 0 cpu.memory
          exact ⟨requests, hchunks, fun r hr => (hmode r hr).1⟩
  obtain ⟨requests, hlog, hmode⟩ := hlog
  rcases hread : operandRead ports.logged (cpu.accessMode cpu.dataFunctionCode) cpu.regs target size
    cpu.memory with ⟨_ | value, memory⟩
  all_goals
    rw [hread] at hlog
    exact fun hrmc => ⟨hrmc, requests, hlog, fun r hr => (hmode r hr).trans hrmc⟩

theorem ends_writeOperand (target : Address) (size : Nat) (value : BitVec 32) :
    Attempt.Ends KeepsLock KeepsLock (writeOperand ports.logged target size value) := by
  refine ⟨fun cpu => ?_⟩
  unfold writeOperand
  rw [Attempt.read_bind]
  unfold stepOperandWrite
  have hlog : ∃ requests, (operandWrite ports.logged (cpu.accessMode cpu.dataFunctionCode) cpu.regs
      target size value cpu.memory).2.2 = cpu.memory.2 ++ requests ∧
        ∀ r ∈ requests, r.rmc = cpu.rmc := by
    unfold operandWrite
    split
    · exact ⟨[], (List.append_nil _).symm, nofun⟩
    · split
      · split <;> exact ⟨[], (List.append_nil _).symm, nofun⟩
      · obtain ⟨requests, hchunks, hmode⟩ := writeChunks_log ports
          (cpu.accessMode cpu.dataFunctionCode) value size target.address size cpu.memory
        refine ⟨requests, ?_, fun r hr => (hmode r hr).1⟩
        rcases hwrite : writeChunks ports.logged (cpu.accessMode cpu.dataFunctionCode) value size
          target.address size cpu.memory with ⟨_ | _, memory⟩ <;>
          · rw [hwrite] at hchunks
            exact hchunks
  obtain ⟨requests, hlog, hmode⟩ := hlog
  rcases hwrite : operandWrite ports.logged (cpu.accessMode cpu.dataFunctionCode) cpu.regs target
    size value cpu.memory with ⟨_ | regs, memory⟩
  all_goals
    rw [hwrite] at hlog
    exact fun hrmc => ⟨hrmc, requests, hlog, fun r hr => (hmode r hr).trans hrmc⟩

end Operands

/-! ## Under the lock -/

section Locked

variable (ports : Ports σ)

theorem ends_readOrUnlock (target : Address) (size : Nat) :
    Attempt.Ends KeepsLock FreesLock (readOrUnlock ports.logged target size) := by
  refine Attempt.ends_bind KeepsLock.trans KeepsLock.frees
    (Attempt.ends_caught (ends_readOperand ports target size)) fun read => ?_
  cases read with
  | some value => exact Attempt.ends_pure KeepsLock.refl value
  | none =>
    -- freeing the bus is the last thing that is done
    exact ⟨fun cpu hrmc => ⟨rfl, .of_eq rfl⟩⟩

theorem ends_thenUnlock {x : Exec (σ × List Request) Unit}
    (hx : Attempt.Ends KeepsLock KeepsLock x) :
    Attempt.Ends FreesLock FreesLock (thenUnlock x) := by
  refine Attempt.ends_bind KeepsLock.frees KeepsLock.frees (Attempt.ends_caught hx) fun done => ?_
  cases done <;> exact ⟨fun cpu hrmc => ⟨rfl, .of_eq rfl⟩⟩

theorem ends_read {α : Type} (g : Cpu (σ × List Request) → α) :
    Attempt.Ends KeepsLock FreesLock (Attempt.read g) := Attempt.ends_read KeepsLock.refl g

theorem ends_mapRegs (f : Regs → Regs) :
    Attempt.Ends KeepsLock FreesLock
      (modify fun cpu : Cpu (σ × List Request) => cpu.mapRegs f) :=
  Attempt.ends_modify fun _ => .of_eq rfl rfl

theorem ends_casUnderLock (size : Nat) (extension : BitVec 16) (target : Address) :
    Attempt.Ends FreesLock FreesLock (do
      let value ← readOrUnlock ports.logged target size
      let compared ← Attempt.read fun cpu =>
        aluSub value (cpu.regs.d.get (casCompareRegister extension)) size
      modify fun cpu => cpu.mapRegs fun regs => regs.applyAlu compared
      let update ← Attempt.read fun cpu => (cpu.regs.d.get (casUpdateRegister extension))
      thenUnlock (if compared.z then writeOperand ports.logged target size update
        else writeOperand ports.logged (.ofDataRegister (casCompareRegister extension)) size
          value)) := by
  refine Attempt.ends_bind KeepsLock.frees KeepsLock.frees (ends_readOrUnlock ports ..)
    fun value => ?_
  refine Attempt.ends_bind KeepsLock.frees KeepsLock.frees (ends_read _) fun compared => ?_
  refine Attempt.ends_bind KeepsLock.frees KeepsLock.frees (ends_mapRegs _) fun _ => ?_
  refine Attempt.ends_bind KeepsLock.frees KeepsLock.frees (ends_read _) fun update => ?_
  refine ends_thenUnlock ?_
  split
  · exact ends_writeOperand ports ..
  · exact ends_writeOperand ports ..

theorem ends_cas2UnderLock (size : Nat) (first second : BitVec 16) :
    Attempt.Ends FreesLock FreesLock (do
      let regs ← Attempt.read Cpu.regs
      let value₁ ← readOrUnlock ports.logged (.ofMemory (cas2Address regs first)) size
      let value₂ ← readOrUnlock ports.logged (.ofMemory (cas2Address regs second)) size
      let compared ← Attempt.read fun cpu => cas2Compare cpu.regs size first second value₁ value₂
      modify fun cpu => cpu.mapRegs fun regs => regs.applyAlu compared
      thenUnlock (if compared.z then
          cas2Update ports.logged size first second (cas2Address regs first)
            (cas2Address regs second)
        else cas2Return ports.logged size first second value₁ value₂)) := by
  refine Attempt.ends_bind KeepsLock.frees KeepsLock.frees (ends_read _) fun regs => ?_
  refine Attempt.ends_bind KeepsLock.frees KeepsLock.frees (ends_readOrUnlock ports ..)
    fun value₁ => ?_
  refine Attempt.ends_bind KeepsLock.frees KeepsLock.frees (ends_readOrUnlock ports ..)
    fun value₂ => ?_
  refine Attempt.ends_bind KeepsLock.frees KeepsLock.frees (ends_read _) fun compared => ?_
  refine Attempt.ends_bind KeepsLock.frees KeepsLock.frees (ends_mapRegs _) fun _ => ?_
  refine ends_thenUnlock ?_
  split
  · refine Attempt.ends_bind KeepsLock.trans KeepsLock.trans
      (Attempt.ends_read KeepsLock.refl _) fun regs => ?_
    exact Attempt.ends_bind KeepsLock.trans KeepsLock.trans (ends_writeOperand ports ..)
      fun _ => ends_writeOperand ports ..
  · exact Attempt.ends_bind KeepsLock.trans KeepsLock.trans (ends_writeOperand ports ..)
      fun _ => ends_writeOperand ports ..

theorem ends_tasUnderLock (target : Address) :
    Attempt.Ends FreesLock FreesLock (do
      let value ← readOrUnlock ports.logged target 1
      modify fun cpu => cpu.mapRegs fun regs => regs.applyAlu (aluTest value 1)
      thenUnlock (writeOperand ports.logged target 1 (value ||| 0x80))) := by
  refine Attempt.ends_bind KeepsLock.frees KeepsLock.frees (ends_readOrUnlock ports ..)
    fun value => ?_
  refine Attempt.ends_bind KeepsLock.frees KeepsLock.frees (ends_mapRegs _) fun _ => ?_
  exact ends_thenUnlock (ends_writeOperand ports ..)

end Locked

/-! ## The three instructions -/

/-- An instruction that locks the bus, as it is decoded: `CAS` with its extension word, `CAS2` with
the first of its two, and `TAS`. -/
inductive LockedOp
  | cas (word extension : BitVec 16)
  | cas2 (word first : BitVec 16)
  | tas (word : BitVec 16)
deriving DecidableEq

namespace LockedOp

variable (ports : Ports σ)

/-- The operand of `TAS`. -/
def tasOperand (word : BitVec 16) : Single := ⟨.tas, 1, wordEa word⟩

/-- The instruction, from its executor. -/
def run : LockedOp → Exec σ Unit
  | cas word extension => executeCas ports (boundsDecode word) extension
  | cas2 word first => executeCas2 ports (boundsDecode word) first
  | tas word => executeSingle ports (tasOperand word)

/-- What the instruction does before it reads an operand: it gets its extension words, and finds
out where its operand is. -/
def prepare : LockedOp → Exec σ Unit
  | cas word _ => do
    let _ ← operandAddress ports (boundsDecode word).ea (boundsDecode word).size
  | cas2 _ _ => do
    let _ ← nextWord ports
  | tas word => do
    allowEa (tasOperand word).allowed
    let _ ← operandAddress ports (wordEa word) 1

end LockedOp

/-- The processor after the exceptions that a step takes. -/
def afterEntries (ports : Ports σ) : List Entry → Cpu σ → Cpu σ
  | [], cpu => cpu
  | entry :: entries, cpu => afterEntries ports entries ((entry.run ports).after cpu)

/-- Every access from the first operand on is made under the lock, and the bus is free at the end
of the step, whatever exceptions it takes. -/
structure LocksBus (ports : Ports σ) (op : LockedOp) (cpu : Cpu (σ × List Request)) : Prop where
  locked : LockedSince ((op.prepare ports.logged).after cpu) ((op.run ports.logged).after cpu)
  free : ∀ entries, (afterEntries ports.logged entries ((op.run ports.logged).after cpu)).rmc = false

section Locks

variable {ports : Ports σ} {cpu cpu' : Cpu (σ × List Request)}

/-- What is done on a free bus: it is locked and freed, or nothing is asked of it. -/
def LocksAndFrees {α : Type} (x : Exec (σ × List Request) α) : Prop :=
  ∀ cpu, cpu.rmc = false → (x.after cpu).rmc = false ∧ LockedSince cpu (x.after cpu)

theorem locksAndFrees_lockBus {x : Exec (σ × List Request) Unit}
    (hx : Attempt.Ends FreesLock FreesLock x) :
    LocksAndFrees (do lockBus; x) := by
  intro cpu _
  have hend := hx.after { cpu with rmc := true, rmcOperations := cpu.rmcOperations + 1 } rfl
  rw [Attempt.after_bind]
  exact ⟨hend.1, LockedSince.trans (.of_eq rfl) hend.2⟩

theorem LocksAndFrees.require {x : Exec (σ × List Request) Unit} (hx : LocksAndFrees x)
    {c : Prop} [Decidable c] : LocksAndFrees (do Attempt.require c; x) := by
  intro cpu hrmc
  rw [Attempt.after_bind]
  by_cases hc : c
  · rw [Attempt.require_of hc]
    exact hx cpu hrmc
  · rw [Attempt.require_of_not hc]
    exact ⟨hrmc, .of_eq rfl⟩

theorem LocksAndFrees.after_bind {α : Type} {p : Exec (σ × List Request) α}
    {f : α → Exec (σ × List Request) Unit} (hp : LeavesContext p) (hf : ∀ a, LocksAndFrees (f a))
    (h : cpu.rmc = false) :
    ((p >>= f).after cpu).rmc = false ∧
      LockedSince ((do let _ ← p : Exec _ Unit).after cpu) ((p >>= f).after cpu) := by
  have hprepared := hp.after cpu
  rw [Attempt.after_bind]
  cases hrun : p cpu with
  | ok a cpu' =>
    rw [Attempt.after_of_ok hrun] at hprepared
    have hprepare : (do let _ ← p : Exec (σ × List Request) Unit).after cpu = cpu' := by
      rw [Attempt.after_bind, hrun]
      rfl
    rw [hprepare]
    exact hf a cpu' (hprepared.rmc.trans h)
  | error e cpu' =>
    rw [Attempt.after_of_error hrun] at hprepared
    have hprepare : (do let _ ← p : Exec (σ × List Request) Unit).after cpu = cpu' := by
      rw [Attempt.after_bind, hrun]
    rw [hprepare]
    exact ⟨hprepared.rmc.trans h, .of_eq rfl⟩

/-- Nothing is asked of the bus, and it is not locked. -/
def Quiet (cpu cpu' : Cpu (σ × List Request)) : Prop :=
  cpu'.memory = cpu.memory ∧ (cpu.rmc = false → cpu'.rmc = false)

theorem Quiet.refl (cpu : Cpu (σ × List Request)) : Quiet cpu cpu := ⟨rfl, id⟩

theorem Quiet.trans (cpu cpu' cpu'' : Cpu (σ × List Request)) (h : Quiet cpu cpu')
    (h' : Quiet cpu' cpu'') : Quiet cpu cpu'' :=
  ⟨h'.1.trans h.1, fun hrmc => h'.2 (h.2 hrmc)⟩

theorem quiet_readOperand {target : Address} (size : Nat)
    (h : ¬ (!target.inRegister ∧ !target.immediate)) :
    Attempt.Ends Quiet Quiet (readOperand ports.logged target size) := by
  refine ⟨fun cpu => ?_⟩
  have hsame : (operandRead ports.logged (cpu.accessMode cpu.dataFunctionCode) cpu.regs target size
      cpu.memory).2 = cpu.memory := by
    unfold operandRead
    split
    · rfl
    · split
      · rfl
      · split
        · rfl
        · simp_all
  unfold readOperand
  rw [Attempt.read_bind]
  unfold stepOperandRead
  rcases hread : operandRead ports.logged (cpu.accessMode cpu.dataFunctionCode) cpu.regs target size
    cpu.memory with ⟨_ | value, memory⟩
  all_goals
    rw [hread] at hsame
    exact ⟨hsame, id⟩

theorem quiet_writeOperand {target : Address} (size : Nat) (value : BitVec 32)
    (h : ¬ (!target.inRegister ∧ !target.immediate)) :
    Attempt.Ends Quiet Quiet (writeOperand ports.logged target size value) := by
  refine ⟨fun cpu => ?_⟩
  have hsame : (operandWrite ports.logged (cpu.accessMode cpu.dataFunctionCode) cpu.regs target size
      value cpu.memory).2 = cpu.memory := by
    unfold operandWrite
    split
    · rfl
    · split
      · split <;> rfl
      · simp_all
  unfold writeOperand
  rw [Attempt.read_bind]
  unfold stepOperandWrite
  rcases hwrite : operandWrite ports.logged (cpu.accessMode cpu.dataFunctionCode) cpu.regs target
    size value cpu.memory with ⟨_ | regs, memory⟩
  all_goals
    rw [hwrite] at hsame
    exact ⟨hsame, id⟩

theorem quiet_tas (ports : Ports σ) {target : Address} (h : ¬ (!target.inRegister ∧ !target.immediate)) :
    Attempt.Ends Quiet Quiet (do
      let value ← readOrUnlock ports.logged target 1
      modify fun cpu => cpu.mapRegs fun regs => regs.applyAlu (aluTest value 1)
      thenUnlock (writeOperand ports.logged target 1 (value ||| 0x80))) := by
  refine Attempt.ends_bind Quiet.trans Quiet.trans ?_ fun value => ?_
  · refine Attempt.ends_bind Quiet.trans Quiet.trans
      (Attempt.ends_caught (quiet_readOperand 1 h)) fun read => ?_
    cases read with
    | some value => exact Attempt.ends_pure Quiet.refl value
    | none => exact ⟨fun cpu => ⟨rfl, fun _ => rfl⟩⟩
  · refine Attempt.ends_bind Quiet.trans Quiet.trans (Attempt.ends_modify fun cpu => ?_)
      fun _ => ?_
    · exact ⟨rfl, id⟩
    · refine Attempt.ends_bind Quiet.trans Quiet.trans
        (Attempt.ends_caught (quiet_writeOperand 1 _ h)) fun done => ?_
      cases done <;> exact ⟨fun cpu => ⟨rfl, fun _ => rfl⟩⟩

theorem locksAndFrees_tas (ports : Ports σ) (word : BitVec 16) (target : Address) :
    LocksAndFrees (executeSingleAt ports.logged (LockedOp.tasOperand word) target) := by
  unfold executeSingleAt LockedOp.tasOperand
  dsimp only
  by_cases hlock : !target.inRegister ∧ !target.immediate
  · rw [Attempt.onlyIf, if_pos ⟨rfl, hlock⟩]
    exact locksAndFrees_lockBus (ends_tasUnderLock ports target)
  · rw [Attempt.onlyIf, if_neg fun h => hlock h.2]
    intro cpu hrmc
    have hquiet := (quiet_tas ports hlock).after cpu
    exact ⟨hquiet.2 hrmc, .of_eq (congrArg Prod.snd hquiet.1)⟩

theorem executeSingle_tas (ports : Ports σ) (word : BitVec 16) :
    executeSingle ports (LockedOp.tasOperand word) = (do
      let target ← (do
        allowEa (LockedOp.tasOperand word).allowed
        operandAddress ports (wordEa word) 1)
      executeSingleAt ports (LockedOp.tasOperand word) target) := by
  have himmediate : ¬ ((LockedOp.tasOperand word).ea.kind = .immediate ∧
      ((LockedOp.tasOperand word).kind = .tst ∨ (LockedOp.tasOperand word).kind = .moveToSr ∨
        (LockedOp.tasOperand word).kind = .moveToCcr)) := by
    simp [LockedOp.tasOperand]
  unfold executeSingle
  rw [if_neg himmediate, bind_assoc]
  rfl

/-- THE LOCK: of each of the three instructions, whatever faults. -/
theorem locksBus (op : LockedOp) (h : cpu.rmc = false) : LocksBus ports op cpu := by
  have hrun : ((op.run ports.logged).after cpu).rmc = false ∧
      LockedSince ((op.prepare ports.logged).after cpu) ((op.run ports.logged).after cpu) := by
    cases op with
    | cas word extension =>
      exact LocksAndFrees.after_bind (leavesContext_operandAddress ports.logged ..)
        (fun target => (locksAndFrees_lockBus
          (ends_casUnderLock ports _ extension target)).require) h
    | cas2 word first =>
      exact LocksAndFrees.after_bind (leavesContext_nextWord ports.logged)
        (fun second => locksAndFrees_lockBus (ends_cas2UnderLock ports _ first second)) h
    | tas word =>
      have htas := LocksAndFrees.after_bind
        (p := do allowEa (LockedOp.tasOperand word).allowed; operandAddress ports.logged (wordEa word) 1)
        ((leavesContext_allowEa _).bind fun _ => leavesContext_operandAddress ports.logged ..)
        (fun target => locksAndFrees_tas ports word target) h
      rw [← executeSingle_tas, bind_assoc] at htas
      exact htas
  refine ⟨hrun.2, fun entries => ?_⟩
  have hfree := hrun.1
  generalize (op.run ports.logged).after cpu = ended at hfree
  induction entries generalizing ended with
  | nil => exact hfree
  | cons entry entries ih =>
    exact ih _ (((leavesContext_entry ports.logged entry).after ended).rmc.trans hfree)

end Locks

end Apollo.M68030
