import Apollo.M68030.OperandMemory
import Apollo.M68030.LockedBus

/-!
# Both updates of CAS2, or neither

`CAS2` compares both operands before it writes either. Its two writes are accesses of their own,
though, and each can be refused: what the bus accepted before that stays written. So the
instruction is all or nothing if and only if it comes to no refusal after a change.
-/

namespace Apollo.M68030

open Apollo.Lib

variable {σ : Type}

/-! ## Requests that store -/

/-- The requests with which an operand is written. -/
def writeRequests (mode : AccessMode) (value : BitVec 32) : Nat → BitVec 32 → Nat → List Request
  | 0, _, _ => []
  | turns + 1, address, remaining =>
    if remaining = 0 then []
    else
      let chunk := chunkSize address remaining
      mode.request true address ((value >>> ((remaining - chunk) * 8)) &&& sizeMask chunk) chunk ::
        writeRequests mode value turns (address + BitVec.ofNat 32 chunk) (remaining - chunk)

/-- How many of some requests, sent one after the other, are answered before one is refused. -/
def accepted (ports : Ports σ) : List Request → σ → Nat
  | [], _ => 0
  | request :: requests, s =>
    match ports.access request s with
    | (.ok _, s) => accepted ports requests s + 1
    | (.fault _, _) => 0

/-- What is behind the accesses after some requests, sent until one is refused. -/
def sent (ports : Ports σ) : List Request → σ → σ
  | [], s => s
  | request :: requests, s =>
    match ports.access request s with
    | (.ok _, s) => sent ports requests s
    | (.fault _, s) => s

/-- A memory with what some requests write stored in it. -/
def storeRequests (m : ByteMemory 32) (requests : List Request) : ByteMemory 32 :=
  requests.foldl (fun m request => m.storeAt request.address request.size request.value) m

section Requests

variable {ports : Ports σ} {requests requests' : List Request} {s : σ}

theorem accepted_append_of_ne (h : accepted ports requests s ≠ requests.length) :
    accepted ports (requests ++ requests') s = accepted ports requests s ∧
      sent ports (requests ++ requests') s = sent ports requests s := by
  induction requests generalizing s with
  | nil => exact absurd rfl h
  | cons request requests ih =>
    unfold accepted at h
    rw [List.cons_append, accepted, sent, accepted, sent]
    split at h
    · obtain ⟨haccepted, hsent⟩ := ih fun heq => h (congrArg Nat.succ heq)
      exact ⟨by rw [haccepted], hsent⟩
    · exact ⟨rfl, rfl⟩

theorem sent_append (h : accepted ports requests s = requests.length) :
    sent ports (requests ++ requests') s = sent ports requests' (sent ports requests s) := by
  induction requests generalizing s with
  | nil => rfl
  | cons request requests ih =>
    unfold accepted at h
    rw [List.cons_append, sent, sent]
    split at h
    · exact ih (Nat.succ_injective h)
    · exact absurd h (Nat.succ_ne_zero _).symm

theorem writeChunks_eq (ports : Ports σ) (mode : AccessMode) (value : BitVec 32) :
    ∀ (turns : Nat) (address : BitVec 32) (remaining : Nat) (s : σ),
      (writeChunks ports mode value turns address remaining s).2 =
          sent ports (writeRequests mode value turns address remaining) s ∧
        ((writeChunks ports mode value turns address remaining s).1 = .ok () ↔
          accepted ports (writeRequests mode value turns address remaining) s =
            (writeRequests mode value turns address remaining).length) := by
  intro turns
  induction turns with
  | zero => exact fun address remaining s => ⟨rfl, iff_of_true rfl rfl⟩
  | succ turns ih =>
    intro address remaining s
    unfold writeChunks writeRequests
    split
    · exact ⟨rfl, iff_of_true rfl rfl⟩
    · dsimp only
      rw [sent, accepted]
      generalize mode.request true address ((value >>> ((remaining - chunkSize address remaining) * 8))
        &&& sizeMask (chunkSize address remaining)) (chunkSize address remaining) = request
      rcases ports.access request s with ⟨answer | translation, s'⟩
      · obtain ⟨hsent, hok⟩ := ih (address + BitVec.ofNat 32 (chunkSize address remaining))
          (remaining - chunkSize address remaining) s'
        refine ⟨hsent, hok.trans ?_⟩
        rw [List.length_cons]
        exact Nat.succ_inj.symm
      · refine ⟨rfl, ?_⟩
        simp

variable {functionCode : BitVec 8} (view : MemoryPorts ports functionCode)

/-- A write of supervisor or user data, in one long word. -/
def IsWrite (functionCode : BitVec 8) (request : Request) : Prop :=
  ∃ (mode : AccessMode) (address value : BitVec 32) (size : Nat),
    request = mode.request true address value size ∧ mode.functionCode = functionCode ∧
      InLong address size

theorem MemoryPorts.memory_sent (h : ∀ request ∈ requests, IsWrite functionCode request) :
    view.memory (sent ports requests s) =
      storeRequests (view.memory s) (requests.take (accepted ports requests s)) := by
  induction requests generalizing s with
  | nil => rfl
  | cons request requests ih =>
    obtain ⟨mode, address, value, size, hrequest, hmode, hlong⟩ :=
      h request (List.mem_cons_self ..)
    rw [sent, accepted]
    rcases haccess : ports.access request s with ⟨answer | translation, s'⟩
    · have hstored := view.write_ok mode address size value s answer hmode hlong
        (by rw [← hrequest, haccess])
      rw [← hrequest, haccess] at hstored
      dsimp only at hstored ⊢
      rw [ih fun r hr => h r (List.mem_cons_of_mem _ hr), hstored, List.take_succ_cons,
        storeRequests, storeRequests, List.foldl_cons, hrequest]
      rfl
    · have hsame := view.write_fault mode address size value s translation hmode hlong
        (by rw [← hrequest, haccess])
      rw [← hrequest, haccess] at hsame
      exact hsame

theorem isWrite_writeRequests (mode : AccessMode) (hmode : mode.functionCode = functionCode)
    (value : BitVec 32) :
    ∀ (turns : Nat) (address : BitVec 32) (remaining : Nat),
      ∀ request ∈ writeRequests mode value turns address remaining, IsWrite functionCode request := by
  intro turns
  induction turns with
  | zero => exact fun address remaining request hrequest => nomatch hrequest
  | succ turns ih =>
    intro address remaining request hrequest
    unfold writeRequests at hrequest
    split at hrequest
    · exact nomatch hrequest
    · rename_i hzero
      obtain rfl | hrequest := List.mem_cons.mp hrequest
      · exact ⟨mode, _, _, _, rfl, hmode, inLong_chunk _ (by omega)⟩
      · exact ih _ _ _ hrequest

theorem MemoryPorts.readChunks_memory (mode : AccessMode) (hmode : mode.functionCode = functionCode) :
    ∀ (turns : Nat) (address : BitVec 32) (remaining : Nat) (acc : BitVec 32) (s : σ),
      view.memory (readChunks ports mode turns address remaining acc s).2 = view.memory s := by
  intro turns
  induction turns with
  | zero => exact fun address remaining acc s => rfl
  | succ turns ih =>
    intro address remaining acc s
    unfold readChunks
    split
    · rfl
    · rename_i hzero
      dsimp only
      have hsame := view.read mode address (chunkSize address remaining) s hmode
        (inLong_chunk _ (by omega))
      rcases haccess : ports.access (mode.request false address 0 (chunkSize address remaining)) s
        with ⟨long | translation, s'⟩
      · rw [haccess] at hsame
        exact (ih _ _ _ s').trans hsame
      · rw [haccess] at hsame
        exact hsame

end Requests

/-! ## Operands of CAS2 -/

section Cas2

variable {ports : Ports σ} {cpu : Cpu σ} {size : Nat} {first second : BitVec 16}

/-- How the operands of a locked instruction are accessed. -/
def lockedMode (cpu : Cpu σ) : AccessMode :=
  { functionCode := cpu.dataFunctionCode, rmc := true, noAllocate := cpu.noAllocate }

theorem readOperand_ofMemory (ports : Ports σ) (cpu : Cpu σ) (address : BitVec 32) (size : Nat) :
    (∃ value s, readChunks ports (cpu.accessMode cpu.dataFunctionCode) size address size 0
        cpu.memory = (.ok value, s) ∧
      readOperand ports (.ofMemory address) size cpu = .ok value { cpu with memory := s }) ∨
    ∃ fault s cpu', readChunks ports (cpu.accessMode cpu.dataFunctionCode) size address size 0
        cpu.memory = (.error fault, s) ∧
      readOperand ports (.ofMemory address) size cpu = .error () cpu' ∧ cpu'.memory = s := by
  unfold readOperand
  rw [Attempt.read_bind]
  unfold stepOperandRead
  rw [operandRead_ofMemory]
  rcases readChunks ports (cpu.accessMode cpu.dataFunctionCode) size address size 0 cpu.memory with
    ⟨fault | value, s⟩
  · exact .inr ⟨fault, s, _, rfl, rfl, rfl⟩
  · exact .inl ⟨value, s, rfl, rfl⟩

theorem writeOperand_ofMemory (ports : Ports σ) (cpu : Cpu σ) (address value : BitVec 32)
    (size : Nat) :
    (accepted ports (writeRequests (cpu.accessMode cpu.dataFunctionCode) value size address size)
          cpu.memory =
        (writeRequests (cpu.accessMode cpu.dataFunctionCode) value size address size).length ∧
      writeOperand ports (.ofMemory address) size value cpu =
        .ok () { cpu with
          memory := sent ports
            (writeRequests (cpu.accessMode cpu.dataFunctionCode) value size address size)
            cpu.memory }) ∨
    ∃ cpu', accepted ports
          (writeRequests (cpu.accessMode cpu.dataFunctionCode) value size address size)
          cpu.memory ≠
        (writeRequests (cpu.accessMode cpu.dataFunctionCode) value size address size).length ∧
      writeOperand ports (.ofMemory address) size value cpu = .error () cpu' ∧
      cpu'.memory = sent ports
        (writeRequests (cpu.accessMode cpu.dataFunctionCode) value size address size) cpu.memory := by
  obtain ⟨hsent, hok⟩ := writeChunks_eq ports (cpu.accessMode cpu.dataFunctionCode) value
    size address size cpu.memory
  unfold writeOperand
  rw [Attempt.read_bind]
  unfold stepOperandWrite
  rw [operandWrite_ofMemory]
  rcases hchunks : writeChunks ports (cpu.accessMode cpu.dataFunctionCode) value size address size
    cpu.memory with ⟨fault | _, s⟩
  · rw [hchunks] at hsent hok
    refine .inr ⟨_, ?_, rfl, hsent⟩
    exact fun h => nomatch hok.mpr h
  · rw [hchunks] at hsent hok
    refine .inl ⟨hok.mp rfl, ?_⟩
    rw [← hsent]

/-- The requests with which `CAS2` writes its operands. -/
def cas2Requests (cpu : Cpu σ) (size : Nat) (first second : BitVec 16) : List Request :=
  writeRequests (lockedMode cpu) (cpu.regs.d.get (casUpdateRegister first)) size
      (cas2Address cpu.regs first) size ++
    writeRequests (lockedMode cpu) (cpu.regs.d.get (casUpdateRegister second)) size
      (cas2Address cpu.regs second) size

/-- Both operands of `CAS2` could be read, and match: it comes to its writes, with a state behind
the accesses. -/
def Cas2Matches (ports : Ports σ) (size : Nat) (first second : BitVec 16) (cpu : Cpu σ) (s : σ) :
    Prop :=
  ∃ value₁ s₁ value₂,
    readChunks ports (lockedMode cpu) size (cas2Address cpu.regs first) size 0 cpu.memory =
      (.ok value₁, s₁) ∧
    readChunks ports (lockedMode cpu) size (cas2Address cpu.regs second) size 0 s₁ =
      (.ok value₂, s) ∧
    (cas2Compare cpu.regs size first second value₁ value₂).z = true

theorem cas2Update_memory (ports : Ports σ) (cpu : Cpu σ) (size : Nat) (first second : BitVec 16)
    (address₁ address₂ : BitVec 32) :
    ((cas2Update ports size first second address₁ address₂).after cpu).memory =
      sent ports
        (writeRequests (cpu.accessMode cpu.dataFunctionCode) (cpu.regs.d.get (casUpdateRegister first))
            size address₁ size ++
          writeRequests (cpu.accessMode cpu.dataFunctionCode)
            (cpu.regs.d.get (casUpdateRegister second)) size address₂ size) cpu.memory := by
  unfold cas2Update
  rw [Attempt.after_bind]
  dsimp only [Attempt.read_apply]
  rw [Attempt.after_bind]
  obtain ⟨haccepted, hwrite⟩ | ⟨cpu', haccepted, hwrite, hmemory⟩ :=
    writeOperand_ofMemory ports cpu address₁ (cpu.regs.d.get (casUpdateRegister first)) size
  · rw [hwrite, sent_append haccepted]
    dsimp only
    obtain ⟨-, hwrite'⟩ | ⟨cpu', -, hwrite', hmemory⟩ :=
      writeOperand_ofMemory ports { cpu with
        memory := sent ports (writeRequests (cpu.accessMode cpu.dataFunctionCode)
          (cpu.regs.d.get (casUpdateRegister first)) size address₁ size) cpu.memory }
        address₂ (cpu.regs.d.get (casUpdateRegister second)) size
    · rw [Attempt.after_of_ok hwrite']
      rfl
    · rw [Attempt.after_of_error hwrite']
      exact hmemory
  · rw [hwrite, (accepted_append_of_ne haccepted).2]
    exact hmemory

theorem thenUnlock_memory (x : Exec σ Unit) (cpu : Cpu σ) :
    ((thenUnlock x).after cpu).memory = (x.after cpu).memory := by
  unfold thenUnlock
  rw [Attempt.after_bind]
  cases hx : x cpu with
  | ok u cpu' =>
    rw [Attempt.caught_of_ok hx, Attempt.after_of_ok hx]
    rfl
  | error e cpu' =>
    rw [Attempt.caught_of_error hx, Attempt.after_of_error hx]
    rfl

theorem readOrUnlock_ofMemory (ports : Ports σ) (cpu : Cpu σ) (address : BitVec 32) (size : Nat) :
    (∃ value s, readChunks ports (cpu.accessMode cpu.dataFunctionCode) size address size 0
        cpu.memory = (.ok value, s) ∧
      readOrUnlock ports (.ofMemory address) size cpu = .ok value { cpu with memory := s }) ∨
    ∃ fault s cpu', readChunks ports (cpu.accessMode cpu.dataFunctionCode) size address size 0
        cpu.memory = (.error fault, s) ∧
      readOrUnlock ports (.ofMemory address) size cpu = .error () cpu' ∧ cpu'.memory = s := by
  unfold readOrUnlock
  obtain ⟨value, s, hchunks, hread⟩ | ⟨fault, s, cpu', hchunks, hread, hmemory⟩ :=
    readOperand_ofMemory ports cpu address size
  · refine .inl ⟨value, s, hchunks, ?_⟩
    rw [Attempt.bind_of_ok (Attempt.caught_of_ok hread)]
    rfl
  · refine .inr ⟨fault, s, { cpu' with rmc := false }, hchunks, ?_, hmemory⟩
    rw [Attempt.bind_of_ok (Attempt.caught_of_error hread)]
    rfl

theorem cas2Return_memory (ports : Ports σ) (cpu : Cpu σ) (size : Nat) (first second : BitVec 16)
    (value₁ value₂ : BitVec 32) :
    ((cas2Return ports size first second value₁ value₂).after cpu).memory = cpu.memory := rfl

theorem executeCas2With_memory (ports : Ports σ) (cpu : Cpu σ) (size : Nat)
    (first second : BitVec 16) :
    (∃ s, Cas2Matches ports size first second cpu s ∧
      ((executeCas2With ports size first second).after cpu).memory =
        sent ports (cas2Requests cpu size first second) s) ∨
    (∀ s, ¬ Cas2Matches ports size first second cpu s) ∧
      (((executeCas2With ports size first second).after cpu).memory =
          (readChunks ports (lockedMode cpu) size (cas2Address cpu.regs first) size 0
            cpu.memory).2 ∨
        ∃ value₁ s₁,
          readChunks ports (lockedMode cpu) size (cas2Address cpu.regs first) size 0 cpu.memory =
            (.ok value₁, s₁) ∧
          ((executeCas2With ports size first second).after cpu).memory =
            (readChunks ports (lockedMode cpu) size (cas2Address cpu.regs second) size 0 s₁).2) := by
  unfold executeCas2With
  rw [Attempt.after_bind]
  dsimp only [lockBus, Attempt.modify_apply]
  rw [Attempt.after_bind]
  dsimp only [Attempt.read_apply]
  generalize hlocked : ({ cpu with rmc := true, rmcOperations := cpu.rmcOperations + 1 } : Cpu σ) =
    locked
  have hmode : locked.accessMode locked.dataFunctionCode = lockedMode cpu := by
    rw [← hlocked]
    rfl
  have hregs : locked.regs = cpu.regs := by rw [← hlocked]
  have hmemory : locked.memory = cpu.memory := by rw [← hlocked]
  rw [Attempt.after_bind]
  obtain ⟨value₁, s₁, hchunks₁, hread₁⟩ | ⟨fault, s₁, cpu₁, hchunks₁, hread₁, hend⟩ :=
    readOrUnlock_ofMemory ports locked (cas2Address cpu.regs first) size
  · rw [hmode, hmemory] at hchunks₁
    rw [hread₁]
    dsimp only
    rw [Attempt.after_bind]
    obtain ⟨value₂, s₂, hchunks₂, hread₂⟩ | ⟨fault, s₂, cpu₂, hchunks₂, hread₂, hend⟩ :=
      readOrUnlock_ofMemory ports { locked with memory := s₁ } (cas2Address cpu.regs second) size
    · rw [show ({ locked with memory := s₁ } : Cpu σ).accessMode locked.dataFunctionCode =
        lockedMode cpu from hmode] at hchunks₂
      rw [hread₂]
      dsimp only
      rw [Attempt.after_bind]
      dsimp only [Attempt.read_apply]
      rw [Attempt.after_bind]
      dsimp only [Attempt.modify_apply]
      rw [thenUnlock_memory]
      rw [hregs]
      cases hz : (cas2Compare cpu.regs size first second value₁ value₂).z
      · refine .inr ⟨?_, .inr ⟨value₁, s₁, hchunks₁, ?_⟩⟩
        · rintro s ⟨value₁', s₁', value₂', hchunks₁', hchunks₂', hz'⟩
          rw [hchunks₁] at hchunks₁'
          cases hchunks₁'
          rw [hchunks₂] at hchunks₂'
          cases hchunks₂'
          rw [hz] at hz'
          exact nomatch hz'
        · rw [if_neg (by decide), cas2Return_memory, hchunks₂]
          rfl
      · refine .inl ⟨s₂, ⟨value₁, s₁, value₂, hchunks₁, hchunks₂, hz⟩, ?_⟩
        rw [if_pos rfl, cas2Update_memory]
        subst hlocked
        rfl
    · rw [show ({ locked with memory := s₁ } : Cpu σ).accessMode locked.dataFunctionCode =
        lockedMode cpu from hmode] at hchunks₂
      rw [hread₂]
      refine .inr ⟨?_, .inr ⟨value₁, s₁, hchunks₁, ?_⟩⟩
      · rintro s ⟨value₁', s₁', value₂', hchunks₁', hchunks₂', -⟩
        rw [hchunks₁] at hchunks₁'
        cases hchunks₁'
        rw [hchunks₂] at hchunks₂'
        exact nomatch hchunks₂'
      · rw [hchunks₂]
        exact hend
  · rw [hmode, hmemory] at hchunks₁
    rw [hread₁]
    refine .inr ⟨?_, .inl ?_⟩
    · rintro s ⟨value₁', s₁', value₂', hchunks₁', -⟩
      rw [hchunks₁] at hchunks₁'
      exact nomatch hchunks₁'
    · rw [hchunks₁]
      exact hend

end Cas2

/-! ## All or nothing -/

/-- A memory with both updates of `CAS2`. -/
def cas2Stored (m : ByteMemory 32) (regs : Regs) (size : Nat) (first second : BitVec 16) :
    ByteMemory 32 :=
  (m.storeAt (cas2Address regs first) size (regs.d.get (casUpdateRegister first))).storeAt
    (cas2Address regs second) size (regs.d.get (casUpdateRegister second))

/-- A `CAS2` that leaves memory torn: its operands match, and what the bus accepts of its writes
makes memory neither what it was nor what both updates make it. -/
def Cas2Torn {ports : Ports σ} {functionCode : BitVec 8} (view : MemoryPorts ports functionCode)
    (size : Nat) (first second : BitVec 16) (cpu : Cpu σ) : Prop :=
  ∃ s, Cas2Matches ports size first second cpu s ∧
    let requests := cas2Requests cpu size first second
    let written := storeRequests (view.memory cpu.memory) (requests.take (accepted ports requests s))
    written ≠ view.memory cpu.memory ∧
      written ≠ cas2Stored (view.memory cpu.memory) cpu.regs size first second

section Torn

variable {ports : Ports σ} {functionCode : BitVec 8} (view : MemoryPorts ports functionCode)
  {cpu : Cpu σ} {size : Nat} {first second : BitVec 16}

theorem MemoryPorts.memory_cas2Matches (hcode : cpu.dataFunctionCode = functionCode) {s : σ}
    (h : Cas2Matches ports size first second cpu s) : view.memory s = view.memory cpu.memory := by
  obtain ⟨value₁, s₁, value₂, hchunks₁, hchunks₂, -⟩ := h
  have hread₁ := view.readChunks_memory (lockedMode cpu) hcode size
    (cas2Address cpu.regs first) size 0 cpu.memory
  have hread₂ := view.readChunks_memory (lockedMode cpu) hcode size
    (cas2Address cpu.regs second) size 0 s₁
  rw [hchunks₁] at hread₁
  rw [hchunks₂] at hread₂
  exact hread₂.trans hread₁

/-- BOTH UPDATES OR NEITHER, unless memory is torn. -/
theorem MemoryPorts.cas2_whole_iff (hcode : cpu.dataFunctionCode = functionCode) :
    view.memory ((executeCas2With ports size first second).after cpu).memory =
          view.memory cpu.memory ∨
        view.memory ((executeCas2With ports size first second).after cpu).memory =
          cas2Stored (view.memory cpu.memory) cpu.regs size first second ↔
      ¬ Cas2Torn view size first second cpu := by
  obtain ⟨s, hmatches, hafter⟩ | ⟨hnot, hafter⟩ :=
    executeCas2With_memory ports cpu size first second
  · have hwrites : ∀ request ∈ cas2Requests cpu size first second,
        IsWrite functionCode request := by
      intro request hrequest
      obtain hrequest | hrequest := List.mem_append.mp hrequest
      · exact isWrite_writeRequests (lockedMode cpu) hcode _ _ _ _ request hrequest
      · exact isWrite_writeRequests (lockedMode cpu) hcode _ _ _ _ request hrequest
    rw [hafter, view.memory_sent hwrites, view.memory_cas2Matches hcode hmatches]
    constructor
    · rintro hwhole ⟨s', hmatches', hneither⟩
      -- the reads are as they are
      obtain rfl : s' = s := by
        obtain ⟨value₁, s₁, value₂, hchunks₁, hchunks₂, -⟩ := hmatches
        obtain ⟨value₁', s₁', value₂', hchunks₁', hchunks₂', -⟩ := hmatches'
        rw [hchunks₁] at hchunks₁'
        cases hchunks₁'
        rw [hchunks₂] at hchunks₂'
        cases hchunks₂'
        rfl
      exact hwhole.elim hneither.1 hneither.2
    · intro htorn
      by_contra hneither
      exact htorn ⟨s, hmatches, not_or.mp hneither⟩
  · have hsame : view.memory ((executeCas2With ports size first second).after cpu).memory =
        view.memory cpu.memory := by
      have hread₁ := view.readChunks_memory (lockedMode cpu) hcode size
        (cas2Address cpu.regs first) size 0 cpu.memory
      obtain hafter | ⟨value₁, s₁, hchunks₁, hafter⟩ := hafter
      · rw [hafter, hread₁]
      · rw [hchunks₁] at hread₁
        rw [hafter, view.readChunks_memory (lockedMode cpu) hcode]
        exact hread₁
    exact iff_of_true (.inl hsame) fun ⟨s, hmatches, _⟩ => hnot s hmatches

end Torn

namespace LockedOp

variable {ports : Ports σ} {functionCode : BitVec 8} (view : MemoryPorts ports functionCode)

/-- Read-modify-write atomicity: every access from the first operand on is made under the lock,
the bus is free at the end of the step, and a `CAS2`, once it has its extension words, writes both
operands or leaves memory. -/
structure Atomic (op : LockedOp) (cpu : Cpu (σ × List Request)) : Prop where
  locks : LocksBus ports op cpu
  whole : ∀ word first second mid, op = .cas2 word first →
    nextWord ports.logged cpu = .ok second mid →
    view.memory ((op.run ports.logged).after cpu).memory.1 = view.memory mid.memory.1 ∨
      view.memory ((op.run ports.logged).after cpu).memory.1 =
        cas2Stored (view.memory mid.memory.1) mid.regs (boundsDecode word).size first second

/-- No `CAS2` leaves memory torn. -/
def Untorn (op : LockedOp) (cpu : Cpu (σ × List Request)) : Prop :=
  ∀ word first second mid, op = .cas2 word first → nextWord ports.logged cpu = .ok second mid →
    ¬ Cas2Torn view.logged (boundsDecode word).size first second mid

/-- A processor whose next extension word is the second of a `CAS2` of long words. -/
def cas2Cpu : Cpu (ByteMemory 32 × List Request) :=
  let flat := flatCpu .m68030 0x2000 0x1000 0x1000
  { flat with
    regs := { flat.regs with d := #v[0, 0x2000, 0, 1, 0x3000, 0, 0, 0] }
    memory := (fun x => if x = 0 then 0x40 else if x = 1 then 0xC2 else 0, []) }

theorem accepted_flat (requests : List Request) (s : ByteMemory 32 × List Request) :
    accepted (flatPorts fun _ => false).logged requests s = requests.length := by
  induction requests generalizing s with
  | nil => rfl
  | cons request rest ih =>
    obtain ⟨value, s', haccess⟩ : ∃ value s',
        (flatPorts fun _ => false).logged.access request s = (.ok value, s') := by
      cases hwrite : request.write <;> simp [flatPorts, Ports.logged, hwrite]
    unfold accepted
    rw [haccess]
    exact congrArg (· + 1) (ih s')

/-- The two long words that are written once the second extension word is there. -/
theorem cas2Cpu_requests {second : BitVec 16} {mid : Cpu (ByteMemory 32 × List Request)}
    (hnext : nextWord (flatPorts fun _ => false).logged cas2Cpu = .ok second mid) :
    let update := mid.regs.d.get 3
    cas2Requests mid 4 0x10C2 second =
        [⟨.data, true, cas2Address mid.regs 0x10C2, 5, update, 4, true, false⟩,
          ⟨.data, true, cas2Address mid.regs second, 5, update, 4, true, false⟩] ∧
      casUpdateRegister second = 3 := by
  have hrun : (match nextWord (flatPorts fun _ => false).logged cas2Cpu with
      | .ok second mid => decide (cas2Requests mid 4 0x10C2 second =
          [⟨.data, true, cas2Address mid.regs 0x10C2, 5, mid.regs.d.get 3, 4, true, false⟩,
            ⟨.data, true, cas2Address mid.regs second, 5, mid.regs.d.get 3, 4, true, false⟩] ∧
          casUpdateRegister second = 3)
      | .error _ _ => false) = true := by decide +kernel
  rw [hnext] at hrun
  exact of_decide_eq_true hrun

end LockedOp

end Apollo.M68030
