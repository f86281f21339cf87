import Apollo.M68030.ResolveAddress

/-!
# What stays while words are fetched and exceptions are taken

The lock and the function codes of the access contexts are no business of the instruction pipe, of
address calculation or of exception processing: whatever these do, and however they end, the three
stay as they were.
-/

namespace Apollo.M68030

open Apollo.Lib

variable {σ : Type}

/-- The lock and the function codes are as they were. -/
structure SameContext (cpu cpu' : Cpu σ) : Prop where
  rmc : cpu'.rmc = cpu.rmc
  dataFunctionCode : cpu'.dataFunctionCode = cpu.dataFunctionCode
  fetchFunctionCode : cpu'.fetch.functionCode = cpu.fetch.functionCode

namespace SameContext

theorem refl (cpu : Cpu σ) : SameContext cpu cpu := ⟨rfl, rfl, rfl⟩

theorem trans (cpu cpu' cpu'' : Cpu σ) (h : SameContext cpu cpu') (h' : SameContext cpu' cpu'') :
    SameContext cpu cpu'' :=
  ⟨h'.rmc.trans h.rmc, h'.dataFunctionCode.trans h.dataFunctionCode,
    h'.fetchFunctionCode.trans h.fetchFunctionCode⟩

end SameContext

/-- A computation that leaves the context, whether or not it gives up. -/
abbrev LeavesContext {α : Type} (x : Exec σ α) : Prop := Attempt.Ends SameContext SameContext x

section Rules

variable {α β : Type} {x : Exec σ α} {f : α → Exec σ β}

theorem LeavesContext.bind (hx : LeavesContext x) (hf : ∀ a, LeavesContext (f a)) :
    LeavesContext (x >>= f) :=
  Attempt.ends_bind SameContext.trans SameContext.trans hx hf

theorem leavesContext_pure (a : α) : LeavesContext (pure a : Exec σ α) :=
  Attempt.ends_pure SameContext.refl a

theorem leavesContext_fail : LeavesContext (Attempt.fail : Exec σ α) :=
  Attempt.ends_fail SameContext.refl

theorem leavesContext_read (g : Cpu σ → α) : LeavesContext (Attempt.read g) :=
  Attempt.ends_read SameContext.refl g

theorem leavesContext_require (c : Prop) [Decidable c] :
    LeavesContext (Attempt.require c : Exec σ Unit) :=
  Attempt.ends_require SameContext.refl SameContext.refl c

theorem leavesContext_modify {g : Cpu σ → Cpu σ} (hg : ∀ cpu, SameContext cpu (g cpu)) :
    LeavesContext (modify g : Exec σ Unit) := Attempt.ends_modify hg

theorem leavesContext_mapRegs (f : Regs → Regs) :
    LeavesContext (modify fun cpu => cpu.mapRegs f : Exec σ Unit) :=
  leavesContext_modify fun _ => ⟨rfl, rfl, rfl⟩

theorem leavesContext_onlyIf {c : Prop} [Decidable c] {y : Exec σ Unit} (hy : LeavesContext y) :
    LeavesContext (Attempt.onlyIf c y) := Attempt.ends_onlyIf SameContext.refl hy

theorem leavesContext_caught (hx : LeavesContext x) : LeavesContext x.caught :=
  Attempt.ends_caught hx

end Rules

variable (ports : Ports σ)

/-! ## Operands and words -/

theorem leavesContext_stepOperandRead (target : Address) (size : Nat) (functionCode : BitVec 8) :
    LeavesContext (stepOperandRead ports target size functionCode) := by
  refine ⟨fun cpu => ?_⟩
  unfold stepOperandRead
  rcases operandRead ports (cpu.accessMode functionCode) cpu.regs target size cpu.memory with
    ⟨_ | value, memory⟩ <;> exact ⟨rfl, rfl, rfl⟩

theorem leavesContext_stepOperandWrite (target : Address) (size : Nat) (value : BitVec 32)
    (functionCode : BitVec 8) :
    LeavesContext (stepOperandWrite ports target size value functionCode) := by
  refine ⟨fun cpu => ?_⟩
  unfold stepOperandWrite
  rcases operandWrite ports (cpu.accessMode functionCode) cpu.regs target size value cpu.memory with
    ⟨_ | regs, memory⟩ <;> exact ⟨rfl, rfl, rfl⟩

theorem leavesContext_readOperand (target : Address) (size : Nat) :
    LeavesContext (readOperand ports target size) :=
  (leavesContext_read _).bind fun _ => leavesContext_stepOperandRead ports ..

theorem prefetch_functionCode (fetch : Fetch) (s : σ) :
    (fetch.prefetch ports s).1.functionCode = fetch.functionCode := by
  unfold Fetch.prefetch
  split
  · rfl
  · split <;> rfl

theorem leavesContext_fillToDecoded (turns : Nat) : LeavesContext (fillToDecoded ports turns) := by
  induction turns with
  | zero =>
    refine ⟨fun cpu => ?_⟩
    unfold fillToDecoded
    rcases cpu.fetch.pipe.decoded with _ | word <;> exact ⟨rfl, rfl, rfl⟩
  | succ turns ih =>
    refine ⟨fun cpu => ?_⟩
    unfold fillToDecoded
    rcases hdecoded : cpu.fetch.pipe.decoded with _ | word
    · have hnext := ih.run (prefetchAndAdvance ports cpu)
      have hfirst : SameContext cpu (prefetchAndAdvance ports cpu) :=
        ⟨rfl, rfl, prefetch_functionCode ports cpu.fetch cpu.memory⟩
      dsimp only
      cases hrun : fillToDecoded ports turns (prefetchAndAdvance ports cpu) with
      | ok decoded cpu' =>
        rw [hrun] at hnext
        exact SameContext.trans _ _ _ hfirst hnext
      | error e cpu' =>
        rw [hrun] at hnext
        exact SameContext.trans _ _ _ hfirst hnext
    · exact ⟨rfl, rfl, rfl⟩

theorem leavesContext_takeWord : LeavesContext (takeWord ports) := by
  refine ⟨fun cpu => ?_⟩
  have hfill := (leavesContext_fillToDecoded ports 4).run cpu
  unfold takeWord
  cases hrun : fillToDecoded ports 4 cpu with
  | ok decoded cpu' =>
    rw [hrun] at hfill
    obtain ⟨word, _ | _⟩ := decoded <;>
      exact ⟨hfill.rmc, hfill.dataFunctionCode, hfill.fetchFunctionCode⟩
  | error e cpu' =>
    rw [hrun] at hfill
    exact ⟨hfill.rmc, hfill.dataFunctionCode, hfill.fetchFunctionCode⟩

theorem leavesContext_nextWord : LeavesContext (nextWord ports) := by
  refine LeavesContext.bind (leavesContext_modify fun cpu => ?_) fun _ => leavesContext_takeWord ports
  exact ⟨rfl, rfl, rfl⟩

/-- THE RULE OF THE WORDS: whatever preorder the fetch of a word keeps, the gathering of an address keeps. -/
theorem ends_gatherAddressInput {R : Cpu σ → Cpu σ → Prop} (hrefl : ∀ cpu, R cpu cpu)
    (htrans : ∀ cpu cpu' cpu'', R cpu cpu' → R cpu' cpu'' → R cpu cpu'')
    (hword : Attempt.Ends R R (nextWord ports)) (kind : EaKind) (size : Nat) :
    Attempt.Ends R R (gatherAddressInput ports kind size) := by
  have hbind {α β : Type} {x : Exec σ α} {f : α → Exec σ β} (hx : Attempt.Ends R R x)
      (hf : ∀ a, Attempt.Ends R R (f a)) : Attempt.Ends R R (x >>= f) :=
    Attempt.ends_bind htrans htrans hx hf
  have hpure {α : Type} (a : α) : Attempt.Ends R R (pure a : Exec σ α) := Attempt.ends_pure hrefl a
  have hfail {α : Type} : Attempt.Ends R R (Attempt.fail : Exec σ α) := Attempt.ends_fail hrefl
  have hread {α : Type} (g : Cpu σ → α) : Attempt.Ends R R (Attempt.read g) := Attempt.ends_read hrefl g
  have hlong : Attempt.Ends R R (nextLong ports) := hbind hword fun _ => hbind hword fun _ => hpure _
  have hsigned : Attempt.Ends R R (nextSigned ports) := hbind hword fun _ => hpure _
  have hbase (base : BaseDisplacement) : Attempt.Ends R R (readDisplacement ports base) := by
    cases base
    · exact hfail
    · exact hpure _
    · exact hsigned
    · exact hlong
  have houter (outer : OuterDisplacement) : Attempt.Ends R R (readOuterDisplacement ports outer) := by
    cases outer
    · exact hfail
    · exact hbase .null
    · exact hbase .word
    · exact hbase .long
  have hindexed : Attempt.Ends R R (gatherIndexed ports size) := by
    refine hbind hword fun word => hbind (hread _) fun extensionAddress => ?_
    dsimp only
    split
    · exact hpure _
    · refine hbind (Attempt.ends_require hrefl hrefl _) fun _ => hbind (hbase _) fun baseDisplacement => ?_
      split
      · exact hpure _
      · exact hbind (houter _) fun _ => hpure _
  have hdisplacement : Attempt.Ends R R (do
      let displacement ← nextSigned ports
      let extensionAddress ← Attempt.read Cpu.extensionAddress
      pure { operandSize := size, displacement, extensionAddress : AddressInput }) :=
    hbind hsigned fun _ => hbind (hread _) fun _ => hpure _
  cases kind
  case displacement => exact hdisplacement
  case pcDisplacement => exact hdisplacement
  case absoluteShort => exact hbind hsigned fun _ => hpure _
  case absoluteLong => exact hbind hlong fun _ => hpure _
  case indexed => exact hindexed
  case pcIndexed => exact hindexed
  case immediate => exact hfail
  case invalid => exact hfail
  all_goals exact hpure _

theorem leavesContext_gatherAddressInput (kind : EaKind) (size : Nat) :
    LeavesContext (gatherAddressInput ports kind size) :=
  ends_gatherAddressInput ports SameContext.refl SameContext.trans (leavesContext_nextWord ports) kind size

theorem leavesContext_resolveAddress (ea : Ea) (input : AddressInput) :
    LeavesContext (resolveAddress ports ea input) := by
  refine LeavesContext.bind ⟨fun cpu => ⟨rfl, rfl, rfl⟩⟩ fun target => ?_
  split
  · exact leavesContext_pure _
  · refine (leavesContext_caught (leavesContext_readOperand ports _ _)).bind fun read => ?_
    cases read <;> exact leavesContext_pure _

theorem leavesContext_operandAddress (ea : Ea) (size : Nat) :
    LeavesContext (operandAddress ports ea size) :=
  (leavesContext_gatherAddressInput ports _ _).bind fun _ => leavesContext_resolveAddress ports ..

theorem leavesContext_allowEa (allowed : Bool) : LeavesContext (allowEa allowed : Exec σ Unit) := by
  cases allowed
  · refine LeavesContext.bind (leavesContext_modify fun cpu => ?_) fun _ => leavesContext_fail
    exact ⟨rfl, rfl, rfl⟩
  · exact leavesContext_pure ()

/-! ## Exceptions -/

theorem leavesContext_writeFrameField (address : BitVec 32) (size : Nat) (value : BitVec 32) :
    LeavesContext (writeFrameField ports address size value) := by
  refine LeavesContext.bind (leavesContext_modify fun cpu => ?_) fun _ => ?_
  · exact ⟨rfl, rfl, rfl⟩
  refine (leavesContext_caught (leavesContext_stepOperandWrite ports ..)).bind fun wrote => ?_
  refine LeavesContext.bind (leavesContext_modify fun cpu => ?_) fun _ => leavesContext_require _
  exact ⟨rfl, rfl, rfl⟩

theorem leavesContext_writeFields (frame : BitVec 32) (fields : List (Nat × Nat × BitVec 32)) :
    LeavesContext (writeFields ports frame fields) := by
  induction fields with
  | nil => exact leavesContext_pure ()
  | cons field fields ih => exact (leavesContext_writeFrameField ports ..).bind fun _ => ih

theorem leavesContext_fetchVector (vector : Nat) (frame : BitVec 32) (format : FrameFormat)
    (noAllocate : Bool) : LeavesContext (fetchVector ports vector frame format noAllocate) := by
  have hswitch : ∀ b, LeavesContext (Attempt.onlyIf (noAllocate = true)
      (modify fun cpu : Cpu σ => { cpu with noAllocate := b })) := fun b =>
    leavesContext_onlyIf (leavesContext_modify fun _ => ⟨rfl, rfl, rfl⟩)
  refine LeavesContext.bind (leavesContext_mapRegs _) fun _ => ?_
  refine (leavesContext_read _).bind fun vbr => (hswitch true).bind fun _ => ?_
  refine (leavesContext_caught (leavesContext_stepOperandRead ports ..)).bind fun handler => ?_
  refine (hswitch false).bind fun _ => ?_
  cases handler with
  | none => exact leavesContext_fail
  | some handler =>
    refine LeavesContext.bind (leavesContext_modify fun cpu => ?_) fun _ => leavesContext_pure _
    exact ⟨rfl, rfl, rfl⟩

theorem leavesContext_takeExceptionWith (vector : Nat) (stackedPc instructionAddress : BitVec 32)
    (savedSr : BitVec 16) :
    LeavesContext (takeExceptionWith ports vector stackedPc instructionAddress savedSr) := by
  refine LeavesContext.bind (leavesContext_require _) fun _ => ?_
  refine LeavesContext.bind (leavesContext_require _) fun _ => ?_
  refine LeavesContext.bind (leavesContext_mapRegs _) fun _ => ?_
  refine (leavesContext_read _).bind fun variant => ?_
  refine (leavesContext_read _).bind fun a7 => ?_
  exact (leavesContext_writeFields ports ..).bind fun _ => leavesContext_fetchVector ports ..

theorem leavesContext_takeBusFaultWith (vector : Nat) (instructionAddress : BitVec 32)
    (ssw : SpecialStatus) (faultAddress dataOutput : BitVec 32) :
    LeavesContext
      (takeBusFaultWith ports vector instructionAddress ssw faultAddress dataOutput) := by
  refine (leavesContext_read _).bind fun entered => ?_
  refine LeavesContext.bind (leavesContext_mapRegs _) fun _ => ?_
  refine (leavesContext_read _).bind fun a7 => ?_
  exact (leavesContext_writeFields ports ..).bind fun _ => leavesContext_fetchVector ports ..

theorem leavesContext_takeInterrupt : LeavesContext (takeInterrupt ports) := by
  refine (leavesContext_read _).bind fun entered => ?_
  refine LeavesContext.bind (leavesContext_modify fun cpu => ?_) fun _ => ?_
  · exact ⟨rfl, rfl, rfl⟩
  refine LeavesContext.bind (leavesContext_require _) fun _ => ?_
  refine LeavesContext.bind (leavesContext_mapRegs _) fun _ => ?_
  have hacknowledge : LeavesContext (fun cpu : Cpu σ =>
      (.ok (acknowledgeInterrupt ports entered.interruptLevel cpu).1
        (acknowledgeInterrupt ports entered.interruptLevel cpu).2 : EStateM.Result Unit _ Nat)) := by
    refine ⟨fun cpu => ?_⟩
    dsimp only
    unfold acknowledgeInterrupt
    cases ports.acknowledge <;> exact ⟨rfl, rfl, rfl⟩
  refine hacknowledge.bind fun vector => (leavesContext_read _).bind fun resume => ?_
  refine (leavesContext_takeExceptionWith ports ..).bind fun out => ?_
  split
  · exact leavesContext_pure _
  · refine LeavesContext.bind ?_ fun frame => leavesContext_pure _
    refine LeavesContext.bind (leavesContext_mapRegs _) fun _ => ?_
    refine (leavesContext_read _).bind fun a7 => ?_
    refine (leavesContext_writeFields ports ..).bind fun _ => ?_
    exact LeavesContext.bind (leavesContext_mapRegs _) fun _ => leavesContext_pure _

/-- NO EXCEPTION CHANGES THE CONTEXT. -/
theorem leavesContext_entry (entry : Entry) : LeavesContext (entry.run ports) := by
  cases entry with
  | exception vector stackedPc instructionAddress =>
    exact (leavesContext_read _).bind fun _ => leavesContext_takeExceptionWith ports ..
  | busFault vector instructionAddress =>
    exact (leavesContext_read _).bind fun _ =>
      LeavesContext.bind (leavesContext_require _) fun _ => leavesContext_takeBusFaultWith ports ..
  | addressError =>
    exact (leavesContext_read _).bind fun _ => leavesContext_takeBusFaultWith ports ..
  | interrupt => exact leavesContext_takeInterrupt ports

end Apollo.M68030
