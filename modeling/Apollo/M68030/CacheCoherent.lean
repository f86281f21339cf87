import Apollo.M68030.CacheRead

/-!
# What a read through a cache returns

Memory is long words, four to a line of sixteen bytes; a translation that keeps lines whole
gives the physical line of each logical one. A cache is `Coherent` when whatever a lookup can
find is the long word of memory that it stands for.

`cacheRead_iff`: a read returns memory, and leaves the cache coherent, exactly when a burst
that was asked for is also completed; otherwise the long word it gets is the first of the
line.
-/

namespace Apollo.M68030

/-- A memory of long words, by line and place in the line. -/
abbrev LongMemory : Type := BitVec 28 → Fin cacheEntries → BitVec 32

/-- The long word that contains an address. -/
def LongMemory.containing (memory : LongMemory) (address : BitVec 32) : BitVec 32 :=
  memory (address.extractLsb' 4 28) (cacheEntryIndex address)

/-- The physical line of each logical line, in each address space. -/
abbrev Frames : Type := BitVec 3 × BitVec 28 → BitVec 28

/-- Every valid entry is the long word of memory that its tag and its place name. -/
def Coherent (frames : Frames) (memory : LongMemory) (cache : Cache) : Prop :=
  ∀ address functionCode value, cache.lookup address functionCode = some value →
    memory (frames (lineOf functionCode address)) (cacheEntryIndex address) = value

/-- The physical address is the translation of the logical one. -/
structure Names (frames : Frames) (functionCode : BitVec 8) (address physical : BitVec 32) : Prop where
  line : physical.extractLsb' 4 28 = frames (lineOf functionCode address)
  place : physical.extractLsb' 0 4 = address.extractLsb' 0 4

/-- The memory system answers with the long word at the address it was asked for, or, if it
acknowledges a burst, with the line. -/
structure Answers (memory : LongMemory) (cycle : BitVec 32) (answer : FillAnswer) : Prop where
  answered : answer.termination ≠ .berr
  first : answer.data.get 0 = memory.containing cycle
  line : answer.burstAcknowledge = true → cycle.extractLsb' 0 4 = 0 →
    ∀ i, answer.data.get i = memory (cycle.extractLsb' 4 28) i

/-- A burst is granted, and the bus, the wait states and the four beats are within the
sixty-four clocks. -/
def CacheRequest.completes {τ : Type} (request : CacheRequest τ) (cache : Cache) (t : τ) : Bool :=
  let (answer, t) := request.answer cache t
  let (waits, t) := request.waits (request.physicalCycle cache) answer t
  let (acquired, _) := request.acquire t
  answer.burstAcknowledge && answer.termination = .sterm && withinPatience acquired waits

/-! ## Lines and places -/

theorem cacheEntryIndex_eq_iff {a a' : BitVec 32} :
    cacheEntryIndex a = cacheEntryIndex a' ↔ ∀ i < 2, a.getLsbD (2 + i) = a'.getLsbD (2 + i) := by
  have hthree : ∀ i < 32, (3 : BitVec 32).getLsbD i = decide (i < 2) := by decide
  rw [Fin.ext_iff]
  show ((a >>> 2) &&& 3).toNat = ((a' >>> 2) &&& 3).toNat ↔ _
  rw [← BitVec.toNat_eq]
  constructor
  · intro h i hi
    have hbit := congrArg (fun x => x.getLsbD i) h
    simpa only [BitVec.getLsbD_and, BitVec.getLsbD_ushiftRight, hthree i (by omega),
      decide_eq_true hi, Bool.and_true] using hbit
  · intro h
    apply BitVec.eq_of_getLsbD_eq
    intro i hi
    rw [BitVec.getLsbD_and, BitVec.getLsbD_and, BitVec.getLsbD_ushiftRight,
      BitVec.getLsbD_ushiftRight, hthree i hi]
    by_cases hlow : i < 2
    · rw [h i hlow]
    · rw [decide_eq_false hlow, Bool.and_false, Bool.and_false]

theorem getLsbD_and_not {a mask : BitVec 32} {n : Nat}
    (hmask : ∀ i < 32, mask.getLsbD i = decide (i < n)) (i : Nat) :
    (a &&& ~~~mask).getLsbD i = (a.getLsbD i && decide (n ≤ i)) := by
  by_cases hi : i < 32
  · rw [BitVec.getLsbD_and, BitVec.getLsbD_not, decide_eq_true hi, Bool.true_and, hmask i hi,
      ← decide_not, decide_eq_decide.2 Nat.not_lt]
  · rw [BitVec.getLsbD_of_ge _ _ (by omega), BitVec.getLsbD_of_ge _ _ (by omega), Bool.false_and]

theorem three_getLsbD : ∀ i < 32, (3 : BitVec 32).getLsbD i = decide (i < 2) := by decide

theorem fifteen_getLsbD : ∀ i < 32, (0xF : BitVec 32).getLsbD i = decide (i < 4) := by decide

theorem line_and_not {a mask : BitVec 32} {n : Nat}
    (hmask : ∀ i < 32, mask.getLsbD i = decide (i < n)) (hn : n ≤ 4) :
    (a &&& ~~~mask).extractLsb' 4 28 = a.extractLsb' 4 28 := by
  apply BitVec.eq_of_getLsbD_eq
  intro i _
  rw [BitVec.getLsbD_extractLsb', BitVec.getLsbD_extractLsb', getLsbD_and_not hmask,
    decide_eq_true (show n ≤ 4 + i by omega), Bool.and_true]

theorem containing_and_not_three (memory : LongMemory) (a : BitVec 32) :
    memory.containing (a &&& ~~~3) = memory.containing a := by
  have hplace : cacheEntryIndex (a &&& ~~~3) = cacheEntryIndex a := by
    rw [cacheEntryIndex_eq_iff]
    intro i _
    rw [getLsbD_and_not three_getLsbD, decide_eq_true (show 2 ≤ 2 + i by omega), Bool.and_true]
  rw [LongMemory.containing, LongMemory.containing, hplace,
    line_and_not three_getLsbD (by decide)]

theorem base_low (a : BitVec 32) : (a &&& ~~~0xF).extractLsb' 0 4 = 0 := by
  apply BitVec.eq_of_getLsbD_eq
  intro i hi
  rw [BitVec.getLsbD_extractLsb', getLsbD_and_not fifteen_getLsbD,
    decide_eq_false (show ¬ 4 ≤ 0 + i by omega), Bool.and_false, Bool.and_false]
  exact BitVec.getLsbD_zero.symm

variable {τ : Type} {frames : Frames} {memory : LongMemory} {cache : Cache}
  {request : CacheRequest τ} {t : τ}

namespace Names

variable {fc : BitVec 8} {a p : BitVec 32}

theorem place_eq (h : Names frames fc a p) : cacheEntryIndex p = cacheEntryIndex a := by
  rw [cacheEntryIndex_eq_iff]
  intro i hi
  have hbit := congrArg (fun x => x.getLsbD (2 + i)) h.place
  simpa [show 2 + i < 4 by omega] using hbit

theorem containing_eq (h : Names frames fc a p) :
    memory.containing p = memory (frames (lineOf fc a)) (cacheEntryIndex a) := by
  rw [LongMemory.containing, h.line, h.place_eq]

end Names

namespace Coherent

theorem read (h : Coherent frames memory cache) {fc : BitVec 8} {a p w : BitVec 32}
    (hnames : Names frames fc a p) (hw : cache.lookup a fc = some w) : memory.containing p = w := by
  rw [hnames.containing_eq]
  exact h a fc w hw

theorem fillEntry (h : Coherent frames memory cache) {fc : BitVec 8} {a p v : BitVec 32}
    (hnames : Names frames fc a p) (hv : memory.containing p = v) :
    Coherent frames memory (cache.fillEntry a fc v) := by
  intro a' fc' w hw
  rcases Cache.found_of_fillEntry hw with ⟨hsame, rfl⟩ | hold
  · obtain ⟨hline, hplace⟩ := Prod.mk.inj hsame
    rw [← hv, hnames.containing_eq, hline, hplace]
  · exact h a' fc' w hold

theorem fillLine (h : Coherent frames memory cache) {fc : BitVec 8} {a : BitVec 32}
    {values : Vector (BitVec 32) cacheEntries}
    (hvalues : ∀ i, values.get i = memory (frames (lineOf fc a)) i) :
    Coherent frames memory (cache.fillLine a fc values) := by
  intro a' fc' w hw
  rcases Cache.found_of_fillLine hw with ⟨hline, rfl⟩ | hold
  · rw [← hline]
    exact (hvalues (cacheEntryIndex a')).symm
  · exact h a' fc' w hold

end Coherent

theorem bursts_of_found {w : BitVec 32}
    (h : cache.lookup request.address request.functionCode = some w) :
    request.bursts cache = false := by
  obtain ⟨htag, hvalid, -⟩ := Cache.lookup_eq_some.1 h
  have hsome : (cache.lineAt request.address).valid.contains true = true := by
    rw [Vector.contains_iff_mem, ← hvalid]
    exact Vector.getElem_mem _
  rw [CacheRequest.bursts, Cache.burstRequest]
  split
  · exact Bool.and_false _
  · rw [if_neg (not_not.2 htag), hsome]
    exact Bool.and_false _

/-- A READ THROUGH A CACHE RETURNS MEMORY, and leaves the cache coherent, exactly when no
burst is asked for, or it is completed, or the first long word of the line is the same as the
one that is read. -/
theorem cacheRead_iff (hcoherent : Coherent frames memory cache)
    (hnames : Names frames request.functionCode request.address request.physical) (bus : Bus)
    (hanswers : Answers memory (request.physicalCycle cache) (request.answer cache t).1) :
    ((cacheRead cache bus request t).1.value = memory.containing request.physical ∧
        Coherent frames memory (cacheRead cache bus request t).2.1) ↔
      (request.bursts cache = true → request.completes cache t = true ∨
        memory.containing (request.physical &&& ~~~0xF) =
          memory.containing request.physical) := by
  unfold cacheRead
  dsimp only
  split
  · next w hhit =>
    have hfound : cache.lookup request.address request.functionCode = some w := by
      split at hhit
      · exact hhit
      · cases hhit
    refine iff_of_true ⟨(hcoherent.read hnames hfound).symm, hcoherent⟩ fun hburst => ?_
    rw [bursts_of_found hfound] at hburst
    cases hburst
  · rcases hanswer : request.answer cache t with ⟨answer, t₁⟩
    rw [hanswer] at hanswers
    dsimp only
    rcases hwaits : request.waits (request.physicalCycle cache) answer t₁ with ⟨waits, t₂⟩
    dsimp only
    rcases hacquire : request.acquire t₂ with ⟨acquired, t₃⟩
    dsimp only
    have hcompletes : request.completes cache t = (answer.burstAcknowledge &&
        decide (answer.termination = .sterm) && withinPatience acquired waits) := by
      simp only [CacheRequest.completes, hanswer, hwaits, hacquire]
    have hbeats := request.bursts_iff cache bus (request.physicalCycle cache) answer waits acquired
      t₃
    rcases hrun : runCycle waits answer.termination request.clock
      (readBus bus request.readModifyWrite (request.bursts cache) (request.physicalCycle cache)
        request.functionCode answer) acquired t₃ with ⟨bus', clocks, t₄⟩
    rw [hrun] at hbeats
    dsimp only at hbeats ⊢
    have hcomplete : decide (burstBeatsMax ≤ bus'.burstBeats) =
        (request.bursts cache && request.completes cache t) := by
      rw [hcompletes, Bool.eq_iff_iff, decide_eq_true_iff, hbeats]
      simp only [Bool.and_eq_true, decide_eq_true_iff, and_assoc]
    rw [hcomplete, if_neg hanswers.answered]
    cases hburst : request.bursts cache with
    | false =>
      -- the long word itself was asked for
      have hcycle : memory.containing request.physical = answer.data.get 0 := by
        rw [hanswers.first, CacheRequest.physicalCycle, hburst, if_neg (by decide),
          containing_and_not_three]
      rw [Bool.false_and]
      refine iff_of_true ?_ nofun
      split
      · exact ⟨hcycle.symm, hcoherent⟩
      · exact ⟨hcycle.symm, hcoherent.fillEntry hnames hcycle⟩
    | true =>
      obtain ⟨henabled, hfrozen, -⟩ := CacheRequest.bursts_eq_true hburst
      have hbase : request.physicalCycle cache = request.physical &&& ~~~0xF := by
        rw [CacheRequest.physicalCycle, hburst, if_pos rfl]
      rw [hbase] at hanswers
      rw [henabled, hfrozen, if_neg (by decide), Bool.true_and]
      cases hdone : request.completes cache t with
      | true =>
        -- the line came
        rw [hcompletes] at hdone
        simp only [Bool.and_eq_true] at hdone
        have hvalues : ∀ i, answer.data.get i =
            memory (frames (lineOf request.functionCode request.address)) i := by
          intro i
          rw [hanswers.line hdone.1.1 (base_low _) i, line_and_not fifteen_getLsbD (by decide),
            hnames.line]
        refine iff_of_true ⟨?_, ?_⟩ fun _ => .inl rfl
        · show answer.data.get _ = _
          rw [hvalues, hnames.containing_eq]
        · refine hcoherent.fillLine fun i => ?_
          rw [hvalues, lineOf, lineOf, line_and_not fifteen_getLsbD (by decide)]
      | false =>
        -- only the first of the line came
        show (answer.data.get 0 = memory.containing request.physical ∧
          Coherent frames memory
            (cache.fillEntry request.address request.functionCode (answer.data.get 0))) ↔ _
        rw [hanswers.first]
        refine ⟨fun h _ => .inr h.1, fun h => ?_⟩
        have heq := (h rfl).resolve_left nofun
        exact ⟨heq, hcoherent.fillEntry hnames heq.symm⟩

/-! ## The machine's memory -/

/-- `machine_fill`, for what `board_read` or the RAM reads at an address: one long word, and
never a burst. -/
def machineFill (read : τ → BitVec 32 → Option (BitVec 32) × τ) (t : τ) (lineAddress : BitVec 32)
    (_functionCode : BitVec 8) (out : FillAnswer) : FillAnswer × τ :=
  match read t lineAddress with
  | (none, t) => ({ out with termination := .berr, burstAcknowledge := false }, t)
  | (some value, t) =>
    ({ out with
        termination := .sterm
        burstAcknowledge := false
        data := out.data.set 0 value }, t)

/-- A memory whose long words are numbers, the same in every line. -/
def placeMemory : LongMemory := fun _ place => BitVec.ofNat 32 place

/-- A cache with nothing in it. -/
def Cache.empty : Cache :=
  { line := .replicate cacheLines
      { tag := 0, valid := .replicate cacheEntries false, entry := .replicate cacheEntries 0 } }

/-- A read of the long word at 4, with bursts enabled, from the machine's memory. -/
def readFour : CacheRequest Unit :=
  { address := 4
    physical := 4
    functionCode := 5
    cacheEnabled := true
    burstEnable := true
    frozen := false
    readModifyWrite := false
    fill := machineFill fun _ address => (some (placeMemory.containing address), ())
    waitStates := none
    busAcquire := none
    busClock := none
    rmcPhase := .none }

theorem coherent_empty (frames : Frames) (memory : LongMemory) :
    Coherent frames memory Cache.empty := by
  intro a fc w hw
  obtain ⟨-, hvalid, -⟩ := Cache.lookup_eq_some.1 hw
  simp [Cache.lineAt, Cache.empty] at hvalid

theorem readFour_names : Names (fun line => line.2) 5 4 4 := ⟨rfl, rfl⟩

theorem readFour_answers :
    Answers placeMemory (readFour.physicalCycle Cache.empty) (readFour.answer Cache.empty ()).1 :=
  ⟨by decide, by decide, by decide⟩

/-- The long word at 4 is asked for, a burst of its line is declined, and what is returned and
kept is the long word at 0. -/
theorem cacheRead_declined :
    Coherent (fun line => line.2) placeMemory Cache.empty ∧ Names (fun line => line.2) 5 4 4 ∧
      Answers placeMemory (readFour.physicalCycle Cache.empty)
        (readFour.answer Cache.empty ()).1 ∧
      ((cacheRead Cache.empty {} readFour ()).1.value ≠ placeMemory.containing 4 ∧
        ¬ Coherent (fun line => line.2) placeMemory
          (cacheRead Cache.empty {} readFour ()).2.1) := by
  have hread : (cacheRead Cache.empty {} readFour ()).1.value = 0 ∧
      (cacheRead Cache.empty {} readFour ()).2.1.lookup 4 5 = some 0 := by decide +kernel
  refine ⟨coherent_empty _ _, readFour_names, readFour_answers, ?_, fun h => ?_⟩
  · rw [hread.1]
    decide
  · exact absurd (h 4 5 0 hread.2) (by decide)

theorem cacheRead_readFour :
    ((cacheRead Cache.empty {} readFour ()).1.value = placeMemory.containing readFour.physical ∧
        Coherent (fun line => line.2) placeMemory
          (cacheRead Cache.empty {} readFour ()).2.1) ↔
      (readFour.bursts Cache.empty = true → readFour.completes Cache.empty () = true ∨
        placeMemory.containing (readFour.physical &&& ~~~0xF) =
          placeMemory.containing readFour.physical) :=
  cacheRead_iff (coherent_empty _ _) readFour_names {} readFour_answers

end Apollo.M68030
