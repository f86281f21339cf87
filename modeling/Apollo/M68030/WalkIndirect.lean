import Apollo.M68030.Walk

/-!
# Indirect descriptors over the machine's memory

`machine_table_fetch` and `machine_table_update` of `src/core/machine/ap_machine.c`, over
any memory of long words. The fetch cannot know at which level a descriptor is, and decodes
each as if it were above the page tables; so the search takes four bits of an indirect
descriptor in a page table for status, of which two are address. `walk_indirect_iff` says
exactly when that does no harm.

`descend` is the search down to the page table. `followIndirect` is the search from there
as an indirect descriptor means it: the descriptor is an address in bits 31-2 and a type,
and nothing else.
-/

namespace Apollo.M68030

variable {τ : Type}

/-- `table_read` and `table_write`: a long word of memory, or a bus error. -/
structure TableBus (τ : Type) where
  read : τ → BitVec 32 → Option (BitVec 32) × τ
  write : τ → BitVec 32 → BitVec 32 → Bool × τ

/-- The one or two long words of a descriptor. -/
def TableBus.words (bus : TableBus τ) (t : τ) (physical : BitVec 32) (longFormat : Bool) :
    Option (BitVec 32 × BitVec 32) × τ :=
  match bus.read t physical with
  | (none, t) => (none, t)
  | (some upper, t) =>
    if !longFormat then (some (upper, 0), t)
    else
      match bus.read t (physical + 4) with
      | (none, t) => (none, t)
      | (some lower, t) => (some (upper, lower), t)

/-- What `machine_table_fetch` makes of the words. -/
def machineDecode (longFormat : Bool) (words : BitVec 32 × BitVec 32) : Descriptor :=
  if !longFormat then unpackShort words.1 false else unpackLong words.1 words.2 false

/-- `machine_table_fetch`, without its counters. -/
def machineTableFetch (bus : TableBus τ) (t : τ) (physical : BitVec 32) (longFormat : Bool) :
    Option Descriptor × τ :=
  match bus.words t physical longFormat with
  | (none, t) => (none, t)
  | (some words, t) => (some (machineDecode longFormat words), t)

/-- `machine_table_update`, without its counter. -/
def machineTableUpdate (bus : TableBus τ) (t : τ) (physical : BitVec 32)
    (setUsed setModified : Bool) : Bool × τ :=
  match bus.read t physical with
  | (none, t) => (false, t)
  | (some descriptor, t) =>
    let descriptor := if setUsed then descriptor ||| 0x8 else descriptor
    let descriptor := if setModified then descriptor ||| 0x10 else descriptor
    bus.write t physical descriptor

/-- The machine's callbacks. -/
def machineTables (bus : TableBus τ) : Callbacks τ :=
  { fetch := machineTableFetch bus, update := some (machineTableUpdate bus) }

/-! ## What a search did -/

/-- One call of a callback. -/
inductive TableCycle
  | fetched (physical : BitVec 32) (longFormat : Bool)
  | updated (physical : BitVec 32) (setUsed setModified : Bool)
deriving DecidableEq

/-- The same callbacks, with a record of their calls. -/
def Callbacks.traced (cb : Callbacks τ) : Callbacks (τ × List TableCycle) :=
  { fetch := fun t a long =>
      let (d, t') := cb.fetch t.1 a long
      (d, t', t.2 ++ [.fetched a long])
    update := cb.update.map fun update t a used modified =>
      let (done, t') := update t.1 a used modified
      (done, t', t.2 ++ [.updated a used modified]) }

deriving instance DecidableEq for Table

/-- Where a search has come to: the last index, and the table it is an index into. -/
structure Bottom (τ : Type) where
  level : Nat
  index : BitVec 32
  table : Table
  result : WalkResult
  state : τ
deriving DecidableEq

/-- The search down to the page table. -/
def descend (cb : Callbacks τ) (tc : Tc) (address : BitVec 32) (access : SearchAccess) :
    List (BitVec 32) → Nat → Table → WalkResult → τ → Option (Bottom τ)
  | [], _, _, _, _ => none
  | [index], level, table, result, state => some { level, index, table, result, state }
  | index :: next :: indices, level, table, result, t =>
    match walkLevel cb tc address access false level index table result t with
    | (none, _, _) => none
    | (some table, result, t) =>
      descend cb tc address access (next :: indices) (level + 1) table result t

theorem walkLevel_inPageTable (cb : Callbacks τ) (tc : Tc) (address : BitVec 32)
    (access : SearchAccess) (level : Nat) (index : BitVec 32) (table : Table) (r : WalkResult)
    (t : τ) : (walkLevel cb tc address access true level index table r t).1 = none := by
  unfold walkLevel
  dsimp only
  split
  · rfl
  · split
    · rfl
    · next d t' hfetch =>
      cases d.dt with
      | invalid => rfl
      | page =>
        simp only [descRole]
        split <;> rfl
      | valid4Byte =>
        simp only [descRole]
        split <;> rfl
      | valid8Byte =>
        simp only [descRole]
        split <;> rfl

theorem walkFrom_of_descend {cb : Callbacks τ} {tc : Tc} {address : BitVec 32}
    {access : SearchAccess} {indices : List (BitVec 32)} {level : Nat} {table : Table}
    {r : WalkResult} {t : τ} {b : Bottom τ}
    (h : descend cb tc address access indices level table r t = some b) :
    walkFrom cb tc address access 0 indices level table r t =
      (walkLevel cb tc address access true b.level b.index b.table b.result b.state).2 := by
  induction indices generalizing level table r t with
  | nil => cases h
  | cons index indices ih =>
    simp only [walkFrom, ne_eq, not_true_eq_false, false_and, if_false]
    cases indices with
    | nil =>
      cases h
      have hlast := walkLevel_inPageTable cb tc address access level index table r t
      rw [List.isEmpty_nil]
      rcases hout : walkLevel cb tc address access true level index table r t with ⟨_ | next, r', t'⟩
      · rfl
      · rw [hout] at hlast
        cases hlast
    | cons next indices =>
      rw [List.isEmpty_cons]
      rw [descend] at h
      rcases hout : walkLevel cb tc address access false level index table r t with
        ⟨_ | table', r', t'⟩
      · rw [hout] at h
        cases h
      · rw [hout] at h
        exact ih h

/-! ## An indirect descriptor, and what is made of it -/

/-- A search over the machine's memory has come to an indirect descriptor: its words, and the
memory after they were read. -/
structure ReachesIndirect (bus : TableBus τ) (tc : Tc) (root : Root) (address : BitVec 32)
    (access : SearchAccess) (t : τ) (b : Bottom (τ × List TableCycle))
    (words : BitVec 32 × BitVec 32) (t' : τ) : Prop where
  table : root.pageDescriptor = false
  descends : descend (machineTables bus).traced tc address access (tc.split address).index 0
    root.table {} (t, []) = some b
  within : (b.table.haveLimit && !indexWithinLimit b.table.limit b.table.lowerLimit b.index) = false
  reads : bus.words b.state.1 (b.table.descriptorAddress b.index) b.table.longFormat =
    (some words, t')
  type : dtOf words.1 = .valid4Byte ∨ dtOf words.1 = .valid8Byte

/-- The long word of an indirect descriptor that holds an address in bits 31-2. -/
def addressWord (longFormat : Bool) (words : BitVec 32 × BitVec 32) : BitVec 32 :=
  if longFormat then words.2 else words.1

/-- The search from an indirect descriptor on, as the descriptor means it: the page
descriptor is at bits 31-2, no protection comes from the indirect descriptor itself, and
none of its bits is written. -/
def followIndirect (bus : TableBus τ) (tc : Tc) (address : BitVec 32) (access : SearchAccess)
    (b : Bottom (τ × List TableCycle)) (words : BitVec 32 × BitVec 32) (t' : τ) :
    WalkResult × τ × List TableCycle :=
  let descriptorAddress := b.table.descriptorAddress b.index
  walkIndirect (machineTables bus).traced tc address access
    (addressWord b.table.longFormat words &&& 0xFFFFFFFC) (dtOf words.1 = .valid8Byte)
    { b.result with
      descriptorFetches := b.result.descriptorFetches + 1
      lastDescriptorAddress := descriptorAddress
      levelsWalked := b.level + 1 }
    (t', b.state.2 ++ [.fetched descriptorAddress b.table.longFormat])

/-- The bits of an indirect descriptor that are taken for status do no harm: the two address
bits among them are clear, the U bit is set or not wanted, and the protection bits are clear
or said elsewhere, above or by the page descriptor. -/
def Harmless (bus : TableBus τ) (access : SearchAccess) (b : Bottom (τ × List TableCycle))
    (words : BitVec 32 × BitVec 32) (t' : τ) : Prop :=
  let d := machineDecode b.table.longFormat words
  let word := addressWord b.table.longFormat words
  let pointed := (machineTableFetch bus t' (word &&& 0xFFFFFFFC) (dtOf words.1 = .valid8Byte)).1
  (word.getLsbD 2 = false ∧ word.getLsbD 3 = false) ∧
    (d.used = true ∨ (b.result.search.accumulate d.writeProtect d.supervisor false).permitsAccess
      access.supervisor = false) ∧
    (d.writeProtect = true →
      b.result.search.writeProtected = true ∨ ∃ p, pointed = some p ∧ p.writeProtect = true) ∧
    (d.supervisor = true →
      b.result.search.supervisorOnly = true ∨ ∃ p, pointed = some p ∧ p.supervisor = true)

theorem machineDecode_indirect (long : Bool) {words : BitVec 32 × BitVec 32}
    (htype : dtOf words.1 = .valid4Byte ∨ dtOf words.1 = .valid8Byte) :
    (machineDecode long words).dt = dtOf words.1 ∧
      (machineDecode long words).addressField = addressWord long words &&& 0xFFFFFFF0 ∧
      (machineDecode long words).cacheInhibit = false := by
  cases long with
  | false => rcases htype with h | h <;> simp [machineDecode, unpackShort, addressWord, descRole, h]
  | true => rcases htype with h | h <;> simp [machineDecode, unpackLong, addressWord, descRole, h]

theorem dropped_eq_iff (word : BitVec 32) :
    word &&& 0xFFFFFFF0 = word &&& 0xFFFFFFFC ↔ word.getLsbD 2 = false ∧ word.getLsbD 3 = false := by
  have hbits : ∀ i < 32, (0xFFFFFFF0 : BitVec 32).getLsbD i = decide (4 ≤ i) ∧
      (0xFFFFFFFC : BitVec 32).getLsbD i = decide (2 ≤ i) := by decide
  constructor
  · intro h
    have hbit : ∀ i < 32, (word.getLsbD i && decide (4 ≤ i)) = (word.getLsbD i && decide (2 ≤ i)) := by
      intro i hi
      have := congrArg (fun x => x.getLsbD i) h
      simpa only [BitVec.getLsbD_and, (hbits i hi).1, (hbits i hi).2] using this
    exact ⟨by simpa using (hbit 2 (by decide)).symm, by simpa using (hbit 3 (by decide)).symm⟩
  · rintro ⟨htwo, hthree⟩
    apply BitVec.eq_of_getLsbD_eq
    intro i hi
    rw [BitVec.getLsbD_and, BitVec.getLsbD_and, (hbits i hi).1, (hbits i hi).2]
    by_cases hhigh : 4 ≤ i
    · rw [decide_eq_true hhigh, decide_eq_true (show 2 ≤ i by omega)]
    · have hlow : i < 2 ∨ i = 2 ∨ i = 3 := by omega
      rcases hlow with hlow | rfl | rfl
      · rw [decide_eq_false hhigh, decide_eq_false (show ¬ 2 ≤ i by omega)]
      · rw [htwo]
        rfl
      · rw [hthree]
        rfl

section Indirect

variable {cb : Callbacks τ} {tc : Tc} {address : BitVec 32} {access : SearchAccess}

variable (cb access) in
theorem updateHistory_search (a : BitVec 32) (d : Descriptor) (isPage : Bool) (r : WalkResult)
    (t : τ) : (updateHistory cb access a d isPage r t).2.1.search = r.search := by
  unfold updateHistory
  cases cb.update with
  | none =>
    dsimp only
    split <;> rfl
  | some update =>
    dsimp only
    split
    · split <;> rfl
    · split <;> split <;> rfl

variable (cb access) in
theorem updateHistory_trace (a : BitVec 32) (d : Descriptor) (isPage : Bool) (r : WalkResult)
    (t : τ) (log : List TableCycle) :
    ∃ rest, (updateHistory cb.traced access a d isPage r (t, log)).2.2.2 = log ++ rest := by
  unfold updateHistory Callbacks.traced
  cases cb.update with
  | none => exact ⟨[], (List.append_nil _).symm⟩
  | some update =>
    dsimp only [Option.map_some]
    split
    · exact ⟨[], (List.append_nil _).symm⟩
    · split <;> exact ⟨_, rfl⟩

variable (cb tc address access) in
theorem walkIndirect_trace (pa : BitVec 32) (pl : Bool) (r : WalkResult) (t : τ)
    (log : List TableCycle) :
    ∃ rest, (walkIndirect cb.traced tc address access pa pl r (t, log)).2.2 =
      log ++ .fetched pa pl :: rest := by
  have hfetch : cb.traced.fetch (t, log) pa pl =
      ((cb.fetch t pa pl).1, (cb.fetch t pa pl).2, log ++ [.fetched pa pl]) := rfl
  unfold walkIndirect
  rw [hfetch]
  rcases (cb.fetch t pa pl).1 with _ | p
  · exact ⟨[], rfl⟩
  · dsimp only
    split
    · exact ⟨[], rfl⟩
    · obtain ⟨rest, hrest⟩ := updateHistory_trace cb access pa p true
        { r with
          descriptorFetches := r.descriptorFetches + 1
          usedIndirect := true
          lastDescriptorAddress := pa
          search := r.search.accumulate p.writeProtect p.supervisor p.cacheInhibit }
        (cb.fetch t pa pl).2 (log ++ [.fetched pa pl])
      refine ⟨rest, ?_⟩
      rw [List.append_assoc, List.singleton_append] at hrest
      rw [← hrest]
      split <;> next h => rw [h]

variable (cb tc address access) in
theorem walkIndirect_search (pa : BitVec 32) (pl : Bool) (r : WalkResult) (t : τ) :
    let out := walkIndirect cb tc address access pa pl r t
    (out.1.search.writeProtected = true ↔ r.search.writeProtected = true ∨
      ∃ p, (cb.fetch t pa pl).1 = some p ∧ p.writeProtect = true) ∧
    (out.1.search.supervisorOnly = true ↔ r.search.supervisorOnly = true ∨
      ∃ p, (cb.fetch t pa pl).1 = some p ∧ p.supervisor = true) := by
  unfold walkIndirect
  rcases cb.fetch t pa pl with ⟨_ | p, t'⟩
  · simp [WalkResult.failInvalid, Search.failInvalid]
  · dsimp only
    split
    · simp [WalkResult.failInvalid, Search.failInvalid, Search.accumulate]
    · have hsearch := updateHistory_search cb access pa p true
        { r with
          descriptorFetches := r.descriptorFetches + 1
          usedIndirect := true
          lastDescriptorAddress := pa
          search := r.search.accumulate p.writeProtect p.supervisor p.cacheInhibit } t'
      split
      · next r' t'' hupdate =>
        rw [hupdate] at hsearch
        dsimp only at hsearch
        simp [WalkResult.failInvalid, Search.failInvalid, hsearch, Search.accumulate]
      · next r' t'' hupdate =>
        rw [hupdate] at hsearch
        dsimp only at hsearch
        simp [WalkResult.pageAt, hsearch, Search.accumulate]

theorem walkIndirect_congr {pa : BitVec 32} {pl : Bool} {r r' : WalkResult} {t : τ}
    (hr : { r' with search := r.search } = r)
    (hnone : (cb.fetch t pa pl).1 = none → r'.search = r.search)
    (hsome : ∀ p, (cb.fetch t pa pl).1 = some p →
      r'.search.accumulate p.writeProtect p.supervisor p.cacheInhibit =
        r.search.accumulate p.writeProtect p.supervisor p.cacheInhibit) :
    walkIndirect cb tc address access pa pl r' t = walkIndirect cb tc address access pa pl r t := by
  rw [← hr]
  unfold walkIndirect
  rcases hfetch : cb.fetch t pa pl with ⟨_ | p, t'⟩
  · rw [hfetch] at hnone
    dsimp only
    rw [← hnone rfl]
  · rw [hfetch] at hsome
    dsimp only
    rw [hsome p rfl]

end Indirect

/-- The result with which the machine's search goes on from an indirect descriptor. -/
def indirectResult (b : Bottom (τ × List TableCycle)) (d : Descriptor) : WalkResult :=
  { b.result with
    descriptorFetches := b.result.descriptorFetches + 1
    lastDescriptorAddress := b.table.descriptorAddress b.index
    levelsWalked := b.level + 1
    search := b.result.search.accumulate d.writeProtect d.supervisor d.cacheInhibit }

theorem walkLevel_indirect {cb : Callbacks τ} {tc : Tc} {address : BitVec 32}
    {access : SearchAccess} {level : Nat} {index : BitVec 32} {table : Table} {r : WalkResult}
    {t t' : τ} {d : Descriptor}
    (hwithin : (table.haveLimit && !indexWithinLimit table.limit table.lowerLimit index) = false)
    (hfetch : cb.fetch t (table.descriptorAddress index) table.longFormat = (some d, t'))
    (hrole : descRole d.dt true = .indirect) :
    (walkLevel cb tc address access true level index table r t).2 =
      match updateHistory cb access (table.descriptorAddress index) d false
        { r with
          descriptorFetches := r.descriptorFetches + 1
          lastDescriptorAddress := table.descriptorAddress index
          levelsWalked := level + 1
          search := r.search.accumulate d.writeProtect d.supervisor d.cacheInhibit } t' with
      | (false, result, t) => (result.failInvalid, t)
      | (true, result, t) =>
        walkIndirect cb tc address access d.addressField (d.dt = .valid8Byte) result t := by
  unfold walkLevel
  rw [if_neg (by rw [hwithin]; decide)]
  dsimp only
  rw [hfetch]
  dsimp only
  rw [hrole]
  dsimp only
  rcases updateHistory cb access (table.descriptorAddress index) d false
    { r with
      descriptorFetches := r.descriptorFetches + 1
      lastDescriptorAddress := table.descriptorAddress index
      levelsWalked := level + 1
      search := r.search.accumulate d.writeProtect d.supervisor d.cacheInhibit } t'
    with ⟨_ | _, result, t⟩
  · rfl
  · rfl

/-- What the machine's search does at an indirect descriptor: it may mark the descriptor used
first, and goes on to where the decoding says. -/
theorem walk_at_indirect {bus : TableBus τ} {tc : Tc} {root : Root} {address : BitVec 32}
    {access : SearchAccess} {t : τ} {b : Bottom (τ × List TableCycle)}
    {words : BitVec 32 × BitVec 32} {t' : τ}
    (h : ReachesIndirect bus tc root address access t b words t') :
    walk (machineTables bus).traced tc root address access (t, []) =
      match updateHistory (machineTables bus).traced access
        (b.table.descriptorAddress b.index) (machineDecode b.table.longFormat words) false
        (indirectResult b (machineDecode b.table.longFormat words))
        (t', b.state.2 ++ [.fetched (b.table.descriptorAddress b.index) b.table.longFormat]) with
      | (false, result, t) => (result.failInvalid, t)
      | (true, result, t) =>
        walkIndirect (machineTables bus).traced tc address access
          (machineDecode b.table.longFormat words).addressField
          ((machineDecode b.table.longFormat words).dt = .valid8Byte) result t := by
  obtain ⟨hdt, -, -⟩ := machineDecode_indirect b.table.longFormat h.type
  have hrole : descRole (machineDecode b.table.longFormat words).dt true = .indirect := by
    rw [hdt]
    rcases h.type with htype | htype <;> rw [htype] <;> rfl
  have hread : machineTableFetch bus b.state.1 (b.table.descriptorAddress b.index)
      b.table.longFormat = (some (machineDecode b.table.longFormat words), t') := by
    rw [machineTableFetch, h.reads]
  have hfetch : (machineTables bus).traced.fetch b.state (b.table.descriptorAddress b.index)
      b.table.longFormat = (some (machineDecode b.table.longFormat words), t',
        b.state.2 ++ [.fetched (b.table.descriptorAddress b.index) b.table.longFormat]) := by
    show ((machineTableFetch bus b.state.1 _ b.table.longFormat).1,
      (machineTableFetch bus b.state.1 _ b.table.longFormat).2, _) = _
    rw [hread]
  rw [walk, walkToLevel, h.table, if_neg (by decide), walkFrom_of_descend h.descends,
    walkLevel_indirect h.within hfetch hrole]
  unfold indirectResult
  split <;> next hupdate => rw [hupdate]

theorem updateHistory_marks (bus : TableBus τ) {access : SearchAccess} (a : BitVec 32)
    {d : Descriptor} {r : WalkResult} (t : τ) (log : List TableCycle)
    (h : (!d.used && r.search.permitsAccess access.supervisor) = true) :
    ∃ done r' t', updateHistory (machineTables bus).traced access a d false r (t, log) =
      (done, r', t', log ++ [.updated a true false]) := by
  unfold updateHistory
  dsimp only [machineTables, Callbacks.traced, Option.map_some]
  rw [Bool.false_and, Bool.not_not, h, if_neg (by decide)]
  cases (machineTableUpdate bus t a true false).1 with
  | false => exact ⟨_, _, _, rfl⟩
  | true => exact ⟨_, _, _, rfl⟩

theorem updateHistory_unmarked {bus : TableBus τ} {access : SearchAccess} {a : BitVec 32}
    {d : Descriptor} {r : WalkResult} {t : τ × List TableCycle}
    (h : (!d.used && r.search.permitsAccess access.supervisor) = false) :
    updateHistory (machineTables bus).traced access a d false r t = (true, r, t) := by
  unfold updateHistory
  dsimp only [machineTables, Callbacks.traced, Option.map_some]
  rw [Bool.false_and, Bool.not_not, h]
  rfl

theorem indirectResult_search {b : Bottom (τ × List TableCycle)} {d : Descriptor}
    (h : d.cacheInhibit = false) :
    (indirectResult b d).search = b.result.search.accumulate d.writeProtect d.supervisor false := by
  rw [← h]
  rfl

/-- Adding what a page descriptor says: what the word above it was taken to add does not show
exactly if it is said there or was said before. -/
theorem accumulate_absorbed {s : Search} {wp su ci wp' su' : Bool}
    (hprotect : wp = true → s.writeProtected = true ∨ wp' = true)
    (hsupervisor : su = true → s.supervisorOnly = true ∨ su' = true) :
    (s.accumulate wp su false).accumulate wp' su' ci = s.accumulate wp' su' ci := by
  have hor : ∀ x y z : Bool, (y = true → x = true ∨ z = true) → ((x || y) || z) = (x || z) := by
    decide
  unfold Search.accumulate
  rw [hor _ _ _ hprotect, hor _ _ _ hsupervisor, Bool.or_false]

/-- INDIRECT DESCRIPTORS OVER REAL MEMORY: the machine's search follows an indirect descriptor
as it is meant exactly when the bits that it takes for status do no harm. -/
theorem walk_indirect_iff {bus : TableBus τ} {tc : Tc} {root : Root} {address : BitVec 32}
    {access : SearchAccess} {t : τ} {b : Bottom (τ × List TableCycle)}
    {words : BitVec 32 × BitVec 32} {t' : τ}
    (h : ReachesIndirect bus tc root address access t b words t') :
    walk (machineTables bus).traced tc root address access (t, []) =
        followIndirect bus tc address access b words t' ↔
      Harmless bus access b words t' := by
  rw [walk_at_indirect h]
  unfold Harmless followIndirect
  obtain ⟨hdt, haddress, hinhibit⟩ := machineDecode_indirect b.table.longFormat h.type
  dsimp only
  generalize machineDecode b.table.longFormat words = d at *
  generalize addressWord b.table.longFormat words = word at *
  rw [hdt, haddress, ← indirectResult_search hinhibit]
  obtain ⟨logMeant, hmeant⟩ := walkIndirect_trace (machineTables bus) tc address access
    (word &&& 0xFFFFFFFC) (dtOf words.1 = .valid8Byte)
    { b.result with
      descriptorFetches := b.result.descriptorFetches + 1
      lastDescriptorAddress := b.table.descriptorAddress b.index
      levelsWalked := b.level + 1 } t'
    (b.state.2 ++ [.fetched (b.table.descriptorAddress b.index) b.table.longFormat])
  cases hmark : (!d.used && (indirectResult b d).search.permitsAccess access.supervisor) with
  | true =>
    -- a write into the indirect descriptor, where the next thing is to be a read
    obtain ⟨done, r, u, hupdate⟩ := updateHistory_marks bus
      (b.table.descriptorAddress b.index) t'
      (b.state.2 ++ [.fetched (b.table.descriptorAddress b.index) b.table.longFormat]) hmark
    rw [hupdate]
    rw [Bool.and_eq_true, Bool.not_eq_true'] at hmark
    refine iff_of_false (fun heq => ?_) fun ⟨_, hused, _⟩ => ?_
    · have hlog := congrArg (fun out => out.2.2) heq
      rw [hmeant] at hlog
      cases done with
      | false => simpa using List.append_cancel_left hlog
      | true =>
        obtain ⟨log, hlog'⟩ := walkIndirect_trace (machineTables bus) tc address access
          (word &&& 0xFFFFFFF0) (dtOf words.1 = .valid8Byte) r u
          (b.state.2 ++ [.fetched (b.table.descriptorAddress b.index) b.table.longFormat] ++
            [.updated (b.table.descriptorAddress b.index) true false])
        have hlog := hlog'.symm.trans hlog
        rw [List.append_assoc] at hlog
        simpa using List.append_cancel_left hlog
    · rw [hmark.1, hmark.2] at hused
      rcases hused with hused | hused <;> cases hused
  | false =>
    rw [updateHistory_unmarked hmark]
    have hunmarked : d.used = true ∨
        (indirectResult b d).search.permitsAccess access.supervisor = false := by
      rwa [← Bool.not_eq_true, Bool.and_eq_true, Bool.not_eq_true', not_and_or, Bool.not_eq_false,
        Bool.not_eq_true] at hmark
    dsimp only
    constructor
    · intro heq
      obtain ⟨log, hlog⟩ := walkIndirect_trace (machineTables bus) tc address access
        (word &&& 0xFFFFFFF0) (dtOf words.1 = .valid8Byte) (indirectResult b d) t'
        (b.state.2 ++ [.fetched (b.table.descriptorAddress b.index) b.table.longFormat])
      rw [heq, hmeant] at hlog
      have hbits : word &&& 0xFFFFFFFC = word &&& 0xFFFFFFF0 := by
        have := (List.cons.inj (List.append_cancel_left hlog)).1
        injection this
      obtain ⟨hmeantProtect, hmeantSupervisor⟩ := walkIndirect_search
        (machineTables bus).traced tc address access
        (word &&& 0xFFFFFFFC) (dtOf words.1 = .valid8Byte)
        { b.result with
          descriptorFetches := b.result.descriptorFetches + 1
          lastDescriptorAddress := b.table.descriptorAddress b.index
          levelsWalked := b.level + 1 }
        (t', b.state.2 ++ [.fetched (b.table.descriptorAddress b.index) b.table.longFormat])
      obtain ⟨hprotect, hsupervisor⟩ := walkIndirect_search
        (machineTables bus).traced tc address access
        (word &&& 0xFFFFFFF0) (dtOf words.1 = .valid8Byte) (indirectResult b d)
        (t', b.state.2 ++ [.fetched (b.table.descriptorAddress b.index) b.table.longFormat])
      rw [heq] at hprotect hsupervisor
      rw [indirectResult_search hinhibit] at hprotect hsupervisor
      refine ⟨(dropped_eq_iff word).1 hbits.symm, hunmarked, fun hset => ?_, fun hset => ?_⟩
      · exact hmeantProtect.1 (hprotect.2 (.inl (by simp [Search.accumulate, hset])))
      · exact hmeantSupervisor.1 (hsupervisor.2 (.inl (by simp [Search.accumulate, hset])))
    · rintro ⟨hbits, -, hprotect, hsupervisor⟩
      rw [(dropped_eq_iff word).2 hbits]
      refine walkIndirect_congr rfl (fun hnone => ?_) fun p hsome => ?_
      · have hnone' : (machineTableFetch bus t' (word &&& 0xFFFFFFFC)
            (dtOf words.1 = .valid8Byte)).1 = none := hnone
        rw [hnone'] at hprotect hsupervisor
        have hfalse : (b.result.search.accumulate d.writeProtect d.supervisor false).accumulate
            false false false = b.result.search.accumulate false false false :=
          accumulate_absorbed (fun hset => (hprotect hset).imp id (by simp))
          (fun hset => (hsupervisor hset).imp id (by simp))
        rw [indirectResult_search hinhibit]
        unfold Search.accumulate at hfalse ⊢
        simpa only [Bool.or_false] using hfalse
      · have hsome' : (machineTableFetch bus t' (word &&& 0xFFFFFFFC)
            (dtOf words.1 = .valid8Byte)).1 = some p := hsome
        rw [hsome'] at hprotect hsupervisor
        rw [indirectResult_search hinhibit]
        exact accumulate_absorbed (fun hset => (hprotect hset).imp id (by simp))
          (fun hset => (hsupervisor hset).imp id (by simp))

/-! ## Where it does not, and where it does -/

/-- A memory of a few long words; everything else is zero. -/
def imageBus : TableBus (List (BitVec 32 × BitVec 32)) :=
  { read := fun image a => (some ((image.lookup a).getD 0), image)
    write := fun image a value => (true, (a, value) :: image) }

/-- Pages of 4096 bytes, and two levels of 10 bits. -/
def tenAndTen : Tc :=
  { enable := true, pageSizeBits := 12, initialShift := 0, tableIndex := #v[10, 10, 0, 0] }

/-- A root pointer to a short-format table. -/
def imageRoot : Root := { tableAddress := 0x1000 }

/-- A table at 0x1000, a page table at 0x2000, and an indirect descriptor in it; the page
descriptor that it leads to is at 0x3004. -/
def imageOf (indirect : BitVec 32) : List (BitVec 32 × BitVec 32) :=
  [(0x1000, 0x200A), (0x2000, indirect), (0x3004, 0x5009)]

/-- The search of `imageOf` has come to the indirect descriptor. -/
def imageBottom (image : List (BitVec 32 × BitVec 32)) :
    Bottom (List (BitVec 32 × BitVec 32) × List TableCycle) :=
  { level := 1
    index := 0
    table := (unpackShort 0x200A false).table
    result := { descriptorFetches := 1, levelsWalked := 1, lastDescriptorAddress := 0x1000 }
    state := (image, [.fetched 0x1000 false]) }

theorem imageOf_reaches :
    ReachesIndirect imageBus tenAndTen imageRoot 0 {} (imageOf 0x3006)
      (imageBottom (imageOf 0x3006)) (0x3006, 0) (imageOf 0x3006) where
  table := rfl
  descends := by decide +kernel
  within := rfl
  reads := rfl
  type := by decide

/-- Bit 2 of the address 0x3004 is taken for WP, bit 3 for a U bit that is to be set, and the
search goes to 0x3000, where there is no page. -/
theorem walk_indirect_strays :
    tenAndTen.isConsistent = true ∧
    ReachesIndirect imageBus tenAndTen imageRoot 0 {} (imageOf 0x3006)
      (imageBottom (imageOf 0x3006)) (0x3006, 0) (imageOf 0x3006) ∧
    walk (machineTables imageBus).traced tenAndTen imageRoot 0 {} (imageOf 0x3006, []) ≠
      followIndirect imageBus tenAndTen 0 {} (imageBottom (imageOf 0x3006)) (0x3006, 0)
        (imageOf 0x3006) :=
  ⟨by decide +kernel, imageOf_reaches, by decide +kernel⟩

theorem walk_indirect_image :
    walk (machineTables imageBus).traced tenAndTen imageRoot 0 {} (imageOf 0x3006, []) =
        followIndirect imageBus tenAndTen 0 {} (imageBottom (imageOf 0x3006)) (0x3006, 0)
          (imageOf 0x3006) ↔
      Harmless imageBus {} (imageBottom (imageOf 0x3006)) (0x3006, 0) (imageOf 0x3006) :=
  walk_indirect_iff imageOf_reaches

end Apollo.M68030
