import Apollo.M68040.Search

/-!
# A table search over memory

The callbacks of a search over a memory of long words, some of which cannot be read: a fetch
reads one, an update sets history bits in one. `resolve` is what the tables say of an address,
read off one memory at one time. `search_resolves` is the link: whatever history a search
writes on its way, its result is what the tables say once it is done.
-/

namespace Apollo.M68040

/-- A memory of long words; where there is none, a transfer error. -/
abbrev TableMemory : Type := BitVec 32 → Option (BitVec 32)

/-- The U and M bits of a descriptor. -/
def historyBits (used modified : Bool) : BitVec 32 :=
  (if used then 0x8 else 0) ||| (if modified then 0x10 else 0)

/-- The memory with history bits set in one long word. -/
def TableMemory.mark (m : TableMemory) (address : BitVec 32) (used modified : Bool) : TableMemory :=
  fun a => if a = address then (m a).map (· ||| historyBits used modified) else m a

/-- The callbacks of a search over memory, which writes history or only observes. -/
def memoryTables (updating : Bool) : Callbacks TableMemory :=
  { fetch := fun m address => (m address, m)
    update :=
      if updating then
        some fun m address used modified _ => (true, m.mark address used modified)
      else none }

/-! ## Memory under history -/

/-- The same memory with history bits set here and there. -/
def Later (m m' : TableMemory) : Prop :=
  ∀ a, (m a = none ∧ m' a = none) ∨ ∃ w w', m a = some w ∧ m' a = some w' ∧ Marked w w'

theorem marked_historyBits (w : BitVec 32) (used modified : Bool) :
    Marked w (w ||| historyBits used modified) := by
  have hbits : ∀ used modified : Bool, ∀ i, i ≠ 3 → i ≠ 4 →
      (historyBits used modified).getLsbD i = false := by
    intro used modified i hthree hfour
    by_cases hi : i < 32
    · have h : ∀ used modified : Bool, ∀ i < 32, i ≠ 3 → i ≠ 4 →
          (historyBits used modified).getLsbD i = false := by decide
      exact h used modified i hi hthree hfour
    · exact BitVec.getLsbD_of_ge _ _ (by omega)
  refine ⟨fun i hthree hfour => ?_, fun h => ?_, fun h => ?_⟩
  · rw [BitVec.getLsbD_or, hbits used modified i hthree hfour, Bool.or_false]
  · rw [BitVec.getLsbD_or, h, Bool.true_or]
  · rw [BitVec.getLsbD_or, h, Bool.true_or]

namespace Later

variable {m m' m'' : TableMemory}

theorem refl (m : TableMemory) : Later m m := by
  intro a
  cases h : m a with
  | none => exact .inl ⟨rfl, rfl⟩
  | some w => exact .inr ⟨w, w, rfl, rfl, .refl w⟩

theorem trans (h : Later m m') (h' : Later m' m'') : Later m m'' := by
  intro a
  rcases h a with ⟨hnone, hnone'⟩ | ⟨w, w', hw, hw', hmarked⟩
  · rcases h' a with ⟨-, hnone''⟩ | ⟨w, -, hsome, -⟩
    · exact .inl ⟨hnone, hnone''⟩
    · rw [hnone'] at hsome
      cases hsome
  · rcases h' a with ⟨hnone, -⟩ | ⟨v, v', hv, hv', hmarked'⟩
    · rw [hw'] at hnone
      cases hnone
    · rw [hw'] at hv
      cases hv
      exact .inr ⟨w, v', hw, hv', hmarked.trans hmarked'⟩

theorem mark (m : TableMemory) (address : BitVec 32) (used modified : Bool) :
    Later m (m.mark address used modified) := by
  intro a
  unfold TableMemory.mark
  cases h : m a with
  | none => exact .inl ⟨rfl, by simp⟩
  | some w =>
    right
    by_cases ha : a = address
    · exact ⟨w, _, rfl, by rw [if_pos ha, Option.map_some], marked_historyBits w used modified⟩
    · exact ⟨w, w, rfl, by rw [if_neg ha], .refl w⟩

theorem some_of_some (h : Later m m') {a w : BitVec 32} (hw : m a = some w) :
    ∃ w', m' a = some w' ∧ Marked w w' := by
  rcases h a with ⟨hnone, -⟩ | ⟨v, v', hv, hv', hmarked⟩
  · rw [hw] at hnone
    cases hnone
  · rw [hw] at hv
    cases hv
    exact ⟨v', hv', hmarked⟩

end Later

/-! ## What the tables say -/

/-- What the tables say of an address: nothing that can be read, no page, or the page
descriptor at an address and the write protection gathered on the way. -/
inductive Resolution
  | busError
  | invalid
  | page (address : BitVec 32) (page : PageDescriptor) (writeProtect : Bool)
deriving DecidableEq

/-- The tables end at the page descriptor at an address. -/
def Resolution.At : Resolution → BitVec 32 → Prop
  | .page address _ _, a => address = a
  | _, _ => False

/-- An M bit that was set is that of the page descriptor that the tables end at. -/
def ModifiesAt (resolution : Resolution) (m m' : TableMemory) : Prop :=
  ∀ a w w', m a = some w → m' a = some w' → w'.getLsbD 4 = true →
    w.getLsbD 4 = true ∨ resolution.At a

namespace ModifiesAt

variable {resolution : Resolution} {m m' m'' : TableMemory}

theorem refl (m : TableMemory) : ModifiesAt resolution m m := by
  intro a w w' hw hw' h
  rw [hw] at hw'
  cases hw'
  exact .inl h

theorem trans (h : ModifiesAt resolution m m') (hlater : Later m m')
    (h' : ModifiesAt resolution m' m'') : ModifiesAt resolution m m'' := by
  intro a w w'' hw hw'' hset
  obtain ⟨w', hw', -⟩ := hlater.some_of_some hw
  rcases h' a w' w'' hw' hw'' hset with hset' | hat
  · exact h a w w' hw hw' hset'
  · exact .inr hat

theorem mark (m : TableMemory) {address : BitVec 32} (used : Bool) {modified : Bool}
    (h : modified = true → resolution.At address) :
    ModifiesAt resolution m (m.mark address used modified) := by
  intro a w w' hw hw' hset
  unfold TableMemory.mark at hw'
  by_cases ha : a = address
  · rw [if_pos ha, hw] at hw'
    cases hw'
    cases modified with
    | true => exact .inr (ha ▸ h rfl)
    | false =>
      left
      have hclear : (historyBits used false).getLsbD 4 = false := by
        cases used <;> decide
      rw [BitVec.getLsbD_or, hclear, Bool.or_false] at hset
      exact hset
  · rw [if_neg ha, hw] at hw'
    cases hw'
    exact .inl hset

end ModifiesAt

/-- A table descriptor: the table it names and its write protection. -/
def tableAt (m : TableMemory) (decode : BitVec 32 → TableDescriptor) (address : BitVec 32) :
    Except Resolution (BitVec 32 × Bool) :=
  match m address with
  | none => .error .busError
  | some raw =>
    let table := decode raw
    if table.type = .invalid then .error .invalid else .ok (table.tableAddress, table.writeProtect)

/-- A descriptor in a page table. -/
def pageAt (m : TableMemory) (pageSize : PageSize) (address : BitVec 32) (writeProtect : Bool) :
    Resolution :=
  match m address with
  | none => .busError
  | some raw =>
    let page := pageDescriptor raw pageSize
    match page.type with
    | .indirect =>
      match m page.address with
      | none => .busError
      | some raw =>
        let pointed := pageDescriptor raw pageSize
        if pointed.type ≠ .resident then .invalid
        else .page page.address pointed (writeProtect || pointed.writeProtect)
    | .resident => .page address page (writeProtect || page.writeProtect)
    | .invalid => .invalid

/-- What the tables under a root say of an address. -/
def resolve (m : TableMemory) (rootPointer : BitVec 32) (pageSize : PageSize)
    (logical : BitVec 32) : Resolution :=
  match tableAt m rootDescriptor ((rootPointer &&& 0xFFFFFE00) ||| (rootIndex logical * 4)) with
  | .error r => r
  | .ok (pointerTable, writeProtect) =>
    match tableAt m (pointerDescriptor · pageSize) (pointerTable ||| (pointerIndex logical * 4)) with
    | .error r => r
    | .ok (pageTable, writeProtect') =>
      pageAt m pageSize (pageTable ||| (pageIndex logical pageSize * 4))
        (writeProtect || writeProtect')

/-- A decoding of table descriptors that history does not touch. -/
def Decodes (decode : BitVec 32 → TableDescriptor) : Prop :=
  ∀ w w', Marked w w' → decode w' = { decode w with used := w'.getLsbD 3 }

theorem Later.tableAt {m m' : TableMemory} (h : Later m m') {decode : BitVec 32 → TableDescriptor}
    (hdecode : Decodes decode) (address : BitVec 32) :
    tableAt m' decode address = tableAt m decode address := by
  unfold M68040.tableAt
  rcases h address with ⟨hnone, hnone'⟩ | ⟨w, w', hw, hw', hmarked⟩
  · rw [hnone, hnone']
  · rw [hw, hw']
    dsimp only
    rw [hdecode w w' hmarked]

/-- What a search says of a page whose descriptor is now `page`. -/
structure Says (config : SearchConfig) (logical : BitVec 32) (updating : Bool)
    (page : PageDescriptor) (gathered : Bool) (r : SearchResult) : Prop where
  status : r.status = .resident
  physicalAddress : r.physicalAddress = page.address ||| pageOffset logical config.pageSize
  writeProtect : r.writeProtect = gathered
  supervisor : r.supervisor = page.supervisor
  cacheMode : r.cacheMode = page.cacheMode
  modified : r.modified = page.modified
  global : r.global = page.global
  userAttribute0 : r.userAttribute0 = page.userAttribute0
  userAttribute1 : r.userAttribute1 = page.userAttribute1
  used : updating = true → page.used = true
  written : updating = true → config.write = true → gathered = false →
    (page.supervisor && !config.supervisor) = false → page.modified = true

/-- A search ends with what the tables say. -/
def Resolution.Gives (config : SearchConfig) (logical : BitVec 32) (updating : Bool) :
    Resolution → SearchResult → Prop
  | .busError, r => r.status = .busError
  | .invalid, r => r.status = .invalid
  | .page _ leaf gathered, r => Says config logical updating leaf gathered r

section Resolves

variable {updating : Bool} {config : SearchConfig} {logical : BitVec 32}

theorem mark_nothing (m : TableMemory) (address : BitVec 32) : m.mark address false false = m := by
  funext a
  unfold TableMemory.mark
  split
  · cases m a with
    | none => rfl
    | some w => simp [historyBits]
  · rfl

variable (updating) in
theorem applyHistory_memory (out : SearchResult) (address : BitVec 32) (used modified : Bool)
    (m : TableMemory) :
    ∃ out', applyHistory (memoryTables updating) out address used modified m =
        (true, out', m.mark address (updating && used) (updating && modified)) ∧
      out'.writeProtect = out.writeProtect ∧ out'.supervisor = out.supervisor := by
  cases updating with
  | false => exact ⟨out, by rw [Bool.false_and, Bool.false_and, mark_nothing]; rfl, rfl, rfl⟩
  | true =>
    cases used <;> cases modified
    · exact ⟨out, by rw [Bool.and_false, mark_nothing]; rfl, rfl, rfl⟩
    · exact ⟨_, rfl, rfl, rfl⟩
    · exact ⟨_, rfl, rfl, rfl⟩
    · exact ⟨_, rfl, rfl, rfl⟩

variable (updating config logical) in
theorem searchTable_error {decode : BitVec 32 → TableDescriptor} {address : BitVec 32}
    (out : SearchResult) {m : TableMemory} {r : Resolution}
    (h : tableAt m decode address = .error r) :
    ∃ out', searchTable (memoryTables updating) decode address out m = (none, out', m) ∧
      r.Gives config logical updating out' := by
  unfold tableAt at h
  unfold searchTable
  cases hraw : m address with
  | none =>
    rw [hraw] at h
    cases h
    exact ⟨{ out with status := .busError }, by simp only [memoryTables, hraw], rfl⟩
  | some raw =>
    rw [hraw] at h
    dsimp only at h
    split at h
    · next hinvalid =>
      cases h
      refine ⟨{ out with fetches := out.fetches + 1, status := .invalid }, ?_, rfl⟩
      simp only [memoryTables, hraw, if_pos hinvalid]
    · cases h

variable (updating) in
theorem searchTable_ok {decode : BitVec 32 → TableDescriptor} {address tableAddress : BitVec 32}
    {writeProtect : Bool} (out : SearchResult) {m : TableMemory}
    (h : tableAt m decode address = .ok (tableAddress, writeProtect)) :
    ∃ table out' m', searchTable (memoryTables updating) decode address out m =
        (some table, out', m') ∧
      table.tableAddress = tableAddress ∧ Later m m' ∧ (updating = false → m' = m) ∧
        out'.supervisor = out.supervisor ∧
        out'.writeProtect = (out.writeProtect || writeProtect) ∧
        ∀ resolution, ModifiesAt resolution m m' := by
  unfold tableAt at h
  unfold searchTable
  cases hraw : m address with
  | none =>
    rw [hraw] at h
    cases h
  | some raw =>
    rw [hraw] at h
    dsimp only at h
    split at h
    · cases h
    · next hvalid =>
      cases h
      obtain ⟨out', hhistory, hprotect, hsupervisor⟩ := applyHistory_memory updating
        { out with fetches := out.fetches + 1 } address (!(decode raw).used) false m
      refine ⟨decode raw, { out' with
        writeProtect := out'.writeProtect || (decode raw).writeProtect },
        m.mark address (updating && !(decode raw).used) (updating && false), ?_, rfl,
        .mark _ _ _ _, fun hobserving => ?_, hsupervisor, ?_, fun _ => .mark m _ ?_⟩
      · have hfetch : (memoryTables updating).fetch m address = (some raw, m) := by
          rw [← hraw]
          rfl
        rw [hfetch]
        dsimp only
        rw [if_neg hvalid, hhistory]
      · rw [hobserving]
        exact mark_nothing m address
      · rw [← hprotect]
      · rw [Bool.and_false]
        nofun

theorem getLsbD_or_historyBits (raw : BitVec 32) (used modified : Bool) :
    (raw ||| historyBits used modified).getLsbD 3 = (raw.getLsbD 3 || used) ∧
      (raw ||| historyBits used modified).getLsbD 4 = (raw.getLsbD 4 || modified) := by
  rw [BitVec.getLsbD_or, BitVec.getLsbD_or]
  have hbits : (historyBits used modified).getLsbD 3 = used ∧
      (historyBits used modified).getLsbD 4 = modified := by
    cases used <;> cases modified <;> decide
  rw [hbits.1, hbits.2]
  exact ⟨rfl, rfl⟩

theorem mark_self {m : TableMemory} {address raw : BitVec 32} (hraw : m address = some raw)
    (used modified : Bool) :
    m.mark address used modified address = some (raw ||| historyBits used modified) := by
  rw [TableMemory.mark, if_pos rfl, hraw]
  rfl

theorem mark_other {m : TableMemory} {address a : BitVec 32} (h : a ≠ address)
    (used modified : Bool) : m.mark address used modified a = m a := by
  rw [TableMemory.mark, if_neg h]

variable (updating config logical) in
theorem searchEnd_memory {raw : BitVec 32} (address : BitVec 32) (out : SearchResult)
    (m : TableMemory)
    (htype : pdtOf raw = .resident) (hout : out.supervisor = false) :
    ∃ r used modified,
      searchEnd (memoryTables updating) config logical (pageDescriptor raw config.pageSize) address
        out m = (r, m.mark address used modified) ∧
      (updating = false → m.mark address used modified = m) ∧
      Says config logical updating
        (pageDescriptor (raw ||| historyBits used modified) config.pageSize)
        (out.writeProtect || (pageDescriptor raw config.pageSize).writeProtect) r := by
  have hupdate : (memoryTables updating).update.isSome = updating := by
    cases updating <;> rfl
  unfold searchEnd
  dsimp only
  rw [hupdate, hout, Bool.false_or]
  obtain ⟨used, hused⟩ : ∃ used, used =
      (updating && !(pageDescriptor raw config.pageSize).used) := ⟨_, rfl⟩
  obtain ⟨modified, hmodified⟩ : ∃ modified, modified =
      (updating && config.write && !(pageDescriptor raw config.pageSize).modified &&
        !(out.writeProtect || (pageDescriptor raw config.pageSize).writeProtect) &&
        !((pageDescriptor raw config.pageSize).supervisor && !config.supervisor)) := ⟨_, rfl⟩
  rw [← hused, ← hmodified]
  obtain ⟨out', hhistory, hprotect, hsupervisor⟩ := applyHistory_memory updating out address used modified m
  rw [hout] at hsupervisor
  have hmarked : pageDescriptor (raw ||| historyBits (updating && used) (updating && modified))
      config.pageSize = _ :=
    (marked_historyBits raw _ _).pageDescriptor (by rw [htype]; decide)
  obtain ⟨hthree, hfour⟩ := getLsbD_or_historyBits raw (updating && used) (updating && modified)
  rw [hhistory]
  refine ⟨_, updating && used, updating && modified, rfl, fun hobserving => ?_, ?_⟩
  · rw [hobserving]
    exact mark_nothing m address
  rw [hmarked, hthree, hfour]
  have husedBit : (pageDescriptor raw config.pageSize).used = raw.getLsbD 3 := rfl
  have hmodifiedBit : (pageDescriptor raw config.pageSize).modified = raw.getLsbD 4 := rfl
  refine ⟨rfl, rfl, rfl, ?_, rfl, ?_, rfl, rfl, rfl, ?_, ?_⟩
  · show (out'.supervisor || _) = _
    rw [hsupervisor, Bool.false_or]
  · show (_ || modified) = (raw.getLsbD 4 || (updating && modified))
    have : modified = (updating && modified) := by
      rw [hmodified]
      cases updating <;> simp
    rw [← this]
    rfl
  · intro hupdating
    show (raw.getLsbD 3 || (updating && used)) = true
    rw [hused, hupdating, husedBit]
    cases raw.getLsbD 3 <;> rfl
  · intro hupdating hwrite hallowed hviolation
    show (raw.getLsbD 4 || (updating && modified)) = true
    dsimp only at hviolation
    rw [hmodified, hupdating, hwrite, hallowed, hviolation, hmodifiedBit]
    cases raw.getLsbD 4 <;> rfl

variable (updating config logical) in
/-- What the third level of the tables says is what the search says, of the memory that the
search leaves. -/
theorem searchPage_memory (address : BitVec 32) (out : SearchResult) (m : TableMemory)
    (hout : out.supervisor = false) :
    ∃ r m', searchPage (memoryTables updating) config logical address out m = (r, m') ∧
      Later m m' ∧ (updating = false → m' = m) ∧
      (pageAt m' config.pageSize address out.writeProtect).Gives config logical updating r ∧
      ModifiesAt (pageAt m' config.pageSize address out.writeProtect) m m' := by
  have hfetch : ∀ a, (memoryTables updating).fetch m a = (m a, m) := fun _ => rfl
  unfold searchPage
  rw [hfetch]
  cases hraw : m address with
  | none =>
    refine ⟨_, m, rfl, .refl m, fun _ => rfl, ?_, .refl m⟩
    rw [pageAt, hraw]
    rfl
  | some raw =>
    have hleaf : ∀ raw used modified, pdtOf raw = .resident →
        pdtOf (raw ||| historyBits used modified) = .resident ∧
          (pageDescriptor (raw ||| historyBits used modified) config.pageSize).writeProtect =
            (pageDescriptor raw config.pageSize).writeProtect := by
      intro raw used modified htype
      have hmarked := marked_historyBits raw used modified
      refine ⟨hmarked.pdtOf.trans htype, ?_⟩
      rw [hmarked.pageDescriptor (by rw [htype]; decide)]
    have hkind : (pageDescriptor raw config.pageSize).type = pdtOf raw := rfl
    dsimp only
    cases htype : pdtOf raw with
    | invalid =>
      rw [htype] at hkind
      rw [hkind]
      refine ⟨_, m, rfl, .refl m, fun _ => rfl, ?_, .refl m⟩
      unfold pageAt
      rw [hraw]
      dsimp only
      rw [hkind]
      rfl
    | resident =>
      rw [htype] at hkind
      rw [hkind]
      dsimp only
      obtain ⟨r, used, modified, hend, hobserves, htells⟩ := searchEnd_memory updating config logical
        address { out with fetches := out.fetches + 1 } m htype hout
      refine ⟨r, _, hend, .mark _ _ _ _, hobserves, ?_⟩
      obtain ⟨htype', hprotect⟩ := hleaf raw used modified htype
      have hkind' : (pageDescriptor (raw ||| historyBits used modified) config.pageSize).type =
          .resident := htype'
      unfold pageAt
      rw [mark_self hraw]
      dsimp only
      rw [hkind', hprotect]
      exact ⟨htells, .mark m used fun _ => rfl⟩
    | indirect =>
      rw [htype] at hkind
      rw [hkind]
      dsimp only
      rw [hfetch]
      cases hpointed : m (pageDescriptor raw config.pageSize).address with
      | none =>
        refine ⟨_, m, rfl, .refl m, fun _ => rfl, ?_, .refl m⟩
        unfold pageAt
        rw [hraw]
        dsimp only
        rw [hkind]
        dsimp only
        rw [hpointed]
        rfl
      | some pointed =>
        dsimp only
        by_cases hresident : pdtOf pointed = .resident
        · have hhere : ¬ (pageDescriptor pointed config.pageSize).type ≠ .resident :=
            not_not.2 hresident
          rw [if_neg hhere]
          obtain ⟨r, used, modified, hend, hobserves, htells⟩ := searchEnd_memory updating config
            logical (pageDescriptor raw config.pageSize).address
            { out with fetches := out.fetches + 1 + 1, indirect := true } m hresident hout
          refine ⟨r, _, hend, .mark _ _ _ _, hobserves, ?_⟩
          obtain ⟨htype', hprotect⟩ := hleaf pointed used modified hresident
          have hhere' : ¬ (pageDescriptor (pointed ||| historyBits used modified)
              config.pageSize).type ≠ .resident := not_not.2 htype'
          -- what is marked is the page descriptor, which is not the indirect one
          have hapart : address ≠ (pageDescriptor raw config.pageSize).address := by
            intro heq
            rw [← heq, hraw] at hpointed
            cases hpointed
            rw [htype] at hresident
            cases hresident
          unfold pageAt
          rw [mark_other hapart, hraw]
          dsimp only
          rw [hkind]
          dsimp only
          rw [mark_self hpointed]
          dsimp only
          rw [if_neg hhere', hprotect]
          exact ⟨htells, .mark m used fun _ => rfl⟩
        · have hhere : (pageDescriptor pointed config.pageSize).type ≠ .resident := hresident
          rw [if_pos hhere]
          refine ⟨_, m, rfl, .refl m, fun _ => rfl, ?_, .refl m⟩
          unfold pageAt
          rw [hraw]
          dsimp only
          rw [hkind]
          dsimp only
          rw [hpointed]
          dsimp only
          rw [if_pos hhere]
          rfl

/-- A SEARCH SAYS WHAT THE TABLES SAY, as they are when it is done; and leaves them alone if it
only observes. -/
theorem search_resolves (updating : Bool) (config : SearchConfig) (logical : BitVec 32)
    (m : TableMemory) :
    ∃ r m', search (memoryTables updating) config logical m = (r, m') ∧ Later m m' ∧
      (updating = false → m' = m) ∧
      (resolve m' config.rootPointer config.pageSize logical).Gives config logical updating r ∧
      ModifiesAt (resolve m' config.rootPointer config.pageSize logical) m m' := by
  have hrootDecodes : Decodes rootDescriptor := fun _ _ h => h.rootDescriptor
  have hpointerDecodes : Decodes (pointerDescriptor · config.pageSize) :=
    fun _ _ h => h.pointerDescriptor config.pageSize
  unfold search
  dsimp only
  cases hroot : tableAt m rootDescriptor
      ((config.rootPointer &&& 0xFFFFFE00) ||| (rootIndex logical * 4)) with
  | error r =>
    obtain ⟨out, hsearch, hgives⟩ := searchTable_error updating config logical {} hroot
    rw [hsearch]
    refine ⟨out, m, rfl, .refl m, fun _ => rfl, ?_, .refl m⟩
    unfold resolve
    rw [hroot]
    exact hgives
  | ok next =>
    obtain ⟨pointerTable, writeProtect⟩ := next
    obtain ⟨table, out, m₁, hsearch, htable, hlater, hobserves, hsupervisor, hprotect,
      hmodifies⟩ :=
      searchTable_ok updating {} hroot
    rw [hsearch]
    dsimp only
    rw [htable]
    cases hpointer : tableAt m₁ (pointerDescriptor · config.pageSize)
        (pointerTable ||| (pointerIndex logical * 4)) with
    | error r =>
      obtain ⟨out', hsearch', hgives⟩ := searchTable_error updating config logical out
        hpointer
      rw [hsearch']
      refine ⟨out', m₁, rfl, hlater, hobserves, ?_, hmodifies _⟩
      unfold resolve
      rw [hlater.tableAt hrootDecodes, hroot]
      dsimp only
      rw [hpointer]
      exact hgives
    | ok next =>
      obtain ⟨pageTable, writeProtect'⟩ := next
      obtain ⟨table', out', m₂, hsearch', htable', hlater', hobserves', hsupervisor', hprotect',
        hmodifies'⟩ :=
        searchTable_ok updating out hpointer
      rw [hsearch']
      dsimp only
      rw [htable']
      obtain ⟨r, m', hpage, hlater'', hobserves'', hgives, hmodifies''⟩ :=
        searchPage_memory updating config
        logical (pageTable ||| (pageIndex logical config.pageSize * 4)) out' m₂
        (hsupervisor'.trans hsupervisor)
      refine ⟨r, m', hpage, hlater.trans (hlater'.trans hlater''), fun hobserving => ?_, ?_⟩
      · rw [hobserves'' hobserving, hobserves' hobserving, hobserves hobserving]
      unfold resolve
      rw [(hlater.trans (hlater'.trans hlater'')).tableAt hrootDecodes, hroot]
      dsimp only
      rw [(hlater'.trans hlater'').tableAt hpointerDecodes, hpointer]
      dsimp only
      rw [hprotect', hprotect, Bool.false_or] at hgives hmodifies''
      exact ⟨hgives, (hmodifies _).trans hlater ((hmodifies' _).trans hlater' hmodifies'')⟩

theorem resolve_page {m : TableMemory} {rootPointer : BitVec 32} {pageSize : PageSize}
    {a : BitVec 32} {page : PageDescriptor} {gathered : Bool}
    (h : resolve m rootPointer pageSize logical = .page a page gathered) :
    ∃ raw, m a = some raw ∧ pdtOf raw = .resident ∧ page = pageDescriptor raw pageSize := by
  have herror : ∀ {decode address r}, tableAt m decode address = .error r →
      r ≠ .page a page gathered := by
    intro decode address r hr hpage
    unfold tableAt at hr
    split at hr
    · cases hr
      cases hpage
    · dsimp only at hr
      split at hr
      · cases hr
        cases hpage
      · cases hr
  unfold resolve at h
  split at h
  · next hr => exact absurd h (herror hr)
  · split at h
    · next hr => exact absurd h (herror hr)
    · unfold pageAt at h
      split at h
      · cases h
      · next raw hraw =>
        dsimp only at h
        split at h
        · split at h
          · cases h
          · next pointed hpointed =>
            split at h
            · cases h
            · next htype =>
              cases h
              exact ⟨pointed, hpointed, not_not.1 htype, rfl⟩
        · next htype =>
          cases h
          exact ⟨raw, hraw, htype, rfl⟩
        · cases h

end Resolves

end Apollo.M68040
