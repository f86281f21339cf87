import Apollo.M68040.Registers

/-!
# The table search of the MC68040

`src/core/cpu/m68040/ap_m68040_search.c`, over callbacks with a state `τ` behind them: a
fetch of a long word, which can fail, and an update of the history bits, which can be `NULL`.
The first two of the three levels are alike, and are `searchTable`.
-/

namespace Apollo.M68040

/-- `ap_m68040_root_index`. -/
def rootIndex (address : BitVec 32) : BitVec 32 := (address >>> 25) &&& 0x7F

/-- `ap_m68040_pointer_index`. -/
def pointerIndex (address : BitVec 32) : BitVec 32 := (address >>> 18) &&& 0x7F

/-- `ap_m68040_page_index`. -/
def pageIndex (address : BitVec 32) : PageSize → BitVec 32
  | .page8K => (address >>> 13) &&& 0x1F
  | .page4K => (address >>> 12) &&& 0x3F

/-- `ap_m68040_page_offset`. -/
def pageOffset (address : BitVec 32) (pageSize : PageSize) : BitVec 32 :=
  address &&& (pageSize.bytes - 1)

/-- `ap_m68040_search_status_t`. -/
inductive SearchStatus
  | resident
  | invalid
  | busError
deriving DecidableEq

/-- `ap_m68040_search_result_t`. -/
structure SearchResult where
  status : SearchStatus := .resident
  physicalAddress : BitVec 32 := 0
  writeProtect : Bool := false
  supervisor : Bool := false
  cacheMode : CacheMode := .cachableWriteThrough
  modified : Bool := false
  global : Bool := false
  userAttribute0 : Bool := false
  userAttribute1 : Bool := false
  indirect : Bool := false
  fetches : Nat := 0
  updates : Nat := 0
  lockedUpdates : Nat := 0
deriving DecidableEq

/-- `ap_m68040_fetch_fn` and `ap_m68040_update_fn`; an update is given the address, whether
U and whether M is to be set, and whether the cycle is locked. -/
structure Callbacks (τ : Type) where
  fetch : τ → BitVec 32 → Option (BitVec 32) × τ
  update : Option (τ → BitVec 32 → Bool → Bool → Bool → Bool × τ)

/-- `ap_m68040_search_config_t`, without its callbacks. -/
structure SearchConfig where
  rootPointer : BitVec 32
  pageSize : PageSize
  write : Bool
  supervisor : Bool

section Search

variable {τ : Type}

/-- `apply_history`. -/
def applyHistory (cb : Callbacks τ) (out : SearchResult) (address : BitVec 32)
    (setUsed setModified : Bool) (t : τ) : Bool × SearchResult × τ :=
  match cb.update with
  | none => (true, out, t)
  | some update =>
    if !setUsed && !setModified then (true, out, t)
    else
      let locked := setUsed && !setModified
      let out :=
        { out with
          updates := out.updates + 1
          lockedUpdates := if locked then out.lockedUpdates + 1 else out.lockedUpdates }
      let (done, t) := update t address setUsed setModified locked
      (done, out, t)

/-- One of the first two levels: the table descriptor, unless the search ends with it. -/
def searchTable (cb : Callbacks τ) (decode : BitVec 32 → TableDescriptor) (address : BitVec 32)
    (out : SearchResult) (t : τ) : Option TableDescriptor × SearchResult × τ :=
  match cb.fetch t address with
  | (none, t) => (none, { out with status := .busError }, t)
  | (some raw, t) =>
    let out := { out with fetches := out.fetches + 1 }
    let table := decode raw
    if table.type = .invalid then (none, { out with status := .invalid }, t)
    else
      match applyHistory cb out address (!table.used) false t with
      | (false, out, t) => (none, { out with status := .busError }, t)
      | (true, out, t) =>
        (some table, { out with writeProtect := out.writeProtect || table.writeProtect }, t)

/-- The end of a search, at the page descriptor. -/
def searchEnd (cb : Callbacks τ) (config : SearchConfig) (logical : BitVec 32)
    (page : PageDescriptor) (pageAddress : BitVec 32) (out : SearchResult) (t : τ) :
    SearchResult × τ :=
  let writeProtect := out.writeProtect || page.writeProtect
  let supervisorViolation := (out.supervisor || page.supervisor) && !config.supervisor
  let updating := cb.update.isSome
  let setUsed := updating && !page.used
  let setModified :=
    updating && config.write && !page.modified && !writeProtect && !supervisorViolation
  match applyHistory cb out pageAddress setUsed setModified t with
  | (false, out, t) => ({ out with status := .busError }, t)
  | (true, out, t) =>
    ({ out with
        status := .resident
        physicalAddress := page.address ||| pageOffset logical config.pageSize
        writeProtect
        supervisor := out.supervisor || page.supervisor
        cacheMode := page.cacheMode
        modified := page.modified || setModified
        global := page.global
        userAttribute0 := page.userAttribute0
        userAttribute1 := page.userAttribute1 }, t)

/-- The third level, and an indirection from it. -/
def searchPage (cb : Callbacks τ) (config : SearchConfig) (logical address : BitVec 32)
    (out : SearchResult) (t : τ) : SearchResult × τ :=
  match cb.fetch t address with
  | (none, t) => ({ out with status := .busError }, t)
  | (some raw, t) =>
    let out := { out with fetches := out.fetches + 1 }
    let page := pageDescriptor raw config.pageSize
    match page.type with
    | .indirect =>
      match cb.fetch t page.address with
      | (none, t) => ({ out with status := .busError }, t)
      | (some raw, t) =>
        let out := { out with fetches := out.fetches + 1, indirect := true }
        let pointed := pageDescriptor raw config.pageSize
        if pointed.type ≠ .resident then ({ out with status := .invalid }, t)
        else searchEnd cb config logical pointed page.address out t
    | .resident => searchEnd cb config logical page address out t
    | .invalid => ({ out with status := .invalid }, t)

/-- `ap_m68040_search`. -/
def search (cb : Callbacks τ) (config : SearchConfig) (logical : BitVec 32) (t : τ) :
    SearchResult × τ :=
  let rootAddress := (config.rootPointer &&& 0xFFFFFE00) ||| (rootIndex logical * 4)
  match searchTable cb rootDescriptor rootAddress {} t with
  | (none, out, t) => (out, t)
  | (some root, out, t) =>
    let pointerAddress := root.tableAddress ||| (pointerIndex logical * 4)
    match searchTable cb (pointerDescriptor · config.pageSize) pointerAddress out t with
    | (none, out, t) => (out, t)
    | (some pointer, out, t) =>
      searchPage cb config logical
        (pointer.tableAddress ||| (pageIndex logical config.pageSize * 4)) out t

/-! ## How a search can end -/

/-- No fetch and no update fails. -/
structure NeverFails (cb : Callbacks τ) : Prop where
  fetch : ∀ t address, (cb.fetch t address).1.isSome = true
  update : ∀ update, cb.update = some update → ∀ t address used modified locked,
    (update t address used modified locked).1 = true

/-- What a search that ends at a resident page descriptor says of the page. -/
structure AtPage (config : SearchConfig) (logical : BitVec 32) (updating : Bool)
    (page : PageDescriptor) (r : SearchResult) : Prop where
  status : r.status = .resident
  physicalAddress : r.physicalAddress = page.address ||| pageOffset logical config.pageSize
  supervisor : r.supervisor = page.supervisor
  cacheMode : r.cacheMode = page.cacheMode
  modified : r.modified = (page.modified || (updating && config.write && !page.modified &&
    !r.writeProtect && !(page.supervisor && !config.supervisor)))
  global : r.global = page.global
  userAttribute0 : r.userAttribute0 = page.userAttribute0
  userAttribute1 : r.userAttribute1 = page.userAttribute1

variable {cb : Callbacks τ} {config : SearchConfig} {logical : BitVec 32}

theorem applyHistory_cases (cb : Callbacks τ) (out : SearchResult) (address : BitVec 32) (setUsed setModified : Bool)
    (t : τ) :
    let r := applyHistory cb out address setUsed setModified t
    r.2.1.supervisor = out.supervisor ∧ (r.1 = false → ¬ NeverFails cb) := by
  unfold applyHistory
  split
  · exact ⟨rfl, nofun⟩
  · next update hupdate =>
    split
    · exact ⟨rfl, nofun⟩
    · refine ⟨rfl, fun hfailed hcb => ?_⟩
      have hdone := hcb.update update hupdate t address setUsed setModified
        (setUsed && !setModified)
      exact Bool.false_ne_true (hfailed.symm.trans hdone)

theorem fetch_failed {t t' : τ} {address : BitVec 32} (h : cb.fetch t address = (none, t')) :
    ¬ NeverFails cb := by
  intro hcb
  have := hcb.fetch t address
  rw [h] at this
  cases this

theorem searchEnd_cases {page : PageDescriptor} {pageAddress : BitVec 32} {out : SearchResult}
    {t : τ} (hout : out.supervisor = false) :
    let r := (searchEnd cb config logical page pageAddress out t).1
    (r.status = .busError ∧ ¬ NeverFails cb) ∨ AtPage config logical cb.update.isSome page r := by
  unfold searchEnd
  dsimp only
  rw [hout, Bool.false_or]
  obtain ⟨hsupervisor, hfailed⟩ := applyHistory_cases cb out pageAddress
    (cb.update.isSome && !page.used) (cb.update.isSome && config.write && !page.modified &&
      !(out.writeProtect || page.writeProtect) && !(page.supervisor && !config.supervisor)) t
  split
  · next out' t' hhistory =>
    rw [hhistory] at hfailed
    exact .inl ⟨rfl, hfailed rfl⟩
  · next out' t' hhistory =>
    rw [hhistory, hout] at hsupervisor
    dsimp only at hsupervisor
    refine .inr ⟨rfl, rfl, ?_, rfl, rfl, rfl, rfl, rfl⟩
    dsimp only
    rw [hsupervisor, Bool.false_or]

theorem searchTable_cases (cb : Callbacks τ) (decode : BitVec 32 → TableDescriptor)
    (address : BitVec 32) (out : SearchResult) (t : τ) :
    (∃ out' t', searchTable cb decode address out t = (none, out', t') ∧
      ((out'.status = .busError ∧ ¬ NeverFails cb) ∨ out'.status = .invalid)) ∨
    ∃ table out' t', searchTable cb decode address out t = (some table, out', t') ∧
      out'.supervisor = out.supervisor := by
  unfold searchTable
  dsimp only
  split
  · next t' hfetch => exact .inl ⟨_, _, rfl, .inl ⟨rfl, fetch_failed hfetch⟩⟩
  · next raw t' hfetch =>
    split
    · exact .inl ⟨_, _, rfl, .inr rfl⟩
    · obtain ⟨hsupervisor, hfailed⟩ := applyHistory_cases cb
        { out with fetches := out.fetches + 1 } address (!(decode raw).used) false t'
      split
      · next out' t'' hhistory =>
        rw [hhistory] at hfailed
        exact .inl ⟨_, _, rfl, .inl ⟨rfl, hfailed rfl⟩⟩
      · next out' t'' hhistory =>
        rw [hhistory] at hsupervisor
        exact .inr ⟨_, _, _, rfl, hsupervisor⟩

theorem searchPage_cases {address : BitVec 32} {out : SearchResult} {t : τ}
    (hout : out.supervisor = false) :
    let r := (searchPage cb config logical address out t).1
    (r.status = .busError ∧ ¬ NeverFails cb) ∨ r.status = .invalid ∨
      ∃ raw, pdtOf raw = .resident ∧
        AtPage config logical cb.update.isSome (pageDescriptor raw config.pageSize) r := by
  unfold searchPage
  dsimp only
  split
  · next t' hfetch => exact .inl ⟨rfl, fetch_failed hfetch⟩
  · next raw t' hfetch =>
    split
    · split
      · next t'' hfetch' => exact .inl ⟨rfl, fetch_failed hfetch'⟩
      · next pointed t'' hfetch' =>
        split
        · exact .inr (.inl rfl)
        · next htype =>
          refine Or.imp id (fun hpage => .inr ⟨pointed, not_not.1 htype, hpage⟩)
            (searchEnd_cases ?_)
          exact hout
    · next htype =>
      refine Or.imp id (fun hpage => .inr ⟨raw, htype, hpage⟩) (searchEnd_cases ?_)
      exact hout
    · exact .inr (.inl rfl)

/-- A search ends with a transfer error, which is a callback's; or without a page; or at a
resident page descriptor. -/
theorem search_cases (cb : Callbacks τ) (config : SearchConfig) (logical : BitVec 32) (t : τ) :
    let r := (search cb config logical t).1
    (r.status = .busError ∧ ¬ NeverFails cb) ∨ r.status = .invalid ∨
      ∃ raw, pdtOf raw = .resident ∧
        AtPage config logical cb.update.isSome (pageDescriptor raw config.pageSize) r := by
  unfold search
  dsimp only
  rcases searchTable_cases cb rootDescriptor
    ((config.rootPointer &&& 0xFFFFFE00) ||| (rootIndex logical * 4)) {} t
    with ⟨out, t', hroot, hstatus⟩ | ⟨root, out, t', hroot, hout⟩
  · rw [hroot]
    exact hstatus.imp id .inl
  · rw [hroot]
    dsimp only
    rcases searchTable_cases cb (pointerDescriptor · config.pageSize)
      (root.tableAddress ||| (pointerIndex logical * 4)) out t'
      with ⟨out', t'', hpointer, hstatus⟩ | ⟨pointer, out', t'', hpointer, hout'⟩
    · rw [hpointer]
      exact hstatus.imp id .inl
    · rw [hpointer]
      exact searchPage_cases (hout'.trans hout)

end Search

/-! ## Frames and offsets -/

theorem pageMask_getLsbD (pageSize : PageSize) (i : Nat) (hi : i < 32) :
    (pageSize.bytes - 1).getLsbD i = !pageSize.frameMask.getLsbD i := by
  have h : ∀ pageSize : PageSize, ∀ i < 32,
      (pageSize.bytes - 1).getLsbD i = !pageSize.frameMask.getLsbD i := by
    intro pageSize
    cases pageSize <;> decide
  exact h pageSize i hi

theorem merge_eq (raw logical : BitVec 32) (pageSize : PageSize) :
    let physical := (raw &&& pageSize.frameMask) ||| pageOffset logical pageSize
    (physical &&& ~~~(pageSize.bytes - 1)) ||| pageOffset logical pageSize = physical ∧
      (physical &&& 0xFFFFF000) ||| pageOffset logical pageSize = physical := by
  have hfield : ∀ i < 32, (0xFFFFF000 : BitVec 32).getLsbD i = decide (12 ≤ i) := by decide
  have hframe : ∀ i < 32, pageSize.frameMask.getLsbD i = true → 12 ≤ i := by
    cases pageSize <;> decide
  refine ⟨?_, ?_⟩ <;> apply BitVec.eq_of_getLsbD_eq <;> intro i hi
  · simp only [pageOffset, BitVec.getLsbD_or, BitVec.getLsbD_and, BitVec.getLsbD_not,
      pageMask_getLsbD pageSize i hi, decide_eq_true hi, Bool.true_and, Bool.not_not]
    cases raw.getLsbD i <;> cases logical.getLsbD i <;> cases pageSize.frameMask.getLsbD i <;> rfl
  · simp only [pageOffset, BitVec.getLsbD_or, BitVec.getLsbD_and, pageMask_getLsbD pageSize i hi,
      hfield i hi]
    have hhigh := hframe i hi
    cases hmask : pageSize.frameMask.getLsbD i with
    | true =>
      rw [decide_eq_true (hhigh hmask)]
      simp
    | false =>
      cases raw.getLsbD i <;> cases logical.getLsbD i <;> cases decide (12 ≤ i) <;> rfl

end Apollo.M68040
