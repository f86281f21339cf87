import Apollo.M68040.Mmu
import Apollo.M68040.TableMemory

/-!
# The MC68040 MMU over whole runs

Translations and flushes, over a memory in which searches set history bits and nothing else
changes: what the tables say but for U and M is the same throughout (`SameTables`). `Coherent`
is what every call keeps: no set holds two entries of one page, and each entry holds what the
tables say of its page, with an M bit that is no more than the descriptor's. It may be less:
two pages can share a descriptor, and the write that marks it is through one of them. It is
not less where no other page shares the descriptor (`Exact`).
-/

namespace Apollo.M68040

open Apollo.Lib

/-- What the tables say of an address of one privilege. -/
def Mmu.resolution (mmu : Mmu) (m : TableMemory) (supervisor : Bool) (logical : BitVec 32) : Resolution :=
  resolve m (if supervisor then mmu.srp else mmu.urp) mmu.tcr.pageSize logical

/-- A page descriptor without its history. -/
def PageDescriptor.attributes (page : PageDescriptor) : PageDescriptor :=
  { page with used := false, modified := false }

/-- What the tables say but for history. -/
def Resolution.attributes : Resolution → Resolution
  | .busError => .busError
  | .invalid => .invalid
  | .page address leaf gathered => .page address leaf.attributes gathered

/-- The address and attribute bits of the tables are the same. -/
def SameTables (mmu : Mmu) (m m' : TableMemory) : Prop :=
  ∀ supervisor logical,
    (mmu.resolution m' supervisor logical).attributes = (mmu.resolution m supervisor logical).attributes

/-- The entry matches an access to a tag of an address space. -/
def AtcEntry.isFor (e : AtcEntry) (tag : BitVec 32) (supervisor : Bool) : Bool :=
  e.valid && e.logicalTag == tag && e.supervisorSpace == supervisor

/-- What an entry is for. -/
def AtcEntry.key (e : AtcEntry) : Option (BitVec 32 × Bool) :=
  if e.valid then some (e.logicalTag, e.supervisorSpace) else none

/-- A valid entry is for its key and nothing else. -/
theorem AtcEntry.isFor_iff (e : AtcEntry) (tag : BitVec 32) (supervisor : Bool) :
    e.isFor tag supervisor = true ↔ e.key = some (tag, supervisor) := by
  unfold isFor key
  cases e.valid <;> simp

/-- An entry shows a page. -/
structure AtcEntry.Shows (e : AtcEntry) (pageSize : PageSize) (page : PageDescriptor)
    (gathered : Bool) : Prop where
  resident : e.resident = true
  physicalAddress : e.physicalAddress = page.address &&& ~~~(pageSize.bytes - 1)
  writeProtect : e.writeProtect = gathered
  supervisor : e.supervisor = page.supervisor
  cacheMode : e.cacheMode = page.cacheMode
  global : e.global = page.global
  userAttribute0 : e.userAttribute0 = page.userAttribute0
  userAttribute1 : e.userAttribute1 = page.userAttribute1
  modified : e.modified = true → page.modified = true
  used : page.used = true

/-- An entry holds what the tables say. -/
def AtcEntry.Holds (e : AtcEntry) (pageSize : PageSize) : Resolution → Prop
  | .busError => False
  | .invalid => e.resident = false
  | .page _ leaf gathered => e.Shows pageSize leaf gathered

/-- No two entries are for one page, and each holds what the tables say. -/
structure Coherent (mmu : Mmu) (m : TableMemory) : Prop where
  distinct : ∀ logical, Slots.Distinct AtcEntry.key (mmu.atc.setAt logical mmu.tcr.pageSize)
  holds : ∀ logical supervisor (way : Fin atcWays),
    ((mmu.atc.setAt logical mmu.tcr.pageSize).get way).isFor (atcTag logical mmu.tcr.pageSize)
      supervisor = true →
    ((mmu.atc.setAt logical mmu.tcr.pageSize).get way).Holds mmu.tcr.pageSize
      (mmu.resolution m supervisor logical)

/-- No other page has its page descriptor at the same address. -/
def Unshared (mmu : Mmu) (m : TableMemory) (supervisor : Bool) (logical : BitVec 32) : Prop :=
  ∀ a supervisor' logical', (mmu.resolution m supervisor logical).At a →
    (mmu.resolution m supervisor' logical').At a →
      pageNumber logical' mmu.tcr.pageSize = pageNumber logical mmu.tcr.pageSize ∧
        supervisor' = supervisor

/-- The M bit of an entry is the descriptor's, where no other page shares the descriptor. -/
def Exact (mmu : Mmu) (m : TableMemory) : Prop :=
  ∀ logical supervisor (way : Fin atcWays) a page gathered,
    ((mmu.atc.setAt logical mmu.tcr.pageSize).get way).isFor (atcTag logical mmu.tcr.pageSize)
      supervisor = true →
    Unshared mmu m supervisor logical →
    mmu.resolution m supervisor logical = .page a page gathered →
    ((mmu.atc.setAt logical mmu.tcr.pageSize).get way).modified = page.modified

/-- A call of the MMU. -/
inductive MmuCall
  | translate (logical functionCode : BitVec 32) (write : Bool)
  | flushAll
  | flushNonglobal (supervisor : Bool)
  | flushPage (logical : BitVec 32) (supervisor nonglobalOnly : Bool)

namespace Mmu

/-- What a call leaves behind. -/
def step (s : Mmu × TableMemory) : MmuCall → Mmu × TableMemory
  | .translate logical functionCode write =>
    (s.1.translate (memoryTables true) logical functionCode write s.2).2
  | .flushAll => ({ s.1 with atc := s.1.atc.flushAll }, s.2)
  | .flushNonglobal supervisor => ({ s.1 with atc := s.1.atc.flushNonglobal supervisor }, s.2)
  | .flushPage logical supervisor nonglobalOnly =>
    ({ s.1 with
        atc := s.1.atc.flushPage logical supervisor s.1.tcr.pageSize nonglobalOnly }, s.2)

/-- What a run leaves behind. -/
def run (s : Mmu × TableMemory) (calls : List MmuCall) : Mmu × TableMemory := calls.foldl step s

end Mmu

/-! ## History -/

/-- What the tables said of a page they say later, with the history bits that were set since. -/
theorem resolution_later {mmu : Mmu} {m m' : TableMemory} (hlater : Later m m')
    (hsame : SameTables mmu m m') {supervisor : Bool} {logical a : BitVec 32}
    {page : PageDescriptor} {gathered : Bool}
    (h : mmu.resolution m supervisor logical = .page a page gathered) :
    ∃ page', mmu.resolution m' supervisor logical = .page a page' gathered ∧
      page'.attributes = page.attributes ∧ (page.used = true → page'.used = true) ∧
      (page.modified = true → page'.modified = true) := by
  have hattributes := hsame supervisor logical
  rw [h] at hattributes
  cases h' : mmu.resolution m' supervisor logical with
  | busError =>
    rw [h'] at hattributes
    cases hattributes
  | invalid =>
    rw [h'] at hattributes
    cases hattributes
  | page a' page' gathered' =>
    rw [h'] at hattributes
    injection hattributes with ha hpage hgathered
    subst ha hgathered
    obtain ⟨raw, hraw, -, rfl⟩ := resolve_page h
    obtain ⟨raw', hraw', -, rfl⟩ := resolve_page h'
    obtain ⟨w, hw, hmarked⟩ := hlater.some_of_some hraw
    rw [hraw'] at hw
    cases hw
    exact ⟨_, rfl, hpage, hmarked.2.1, hmarked.2.2⟩

/-- What they say of a page they said before but for its history. -/
theorem resolution_earlier {mmu : Mmu} {m m' : TableMemory} (hsame : SameTables mmu m m')
    {supervisor : Bool} {logical a : BitVec 32} {page : PageDescriptor} {gathered : Bool}
    (h : mmu.resolution m' supervisor logical = .page a page gathered) :
    ∃ page', mmu.resolution m supervisor logical = .page a page' gathered := by
  have hattributes := hsame supervisor logical
  rw [h] at hattributes
  cases h' : mmu.resolution m supervisor logical with
  | busError =>
    rw [h'] at hattributes
    cases hattributes
  | invalid =>
    rw [h'] at hattributes
    cases hattributes
  | page a' page' gathered' =>
    rw [h'] at hattributes
    injection hattributes with ha hpage hgathered
    subst ha hgathered
    exact ⟨page', rfl⟩

/-- A page descriptor stays where it is. -/
theorem SameTables.at_iff {mmu : Mmu} {m m' : TableMemory} (hsame : SameTables mmu m m')
    (supervisor : Bool) (logical a : BitVec 32) :
    (mmu.resolution m' supervisor logical).At a ↔ (mmu.resolution m supervisor logical).At a := by
  have hattributes : ∀ resolution : Resolution, resolution.attributes.At a ↔ resolution.At a := by
    intro resolution
    cases resolution <;> exact Iff.rfl
  rw [← hattributes, hsame supervisor logical, hattributes]

/-- A search marks the descriptor that it ends at and no other. -/
theorem modified_same {mmu : Mmu} {m m' : TableMemory} (hlater : Later m m') {r : Resolution}
    (hmodifies : ModifiesAt r m m') {supervisor : Bool} {logical a : BitVec 32}
    {page page' : PageDescriptor} {gathered gathered' : Bool}
    (h : mmu.resolution m supervisor logical = .page a page gathered)
    (h' : mmu.resolution m' supervisor logical = .page a page' gathered') (hnot : ¬ r.At a) :
    page'.modified = page.modified := by
  obtain ⟨raw, hraw, -, rfl⟩ := resolve_page h
  obtain ⟨raw', hraw', -, rfl⟩ := resolve_page h'
  obtain ⟨w, hw, hmarked⟩ := hlater.some_of_some hraw
  rw [hraw'] at hw
  cases hw
  show raw'.getLsbD 4 = raw.getLsbD 4
  refine Bool.eq_iff_iff.2 ⟨fun hset => ?_, hmarked.2.2⟩
  exact (hmodifies a raw raw' hraw hraw' hset).resolve_right hnot

/-- An entry goes on holding what the tables say: history is only set. -/
theorem AtcEntry.Holds.later {mmu : Mmu} {m m' : TableMemory} (hlater : Later m m')
    (hsame : SameTables mmu m m') {supervisor : Bool} {logical : BitVec 32} {e : AtcEntry}
    {pageSize : PageSize} (h : e.Holds pageSize (mmu.resolution m supervisor logical)) :
    e.Holds pageSize (mmu.resolution m' supervisor logical) := by
  cases htells : mmu.resolution m supervisor logical with
  | busError =>
    rw [htells] at h
    exact h.elim
  | invalid =>
    have hattributes := hsame supervisor logical
    rw [htells] at h hattributes
    cases htells' : mmu.resolution m' supervisor logical with
    | invalid => exact h
    | busError =>
      rw [htells'] at hattributes
      cases hattributes
    | page a page gathered =>
      rw [htells'] at hattributes
      cases hattributes
  | page a page gathered =>
    obtain ⟨page', htells', hpage, hused, hmodified⟩ := resolution_later hlater hsame htells
    rw [htells] at h
    rw [htells']
    have hsupervisor := congrArg PageDescriptor.supervisor hpage
    have hcacheMode := congrArg PageDescriptor.cacheMode hpage
    have hglobal := congrArg PageDescriptor.global hpage
    have hzero := congrArg PageDescriptor.userAttribute0 hpage
    have hone := congrArg PageDescriptor.userAttribute1 hpage
    exact
      { resident := h.resident
        physicalAddress := h.physicalAddress.trans
          (congrArg (·.address &&& ~~~(pageSize.bytes - 1)) hpage.symm)
        writeProtect := h.writeProtect
        supervisor := h.supervisor.trans hsupervisor.symm
        cacheMode := h.cacheMode.trans hcacheMode.symm
        global := h.global.trans hglobal.symm
        userAttribute0 := h.userAttribute0.trans hzero.symm
        userAttribute1 := h.userAttribute1.trans hone.symm
        modified := hmodified ∘ h.modified
        used := hused h.used }

theorem Coherent.later {mmu : Mmu} {m m' : TableMemory} (h : Coherent mmu m) (hlater : Later m m')
    (hsame : SameTables mmu m m') : Coherent mmu m' where
  distinct := h.distinct
  holds logical supervisor way hfor := (h.holds logical supervisor way hfor).later hlater hsame

/-! ## Pages -/

/-- The set and the tag are the page number between them. -/
theorem pageNumber_eq {a b : BitVec 32} {pageSize : PageSize}
    (hset : atcSet a pageSize = atcSet b pageSize) (htag : atcTag a pageSize = atcTag b pageSize) :
    pageNumber a pageSize = pageNumber b pageSize := by
  have hlow : pageNumber a pageSize &&& 0xF = pageNumber b pageSize &&& 0xF :=
    BitVec.eq_of_toNat_eq (show (atcSet a pageSize).val = (atcSet b pageSize).val by rw [hset])
  have hfifteen : ∀ i < 32, (0xF : BitVec 32).getLsbD i = decide (i < 4) := by decide
  apply BitVec.eq_of_getLsbD_eq
  intro i hi
  by_cases hfour : i < 4
  · have hbit := congrArg (fun x => x.getLsbD i) hlow
    simpa only [BitVec.getLsbD_and, hfifteen i hi, decide_eq_true hfour, Bool.and_true] using hbit
  · have hbit := congrArg (fun x => x.getLsbD (i - 4)) htag
    simpa only [atcTag, BitVec.getLsbD_ushiftRight, show 4 + (i - 4) = i by omega] using hbit

/-- A field that lies above the page offset is the page number's. -/
theorem field_eq {a b mask : BitVec 32} {shift low : Nat} (h : a >>> low = b >>> low)
    (hlow : low ≤ shift) : (a >>> shift) &&& mask = (b >>> shift) &&& mask := by
  have hshift : ∀ x : BitVec 32, x >>> shift = (x >>> low) >>> (shift - low) := by
    intro x
    rw [← BitVec.shiftRight_add, Nat.add_sub_cancel' hlow]
  rw [hshift, hshift, h]

/-- Two addresses of one page resolve alike. -/
theorem resolution_congr {mmu : Mmu} {m : TableMemory} {supervisor : Bool} {a b : BitVec 32}
    (hset : atcSet a mmu.tcr.pageSize = atcSet b mmu.tcr.pageSize)
    (htag : atcTag a mmu.tcr.pageSize = atcTag b mmu.tcr.pageSize) :
    mmu.resolution m supervisor a = mmu.resolution m supervisor b := by
  have hpage := pageNumber_eq hset htag
  have hroot : rootIndex a = rootIndex b := by
    cases hsize : mmu.tcr.pageSize <;> rw [hsize] at hpage <;> exact field_eq hpage (by decide)
  have hpointer : pointerIndex a = pointerIndex b := by
    cases hsize : mmu.tcr.pageSize <;> rw [hsize] at hpage <;> exact field_eq hpage (by decide)
  have hleaf : pageIndex a mmu.tcr.pageSize = pageIndex b mmu.tcr.pageSize := by
    cases hsize : mmu.tcr.pageSize <;> rw [hsize] at hpage <;> exact field_eq hpage (by decide)
  rw [Mmu.resolution, Mmu.resolution, resolve, resolve, hroot, hpointer, hleaf]

/-! ## Calls that forget -/

/-- Some entries were made invalid. -/
def Forgets (pageSize : PageSize) (atc atc' : Atc) : Prop :=
  ∀ logical (way : Fin atcWays),
    ((atc'.setAt logical pageSize).get way) = ((atc.setAt logical pageSize).get way) ∨
      ((atc'.setAt logical pageSize).get way).valid = false

/-- What is found afterwards was there before. -/
theorem Forgets.found {pageSize : PageSize} {atc atc' : Atc} (h : Forgets pageSize atc atc')
    {logical tag : BitVec 32} {supervisor : Bool} {way : Fin atcWays}
    (hfor : ((atc'.setAt logical pageSize).get way).isFor tag supervisor = true) :
    ((atc'.setAt logical pageSize).get way) = ((atc.setAt logical pageSize).get way) := by
  rcases h logical way with hsame | hinvalid
  · exact hsame
  · rw [AtcEntry.isFor, hinvalid] at hfor
    cases hfor

theorem Coherent.forgets {mmu : Mmu} {m : TableMemory} (h : Coherent mmu m) {atc : Atc}
    (hforgets : Forgets mmu.tcr.pageSize mmu.atc atc) : Coherent { mmu with atc } m where
  distinct logical := by
    refine (h.distinct logical).of_key fun way => ?_
    rcases hforgets logical way with hsame | hinvalid
    · exact .inr (congrArg AtcEntry.key hsame)
    · refine .inl ?_
      show AtcEntry.key ((atc.setAt logical mmu.tcr.pageSize).get way) = none
      rw [AtcEntry.key, hinvalid]
      rfl
  holds logical supervisor way hfor := by
    have hfor' : ((atc.setAt logical mmu.tcr.pageSize).get way).isFor
        (atcTag logical mmu.tcr.pageSize) supervisor = true := hfor
    show ((atc.setAt logical mmu.tcr.pageSize).get way).Holds mmu.tcr.pageSize
      (mmu.resolution m supervisor logical)
    have hfound := hforgets.found hfor'
    rw [hfound] at hfor' ⊢
    exact h.holds logical supervisor way hfor'

theorem Exact.forgets {mmu : Mmu} {m : TableMemory} (h : Exact mmu m) {atc : Atc}
    (hforgets : Forgets mmu.tcr.pageSize mmu.atc atc) : Exact { mmu with atc } m := by
  intro logical supervisor way a page gathered hfor hunshared hpage
  have hfor' : ((atc.setAt logical mmu.tcr.pageSize).get way).isFor
      (atcTag logical mmu.tcr.pageSize) supervisor = true := hfor
  show ((atc.setAt logical mmu.tcr.pageSize).get way).modified = page.modified
  have hfound := hforgets.found hfor'
  rw [hfound] at hfor' ⊢
  exact h logical supervisor way a page gathered hfor' hunshared hpage

theorem forgets_flushAll (pageSize : PageSize) (atc : Atc) : Forgets pageSize atc atc.flushAll := by
  intro logical way
  refine .inr ?_
  simp [Atc.flushAll, Atc.setAt]

theorem forgets_flushNonglobal (pageSize : PageSize) (atc : Atc) (supervisor : Bool) :
    Forgets pageSize atc (atc.flushNonglobal supervisor) := by
  intro logical way
  have heq : (((atc.flushNonglobal supervisor).setAt logical pageSize).get way) =
      (fun e : AtcEntry => if !e.valid || e.supervisorSpace != supervisor then e
        else if e.global then e else { e with valid := false })
        ((atc.setAt logical pageSize).get way) := by
    simp only [Atc.flushNonglobal, Atc.setAt, Vector.getElem_map, Slots.get_map]
    rfl
  rw [heq]
  dsimp only
  split
  · exact .inl rfl
  · split
    · exact .inl rfl
    · exact .inr rfl

/-- A set with one entry made invalid. -/
theorem forgets_setSet (pageSize : PageSize) (atc : Atc) (address : BitVec 32) (i : Fin atcWays)
    {e : AtcEntry} (he : e.valid = false) :
    Forgets pageSize atc (atc.setSet address pageSize (Lib.put (atc.setAt address pageSize) i e)) := by
  intro logical way
  rw [Atc.setAt_setSet_eq]
  by_cases hset : atcSet address pageSize = atcSet logical pageSize
  · rw [if_pos hset, Slots.get_set, Atc.setAt_congr hset]
    split
    · exact .inr he
    · exact .inl rfl
  · rw [if_neg hset]
    exact .inl rfl

/-- Way after way, those that match are made invalid. -/
theorem forgets_flushPage (pageSize : PageSize) (atc : Atc) (address : BitVec 32)
    (supervisor nonglobalOnly : Bool) :
    Forgets pageSize atc (atc.flushPage address supervisor pageSize nonglobalOnly) := by
  unfold Atc.flushPage
  cases atc.lookup address supervisor pageSize with
  | none => exact fun _ _ => .inl rfl
  | some way =>
    dsimp only
    by_cases hkept : (nonglobalOnly && (atc.setAt address pageSize)[way.val].global) = true
    · rw [if_pos hkept]
      exact fun _ _ => .inl rfl
    · rw [if_neg hkept]
      exact forgets_setSet pageSize atc address way rfl

/-! ## What a search leaves in the cache -/

/-- A search result and its page have the same frame; they may differ in the offset. -/
theorem frame_eq {config : SearchConfig} {logical : BitVec 32} {updating gathered : Bool}
    {page : PageDescriptor} {r : SearchResult} (h : Says config logical updating page gathered r) :
    r.physicalAddress &&& ~~~(config.pageSize.bytes - 1) =
      page.address &&& ~~~(config.pageSize.bytes - 1) := by
  rw [h.physicalAddress]
  apply BitVec.eq_of_getLsbD_eq
  intro i hi
  simp only [pageOffset, BitVec.getLsbD_and, BitVec.getLsbD_or, BitVec.getLsbD_not]
  cases (config.pageSize.bytes - 1).getLsbD i <;> simp

/-- THE ENTRY THAT A SEARCH LEAVES holds what the tables say. -/
theorem entryOf_holds {config : SearchConfig} {logical : BitVec 32} (supervisor : Bool)
    {resolution : Resolution} {r : SearchResult}
    (h : resolution.Gives config logical true r) (hdone : r.status ≠ .busError) :
    (Mmu.entryOf r logical supervisor config.pageSize).Holds config.pageSize resolution := by
  cases resolution with
  | busError => exact hdone h
  | invalid =>
    have hstatus : r.status = .invalid := h
    show decide (r.status = .resident) = false
    rw [hstatus]
    rfl
  | page a page gathered =>
    have htells : Says config logical true page gathered r := h
    refine
      { resident := ?_
        physicalAddress := ?_
        writeProtect := htells.writeProtect
        supervisor := htells.supervisor
        cacheMode := htells.cacheMode
        global := htells.global
        userAttribute0 := htells.userAttribute0
        userAttribute1 := htells.userAttribute1
        modified := fun hmodified => htells.modified.symm.trans hmodified
        used := htells.used rfl }
    · show decide (r.status = .resident) = true
      rw [htells.status]
      rfl
    · exact frame_eq htells

/-- No way but the one that is filled is for the page. -/
theorem selectWay_only {atc : Atc} {logical : BitVec 32} {supervisor : Bool} {pageSize : PageSize}
    (hdistinct : Slots.Distinct AtcEntry.key (atc.setAt logical pageSize)) {way : Fin atcWays}
    (hway : way ≠ atc.selectWay logical supervisor pageSize) :
    ((atc.setAt logical pageSize).get way).key ≠ some (atcTag logical pageSize, supervisor) := by
  intro hkey
  have hfor : ∀ e : AtcEntry, (e.valid && e.logicalTag == atcTag logical pageSize &&
      e.supervisorSpace == supervisor) = true ↔ e.key = some (atcTag logical pageSize, supervisor) :=
    fun e => e.isFor_iff _ _
  have hlookup : atc.lookup logical supervisor pageSize = some way :=
    (hdistinct.first_eq_some hfor).2 hkey
  apply hway
  rw [Atc.selectWay, hlookup]

/-- Filling changes one set, in one way. -/
theorem setAt_keep (atc : Atc) (logical : BitVec 32) (supervisor : Bool) (pageSize : PageSize)
    {r : SearchResult} (hdone : r.status ≠ .busError) (logical' : BitVec 32) :
    (Mmu.keep atc r logical supervisor pageSize).2.setAt logical' pageSize =
      if atcSet logical pageSize = atcSet logical' pageSize then
        (atc.setAt logical pageSize).set (atc.selectWay logical supervisor pageSize)
          (Mmu.entryOf r logical supervisor pageSize)
      else atc.setAt logical' pageSize := by
  unfold Mmu.keep
  rw [if_neg hdone]
  exact Atc.setAt_setSet_eq _ _

/-- What is found for a page once a search is kept: the entry that was made, for the page that
was searched for; for other pages, what was found before. -/
theorem keep_isFor {atc : Atc} {logical : BitVec 32} {pageSize : PageSize} {r : SearchResult}
    (hdistinct : Slots.Distinct AtcEntry.key (atc.setAt logical pageSize))
    (hdone : r.status ≠ .busError) (supervisor : Bool) (logical' : BitVec 32) (supervisor' : Bool)
    (way : Fin atcWays)
    (hfor : (((Mmu.keep atc r logical supervisor pageSize).2.setAt logical' pageSize).get way).isFor
      (atcTag logical' pageSize) supervisor' = true) :
    ((((Mmu.keep atc r logical supervisor pageSize).2.setAt logical' pageSize).get way) =
        Mmu.entryOf r logical supervisor pageSize ∧
      atcSet logical pageSize = atcSet logical' pageSize ∧
      atcTag logical pageSize = atcTag logical' pageSize ∧ supervisor = supervisor') ∨
    ((((Mmu.keep atc r logical supervisor pageSize).2.setAt logical' pageSize).get way) =
        ((atc.setAt logical' pageSize).get way) ∧
      ¬ (atcSet logical pageSize = atcSet logical' pageSize ∧
        atcTag logical pageSize = atcTag logical' pageSize ∧ supervisor = supervisor')) := by
  rw [setAt_keep _ _ _ _ hdone] at hfor ⊢
  by_cases hsame : atcSet logical pageSize = atcSet logical' pageSize
  · rw [if_pos hsame, Slots.get_set] at hfor ⊢
    by_cases hnew : atc.selectWay logical supervisor pageSize = way
    · rw [if_pos hnew] at hfor ⊢
      rw [AtcEntry.isFor_iff] at hfor
      obtain ⟨htag, hspace⟩ := Prod.mk.inj (Option.some.inj hfor)
      exact .inl ⟨rfl, hsame, htag, hspace⟩
    · rw [if_neg hnew] at hfor ⊢
      refine .inr ⟨by rw [Atc.setAt_congr hsame], ?_⟩
      rintro ⟨-, htag, rfl⟩
      rw [AtcEntry.isFor_iff, ← htag] at hfor
      exact selectWay_only hdistinct (Ne.symm hnew) hfor
  · rw [if_neg hsame]
    exact .inr ⟨rfl, fun h => hsame h.1⟩

/-- THE ENTRY IS KEPT: no second one for the page, and it holds what the tables say. -/
theorem Coherent.keep {mmu : Mmu} {m : TableMemory} (h : Coherent mmu m) {logical : BitVec 32}
    {supervisor write : Bool} {r : SearchResult}
    (hgives : (mmu.resolution m supervisor logical).Gives (mmu.searchConfig supervisor write) logical true
      r) :
    Coherent { mmu with
      atc := (Mmu.keep mmu.atc r logical supervisor mmu.tcr.pageSize).2 } m := by
  by_cases hdone : r.status = .busError
  · unfold Mmu.keep
    rw [if_pos hdone]
    exact h
  · have hfound := keep_isFor (h.distinct logical) hdone supervisor
    have hset := setAt_keep mmu.atc logical supervisor mmu.tcr.pageSize hdone
    generalize (Mmu.keep mmu.atc r logical supervisor mmu.tcr.pageSize).2 = atc at hfound hset ⊢
    constructor
    · intro logical'
      show Slots.Distinct AtcEntry.key (atc.setAt logical' mmu.tcr.pageSize)
      rw [hset]
      split
      · refine (h.distinct logical).set fun way hway k hk => ?_
        cases hk
        exact selectWay_only (h.distinct logical) hway
      · exact h.distinct logical'
    · intro logical' supervisor' way hfor
      have hfor' : ((atc.setAt logical' mmu.tcr.pageSize).get way).isFor
        (atcTag logical' mmu.tcr.pageSize) supervisor' = true := hfor
      show ((atc.setAt logical' mmu.tcr.pageSize).get way).Holds mmu.tcr.pageSize
        (mmu.resolution m supervisor' logical')
      rcases hfound logical' supervisor' way hfor' with ⟨hnew, hsame, htag, rfl⟩ | ⟨hold, -⟩
      · have hholds := entryOf_holds supervisor hgives hdone
        rw [hnew, ← resolution_congr hsame htag]
        exact hholds
      · rw [hold] at hfor' ⊢
        exact h.holds logical' supervisor' way hfor'

/-- The page number is the set and the tag. -/
theorem set_tag_of_pageNumber {a b : BitVec 32} {pageSize : PageSize}
    (h : pageNumber a pageSize = pageNumber b pageSize) :
    atcSet a pageSize = atcSet b pageSize ∧ atcTag a pageSize = atcTag b pageSize := by
  simp only [atcSet, atcTag, h, and_self]

/-- Keeping a search keeps M bits exact: the descriptor that the search marked is that of the
entry it made, and of no other entry. -/
theorem Exact.keep {mmu : Mmu} {m m' : TableMemory} (h : Exact mmu m)
    (hcoherent : Coherent mmu m) (hlater : Later m m') (hsame : SameTables mmu m m') {logical : BitVec 32}
    {supervisor write : Bool} {r : SearchResult}
    (hgives : (mmu.resolution m' supervisor logical).Gives (mmu.searchConfig supervisor write)
      logical true r)
    (hmodifies : ModifiesAt (mmu.resolution m' supervisor logical) m m') :
    Exact { mmu with
      atc := (Mmu.keep mmu.atc r logical supervisor mmu.tcr.pageSize).2 } m' := by
  -- an entry that was there before, for a page that the search did not end at
  have hbefore : ∀ logical' supervisor' (way : Fin atcWays) a page gathered,
      ((mmu.atc.setAt logical' mmu.tcr.pageSize).get way).isFor
        (atcTag logical' mmu.tcr.pageSize) supervisor' = true →
      Unshared mmu m' supervisor' logical' →
      mmu.resolution m' supervisor' logical' = .page a page gathered →
      ¬ (mmu.resolution m' supervisor logical).At a →
      ((mmu.atc.setAt logical' mmu.tcr.pageSize).get way).modified = page.modified := by
    intro logical' supervisor' way a page gathered hfor hunshared hpage hnot
    obtain ⟨page₀, hpage₀⟩ := resolution_earlier hsame hpage
    rw [modified_same hlater hmodifies hpage₀ hpage hnot]
    refine h logical' supervisor' way a page₀ gathered hfor (fun b s l hat hat' => ?_) hpage₀
    exact hunshared b s l ((hsame.at_iff supervisor' logical' b).2 hat)
      ((hsame.at_iff s l b).2 hat')
  by_cases hdone : r.status = .busError
  · unfold Mmu.keep
    rw [if_pos hdone]
    intro logical' supervisor' way a page gathered hfor hunshared hpage
    refine hbefore logical' supervisor' way a page gathered hfor hunshared hpage ?_
    cases hresolution : mmu.resolution m' supervisor logical with
    | busError => exact id
    | invalid => exact id
    | page a' page' gathered' =>
      rw [hresolution] at hgives
      have htells : Says (mmu.searchConfig supervisor write) logical true page' gathered' r := hgives
      rw [htells.status] at hdone
      cases hdone
  · have hfound := keep_isFor (hcoherent.distinct logical) hdone supervisor
    generalize (Mmu.keep mmu.atc r logical supervisor mmu.tcr.pageSize).2 = atc at hfound ⊢
    intro logical' supervisor' way a page gathered hfor hunshared hpage
    have hfor' : ((atc.setAt logical' mmu.tcr.pageSize).get way).isFor
      (atcTag logical' mmu.tcr.pageSize) supervisor' = true := hfor
    show ((atc.setAt logical' mmu.tcr.pageSize).get way).modified = page.modified
    rcases hfound logical' supervisor' way hfor' with ⟨hnew, hset, htag, rfl⟩ | ⟨hold, hother⟩
    · have hpage' : mmu.resolution m' supervisor logical' = .page a page gathered := hpage
      rw [resolution_congr hset htag, hpage'] at hgives
      have htells : Says (mmu.searchConfig supervisor write) logical true page gathered r := hgives
      rw [hnew]
      exact htells.modified
    · rw [hold] at hfor' ⊢
      refine hbefore logical' supervisor' way a page gathered hfor' hunshared hpage fun hat => ?_
      have hpage' : mmu.resolution m' supervisor' logical' = .page a page gathered := hpage
      obtain ⟨hnumber, hspace⟩ :=
        hunshared a supervisor logical (show Resolution.At _ a by rw [hpage]; rfl) hat
      obtain ⟨hset, htag⟩ := set_tag_of_pageNumber hnumber
      exact hother ⟨hset, htag, hspace⟩

/-! ## Verdicts -/

/-- What an access gets, less what it cost. -/
structure Verdict where
  status : MmuStatus
  physical : BitVec 32
  cacheMode : CacheMode
deriving DecidableEq

/-- What a translation comes to: its status and its address. -/
def MmuResult.verdict (out : MmuResult) : Verdict :=
  { status := out.status, physical := out.physical, cacheMode := out.cacheMode }

/-- What an access gets of what the tables say. -/
def Resolution.verdict (logical : BitVec 32) (supervisor write : Bool) (pageSize : PageSize) :
    Resolution → Verdict
  | .page _ leaf gathered =>
    if (leaf.supervisor && !supervisor) || (write && gathered) then
      { status := .fault, physical := logical, cacheMode := .cachableWriteThrough }
    else
      { status := .translated
        physical := leaf.address ||| pageOffset logical pageSize
        cacheMode := leaf.cacheMode }
  | _ => { status := .fault, physical := logical, cacheMode := .cachableWriteThrough }

/-- The verdict does not look at history. -/
theorem verdict_attributes (resolution : Resolution) (logical : BitVec 32)
    (supervisor write : Bool) (pageSize : PageSize) :
    resolution.attributes.verdict logical supervisor write pageSize =
      resolution.verdict logical supervisor write pageSize := by
  cases resolution <;> rfl

/-- A search gives the verdict of the tables. -/
theorem verdictOf_gives {config : SearchConfig} {logical : BitVec 32} {updating : Bool}
    {resolution : Resolution} {r : SearchResult}
    (h : resolution.Gives config logical updating r) (filled : Bool) :
    (Mmu.verdictOf r logical config.supervisor config.write filled).verdict =
      resolution.verdict logical config.supervisor config.write config.pageSize := by
  cases resolution with
  | busError =>
    have hstatus : r.status = .busError := h
    simp [Mmu.verdictOf, hstatus, MmuResult.verdict, Resolution.verdict]
  | invalid =>
    have hstatus : r.status = .invalid := h
    simp [Mmu.verdictOf, hstatus, MmuResult.verdict, Resolution.verdict]
  | page a page gathered =>
    have htells : Says config logical updating page gathered r := h
    unfold Mmu.verdictOf Resolution.verdict
    rw [htells.status, htells.supervisor, htells.writeProtect, htells.physicalAddress, htells.cacheMode]
    dsimp only
    by_cases hdenied : (page.supervisor && !config.supervisor || config.write && gathered) = true
    · rw [if_pos hdenied, if_pos (by rw [Bool.or_assoc, hdenied, Bool.or_true])]
      rfl
    · rw [if_neg hdenied, if_neg]
      · rfl
      · rw [Bool.not_eq_true] at hdenied
        rw [Bool.or_assoc, hdenied]
        decide

/-- So does an entry that holds what they say. -/
theorem answerOf_holds {mmu : Mmu} {m : TableMemory} {logical : BitVec 32} {supervisor write : Bool}
    {e : AtcEntry} {out : MmuResult}
    (hholds : e.Holds mmu.tcr.pageSize (mmu.resolution m supervisor logical))
    (hanswer : Mmu.answerOf e logical supervisor write mmu.tcr.pageSize = some out) :
    out.verdict =
      (mmu.resolution m supervisor logical).verdict logical supervisor write mmu.tcr.pageSize := by
  cases htells : mmu.resolution m supervisor logical with
  | busError =>
    rw [htells] at hholds
    exact hholds.elim
  | invalid =>
    rw [htells] at hholds
    have hresident : e.resident = false := hholds
    rw [Mmu.answerOf, hresident] at hanswer
    cases hanswer
    rfl
  | page a page gathered =>
    rw [htells] at hholds
    have hshows : e.Shows mmu.tcr.pageSize page gathered := hholds
    rw [Mmu.answerOf, hshows.resident, hshows.supervisor, hshows.writeProtect, hshows.cacheMode,
      hshows.physicalAddress, Bool.not_true, Bool.false_or] at hanswer
    unfold Resolution.verdict
    dsimp only
    split at hanswer
    · next hdenied =>
      rw [if_pos hdenied]
      cases hanswer
      rfl
    · next hallowed =>
      rw [if_neg hallowed]
      split at hanswer
      · cases hanswer
        obtain ⟨raw, -, htype, hpage⟩ := resolve_page htells
        have haddress : page.address = raw &&& mmu.tcr.pageSize.frameMask := by
          rw [hpage, pageDescriptor, htype]
          rfl
        have hframe : mmu.tcr.pageSize.frameMask &&& ~~~(mmu.tcr.pageSize.bytes - 1) =
            mmu.tcr.pageSize.frameMask := by
          cases mmu.tcr.pageSize <;> decide
        rw [MmuResult.verdict, haddress, BitVec.and_assoc, hframe]
      · cases hanswer

/-- An entry answers a write only if its M bit is set, and then the descriptor's is. -/
theorem answerOf_marks {resolution : Resolution} {logical : BitVec 32} {supervisor write : Bool}
    {pageSize : PageSize} {e : AtcEntry} {out : MmuResult} (hholds : e.Holds pageSize resolution)
    (hwrite : write = true)
    (hanswer : Mmu.answerOf e logical supervisor write pageSize = some out)
    (htranslated : out.status = .translated) :
    ∃ a page gathered, resolution = .page a page gathered ∧
      page.used = true ∧ page.modified = true := by
  cases resolution with
  | busError => exact hholds.elim
  | invalid =>
    have hresident : e.resident = false := hholds
    rw [Mmu.answerOf, hresident] at hanswer
    cases hanswer
    cases htranslated
  | page a page gathered =>
    have hshows : e.Shows pageSize page gathered := hholds
    unfold Mmu.answerOf at hanswer
    split at hanswer
    · cases hanswer
      cases htranslated
    · split at hanswer
      · next hmodified =>
        rw [hwrite] at hmodified
        exact ⟨a, page, gathered, rfl, hshows.used, hshows.modified (by simpa using hmodified)⟩
      · cases hanswer

/-- A search for a write marks the page that it ends at. -/
theorem verdictOf_marks {config : SearchConfig} {logical : BitVec 32} {filled : Bool}
    {resolution : Resolution} {r : SearchResult} (h : resolution.Gives config logical true r)
    (hwrite : config.write = true)
    (htranslated :
      (Mmu.verdictOf r logical config.supervisor config.write filled).status = .translated) :
    ∃ a page gathered, resolution = .page a page gathered ∧
      page.used = true ∧ page.modified = true := by
  unfold Mmu.verdictOf at htranslated
  split at htranslated
  · cases htranslated
  · next hallowed =>
    cases resolution with
    | busError =>
      have hstatus : r.status = .busError := h
      rw [hstatus] at hallowed
      exact absurd rfl hallowed
    | invalid =>
      have hstatus : r.status = .invalid := h
      rw [hstatus] at hallowed
      exact absurd rfl hallowed
    | page a page gathered =>
      have htells : Says config logical true page gathered r := h
      rw [htells.status, htells.supervisor, htells.writeProtect, hwrite] at hallowed
      have hneither : (page.supervisor && !config.supervisor) = false ∧ gathered = false := by
        simpa using hallowed
      exact ⟨a, page, gathered, rfl, htells.used rfl,
        htells.written rfl hwrite hneither.2 hneither.1⟩

/-! ## Translations -/

/-- A TRANSLATION, once for all: transparent or untranslated, answered by an entry, or searched for.
-/
theorem translate_cases {τ : Type} (cb : Callbacks τ) (mmu : Mmu) (logical functionCode : BitVec 32)
    (write : Bool) (t : τ) :
    let supervisor := Mmu.supervisorOf functionCode
    ((∃ ttr, mmu.transparentBlock logical functionCode = some ttr) ∨ mmu.tcr.enable = false) ∧
        (mmu.translate cb logical functionCode write t).1.status ≠ .translated ∧
        (mmu.translate cb logical functionCode write t).2 = (mmu, t) ∨
      (∃ way out, mmu.atc.lookup logical supervisor mmu.tcr.pageSize = some way ∧
        Mmu.answerOf ((mmu.atc.setAt logical mmu.tcr.pageSize).get way) logical supervisor write
          mmu.tcr.pageSize = some out ∧
        mmu.translate cb logical functionCode write t = (out, mmu, t)) ∨
      ∃ r t', search cb (mmu.searchConfig supervisor write) logical t = (r, t') ∧
        mmu.translate cb logical functionCode write t =
          (Mmu.verdictOf r logical supervisor write
              (Mmu.keep mmu.atc r logical supervisor mmu.tcr.pageSize).1,
            { mmu with atc := (Mmu.keep mmu.atc r logical supervisor mmu.tcr.pageSize).2 }, t') := by
  unfold Mmu.translate
  dsimp only
  cases hblock : mmu.transparentBlock logical functionCode with
  | some ttr =>
    left
    dsimp only
    refine ⟨.inl ⟨ttr, rfl⟩, ?_, ?_⟩
    · split <;> nofun
    · split <;> rfl
  | none =>
    dsimp only
    by_cases henable : (!mmu.tcr.enable) = true
    · left
      rw [if_pos henable]
      exact ⟨.inr (by simpa using henable), nofun, rfl⟩
    · right
      rw [if_neg henable]
      rcases hsearch : search cb (mmu.searchConfig (Mmu.supervisorOf functionCode) write) logical t
        with ⟨r, t'⟩
      cases hlookup : mmu.atc.lookup logical (Mmu.supervisorOf functionCode) mmu.tcr.pageSize with
      | none => exact .inr ⟨r, t', rfl, rfl⟩
      | some way =>
        dsimp only
        cases hanswer : Mmu.answerOf ((mmu.atc.setAt logical mmu.tcr.pageSize).get way) logical
          (Mmu.supervisorOf functionCode) write mmu.tcr.pageSize with
        | none => exact .inr ⟨r, t', rfl, rfl⟩
        | some out => exact .inl ⟨way, out, rfl, hanswer, rfl⟩

theorem isFor_of_lookup {atc : Atc} {logical : BitVec 32} {supervisor : Bool} {pageSize : PageSize}
    {way : Fin atcWays} (h : atc.lookup logical supervisor pageSize = some way) :
    ((atc.setAt logical pageSize).get way).isFor (atcTag logical pageSize) supervisor = true :=
  Slots.of_first_eq_some (p := fun e : AtcEntry => e.isFor (atcTag logical pageSize) supervisor) h

/-- An access that the tables and the cache have a part in. -/
def Mmu.Translates (mmu : Mmu) (logical functionCode : BitVec 32) : Prop :=
  mmu.transparentBlock logical functionCode = none ∧ mmu.tcr.enable = true

/-- A search that observes only, of the memory as it is. -/
def Mmu.fresh (mmu : Mmu) (m : TableMemory) (supervisor write : Bool) (logical : BitVec 32) :
    SearchResult :=
  (search (memoryTables false) (mmu.searchConfig supervisor write) logical m).1

/-- A fresh search says what the tables do. -/
theorem fresh_gives (mmu : Mmu) (m : TableMemory) (supervisor write : Bool) (logical : BitVec 32) :
    (mmu.resolution m supervisor logical).Gives (mmu.searchConfig supervisor write) logical false
      (mmu.fresh m supervisor write logical) := by
  obtain ⟨r, m', hsearch, -, hobserves, hgives, -⟩ :=
    search_resolves false (mmu.searchConfig supervisor write) logical m
  rw [Mmu.fresh, hsearch]
  rw [hobserves rfl] at hgives
  exact hgives

section Translate

variable {mmu : Mmu} {m : TableMemory} {logical functionCode : BitVec 32} {write : Bool}

variable (mmu m logical functionCode write) in
/-- A translation sets history bits and writes nothing else. -/
theorem translate_later :
    Later m (mmu.translate (memoryTables true) logical functionCode write m).2.2 := by
  rcases translate_cases (memoryTables true) mmu logical functionCode write m with
    ⟨-, -, hsame⟩ | ⟨way, out, -, -, hsame⟩ | ⟨r, m', hsearch, hsame⟩
  · rw [hsame]
    exact .refl m
  · rw [hsame]
    exact .refl m
  · rw [hsame]
    obtain ⟨r', m'', hsearch', hlater, -⟩ := search_resolves true
      (mmu.searchConfig (Mmu.supervisorOf functionCode) write) logical m
    rw [hsearch] at hsearch'
    cases hsearch'
    exact hlater

/-- A translation keeps the cache coherent. -/
theorem Coherent.translate (h : Coherent mmu m)
    (hsame : SameTables mmu m (mmu.translate (memoryTables true) logical functionCode write m).2.2) :
    Coherent (mmu.translate (memoryTables true) logical functionCode write m).2.1
      (mmu.translate (memoryTables true) logical functionCode write m).2.2 := by
  have hlater := translate_later mmu m logical functionCode write
  rcases translate_cases (memoryTables true) mmu logical functionCode write m with
    ⟨-, -, heq⟩ | ⟨way, out, -, -, heq⟩ | ⟨r, m', hsearch, heq⟩
  · rw [heq]
    exact h
  · rw [heq]
    exact h
  · rw [heq] at hsame hlater ⊢
    obtain ⟨r', m'', hsearch', -, -, hgives, -⟩ := search_resolves true
      (mmu.searchConfig (Mmu.supervisorOf functionCode) write) logical m
    rw [hsearch] at hsearch'
    cases hsearch'
    exact (h.later hlater hsame).keep hgives

/-- A translation keeps the M bits exact. -/
theorem Exact.translate (h : Exact mmu m) (hcoherent : Coherent mmu m)
    (hsame : SameTables mmu m (mmu.translate (memoryTables true) logical functionCode write m).2.2) :
    Exact (mmu.translate (memoryTables true) logical functionCode write m).2.1
      (mmu.translate (memoryTables true) logical functionCode write m).2.2 := by
  have hlater := translate_later mmu m logical functionCode write
  rcases translate_cases (memoryTables true) mmu logical functionCode write m with
    ⟨-, -, heq⟩ | ⟨way, out, -, -, heq⟩ | ⟨r, m', hsearch, heq⟩
  · rw [heq]
    exact h
  · rw [heq]
    exact h
  · rw [heq] at hsame hlater ⊢
    obtain ⟨r', m'', hsearch', -, -, hgives, hmodifies⟩ := search_resolves true
      (mmu.searchConfig (Mmu.supervisorOf functionCode) write) logical m
    rw [hsearch] at hsearch'
    cases hsearch'
    exact h.keep hcoherent hlater hsame hgives hmodifies

/-- Whatever is in the ATC, a translation gets what a fresh search gets. -/
theorem Coherent.translate_verdict (h : Coherent mmu m)
    (hsame : SameTables mmu m (mmu.translate (memoryTables true) logical functionCode write m).2.2)
    (htranslates : mmu.Translates logical functionCode) :
    (mmu.translate (memoryTables true) logical functionCode write m).1.verdict =
      (Mmu.verdictOf (mmu.fresh m (Mmu.supervisorOf functionCode) write logical) logical
        (Mmu.supervisorOf functionCode) write false).verdict := by
  have hfresh := fresh_gives mmu m (Mmu.supervisorOf functionCode) write logical
  refine Eq.trans ?_ (verdictOf_gives hfresh false).symm
  rcases translate_cases (memoryTables true) mmu logical functionCode write m with
    ⟨hnot, -, -⟩ | ⟨way, out, hlookup, hanswer, heq⟩ | ⟨r, m', hsearch, heq⟩
  · rcases hnot with ⟨ttr, hblock⟩ | hoff
    · rw [htranslates.1] at hblock
      cases hblock
    · rw [htranslates.2] at hoff
      cases hoff
  · rw [heq]
    exact answerOf_holds (h.holds logical _ way (isFor_of_lookup hlookup)) hanswer
  · rw [heq] at hsame ⊢
    obtain ⟨r', m'', hsearch', -, -, hgives, -⟩ := search_resolves true
      (mmu.searchConfig (Mmu.supervisorOf functionCode) write) logical m
    rw [hsearch] at hsearch'
    cases hsearch'
    refine (verdictOf_gives hgives _).trans ?_
    rw [← verdict_attributes, ← verdict_attributes (mmu.resolution m _ logical)]
    exact congrArg (Resolution.verdict logical _ write mmu.tcr.pageSize) (hsame _ logical)

/-- A write that was translated through the tables has marked its page. -/
theorem Coherent.translate_marks (h : Coherent mmu m) (hwrite : write = true)
    (htranslated : (mmu.translate (memoryTables true) logical functionCode write m).1.status =
      .translated) :
    ∃ a page gathered, mmu.resolution
        (mmu.translate (memoryTables true) logical functionCode write m).2.2
        (Mmu.supervisorOf functionCode) logical = .page a page gathered ∧
      page.used = true ∧ page.modified = true := by
  rcases translate_cases (memoryTables true) mmu logical functionCode write m with
    ⟨-, hnot, -⟩ | ⟨way, out, hlookup, hanswer, heq⟩ | ⟨r, m', hsearch, heq⟩
  · exact absurd htranslated hnot
  · rw [heq] at htranslated ⊢
    exact answerOf_marks (h.holds logical _ way (isFor_of_lookup hlookup)) hwrite hanswer
      htranslated
  · rw [heq] at htranslated ⊢
    obtain ⟨r', m'', hsearch', -, -, hgives, -⟩ := search_resolves true
      (mmu.searchConfig (Mmu.supervisorOf functionCode) write) logical m
    rw [hsearch] at hsearch'
    cases hsearch'
    exact verdictOf_marks hgives hwrite htranslated

end Translate

namespace Mmu

/-- The tables say the same at every moment of a run. -/
def TablesFixed (mmu : Mmu) (m : TableMemory) (calls : List MmuCall) : Prop :=
  ∀ earlier, earlier <+: calls → SameTables mmu m (run (mmu, m) earlier).2

theorem step_registers (s : Mmu × TableMemory) (call : MmuCall) :
    ∃ atc, (step s call).1 = { s.1 with atc } := by
  cases call with
  | translate logical functionCode write =>
    rcases translate_cases (memoryTables true) s.1 logical functionCode write s.2 with
      ⟨-, -, heq⟩ | ⟨way, out, -, -, heq⟩ | ⟨r, m', -, heq⟩
    · exact ⟨s.1.atc, congrArg Prod.fst heq⟩
    · exact ⟨s.1.atc, congrArg (·.2.1) heq⟩
    · exact ⟨_, congrArg (·.2.1) heq⟩
  | flushAll => exact ⟨_, rfl⟩
  | flushNonglobal supervisor => exact ⟨_, rfl⟩
  | flushPage logical supervisor nonglobalOnly => exact ⟨_, rfl⟩

/-- ONE CALL, of any kind. -/
theorem step_coherent {s : Mmu × TableMemory} (h : Coherent s.1 s.2) (call : MmuCall)
    (hsame : SameTables s.1 s.2 (step s call).2) : Coherent (step s call).1 (step s call).2 := by
  cases call with
  | translate logical functionCode write => exact h.translate hsame
  | flushAll => exact h.forgets (forgets_flushAll _ _)
  | flushNonglobal supervisor => exact h.forgets (forgets_flushNonglobal _ _ supervisor)
  | flushPage logical supervisor nonglobalOnly =>
    exact h.forgets (forgets_flushPage _ _ logical supervisor nonglobalOnly)

theorem step_exact {s : Mmu × TableMemory} (h : Exact s.1 s.2) (hcoherent : Coherent s.1 s.2)
    (call : MmuCall) (hsame : SameTables s.1 s.2 (step s call).2) :
    Exact (step s call).1 (step s call).2 := by
  cases call with
  | translate logical functionCode write => exact h.translate hcoherent hsame
  | flushAll => exact h.forgets (forgets_flushAll _ _)
  | flushNonglobal supervisor => exact h.forgets (forgets_flushNonglobal _ _ supervisor)
  | flushPage logical supervisor nonglobalOnly =>
    exact h.forgets (forgets_flushPage _ _ logical supervisor nonglobalOnly)

theorem run_append (s : Mmu × TableMemory) (calls : List MmuCall) (call : MmuCall) :
    run s (calls ++ [call]) = step (run s calls) call := by
  rw [run, List.foldl_append]
  rfl

/-- No call moves a register. -/
theorem run_registers (s : Mmu × TableMemory) (calls : List MmuCall) :
    ∃ atc, (run s calls).1 = { s.1 with atc } := by
  induction calls using List.reverseRecOn with
  | nil => exact ⟨s.1.atc, rfl⟩
  | append_singleton calls call ih =>
    obtain ⟨atc, hatc⟩ := ih
    obtain ⟨atc', hatc'⟩ := step_registers (run s calls) call
    rw [run_append, hatc', hatc]
    exact ⟨atc', rfl⟩

theorem resolution_run (s : Mmu × TableMemory) (calls : List MmuCall) (m : TableMemory)
    (supervisor : Bool) (logical : BitVec 32) :
    (run s calls).1.resolution m supervisor logical = s.1.resolution m supervisor logical := by
  obtain ⟨atc, hatc⟩ := run_registers s calls
  rw [hatc]
  rfl

theorem tcr_run (s : Mmu × TableMemory) (calls : List MmuCall) :
    (run s calls).1.tcr = s.1.tcr := by
  obtain ⟨atc, hatc⟩ := run_registers s calls
  rw [hatc]
  rfl

/-- An empty ATC holds nothing that could be wrong. -/
theorem coherent_init {mmu : Mmu} (m : TableMemory) (h : mmu.atc = Atc.init) :
    Coherent mmu m ∧ Exact mmu m := by
  have hempty : ∀ logical (way : Fin atcWays),
      ((mmu.atc.setAt logical mmu.tcr.pageSize).get way) = {} := by
    intro logical way
    rw [h]
    simp [Atc.setAt, Atc.init]
  refine ⟨⟨?_, ?_⟩, ?_⟩
  · intro logical i j k hi
    change ((mmu.atc.setAt logical mmu.tcr.pageSize).get i).key = some k at hi
    rw [hempty] at hi
    cases hi
  · intro logical supervisor way hfor
    rw [hempty] at hfor
    cases hfor
  · intro logical supervisor way a page gathered hfor
    rw [hempty] at hfor
    cases hfor

theorem TablesFixed.step {mmu : Mmu} {m : TableMemory} {calls : List MmuCall} {call : MmuCall}
    (h : TablesFixed mmu m (calls ++ [call])) :
    SameTables (run (mmu, m) calls).1 (run (mmu, m) calls).2
      (Mmu.step (run (mmu, m) calls) call).2 := by
  intro supervisor logical
  have hbefore := h calls (List.prefix_append _ _) supervisor logical
  have hafter := h (calls ++ [call]) (List.prefix_refl _) supervisor logical
  rw [run_append] at hafter
  rw [resolution_run, resolution_run]
  exact hafter.trans hbefore.symm

theorem TablesFixed.before {mmu : Mmu} {m : TableMemory} {calls earlier : List MmuCall}
    (h : TablesFixed mmu m calls) (hearlier : earlier <+: calls) : TablesFixed mmu m earlier :=
  fun start hstart => h start (hstart.trans hearlier)

/-- EVERY RUN, by induction on its last call. -/
theorem run_coherent {mmu : Mmu} {m : TableMemory} (hinit : mmu.atc = Atc.init)
    {calls : List MmuCall} (h : TablesFixed mmu m calls) :
    Coherent (run (mmu, m) calls).1 (run (mmu, m) calls).2 ∧
      Exact (run (mmu, m) calls).1 (run (mmu, m) calls).2 := by
  induction calls using List.reverseRecOn with
  | nil => exact coherent_init m hinit
  | append_singleton calls call ih =>
    obtain ⟨hcoherent, hexact⟩ := ih (h.before (List.prefix_append _ _))
    rw [run_append]
    exact ⟨step_coherent hcoherent call h.step, step_exact hexact hcoherent call h.step⟩

/-- An entry that is there is the entry that a search would leave now, but for an M bit that the
page descriptor may have and the entry not. -/
theorem holds_entryOf (config : SearchConfig) {logical : BitVec 32} {resolution : Resolution}
    {r : SearchResult} {e : AtcEntry} {supervisor : Bool}
    (hfor : e.isFor (atcTag logical config.pageSize) supervisor = true)
    (hresident : e.resident = true) (hholds : e.Holds config.pageSize resolution)
    (h : resolution.Gives config logical false r) :
    e = { entryOf r logical supervisor config.pageSize with modified := e.modified } ∧
      (e.modified = true → r.modified = true) ∧
      ∃ a page gathered, resolution = .page a page gathered ∧ r.modified = page.modified := by
  cases resolution with
  | busError => exact hholds.elim
  | invalid =>
    have hnot : e.resident = false := hholds
    rw [hnot] at hresident
    cases hresident
  | page a page gathered =>
    have hshows : e.Shows config.pageSize page gathered := hholds
    have htells : Says config logical false page gathered r := h
    refine ⟨?_, fun hmodified => htells.modified.trans (hshows.modified hmodified), a, page,
      gathered, rfl, htells.modified⟩
    rw [AtcEntry.isFor_iff, AtcEntry.key] at hfor
    split at hfor
    · next hvalid =>
      obtain ⟨htag, hspace⟩ := Prod.mk.inj (Option.some.inj hfor)
      have hframe := frame_eq htells
      have hstatus := decide_eq_true htells.status
      cases e
      simp only [entryOf, AtcEntry.mk.injEq]
      exact ⟨hvalid, hshows.global.trans htells.global.symm, hspace, htag,
        hshows.userAttribute1.trans htells.userAttribute1.symm,
        hshows.userAttribute0.trans htells.userAttribute0.symm,
        hshows.supervisor.trans htells.supervisor.symm,
        hshows.cacheMode.trans htells.cacheMode.symm, trivial,
        hshows.writeProtect.trans htells.writeProtect.symm, hresident.trans hstatus.symm,
        hshows.physicalAddress.trans hframe.symm⟩
    · cases hfor

theorem entries_of_coherent {mmu : Mmu} {m : TableMemory} (hcoherent : Coherent mmu m)
    (hexact : Exact mmu m) :
    (∀ logical supervisor (i j : Fin atcWays),
      ((mmu.atc.setAt logical mmu.tcr.pageSize).get i).isFor (atcTag logical mmu.tcr.pageSize)
        supervisor = true →
      ((mmu.atc.setAt logical mmu.tcr.pageSize).get j).isFor (atcTag logical mmu.tcr.pageSize)
        supervisor = true → i = j) ∧
    ∀ logical supervisor write (way : Fin atcWays),
      let e := ((mmu.atc.setAt logical mmu.tcr.pageSize).get way)
      let r := mmu.fresh m supervisor write logical
      e.isFor (atcTag logical mmu.tcr.pageSize) supervisor = true → e.resident = true →
      e = { entryOf r logical supervisor mmu.tcr.pageSize with modified := e.modified } ∧
        (e.modified = true → r.modified = true) ∧
        (Unshared mmu m supervisor logical → e.modified = r.modified) := by
  refine ⟨fun logical supervisor i j hi hj => ?_, ?_⟩
  · rw [AtcEntry.isFor_iff] at hi hj
    exact hcoherent.distinct logical i j _ hi hj
  · intro logical supervisor write way e r hfor hresident
    have hgives := fresh_gives mmu m supervisor write logical
    obtain ⟨hentry, hmodified, a, page, gathered, hpage, hbit⟩ :=
      holds_entryOf (mmu.searchConfig supervisor write) hfor hresident
        (hcoherent.holds logical supervisor way hfor) hgives
    refine ⟨hentry, hmodified, fun hunshared => ?_⟩
    rw [hbit]
    exact hexact logical supervisor way a page gathered hfor hunshared hpage

/-- THE MC68040 MMU IS COHERENT WITH ITS TABLES: in any run of translations and flushes during
which the tables say the same but for history, a page of an address space is in one way at most;
a resident entry is what a search would leave now, with an M bit that is set only if the
descriptor's is, and that is the descriptor's if no other page shares it; every translation
gets what a fresh search gets; and a write that was translated has marked its page. -/
theorem run_tables (mmu : Mmu) (m : TableMemory) (calls : List MmuCall)
    (hinit : mmu.atc = Atc.init) (hfixed : TablesFixed mmu m calls) :
    (∀ earlier, earlier <+: calls →
      let s := run (mmu, m) earlier
      let pageSize := mmu.tcr.pageSize
      (∀ logical supervisor (i j : Fin atcWays),
        ((s.1.atc.setAt logical pageSize).get i).isFor (atcTag logical pageSize) supervisor = true →
        ((s.1.atc.setAt logical pageSize).get j).isFor (atcTag logical pageSize) supervisor = true →
        i = j) ∧
      ∀ logical supervisor write (way : Fin atcWays),
        let e := ((s.1.atc.setAt logical pageSize).get way)
        let r := s.1.fresh s.2 supervisor write logical
        e.isFor (atcTag logical pageSize) supervisor = true → e.resident = true →
        e = { entryOf r logical supervisor pageSize with modified := e.modified } ∧
          (e.modified = true → r.modified = true) ∧
          (Unshared s.1 s.2 supervisor logical → e.modified = r.modified)) ∧
    ∀ earlier logical functionCode write,
      earlier ++ [.translate logical functionCode write] <+: calls →
      let s := run (mmu, m) earlier
      let supervisor := supervisorOf functionCode
      let out := s.1.translate (memoryTables true) logical functionCode write s.2
      (mmu.Translates logical functionCode →
        out.1.verdict = (verdictOf (s.1.fresh s.2 supervisor write logical) logical supervisor
          write false).verdict) ∧
      (write = true → out.1.status = .translated →
        ∃ a page gathered, mmu.resolution out.2.2 supervisor logical = .page a page gathered ∧
          page.used = true ∧ page.modified = true) := by
  constructor
  · intro earlier hearlier
    obtain ⟨hcoherent, hexact⟩ := run_coherent hinit (hfixed.before hearlier)
    have htcr := tcr_run (mmu, m) earlier
    have hentries := entries_of_coherent hcoherent hexact
    rw [htcr] at hentries
    exact hentries
  · intro earlier logical functionCode write hearlier
    have hfixed' := hfixed.before hearlier
    obtain ⟨hcoherent, -⟩ := run_coherent hinit (hfixed'.before (List.prefix_append _ _))
    refine ⟨fun htranslates => ?_, fun hwrite htranslated => ?_⟩
    · obtain ⟨atc, hatc⟩ := run_registers (mmu, m) earlier
      refine hcoherent.translate_verdict hfixed'.step ?_
      rw [hatc]
      exact htranslates
    · obtain ⟨a, page, gathered, hpage, hmarked⟩ := hcoherent.translate_marks hwrite htranslated
      rw [resolution_run] at hpage
      exact ⟨a, page, gathered, hpage, hmarked⟩

/-! ## Tables without indirection -/

/-- Without indirection a page descriptor keeps its attributes when history is set. -/
theorem pageAt_later {m m' : TableMemory} (hlater : Later m m')
    (hdirect : ∀ a w, m a = some w → pdtOf w ≠ .indirect) (pageSize : PageSize) (a : BitVec 32)
    (writeProtect : Bool) :
    (pageAt m' pageSize a writeProtect).attributes =
      (pageAt m pageSize a writeProtect).attributes := by
  unfold pageAt
  rcases hlater a with ⟨hnone, hnone'⟩ | ⟨w, w', hw, hw', hmarked⟩
  · rw [hnone, hnone']
  · rw [hw, hw']
    dsimp only
    rw [hmarked.pageDescriptor (hdirect a w hw)]
    have hkind : (pageDescriptor w pageSize).type = pdtOf w := rfl
    rw [hkind]
    cases htype : pdtOf w with
    | invalid => rfl
    | resident => rfl
    | indirect => exact absurd htype (hdirect a w hw)

/-- A run sets history bits and writes nothing else. -/
theorem run_later (s : Mmu × TableMemory) (calls : List MmuCall) :
    Later s.2 (run s calls).2 := by
  induction calls using List.reverseRecOn with
  | nil => exact .refl _
  | append_singleton calls call ih =>
    rw [run_append]
    refine ih.trans ?_
    cases call with
    | translate logical functionCode write => exact translate_later _ _ logical functionCode write
    | flushAll => exact .refl _
    | flushNonglobal supervisor => exact .refl _
    | flushPage logical supervisor nonglobalOnly => exact .refl _

/-- Tables without indirection stay the same by themselves. -/
theorem tablesFixed_of_direct (mmu : Mmu) {m : TableMemory}
    (hdirect : ∀ a w, m a = some w → pdtOf w ≠ .indirect) (calls : List MmuCall) :
    TablesFixed mmu m calls := by
  intro earlier _ supervisor logical
  have hlater : Later m (run (mmu, m) earlier).2 := run_later (mmu, m) earlier
  have hroot : Decodes rootDescriptor := fun _ _ h => h.rootDescriptor
  have hpointer : Decodes (pointerDescriptor · mmu.tcr.pageSize) :=
    fun _ _ h => h.pointerDescriptor mmu.tcr.pageSize
  unfold resolution resolve
  rw [hlater.tableAt hroot]
  cases tableAt m rootDescriptor
      (((if supervisor then mmu.srp else mmu.urp) &&& 0xFFFFFE00) ||| (rootIndex logical * 4)) with
  | error r => rfl
  | ok next =>
    obtain ⟨pointerTable, writeProtect⟩ := next
    dsimp only
    rw [hlater.tableAt hpointer]
    cases tableAt m (pointerDescriptor · mmu.tcr.pageSize)
        (pointerTable ||| (pointerIndex logical * 4)) with
    | error r => rfl
    | ok next => exact pageAt_later hlater hdirect _ _ _

/-! ## Two address spaces and one page descriptor -/

/-- A root table, a pointer table and a page table, each of one descriptor over and over. -/
def sharedTables : TableMemory := fun a =>
  if a < 0x200 then some 0x1003
  else if a >>> 9 = 8 then some 0x2003
  else if a >>> 8 = 0x20 then some 0x5003
  else none

/-- Both root pointers are to the same tables. -/
def sharedSpaces : Mmu :=
  { tc := 0x8000, ttr := .replicate 2 0, urp := 0, srp := 0, atc := Atc.init }

/-- The user reads a page that the supervisor then writes. -/
def sharedRun : List MmuCall := [.translate 0 1 false, .translate 0 5 true]

theorem sharedTables_direct : ∀ a w, sharedTables a = some w → pdtOf w ≠ .indirect := by
  intro a w h
  unfold sharedTables at h
  split at h
  · cases h
    decide
  · split at h
    · cases h
      decide
    · split at h
      · cases h
        decide
      · cases h

/-- The user's entry is left with a clear M bit. -/
theorem not_entryOf_shared :
    ¬ ∀ (mmu : Mmu) (m : TableMemory) (calls : List MmuCall), mmu.atc = Atc.init →
      TablesFixed mmu m calls →
      let s := run (mmu, m) calls
      let pageSize := mmu.tcr.pageSize
      ∀ logical supervisor write (way : Fin atcWays),
        let e := ((s.1.atc.setAt logical pageSize).get way)
        e.isFor (atcTag logical pageSize) supervisor = true → e.resident = true →
        e = entryOf (s.1.fresh s.2 supervisor write logical) logical supervisor pageSize := by
  intro h
  have hentry := h sharedSpaces sharedTables sharedRun rfl
    (tablesFixed_of_direct _ sharedTables_direct _) 0 false false 0
  revert hentry
  decide +kernel

/-- What holds of that run all the same: the supervisor's write has marked the page. -/
theorem run_tables_shared :
    ∃ a page gathered,
      sharedSpaces.resolution (run (sharedSpaces, sharedTables) sharedRun).2 true 0 =
        .page a page gathered ∧ page.used = true ∧ page.modified = true :=
  ((run_tables sharedSpaces sharedTables sharedRun rfl
    (tablesFixed_of_direct _ sharedTables_direct _)).2 [.translate 0 1 false] 0 5 true
      (List.prefix_refl _)).2 rfl (by decide +kernel)

end Mmu

end Apollo.M68040
