import Apollo.Lib.Slots
import Apollo.M68040.Registers
import Apollo.M68040.Search

/-!
# The address translation caches of the MC68040

`src/core/cpu/m68040/ap_m68040_atc.c`: sixteen sets of four ways. The set and the tag of an
address together are its page number, and a set is a small store whose keys are tags with
an address space.
-/

namespace Apollo.M68040

open Apollo.Lib

/-- `AP_M68040_ATC_SETS`. -/
abbrev atcSets : Nat := 16

/-- `AP_M68040_ATC_WAYS`. -/
abbrev atcWays : Nat := 4

/-- `ap_m68040_atc_entry_t`. -/
structure AtcEntry where
  valid : Bool := false
  global : Bool := false
  supervisorSpace : Bool := false
  logicalTag : BitVec 32 := 0
  userAttribute1 : Bool := false
  userAttribute0 : Bool := false
  supervisor : Bool := false
  cacheMode : CacheMode := .cachableWriteThrough
  modified : Bool := false
  writeProtect : Bool := false
  resident : Bool := false
  physicalAddress : BitVec 32 := 0
deriving DecidableEq

/-- `ap_m68040_atc_t`. -/
structure Atc where
  entry : Vector (Vector AtcEntry atcWays) atcSets
  counter : BitVec 32
deriving DecidableEq

/-- `page_number`. -/
def pageNumber (address : BitVec 32) (pageSize : PageSize) : BitVec 32 :=
  address >>> (match pageSize with | .page8K => 13 | .page4K => 12)

/-- `ap_m68040_atc_set`. -/
def atcSet (address : BitVec 32) (pageSize : PageSize) : Fin atcSets :=
  ⟨(pageNumber address pageSize &&& 0xF).toNat, by
    rw [BitVec.toNat_and]
    exact Nat.lt_succ_of_le Nat.and_le_right⟩

/-- `ap_m68040_atc_tag`. -/
def atcTag (address : BitVec 32) (pageSize : PageSize) : BitVec 32 :=
  pageNumber address pageSize >>> 4

namespace Atc

/-- `ap_m68040_atc_init`. -/
def init : Atc := { entry := .replicate atcSets (.replicate atcWays {}), counter := 0 }

/-- The set of an address. -/
def setAt (atc : Atc) (address : BitVec 32) (pageSize : PageSize) : Vector AtcEntry atcWays :=
  atc.entry[(atcSet address pageSize).val]

/-- The same cache with that set replaced. -/
def setSet (atc : Atc) (address : BitVec 32) (pageSize : PageSize)
    (ways : Vector AtcEntry atcWays) : Atc :=
  { atc with entry := atc.entry.set (atcSet address pageSize) ways }

/-- `ap_m68040_atc_lookup`; a miss is `none` rather than one more than the last way. -/
def lookup (atc : Atc) (address : BitVec 32) (supervisor : Bool) (pageSize : PageSize) :
    Option (Fin atcWays) :=
  Slots.first
    (fun e => e.valid && e.logicalTag == atcTag address pageSize &&
      e.supervisorSpace == supervisor)
    (atc.setAt address pageSize)

/-- `counter & 0x3`. -/
def victim (atc : Atc) : Fin atcWays :=
  ⟨(atc.counter &&& 3).toNat, by
    rw [BitVec.toNat_and]
    exact Nat.lt_succ_of_le Nat.and_le_right⟩

/-- `ap_m68040_atc_select_way`. -/
def selectWay (atc : Atc) (address : BitVec 32) (supervisor : Bool) (pageSize : PageSize) :
    Fin atcWays :=
  match atc.lookup address supervisor pageSize with
  | some held => held
  | none =>
    match Slots.first (fun e : AtcEntry => !e.valid) (atc.setAt address pageSize) with
    | some free => free
    | none => atc.victim

/-- `ap_m68040_atc_tick`. -/
def tick (atc : Atc) : Atc := { atc with counter := (atc.counter + 1) &&& 3 }

/-- `ap_m68040_atc_fill`. -/
def fill (atc : Atc) (way : Fin atcWays) (address : BitVec 32) (pageSize : PageSize)
    (entry : AtcEntry) : Atc :=
  atc.setSet address pageSize ((atc.setAt address pageSize).set way
    { entry with valid := true, logicalTag := atcTag address pageSize })

/-- `ap_m68040_atc_flush_all`. -/
def flushAll (atc : Atc) : Atc :=
  { atc with entry := atc.entry.map fun ways => ways.map fun e => { e with valid := false } }

/-- `ap_m68040_atc_flush_nonglobal`. -/
def flushNonglobal (atc : Atc) (supervisor : Bool) : Atc :=
  { atc with
    entry := atc.entry.map fun ways => ways.map fun e =>
      if !e.valid || e.supervisorSpace != supervisor then e
      else if e.global then e
      else { e with valid := false } }

/-- `ap_m68040_atc_flush_page`. -/
def flushPage (atc : Atc) (address : BitVec 32) (supervisor : Bool) (pageSize : PageSize)
    (nonglobalOnly : Bool) : Atc :=
  match atc.lookup address supervisor pageSize with
  | none => atc
  | some way =>
    let ways := atc.setAt address pageSize
    if nonglobalOnly && ways[way.val].global then atc
    else atc.setSet address pageSize (ways.set way { ways[way.val] with valid := false })

end Atc

namespace Atc

variable {atc : Atc} {address : BitVec 32} {supervisor : Bool} {pageSize : PageSize}

theorem setAt_setSet_eq (ways : Vector AtcEntry atcWays) (a : BitVec 32) :
    (atc.setSet address pageSize ways).setAt a pageSize =
      if atcSet address pageSize = atcSet a pageSize then ways else atc.setAt a pageSize := by
  unfold setAt setSet
  rw [Vector.getElem_set]
  by_cases h : atcSet address pageSize = atcSet a pageSize
  · rw [if_pos h, if_pos (congrArg Fin.val h)]
  · rw [if_neg h, if_neg (fun hval => h (Fin.ext hval))]

theorem setAt_setSet (ways : Vector AtcEntry atcWays) :
    (atc.setSet address pageSize ways).setAt address pageSize = ways := by
  rw [setAt_setSet_eq, if_pos rfl]

theorem setAt_congr {a b : BitVec 32} (h : atcSet a pageSize = atcSet b pageSize) :
    atc.setAt a pageSize = atc.setAt b pageSize := by
  simp only [setAt, h]

/-- A new entry goes where the old one of its page was, or where no entry of its page is
found: a lookup finds it. -/
theorem lookup_fill (entry : AtcEntry) (hspace : entry.supervisorSpace = supervisor) :
    (atc.fill (atc.selectWay address supervisor pageSize) address pageSize entry).lookup address
      supervisor pageSize = some (atc.selectWay address supervisor pageSize) := by
  rw [lookup, fill, setAt_setSet, Slots.first_eq_some_iff, Slots.getElem_set, if_pos rfl]
  refine ⟨by simp [hspace], fun j hj => ?_⟩
  rw [Slots.getElem_set, if_neg (ne_of_gt hj)]
  unfold selectWay at hj
  split at hj
  · next held hheld =>
    rw [lookup, Slots.first_eq_some_iff] at hheld
    exact hheld.2 j hj
  · next hmiss =>
    rw [lookup, Slots.first_eq_none] at hmiss
    exact hmiss j

end Atc

/-!
## Translation by the MC68040 MMU

`src/core/cpu/m68040/ap_m68040_mmu.c` and `ap_m68040_ptest.c`. The registers and the
translation cache are one structure here; the C code has pointers to them.
-/

variable {τ : Type}

/-- `ap_m68040_mmu_t`. -/
structure Mmu where
  tc : BitVec 32
  ttr : Vector (BitVec 32) 2
  urp : BitVec 32
  srp : BitVec 32
  atc : Atc

/-- `ap_m68040_mmu_status_t`. -/
inductive MmuStatus
  | untranslated
  | transparent
  | translated
  | fault
deriving DecidableEq

/-- Why a fault faulted. -/
inductive MmuFault
  | none
  | cached
  | notResident
  | protection
  | searchBus
deriving DecidableEq

/-- `ap_m68040_mmu_result_t`. -/
structure MmuResult where
  status : MmuStatus
  physical : BitVec 32
  cacheMode : CacheMode := .cachableWriteThrough
  fetches : Nat := 0
  filled : Bool := false
  reason : MmuFault := .none
deriving DecidableEq

namespace Mmu

/-- The first transparent translation register whose block the access is in. -/
def transparentBlock (mmu : Mmu) (logical functionCode : BitVec 32) : Option Ttr :=
  (mmu.ttr.toList.map Ttr.decode).find? (·.matches logical functionCode)

/-- The translation control register. -/
def tcr (mmu : Mmu) : Tcr := Tcr.decode (mmu.tc.setWidth 16)

/-- The privilege of an access. -/
def supervisorOf (functionCode : BitVec 32) : Bool := functionCode.getLsbD 2

/-- The search an access pays for. -/
def searchConfig (mmu : Mmu) (supervisor write : Bool) : SearchConfig :=
  { rootPointer := if supervisor then mmu.srp else mmu.urp
    pageSize := mmu.tcr.pageSize
    write
    supervisor }

/-- The entry that a search leaves in the translation cache. -/
def entryOf (search : SearchResult) (logical : BitVec 32) (supervisor : Bool)
    (pageSize : PageSize) : AtcEntry :=
  { valid := true
    global := search.global
    supervisorSpace := supervisor
    logicalTag := atcTag logical pageSize
    userAttribute1 := search.userAttribute1
    userAttribute0 := search.userAttribute0
    supervisor := search.supervisor
    cacheMode := search.cacheMode
    modified := search.modified
    writeProtect := search.writeProtect
    resident := search.status = .resident
    physicalAddress := search.physicalAddress &&& ~~~(pageSize.bytes - 1) }

/-- The translation cache after a search, and whether an entry was made: every outcome but a
transfer error is kept. -/
def keep (atc : Atc) (search : SearchResult) (logical : BitVec 32) (supervisor : Bool)
    (pageSize : PageSize) : Bool × Atc :=
  if search.status = .busError then (false, atc)
  else
    (true, (atc.fill (atc.selectWay logical supervisor pageSize) logical pageSize
      (entryOf search logical supervisor pageSize)).tick)

/-- What an access gets from an entry of the translation cache: a fault, a translation, or,
for the first write to a page, nothing. -/
def answerOf (entry : AtcEntry) (logical : BitVec 32) (supervisor write : Bool)
    (pageSize : PageSize) : Option MmuResult :=
  if !entry.resident || (entry.supervisor && !supervisor) || (write && entry.writeProtect) then
    some { status := .fault, physical := logical, reason := .cached }
  else if !write || entry.modified then
    some
      { status := .translated
        physical := entry.physicalAddress ||| pageOffset logical pageSize
        cacheMode := entry.cacheMode }
  else none

/-- What an access gets from a table search. -/
def verdictOf (search : SearchResult) (logical : BitVec 32) (supervisor write filled : Bool) :
    MmuResult :=
  if search.status ≠ .resident || (search.supervisor && !supervisor) ||
      (write && search.writeProtect) then
    { status := .fault
      physical := logical
      fetches := search.fetches
      filled
      reason :=
        if search.status = .busError then .searchBus
        else if search.status ≠ .resident then .notResident
        else .protection }
  else
    { status := .translated
      physical := search.physicalAddress
      cacheMode := search.cacheMode
      fetches := search.fetches
      filled }

/-- `ap_m68040_mmu_translate`. -/
def translate (cb : Callbacks τ) (mmu : Mmu) (logical functionCode : BitVec 32) (write : Bool)
    (t : τ) : MmuResult × Mmu × τ :=
  match mmu.transparentBlock logical functionCode with
  | some ttr =>
    if write && ttr.writeProtect then
      ({ status := .fault, physical := logical, reason := .protection }, mmu, t)
    else
      ({ status := .transparent, physical := logical, cacheMode := ttr.cacheMode }, mmu, t)
  | none =>
    if !mmu.tcr.enable then ({ status := .untranslated, physical := logical }, mmu, t)
    else
      let supervisor := supervisorOf functionCode
      let pageSize := mmu.tcr.pageSize
      let cached :=
        match mmu.atc.lookup logical supervisor pageSize with
        | some way => answerOf ((mmu.atc.setAt logical pageSize).get way) logical supervisor write pageSize
        | none => none
      match cached with
      | some out => (out, mmu, t)
      | none =>
        let (search, t) := search cb (mmu.searchConfig supervisor write) logical t
        let (filled, atc) := keep mmu.atc search logical supervisor pageSize
        (verdictOf search logical supervisor write filled, { mmu with atc }, t)

end Mmu

/-- `ap_m68040_ptest_result_t`. -/
structure PtestResult where
  mmusr : Mmusr := {}
  defined : Bool := false
  fetches : Nat := 0
  filled : Bool := false

/-- `ap_m68040_ptest`. -/
def Mmu.ptest (cb : Callbacks τ) (mmu : Mmu) (logical functionCode : BitVec 32) (write : Bool)
    (t : τ) : PtestResult × Mmu × τ :=
  if functionCode ≠ 1 ∧ functionCode ≠ 2 ∧ functionCode ≠ 5 ∧ functionCode ≠ 6 then ({}, mmu, t)
  else
    match mmu.transparentBlock logical functionCode with
    | some _ => ({ mmusr := .ofTransparent, defined := true }, mmu, t)
    | none =>
      if !mmu.tcr.enable then ({}, mmu, t)
      else
        let supervisor := supervisorOf functionCode
        let pageSize := mmu.tcr.pageSize
        let atc := mmu.atc.flushPage logical supervisor pageSize false
        let (search, t) := search cb (mmu.searchConfig supervisor write) logical t
        let (filled, atc) := keep atc search logical supervisor pageSize
        let mmu := { mmu with atc }
        if search.status = .busError then
          ({ mmusr := .ofBusError, defined := true, fetches := search.fetches, filled }, mmu, t)
        else
          ({ mmusr :=
              { physicalAddress := search.physicalAddress &&& 0xFFFFF000
                global := search.global
                userAttribute1 := search.userAttribute1
                userAttribute0 := search.userAttribute0
                supervisor := search.supervisor
                cacheMode := search.cacheMode
                modified := search.modified
                writeProtect := search.writeProtect
                resident := search.status = .resident }
             defined := true
             fetches := search.fetches
             filled }, mmu, t)

/-!
## PTEST predicts the access

`ap_m68040_ptest` and `ap_m68040_mmu_translate` search apart. `ptest_predicts` says that the
register the one builds tells what the other does next: whether it faults, where it goes, and
that it searches no more.
-/

variable {τ : Type}

/-- The register says that a page is missing, or refuses the access. -/
def Mmusr.refuses (mmusr : Mmusr) (supervisor write : Bool) : Bool :=
  !mmusr.transparent &&
    (!mmusr.resident || (mmusr.supervisor && !supervisor) || (mmusr.writeProtect && write))

/-- The physical address that the register says. -/
def Mmusr.physical (mmusr : Mmusr) (logical : BitVec 32) (pageSize : PageSize) : BitVec 32 :=
  if mmusr.transparent then logical else mmusr.physicalAddress ||| pageOffset logical pageSize

namespace Mmu

theorem cached_keep (atc : Atc) {search : SearchResult} (logical : BitVec 32) (supervisor : Bool)
    (pageSize : PageSize) (h : search.status ≠ .busError) :
    ∃ way, (keep atc search logical supervisor pageSize).2.lookup logical supervisor pageSize =
        some way ∧
      (((keep atc search logical supervisor pageSize).2.setAt logical pageSize).get way) =
        entryOf search logical supervisor pageSize := by
  rw [keep, if_neg h]
  refine ⟨_, Atc.lookup_fill (entryOf search logical supervisor pageSize) rfl, ?_⟩
  show ((atc.fill _ logical pageSize _).setAt logical pageSize).get _ = _
  rw [Atc.fill, Atc.setAt_setSet, Apollo.Lib.Slots.get_set, if_pos rfl]
  rfl

theorem answerOf_entry {search : SearchResult} (config : SearchConfig) (logical : BitVec 32)
    (mmusr : Mmusr)
    (hsearch : search.status = .invalid ∨ ∃ raw, pdtOf raw = .resident ∧
      AtPage config logical true (pageDescriptor raw config.pageSize) search)
    (hmmusr : mmusr.transparent = false ∧ mmusr.resident = decide (search.status = .resident) ∧
      mmusr.supervisor = search.supervisor ∧ mmusr.writeProtect = search.writeProtect ∧
      mmusr.physicalAddress = search.physicalAddress &&& 0xFFFFF000) :
    ∃ out, answerOf (entryOf search logical config.supervisor config.pageSize) logical
        config.supervisor config.write config.pageSize = some out ∧
      (out.status = .fault ↔ mmusr.refuses config.supervisor config.write = true) ∧
      (out.status ≠ .fault → out.physical = mmusr.physical logical config.pageSize) ∧
      out.fetches = 0 := by
  obtain ⟨htransparent, hresident, hsupervisor, hprotect, hphysical⟩ := hmmusr
  rw [Mmusr.refuses, Mmusr.physical, htransparent, hresident, hsupervisor, hprotect, hphysical,
    if_neg (by decide), Bool.not_false, Bool.true_and, Bool.and_comm search.writeProtect]
  unfold answerOf
  by_cases hrefused : (!decide (search.status = .resident) || search.supervisor &&
      !config.supervisor || config.write && search.writeProtect) = true
  · rw [hrefused]
    exact ⟨_, if_pos hrefused, ⟨fun _ => rfl, fun _ => rfl⟩, fun h => absurd rfl h, rfl⟩
  · rw [Bool.not_eq_true] at hrefused
    rw [hrefused]
    rcases hsearch with hinvalid | ⟨raw, htype, hpage⟩
    · rw [hinvalid] at hrefused
      cases hrefused
    · simp only [Bool.or_eq_false_iff, Bool.and_eq_false_iff, Bool.not_eq_false'] at hrefused
      obtain ⟨⟨-, hprivilege⟩, hwritable⟩ := hrefused
      have hmodified : (!config.write || search.modified) = true := by
        have hbits : ∀ w p s u m : Bool, (s = false ∨ u = true) → (w = false ∨ p = false) →
            (!w || (m || (true && w && !m && !p && !(s && !u)))) = true := by
          decide
        rw [hpage.modified, ← hpage.supervisor]
        exact hbits _ _ _ _ _ hprivilege hwritable
      have hplace : search.physicalAddress = (raw &&& config.pageSize.frameMask) |||
          pageOffset logical config.pageSize := by
        rw [hpage.physicalAddress, pageDescriptor, htype]
        rfl
      obtain ⟨hentry, hregister⟩ := merge_eq raw logical config.pageSize
      have hanswer : (!(entryOf search logical config.supervisor config.pageSize).resident ||
          (entryOf search logical config.supervisor config.pageSize).supervisor &&
            !config.supervisor ||
          config.write &&
            (entryOf search logical config.supervisor config.pageSize).writeProtect) = false := by
        simp only [entryOf, hpage.status, Bool.or_eq_false_iff, Bool.and_eq_false_iff,
          Bool.not_eq_false']
        exact ⟨⟨rfl, hprivilege⟩, hwritable⟩
      refine ⟨_, (if_neg (by rw [hanswer]; decide)).trans (if_pos hmodified), ?_, fun _ => ?_, rfl⟩
      · exact iff_of_false (fun h => by cases h) (fun h => by cases h)
      · show (search.physicalAddress &&& ~~~(config.pageSize.bytes - 1)) ||| _ = _
        rw [hplace, hentry, hregister]

theorem translate_cached (cb : Callbacks τ) (mmu : Mmu) {logical functionCode : BitVec 32}
    (write : Bool) (t : τ) {way : Fin atcWays} {out : MmuResult}
    (hblock : mmu.transparentBlock logical functionCode = none) (henable : mmu.tcr.enable = true)
    (hlookup : mmu.atc.lookup logical (supervisorOf functionCode) mmu.tcr.pageSize = some way)
    (hanswer : answerOf ((mmu.atc.setAt logical mmu.tcr.pageSize).get way) logical
      (supervisorOf functionCode) write mmu.tcr.pageSize = some out) :
    mmu.translate cb logical functionCode write t = (out, mmu, t) := by
  unfold translate
  rw [hblock]
  dsimp only
  rw [if_neg (by rw [henable]; decide), hlookup]
  dsimp only
  rw [hanswer]

/-- PTEST PREDICTS THE ACCESS: the access made next with the same address, function code and
direction faults exactly if the register refuses it or the transparent block it is in is
write protected against it; otherwise it goes where the register says; and if the tables
answered it searches no more. -/
theorem ptest_predicts {cb : Callbacks τ} (hcb : NeverFails cb) (hupdate : cb.update.isSome = true)
    (mmu : Mmu) (logical functionCode : BitVec 32) (write : Bool) (t : τ)
    (hdefined : (mmu.ptest cb logical functionCode write t).1.defined = true) :
    let mmusr := (mmu.ptest cb logical functionCode write t).1.mmusr
    let tested := (mmu.ptest cb logical functionCode write t).2
    let access := tested.1.translate cb logical functionCode write tested.2
    (access.1.status = .fault ↔ mmusr.refuses (supervisorOf functionCode) write = true ∨
      ∃ ttr, mmu.transparentBlock logical functionCode = some ttr ∧ ttr.writeProtect = true ∧
        write = true) ∧
    (access.1.status ≠ .fault → access.1.physical = mmusr.physical logical mmu.tcr.pageSize) ∧
    (mmusr.transparent = false → access.1.fetches = 0 ∧ access.2 = tested) := by
  unfold ptest at hdefined ⊢
  split at hdefined
  · cases hdefined
  · next hcode =>
    rw [if_neg hcode]
    cases hblock : mmu.transparentBlock logical functionCode with
    | some ttr =>
      dsimp only
      unfold translate
      rw [hblock]
      dsimp only
      refine ⟨?_, ?_, nofun⟩
      · split
        · next hprotected =>
          rw [Bool.and_eq_true] at hprotected
          exact iff_of_true rfl (.inr ⟨ttr, rfl, hprotected.2, hprotected.1⟩)
        · next hallowed =>
          refine iff_of_false nofun ?_
          rintro (hrefused | ⟨_, ⟨⟩, hprotected, hwrite⟩)
          · cases hrefused
          · rw [hwrite, hprotected] at hallowed
            exact hallowed rfl
      · intro _
        split <;> rfl
    | none =>
      rw [hblock] at hdefined
      dsimp only at hdefined ⊢
      split at hdefined
      · cases hdefined
      · next henable =>
        rw [if_neg henable]
        rcases hsearch : search cb (mmu.searchConfig (supervisorOf functionCode) write) logical t
          with ⟨found, t'⟩
        have hcases := search_cases cb (mmu.searchConfig (supervisorOf functionCode) write) logical t
        rw [hsearch, hupdate] at hcases
        dsimp only at hcases
        have hcases := hcases.resolve_left fun h => h.2 hcb
        have hdone : found.status ≠ .busError := by
          rcases hcases with hinvalid | ⟨raw, -, hpage⟩
          · rw [hinvalid]
            decide
          · rw [hpage.status]
            decide
        dsimp only
        rw [if_neg hdone]
        dsimp only
        obtain ⟨way, hlookup, hentry⟩ := cached_keep (mmu.atc.flushPage logical
          (supervisorOf functionCode) mmu.tcr.pageSize false) logical (supervisorOf functionCode)
          mmu.tcr.pageSize hdone
        obtain ⟨out, hanswer, hfault, hphysical, hfetches⟩ := answerOf_entry
          (mmu.searchConfig (supervisorOf functionCode) write) logical
            { physicalAddress := found.physicalAddress &&& 0xFFFFF000
              global := found.global
              userAttribute1 := found.userAttribute1
              userAttribute0 := found.userAttribute0
              supervisor := found.supervisor
              cacheMode := found.cacheMode
              modified := found.modified
              writeProtect := found.writeProtect
              resident := found.status = .resident } hcases ⟨rfl, rfl, rfl, rfl, rfl⟩
        have henabled : mmu.tcr.enable = true := by simpa using henable
        have htranslate := translate_cached cb
          { mmu with
            atc := (keep (mmu.atc.flushPage logical (supervisorOf functionCode) mmu.tcr.pageSize
              false) found logical (supervisorOf functionCode) mmu.tcr.pageSize).2 }
          write t' hblock henabled hlookup ((congrArg (answerOf · _ _ _ _) hentry).trans hanswer)
        rw [htranslate]
        refine ⟨hfault.trans (iff_self_or.2 ?_), hphysical, fun _ => ⟨hfetches, rfl⟩⟩
        rintro ⟨_, ⟨⟩, -⟩

/-! ## Where it does not -/

/-- Descriptors that lead to a page from everywhere. -/
def onePage : Callbacks Unit :=
  { fetch := fun _ _ => (some 0x2003, ())
    update := some fun _ _ _ _ _ => (true, ()) }

/-- Everything is in both transparent blocks, of which the second is write protected. -/
def twoBlocks : Mmu :=
  { tc := 0x8000, ttr := #v[0x00FFC000, 0x00FFC004], urp := 0, srp := 0, atc := .init }

/-- A translation that is on, and no transparent block. -/
def noBlock : Mmu := { tc := 0x8000, ttr := #v[0, 0], urp := 0, srp := 0, atc := .init }

theorem onePage_neverFails : NeverFails onePage where
  fetch _ _ := rfl
  update := by
    rintro update ⟨⟩ t address used modified locked
    rfl

/-- A write that is in two transparent blocks goes by the first, though the second is write
protected. And without an update callback the first write to a page that was tested searches
again. -/
theorem ptest_mispredicts :
    ((twoBlocks.ptest onePage 0 5 true ()).1.defined = true ∧
      (Ttr.decode twoBlocks.ttr[1]).matches 0 5 = true ∧
      (Ttr.decode twoBlocks.ttr[1]).writeProtect = true ∧
      ((twoBlocks.ptest onePage 0 5 true ()).2.1.translate onePage 0 5 true ()).1.status ≠
        .fault) ∧
    ((noBlock.ptest { onePage with update := none } 0 5 true ()).1.mmusr.resident = true ∧
      ((noBlock.ptest { onePage with update := none } 0 5 true ()).2.1.translate
        { onePage with update := none } 0 5 true ()).1.fetches ≠ 0) := by
  decide +kernel

theorem ptest_predicts_onePage :
    let mmusr := (noBlock.ptest onePage 0x123 5 true ()).1.mmusr
    let tested := (noBlock.ptest onePage 0x123 5 true ()).2
    let access := tested.1.translate onePage 0x123 5 true tested.2
    (access.1.status = .fault ↔ mmusr.refuses (supervisorOf 5) true = true ∨
      ∃ ttr, noBlock.transparentBlock 0x123 5 = some ttr ∧ ttr.writeProtect = true ∧
        true = true) ∧
    (access.1.status ≠ .fault → access.1.physical = mmusr.physical 0x123 noBlock.tcr.pageSize) ∧
    (mmusr.transparent = false → access.1.fetches = 0 ∧ access.2 = tested) :=
  ptest_predicts onePage_neverFails rfl noBlock 0x123 5 true () (by decide +kernel)

end Mmu

end Apollo.M68040
