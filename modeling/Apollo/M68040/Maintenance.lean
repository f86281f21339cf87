import Apollo.Lib.LowBits
import Apollo.M68030.Regs
import Apollo.M68040.Cache

/-!
# The cache instructions of the MC68040

`CINV` and `CPUSH` in `ap_m68030_step` of `src/core/cpu/m68030/ap_m68030_step.c`. The low bits of
the word name an address register, a scope (a line, a page or everything), whether dirty lines
are to be written back, and which of the two caches are meant.

`Covered` is what such an instruction is for: of the caches that it names no valid line is left
in its scope, the others are as they were, and a push has written every dirty long word. The page
of a 68040 is 4 or 8 Kbytes, by bit 14 of `tc_040`; the code takes its length from the page size
of the 68030's translation control instead. `Held` is the exact condition under which the scope
is covered all the same (`cacheMaintenance_covers`).

Clocks and counters are left out. A write cycle that is refused ends the instruction.
-/

namespace Apollo.M68040

open Apollo.Lib

namespace Cache

/-- `ap_m68040_cache_invalidate_page`: how many lines, and the cache. -/
def invalidatePage (cache : Cache) (address pageBytes : BitVec 32) : Nat × Cache :=
  if pageBytes = 0 then (0, cache)
  else (cache.count (inPage address pageBytes), cache.dropWhere (inPage address pageBytes))

/-- `ap_m68040_cache_invalidate_all`. -/
def invalidateAll (cache : Cache) : Cache :=
  { cache with line := cache.line.map fun set => set.map CacheLine.drop }

/-- The `switch` over the scope of a push, and the one of an invalidation. -/
def maintain (cache : Cache) (push : Bool) (scope : CacheScope) (address pageBytes : BitVec 32) :
    Cache :=
  if push then
    match scope with
    | .line => (cache.pushLine address).2.2
    | .page => (cache.pushPage address pageBytes).2.2
    | .all => cache.pushAll.2.2
  else
    match scope with
    | .line => (cache.invalidateLine address).2
    | .page => (cache.invalidatePage address pageBytes).2
    | .all => cache.invalidateAll

/-- No line of the cache has anything to write back, as in an instruction cache. -/
def Clean (cache : Cache) : Prop :=
  ∀ set way, hasWriteback (cache.lineIn set way) = false

/-- Where the line in a way of a set is in memory. -/
def baseIn (cache : Cache) (set : Fin cacheSets) (way : Fin cacheWays) : BitVec 32 :=
  lineBase (cache.lineIn set way).tag set

end Cache

namespace Cache

variable {cache : Cache} {address : BitVec 32}

theorem lineIn_dropWhere (p : Fin cacheSets → CacheLine → Bool) (set : Fin cacheSets)
    (way : Fin cacheWays) :
    (cache.dropWhere p).lineIn set way =
      if p set (cache.lineIn set way) then (cache.lineIn set way).drop
      else cache.lineIn set way := by
  unfold lineIn dropWhere
  dsimp only
  rw [Fin.getElem_fin, Fin.getElem_fin, Vector.getElem_ofFn, Vector.getElem_map]
  rfl

theorem lineIn_setLine (set set' : Fin cacheSets) (way way' : Fin cacheWays) (line : CacheLine) :
    (cache.setLine set way line).lineIn set' way' =
      if set = set' ∧ way = way' then line else cache.lineIn set' way' := by
  unfold lineIn
  rw [line_setLine]
  by_cases hset : set = set'
  · subst hset
    rw [if_pos rfl, Slots.getElem_set]
    by_cases hway : way = way'
    · rw [if_pos hway, if_pos ⟨rfl, hway⟩]
    · rw [if_neg hway, if_neg fun hall => hway hall.2]
  · rw [if_neg hset, if_neg fun hall => hset hall.1]

/-- The lines that the code's scope reaches: of a line of memory only the first way that has it,
of a page the valid ones with its address bits. -/
def InReach (cache : Cache) (scope : CacheScope) (address pageBytes : BitVec 32)
    (set : Fin cacheSets) (way : Fin cacheWays) : Prop :=
  match scope with
  | .line => set = cacheSet address ∧ cache.lookup address = some way
  | .page =>
    (cache.lineIn set way).valid = true ∧ scope.has address pageBytes (cache.baseIn set way) = true
  | .all => True

/-- What becomes of a line: in reach it ends up invalid, and out of reach it is as it was. -/
def Kept (reached : Prop) (line after : CacheLine) : Prop :=
  (reached → after.valid = false) ∧ (¬ reached → after = line)

theorem kept_lookup (set : Fin cacheSets) (way : Fin cacheWays) {after : Cache}
    (hmiss : cache.lookup address = none → after = cache)
    (hhit : ∀ found, cache.lookup address = some found → after = cache.setLine (cacheSet address)
      found (cache.lineIn (cacheSet address) found).drop) :
    Kept (set = cacheSet address ∧ cache.lookup address = some way) (cache.lineIn set way)
      (after.lineIn set way) := by
  cases hlookup : cache.lookup address with
  | none =>
    rw [hmiss hlookup]
    exact ⟨fun hreach => (nomatch hreach.2), fun _ => rfl⟩
  | some found =>
    rw [hhit found hlookup, lineIn_setLine]
    refine ⟨fun ⟨hset, hway⟩ => ?_, fun hout => ?_⟩
    · rw [if_pos ⟨hset.symm, Option.some.inj hway⟩]
      rfl
    · rw [if_neg fun ⟨hset, hway⟩ => hout ⟨hset.symm, congrArg some hway⟩]

theorem kept_page {pageBytes : BitVec 32} (hbytes : pageBytes ≠ 0) (set : Fin cacheSets)
    (way : Fin cacheWays) :
    Kept (cache.InReach .page address pageBytes set way) (cache.lineIn set way)
      ((cache.dropWhere (inPage address pageBytes)).lineIn set way) := by
  have hhas : CacheScope.page.has address pageBytes (cache.baseIn set way) =
      ((cache.baseIn set way &&& ~~~(pageBytes - 1)) == (address &&& ~~~(pageBytes - 1))) := by
    unfold CacheScope.has
    rw [bne_iff_ne.2 hbytes, Bool.true_and]
  have hpage : inPage address pageBytes set (cache.lineIn set way) = true ↔
      cache.InReach .page address pageBytes set way := by
    unfold InReach
    dsimp only
    rw [hhas, ← Bool.and_eq_true]
    rfl
  rw [lineIn_dropWhere]
  refine ⟨fun hreach => ?_, fun hout => ?_⟩
  · rw [if_pos (hpage.2 hreach)]
    rfl
  · rw [if_neg fun hin => hout (hpage.1 hin)]

/-- A LINE AFTER THE INSTRUCTION. -/
theorem kept_maintain (push : Bool) (scope : CacheScope) {pageBytes : BitVec 32}
    (hbytes : pageBytes ≠ 0) (set : Fin cacheSets) (way : Fin cacheWays) :
    Kept (cache.InReach scope address pageBytes set way) (cache.lineIn set way)
      ((cache.maintain push scope address pageBytes).lineIn set way) := by
  have hall : Kept (cache.InReach .all address pageBytes set way) (cache.lineIn set way)
      ((cache.maintain push .all address pageBytes).lineIn set way) := by
    refine ⟨fun _ => ?_, fun hout => absurd trivial hout⟩
    cases push with
    | true =>
      show ((cache.dropWhere fun _ line => line.valid).lineIn set way).valid = false
      rw [lineIn_dropWhere]
      cases hvalid : (cache.lineIn set way).valid with
      | true => rfl
      | false => exact hvalid
    | false =>
      show (((cache.line.map fun set => set.map CacheLine.drop)[set])[way]).valid = false
      rw [Fin.getElem_fin, Fin.getElem_fin, Vector.getElem_map, Vector.getElem_map]
      rfl
  cases scope with
  | all => exact hall
  | line =>
    refine kept_lookup set way (fun hmiss => ?_) fun found hfound => ?_
    · cases push with
      | true => simp [maintain, pushLine, hmiss]
      | false => simp [maintain, invalidateLine, hmiss]
    · cases push with
      | true => simp [maintain, pushLine, hfound]
      | false => simp [maintain, invalidateLine, hfound]
  | page =>
    have hpage : cache.maintain push .page address pageBytes =
        cache.dropWhere (inPage address pageBytes) := by
      cases push with
      | true =>
        show (cache.pushPage address pageBytes).2.2 = _
        rw [pushPage, if_neg hbytes]
      | false =>
        show (cache.invalidatePage address pageBytes).2 = _
        rw [invalidatePage, if_neg hbytes]
    rw [hpage]
    exact kept_page hbytes set way

theorem Clean.maintain (h : cache.Clean) (push : Bool) (scope : CacheScope) {pageBytes : BitVec 32}
    (hbytes : pageBytes ≠ 0) : (cache.maintain push scope address pageBytes).Clean := by
  intro set way
  obtain ⟨hreached, hout⟩ := @kept_maintain cache address push scope _ hbytes
    set way
  by_cases hreach : cache.InReach scope address pageBytes set way
  · simp [hasWriteback, CacheLine.writebackMask, hreached hreach]
  · rw [hout hreach]
    exact h set way

end Cache

/-! ## The scope -/

/-- What the scope is of memory: the line, the page or the whole of it. -/
def CacheScope.Covers (scope : CacheScope) (pageSize : PageSize) (address base : BitVec 32) : Prop :=
  match scope with
  | .line => base.toNat / 16 = address.toNat / 16
  | .page => base.toNat / pageSize.bytes.toNat = address.toNat / pageSize.bytes.toNat
  | .all => True

theorem covers_line (pageSize : PageSize) (address : BitVec 32) (tag : BitVec 22)
    (set : Fin cacheSets) :
    CacheScope.line.Covers pageSize address (lineBase tag set) ↔
      set = cacheSet address ∧ tag = cacheTag address := by
  have hset : set.val < 64 := set.isLt
  unfold CacheScope.Covers
  dsimp only
  rw [lineBase_toNat, Fin.ext_iff, ← BitVec.toNat_inj, cacheSet_val, cacheTag_toNat]
  omega

theorem has_line (pageSize : PageSize) (address pageBytes : BitVec 32) (tag : BitVec 22)
    (set : Fin cacheSets) :
    CacheScope.line.has address pageBytes (lineBase tag set) = true ↔
      CacheScope.line.Covers pageSize address (lineBase tag set) := by
  have hset : set.val < 64 := set.isLt
  have hset' : (cacheSet address).val < 64 := (cacheSet address).isLt
  rw [covers_line]
  unfold CacheScope.has
  rw [beq_iff_eq, and_not_fifteen, ← BitVec.toNat_inj, lineBase_toNat, lineBase_toNat, Fin.ext_iff,
    ← BitVec.toNat_inj]
  omega

/-- `1u << mmu_page_size_bits(cpu)`. -/
def mmuPageBytes (pageSizeBits : BitVec 4) : BitVec 32 := (1 : BitVec 32) <<< pageSizeBits.toNat

theorem mmuPageBytes_ne_zero (pageSizeBits : BitVec 4) : mmuPageBytes pageSizeBits ≠ 0 := by
  rw [Ne, ← BitVec.toNat_inj, mmuPageBytes,
    toNat_one_shiftLeft (pageSizeBits.isLt.trans (by decide))]
  exact (Nat.two_pow_pos _).ne'

theorem has_page (address base : BitVec 32) (pageSizeBits : BitVec 4) :
    CacheScope.page.has address (mmuPageBytes pageSizeBits) base = true ↔
      base.toNat / 2 ^ pageSizeBits.toNat = address.toNat / 2 ^ pageSizeBits.toNat := by
  have hbits : pageSizeBits.toNat < 32 := pageSizeBits.isLt.trans (by decide)
  have hhas : CacheScope.page.has address (mmuPageBytes pageSizeBits) base =
      ((base &&& ~~~((1 : BitVec 32) <<< pageSizeBits.toNat - 1)) ==
        (address &&& ~~~((1 : BitVec 32) <<< pageSizeBits.toNat - 1))) := by
    unfold CacheScope.has
    rw [bne_iff_ne.2 (mmuPageBytes_ne_zero pageSizeBits), Bool.true_and]
    rfl
  rw [hhas, beq_iff_eq, ← BitVec.toNat_inj, toNat_and_not_lowMask _ hbits,
    toNat_and_not_lowMask _ hbits]
  exact Nat.mul_left_inj (Nat.two_pow_pos _).ne'

/-- The lines in the code's reach are those of the scope, if of a line of memory no second way
has it and the pages have the same lines. -/
structure Reaches (cache : Cache) (scope : CacheScope) (pageSize : PageSize)
    (address : BitVec 32) (pageSizeBits : BitVec 4) : Prop where
  /-- No two ways of a set have the line of the address. -/
  single : scope = .line → ∀ way way', (cache.lineIn (cacheSet address) way).key =
    some (cacheTag address) → (cache.lineIn (cacheSet address) way').key =
    some (cacheTag address) → way = way'
  /-- A valid line is in the page if it agrees with the address from the 68030's page size on. -/
  page : scope = .page → ∀ set way, (cache.lineIn set way).valid = true →
    (scope.Covers pageSize address (cache.baseIn set way) ↔
      (cache.baseIn set way).toNat / 2 ^ pageSizeBits.toNat =
        address.toNat / 2 ^ pageSizeBits.toNat)

/-- What an instruction is to do to a cache that it names. -/
structure Dropped (scope : CacheScope) (pageSize : PageSize) (address : BitVec 32)
    (before after : Cache) : Prop where
  /-- No valid line is left in the scope. -/
  gone : ∀ set way, (after.lineIn set way).valid = true →
    ¬ scope.Covers pageSize address (after.baseIn set way)
  /-- A line outside it is as it was. -/
  kept : ∀ set way, ¬ scope.Covers pageSize address (before.baseIn set way) →
    after.lineIn set way = before.lineIn set way

theorem dropped_iff_reach {scope : CacheScope} {pageSize : PageSize} {address : BitVec 32}
    {before after : Cache} {reached : Fin cacheSets → Fin cacheWays → Prop}
    (hkept : ∀ set way, Cache.Kept (reached set way) (before.lineIn set way)
      (after.lineIn set way))
    (hreached : ∀ set way, reached set way → (before.lineIn set way).valid = true ∨
      scope.Covers pageSize address (before.baseIn set way)) :
    Dropped scope pageSize address before after ↔
      ∀ set way, ((before.lineIn set way).valid = true →
        scope.Covers pageSize address (before.baseIn set way) → reached set way) ∧
        (reached set way → scope.Covers pageSize address (before.baseIn set way)) := by
  constructor
  · rintro ⟨hgone, hsame⟩ set way
    obtain ⟨hdrop, hout⟩ := hkept set way
    refine ⟨fun hvalid hcovers => ?_, fun hreach => ?_⟩
    · by_contra hno
      refine hgone set way ?_ ?_
      · rwa [hout hno]
      · rwa [Cache.baseIn, hout hno]
    · rcases hreached set way hreach with hvalid | hcovers
      · by_contra hno
        rw [← hsame set way hno, hdrop hreach] at hvalid
        cases hvalid
      · exact hcovers
  · refine fun h => ⟨fun set way hvalid hcovers => ?_, fun set way hno => ?_⟩
    · obtain ⟨hdrop, hout⟩ := hkept set way
      by_cases hreach : reached set way
      · rw [hdrop hreach] at hvalid
        cases hvalid
      · rw [Cache.baseIn, hout hreach] at hcovers
        rw [hout hreach] at hvalid
        exact hreach ((h set way).1 hvalid hcovers)
    · exact (hkept set way).2 fun hreach => hno ((h set way).2 hreach)

theorem reaches_line (cache : Cache) (pageSize : PageSize) (address : BitVec 32) :
    (∀ set way, ((cache.lineIn set way).valid = true →
        CacheScope.line.Covers pageSize address (cache.baseIn set way) →
          set = cacheSet address ∧ cache.lookup address = some way) ∧
        (set = cacheSet address ∧ cache.lookup address = some way →
          CacheScope.line.Covers pageSize address (cache.baseIn set way))) ↔
      ∀ way way', (cache.lineIn (cacheSet address) way).key = some (cacheTag address) →
        (cache.lineIn (cacheSet address) way').key = some (cacheTag address) → way = way' := by
  have hfound : ∀ way, (cache.lineIn (cacheSet address) way).key = some (cacheTag address) →
      CacheScope.line.Covers pageSize address (cache.baseIn (cacheSet address) way) := fun way hkey =>
    (covers_line pageSize address _ _).2 ⟨rfl, (CacheLine.key_eq_some.1 hkey).2⟩
  constructor
  · intro h way way' hkey hkey'
    have hway := ((h _ way).1 (CacheLine.key_eq_some.1 hkey).1 (hfound way hkey)).2
    have hway' := ((h _ way').1 (CacheLine.key_eq_some.1 hkey').1 (hfound way' hkey')).2
    exact Option.some.inj (hway.symm.trans hway')
  · intro h set way
    refine ⟨fun hvalid hcovers => ?_, ?_⟩
    · obtain ⟨rfl, htag⟩ := (covers_line pageSize address _ _).1 hcovers
      have hkey : (cache.lineIn (cacheSet address) way).key = some (cacheTag address) :=
        CacheLine.key_eq_some.2 ⟨hvalid, htag⟩
      refine ⟨rfl, ?_⟩
      cases hlookup : cache.lookup address with
      | none =>
        rw [Cache.lookup_eq, Slots.first_eq_none] at hlookup
        exact absurd hkey (of_decide_eq_false (hlookup way))
      | some found => rw [h way found hkey (Cache.key_of_lookup hlookup)]
    · rintro ⟨rfl, hlookup⟩
      exact hfound way (Cache.key_of_lookup hlookup)

/-- A CACHE HAS ITS SCOPE DROPPED EXACTLY IF THE CODE REACHES THAT SCOPE. -/
theorem dropped_iff (cache : Cache) (push : Bool) (scope : CacheScope) (pageSize : PageSize)
    (address : BitVec 32) (pageSizeBits : BitVec 4) :
    Dropped scope pageSize address cache
        (cache.maintain push scope address (mmuPageBytes pageSizeBits)) ↔
      Reaches cache scope pageSize address pageSizeBits := by
  have hkept := @Cache.kept_maintain cache address push scope _
    (mmuPageBytes_ne_zero pageSizeBits)
  cases scope with
  | line =>
    rw [dropped_iff_reach hkept fun set way hreach =>
      .inl (CacheLine.key_eq_some.1 (by
        obtain ⟨rfl, hlookup⟩ := hreach
        exact Cache.key_of_lookup hlookup)).1]
    refine (reaches_line cache pageSize address).trans ⟨fun h => ⟨fun _ => h, nofun⟩, fun h => ?_⟩
    exact h.single rfl
  | page =>
    rw [dropped_iff_reach hkept fun set way hreach => .inl hreach.1]
    refine ⟨fun h => ⟨nofun, fun _ set way hvalid => ?_⟩, fun h set way => ?_⟩
    · rw [← has_page]
      exact ⟨fun hcovers => ((h set way).1 hvalid hcovers).2,
        fun hhas => (h set way).2 ⟨hvalid, hhas⟩⟩
    · refine ⟨fun hvalid hcovers => ⟨hvalid, ?_⟩, fun ⟨hvalid, hhas⟩ => ?_⟩
      · rw [has_page]
        exact (h.page rfl set way hvalid).1 hcovers
      · rw [has_page] at hhas
        exact (h.page rfl set way hvalid).2 hhas
  | all =>
    have hall : ∀ set way, CacheScope.all.Covers pageSize address (cache.baseIn set way) :=
      fun _ _ => trivial
    rw [dropped_iff_reach hkept fun set way _ => .inr (hall set way)]
    exact ⟨fun _ => ⟨nofun, nofun⟩, fun _ set way => ⟨fun _ _ => trivial, fun _ => trivial⟩⟩

/-! ## The writes of a push -/

/-- A write cycle of a long word. -/
structure LongWrite where
  address : BitVec 32
  value : BitVec 32
deriving DecidableEq

section Push

variable {τ : Type} {cb : AccessHooks τ} {log : τ → List LongWrite}

/-- The rest of the machine keeps the long words that it was given, in order. -/
def Records (cb : AccessHooks τ) (log : τ → List LongWrite) : Prop :=
  ∀ store, cb.store = some store → ∀ t address value,
    log (store t address value 4).2 =
      if (store t address value 4).1 then log t ++ [⟨address, value⟩] else log t

/-- Cycles reach it if there is a store callback. -/
def Reported (store : Option (τ → BitVec 32 → BitVec 32 → Nat → Bool × τ))
    (writes : List LongWrite) (before after : List LongWrite) : Prop :=
  after = before ++ if store.isSome then writes else []

theorem Reported.nil (store : Option (τ → BitVec 32 → BitVec 32 → Nat → Bool × τ))
    (before : List LongWrite) : Reported store [] before before := by
  unfold Reported
  rw [ite_self, List.append_nil]

theorem Reported.append {store : Option (τ → BitVec 32 → BitVec 32 → Nat → Bool × τ)}
    {writes writes' before between after : List LongWrite}
    (h : Reported store writes before between) (h' : Reported store writes' between after) :
    Reported store (writes ++ writes') before after := by
  unfold Reported at *
  rw [h', h]
  cases store.isSome <;> simp

/-- The cycle of a long word of a line. -/
def CacheLine.writeOf (line : CacheLine) (set : Fin cacheSets) (i : Fin cacheLineLongs) :
    LongWrite :=
  ⟨longAddress (lineBase line.tag set) i, line.data.get i⟩

theorem Records.pushLongs (h : Records cb log) (line : CacheLine) (set : Fin cacheSets)
    (longs : List (Fin cacheLineLongs)) (t : τ)
    (hdone : (pushLongs cb line (lineBase line.tag set) longs t).1 = none) :
    Reported cb.store (longs.map (line.writeOf set)) (log t)
      (log (pushLongs cb line (lineBase line.tag set) longs t).2) := by
  induction longs generalizing t with
  | nil => exact .nil _ _
  | cons i rest ih =>
    have hstep : Reported cb.store [line.writeOf set i] (log t)
        (log (storeCycle cb (longAddress (lineBase line.tag set) i) line.data[i] 4 t).2) ∨
        (storeCycle cb (longAddress (lineBase line.tag set) i) line.data[i] 4 t).1 = false := by
      unfold storeCycle Reported
      cases hstore : cb.store with
      | none => exact .inl (List.append_nil _).symm
      | some store =>
        dsimp only
        rw [h store hstore]
        cases (store t (longAddress (lineBase line.tag set) i) line.data[i] 4).1 with
        | false => exact .inr rfl
        | true => exact .inl rfl
    rw [M68040.pushLongs] at hdone ⊢
    generalize storeCycle cb (longAddress (lineBase line.tag set) i) line.data[i] 4 t = cycle
      at hdone hstep ⊢
    obtain ⟨done, t'⟩ := cycle
    cases done with
    | false => cases hdone
    | true =>
      rcases hstep with hwrite | hrefused
      · exact hwrite.append (ih t' hdone)
      · cases hrefused

theorem Records.pushLine (h : Records cb log) (line : CacheLine) (set : Fin cacheSets) (t : τ)
    (hdone : (pushLine cb line set t).1 = none) :
    Reported cb.store
      ((if Cache.hasWriteback line then pushTargets line else []).map (line.writeOf set)) (log t)
      (log (pushLine cb line set t).2) := by
  unfold M68040.pushLine at hdone ⊢
  cases hwriteback : Cache.hasWriteback line with
  | false => exact .nil _ _
  | true =>
    rw [hwriteback] at hdone
    exact h.pushLongs line set _ t hdone

theorem Records.pushLines (h : Records cb log) (cache : Cache) (scope : CacheScope)
    (address pageBytes : BitVec 32) (lines : List (Fin cacheSets × Fin cacheWays)) (n : Nat) (t : τ)
    (hdone : (pushLines cb cache scope address pageBytes lines n t).1 = none) :
    ∃ writes, Reported cb.store writes (log t)
        (log (pushLines cb cache scope address pageBytes lines n t).2.2) ∧
      ∀ set way, (set, way) ∈ lines →
        scope.has address pageBytes (cache.baseIn set way) = true →
        ∀ i, (cache.lineIn set way).writebackMask i = true →
          (cache.lineIn set way).writeOf set i ∈ writes := by
  induction lines generalizing n t with
  | nil => exact ⟨[], .nil _ _, fun _ _ hmem => nomatch hmem⟩
  | cons place rest ih =>
    obtain ⟨set, way⟩ := place
    rw [M68040.pushLines] at hdone ⊢
    split at hdone
    · next hskip =>
      rw [if_pos hskip]
      obtain ⟨writes, hwrites, hall⟩ := ih n t hdone
      refine ⟨writes, hwrites, fun set' way' hmem hhas i hmask => ?_⟩
      rcases List.mem_cons.1 hmem with heq | hmem
      · cases heq
        have hvalid : (cache.lineIn set way).valid = true := (Bool.and_eq_true _ _ ▸ hmask).1
        have hwriteback : Cache.hasWriteback (cache.lineIn set way) = true :=
          List.any_eq_true.2 ⟨i, List.mem_finRange i, hmask⟩
        rw [hvalid, hwriteback, show scope.has address pageBytes
          (lineBase (cache.lineIn set way).tag set) = true from hhas] at hskip
        cases hskip
      · exact hall set' way' hmem hhas i hmask
    · next hpush =>
      rw [if_neg hpush]
      cases hline : M68040.pushLine cb (cache.lineIn set way) set t with
      | mk refused t' =>
        rw [hline] at hdone
        cases refused with
        | some cycle => cases hdone
        | none =>
          have hfirst := h.pushLine (cache.lineIn set way) set t (by rw [hline])
          rw [hline] at hfirst
          obtain ⟨writes, hwrites, hall⟩ := ih (n + 1) t' hdone
          refine ⟨_, hfirst.append hwrites, fun set' way' hmem hhas i hmask => ?_⟩
          rcases List.mem_cons.1 hmem with heq | hmem
          · cases heq
            exact List.mem_append_left _ (List.mem_map_of_mem (mem_targets hmask))
          · exact List.mem_append_right _ (hall set' way' hmem hhas i hmask)

theorem mem_everyLine (set : Fin cacheSets) (way : Fin cacheWays) : (set, way) ∈ everyLine :=
  List.mem_flatMap.2 ⟨set, List.mem_finRange set, List.mem_map_of_mem (List.mem_finRange way)⟩

end Push

/-! ## The instruction -/

/-- What of the processor the instruction reads and writes, and the rest of the machine. -/
structure Caches (τ : Type) where
  regs : M68030.Regs
  /-- `tc_040`. -/
  tc040 : BitVec 32
  /-- `tc.page_size_bits`. -/
  pageSizeBits : BitVec 4
  dcache : Cache
  icache : Cache
  rest : τ
  /-- An instruction cache has no dirty lines. -/
  clean : icache.Clean

/-- How the instruction ends: with an exception, done, or with a write cycle that was refused,
which is a fault in supervisor data space. -/
inductive MaintenanceEnd
  | privilegeViolation
  | illegalInstruction
  | fault (cycle : RefusedCycle)
  | done
deriving DecidableEq

/-- The scope that a word names; without one it is illegal. -/
def CacheScope.ofWord (word : BitVec 16) : Option CacheScope :=
  let scope := word.extractLsb' 3 2
  if scope = 0 then none
  else if scope = 1 then some .line
  else if scope = 2 then some .page
  else some .all

/-- The bit of the word that makes it a push. -/
def isPush (word : BitVec 16) : Bool := word.getLsbD 5

/-- The two caches. -/
inductive CacheSide
  | data
  | instruction
deriving DecidableEq

/-- Whether a word names a cache. -/
def CacheSide.selected (word : BitVec 16) : CacheSide → Bool
  | .data => word.getLsbD 6
  | .instruction => word.getLsbD 7

/-- The register that a word names. -/
def addressRegister (word : BitVec 16) : Fin 8 := (word.extractLsb' 0 3).toFin

namespace Caches

variable {τ : Type}

/-- One of the caches. -/
def side (s : Caches τ) : CacheSide → Cache
  | .data => s.dcache
  | .instruction => s.icache

/-- The address that the instruction is about. -/
def address (s : Caches τ) (word : BitVec 16) : BitVec 32 :=
  s.regs.readAddressRegister (addressRegister word)

/-- The page size of the MMU. -/
def pageSize (s : Caches τ) : PageSize := (Tcr.decode (s.tc040.setWidth 16)).pageSize

/-- The first turn of the `for`, over the data cache: a push is written to memory before lines
are dropped, if there is a path to memory. -/
def dataPass (data : Option (AccessHooks τ)) (word : BitVec 16) (scope : CacheScope)
    (s : Caches τ) : Option RefusedCycle × Cache × τ :=
  let address := s.address word
  let pageBytes := mmuPageBytes s.pageSizeBits
  if !CacheSide.selected word .data then (none, s.dcache, s.rest)
  else
    match (if isPush word then data else none) with
    | none => (none, s.dcache.maintain (isPush word) scope address pageBytes, s.rest)
    | some cb =>
      match pushDirty cb s.dcache scope address pageBytes s.rest with
      | (some refused, _, rest) => (some refused, s.dcache, rest)
      | (none, _, rest) => (none, s.dcache.maintain (isPush word) scope address pageBytes, rest)

/-- The second turn, over the instruction cache, if no cycle was refused. -/
def instructionPass (word : BitVec 16) (scope : CacheScope) (s : Caches τ) :
    Option RefusedCycle × Cache × τ → MaintenanceEnd × Caches τ
  | (some cycle, dcache, rest) => (.fault cycle, { s with dcache, rest })
  | (none, dcache, rest) =>
    if !CacheSide.selected word .instruction then (.done, { s with dcache, rest })
    else
      (.done, { s with
        dcache
        rest
        icache := s.icache.maintain (isPush word) scope (s.address word)
          (mmuPageBytes s.pageSizeBits)
        clean := s.clean.maintain _ _ (mmuPageBytes_ne_zero _) })

/-- `CINV` and `CPUSH` in `ap_m68030_step`. -/
def cacheMaintenance (data : Option (AccessHooks τ)) (word : BitVec 16) (s : Caches τ) :
    MaintenanceEnd × Caches τ :=
  if !s.regs.supervisor then (.privilegeViolation, s)
  else
    match CacheScope.ofWord word with
    | none => (.illegalInstruction, s)
    | some scope => instructionPass word scope s (dataPass data word scope s)

/-! ## What it is for -/

/-- WHAT THE INSTRUCTION IS FOR: its scope, in the caches that it names. -/
structure Covered (log : τ → List LongWrite) (word : BitVec 16) (scope : CacheScope)
    (s s' : Caches τ) : Prop where
  /-- A cache that it names has the scope dropped, and nothing else. -/
  dropped : ∀ side, side.selected word = true →
    Dropped scope s.pageSize (s.address word) (s.side side) (s'.side side)
  /-- The other is as it was. -/
  other : ∀ side, side.selected word = false → s'.side side = s.side side
  /-- A push has written every dirty long word in the scope. -/
  written : isPush word = true → ∀ side, side.selected word = true → ∀ set way,
    scope.Covers s.pageSize (s.address word) ((s.side side).baseIn set way) → ∀ i,
      ((s.side side).lineIn set way).writebackMask i = true →
        ∃ writes, log s'.rest = log s.rest ++ writes ∧
          ((s.side side).lineIn set way).writeOf set i ∈ writes
  /-- An invalidation writes nothing. -/
  silent : isPush word = false → log s'.rest = log s.rest

/-- WHEN IT DOES: its lines are in the code's reach, and dirty ones that are to be pushed have a
way to memory. -/
structure Held (data : Option (AccessHooks τ)) (word : BitVec 16) (scope : CacheScope)
    (s : Caches τ) : Prop where
  reaches : ∀ side, side.selected word = true →
    Reaches (s.side side) scope s.pageSize (s.address word) s.pageSizeBits
  stored : isPush word = true → CacheSide.selected word .data = true →
    (data.bind (·.store)).isSome = true ∨ ∀ set way,
      scope.Covers s.pageSize (s.address word) (s.dcache.baseIn set way) →
        Cache.hasWriteback (s.dcache.lineIn set way) = false

variable {data : Option (AccessHooks τ)} {log : τ → List LongWrite} {word : BitVec 16}
  {scope : CacheScope} {s : Caches τ}

/-- What a pass writes. -/
structure Wrote (data : Option (AccessHooks τ)) (log : τ → List LongWrite) (push : Bool)
    (scope : CacheScope) (address pageBytes : BitVec 32) (cache : Cache) (t t' : τ)
    (writes : List LongWrite) : Prop where
  logged : log t' = log t ++ writes
  silent : push = false → writes = []
  lost : (data.bind (·.store)).isSome = false → writes = []
  all : push = true → (data.bind (·.store)).isSome = true → ∀ set way,
    scope.has address pageBytes (cache.baseIn set way) = true → ∀ i,
      (cache.lineIn set way).writebackMask i = true →
        (cache.lineIn set way).writeOf set i ∈ writes

theorem dataPass_done (hrecords : ∀ cb, data = some cb → Records cb log)
    (hselected : CacheSide.selected word .data = true)
    (hdone : (dataPass data word scope s).1 = none) :
    (dataPass data word scope s).2.1 =
        s.dcache.maintain (isPush word) scope (s.address word) (mmuPageBytes s.pageSizeBits) ∧
      ∃ writes, Wrote data log (isPush word) scope (s.address word) (mmuPageBytes s.pageSizeBits)
        s.dcache s.rest (dataPass data word scope s).2.2 writes := by
  unfold dataPass at hdone ⊢
  rw [hselected, Bool.not_true, if_neg (by decide)] at hdone ⊢
  cases hpush : isPush word with
  | false => exact ⟨rfl, [], (List.append_nil _).symm, fun _ => rfl, fun _ => rfl, nofun⟩
  | true =>
    cases data with
    | none => exact ⟨rfl, [], (List.append_nil _).symm, nofun, fun _ => rfl, fun _ => nofun⟩
    | some cb =>
      have hlines := (hrecords cb rfl).pushLines s.dcache scope (s.address word)
        (mmuPageBytes s.pageSizeBits) everyLine 0 s.rest
      rw [hpush, if_pos rfl] at hdone
      rw [if_pos rfl]
      unfold pushDirty at hdone ⊢
      dsimp only at hdone ⊢
      generalize pushLines cb s.dcache scope (s.address word) (mmuPageBytes s.pageSizeBits)
        everyLine 0 s.rest = pushed at hdone hlines ⊢
      obtain ⟨refused, n, t'⟩ := pushed
      cases refused with
      | some cycle => cases hdone
      | none =>
        obtain ⟨writes, hwrites, hall⟩ := hlines rfl
        refine ⟨rfl, if cb.store.isSome then writes else [], hwrites, nofun, fun hlost => ?_,
          fun _ hstored set way hhas i hmask => ?_⟩
        · rw [show cb.store.isSome = false from hlost]
          rfl
        · rw [show cb.store.isSome = true from hstored, if_pos rfl]
          exact hall set way (mem_everyLine set way) hhas i hmask

theorem cacheMaintenance_done (hscope : CacheScope.ofWord word = some scope)
    (hdone : (cacheMaintenance data word s).1 = .done) :
    cacheMaintenance data word s = instructionPass word scope s (dataPass data word scope s) ∧
      (dataPass data word scope s).1 = none := by
  have hpasses : cacheMaintenance data word s =
      instructionPass word scope s (dataPass data word scope s) := by
    unfold cacheMaintenance at hdone ⊢
    rw [hscope] at hdone ⊢
    cases hsupervisor : s.regs.supervisor with
    | false =>
      rw [hsupervisor] at hdone
      cases hdone
    | true => rfl
  refine ⟨hpasses, ?_⟩
  rw [hpasses] at hdone
  generalize dataPass data word scope s = pass at hdone ⊢
  obtain ⟨refused, dcache, rest⟩ := pass
  cases refused with
  | none => rfl
  | some cycle => cases hdone

/-- THE CACHES AFTER THE INSTRUCTION. -/
theorem side_of_done (hrecords : ∀ cb, data = some cb → Records cb log)
    (hscope : CacheScope.ofWord word = some scope)
    (hdone : (cacheMaintenance data word s).1 = .done) (side : CacheSide) :
    (cacheMaintenance data word s).2.side side =
      if side.selected word then
        (s.side side).maintain (isPush word) scope (s.address word) (mmuPageBytes s.pageSizeBits)
      else s.side side := by
  obtain ⟨hpasses, hnone⟩ := cacheMaintenance_done hscope hdone
  have hdata : (dataPass data word scope s).2.1 =
      if CacheSide.selected word .data then
        s.dcache.maintain (isPush word) scope (s.address word) (mmuPageBytes s.pageSizeBits)
      else s.dcache := by
    cases hselected : CacheSide.selected word .data with
    | true => exact (dataPass_done hrecords hselected hnone).1
    | false => rw [dataPass, hselected]; rfl
  rw [hpasses]
  generalize dataPass data word scope s = pass at hnone hdata ⊢
  obtain ⟨refused, dcache, rest⟩ := pass
  cases hnone
  unfold instructionPass
  cases hinstruction : CacheSide.selected word .instruction with
  | false =>
    cases side with
    | data => exact hdata
    | instruction => rw [hinstruction]; rfl
  | true =>
    cases side with
    | data => exact hdata
    | instruction => rw [hinstruction]; rfl

/-- THE REST OF THE MACHINE AFTER THE INSTRUCTION. -/
theorem rest_of_done (hrecords : ∀ cb, data = some cb → Records cb log)
    (hscope : CacheScope.ofWord word = some scope)
    (hdone : (cacheMaintenance data word s).1 = .done) :
    ∃ writes, log (cacheMaintenance data word s).2.rest = log s.rest ++ writes ∧
      (isPush word = false → writes = []) ∧
      ((data.bind (·.store)).isSome = false → writes = []) ∧
      (CacheSide.selected word .data = true →
        Wrote data log (isPush word) scope (s.address word) (mmuPageBytes s.pageSizeBits)
          s.dcache s.rest (cacheMaintenance data word s).2.rest writes) := by
  obtain ⟨hpasses, hnone⟩ := cacheMaintenance_done hscope hdone
  have hrest : (cacheMaintenance data word s).2.rest = (dataPass data word scope s).2.2 := by
    rw [hpasses]
    generalize dataPass data word scope s = pass at hnone ⊢
    obtain ⟨refused, dcache, rest⟩ := pass
    cases hnone
    unfold instructionPass
    cases CacheSide.selected word .instruction <;> rfl
  rw [hrest]
  cases hselected : CacheSide.selected word .data with
  | true =>
    obtain ⟨-, writes, hwrote⟩ := dataPass_done hrecords hselected hnone
    exact ⟨writes, hwrote.logged, hwrote.silent, hwrote.lost, fun _ => hwrote⟩
  | false =>
    refine ⟨[], ?_, fun _ => rfl, fun _ => rfl, nofun⟩
    rw [dataPass, hselected, List.append_nil]
    rfl

theorem has_of_covers {cache : Cache}
    (hreaches : Reaches cache scope s.pageSize (s.address word) s.pageSizeBits) {set : Fin cacheSets} {way : Fin cacheWays}
    (hvalid : (cache.lineIn set way).valid = true)
    (hcovers : scope.Covers s.pageSize (s.address word) (cache.baseIn set way)) :
    scope.has (s.address word) (mmuPageBytes s.pageSizeBits) (cache.baseIn set way) = true := by
  cases scope with
  | line => exact (has_line s.pageSize _ _ _ _).2 hcovers
  | page => exact (has_page _ _ _).2 ((hreaches.page rfl set way hvalid).1 hcovers)
  | all => rfl

/-- THE SCOPE IS COVERED EXACTLY IF IT IS IN THE CODE'S REACH, by an instruction whose writes are
taken. -/
theorem cacheMaintenance_covers (hrecords : ∀ cb, data = some cb → Records cb log)
    (hscope : CacheScope.ofWord word = some scope)
    (hdone : (cacheMaintenance data word s).1 = .done) :
    Covered log word scope s (cacheMaintenance data word s).2 ↔ Held data word scope s := by
  have hside := side_of_done hrecords hscope hdone
  obtain ⟨writes, hlog, hsilent, hlost, hwrote⟩ := rest_of_done hrecords hscope hdone
  have hdropped : ∀ side, side.selected word = true →
      (Dropped scope s.pageSize (s.address word) (s.side side)
        ((cacheMaintenance data word s).2.side side) ↔
        Reaches (s.side side) scope s.pageSize (s.address word) s.pageSizeBits) := by
    intro side hselected
    rw [hside, if_pos hselected]
    exact dropped_iff _ _ _ _ _ _
  constructor
  · intro hcovered
    refine ⟨fun side hselected => (hdropped side hselected).1 (hcovered.dropped side hselected),
      fun hpush hselected => ?_⟩
    cases hstored : (data.bind (·.store)).isSome with
    | true => exact .inl rfl
    | false =>
      refine .inr fun set way hcovers => Bool.eq_false_iff.2 fun hwriteback => ?_
      obtain ⟨i, -, hmask⟩ := List.any_eq_true.1 hwriteback
      obtain ⟨lost, hlogged, hmem⟩ :=
        hcovered.written hpush .data hselected set way hcovers i hmask
      rw [hlog, hlost hstored] at hlogged
      rw [← List.append_cancel_left hlogged] at hmem
      cases hmem
  · intro hheld
    refine ⟨fun side hselected => (hdropped side hselected).2 (hheld.reaches side hselected),
      fun side hother => ?_, fun hpush side hselected set way hcovers i hmask => ?_,
      fun hpush => by rw [hlog, hsilent hpush, List.append_nil]⟩
    · rw [hside, hother]
      rfl
    · have hwriteback : Cache.hasWriteback ((s.side side).lineIn set way) = true :=
        List.any_eq_true.2 ⟨i, List.mem_finRange i, hmask⟩
      cases side with
      | instruction => exact absurd hwriteback (Bool.eq_false_iff.1 (s.clean set way))
      | data =>
        have hvalid : (s.dcache.lineIn set way).valid = true := (Bool.and_eq_true _ _ ▸ hmask).1
        have hhas := has_of_covers (hheld.reaches .data hselected) hvalid hcovers
        rcases hheld.stored hpush hselected with hstored | hnothing
        · exact ⟨writes, hlog, (hwrote hselected).all hpush hstored set way hhas i hmask⟩
        · exact absurd hwriteback (Bool.eq_false_iff.1 (hnothing set way hcovers))

/-! ## A dirty line of a page -/

/-- A memory that only remembers what is written. -/
def recorder : AccessHooks (List LongWrite) where
  store := some fun t address value _ => (true, t ++ [⟨address, value⟩])

theorem clean_init (hasDirtyState : Bool) : (Cache.init hasDirtyState).Clean := by
  intro set way
  unfold Cache.init Cache.lineIn
  rw [Fin.getElem_fin, Fin.getElem_fin, Vector.getElem_replicate, Vector.getElem_replicate]
  decide

/-- Pages of 4 Kbytes, a dirty line at $1000, and an address in the line after it. -/
def dirtyPage : Caches (List LongWrite) where
  regs :=
    { d := .replicate 8 0, a := .replicate 7 0x1010, usp := 0x800, isp := 0x900, msp := 0xA00
      pc := 0x400, sr := .ofWord 0x2000, vbr := 0, sfc := 0, dfc := 0 }
  tc040 := 0x8000
  pageSizeBits := 0
  dcache := (Cache.init true).fill 0 0x1000 (.replicate cacheLineLongs 7) fun _ => true
  icache := .init false
  rest := []
  clean := clean_init false

/-- `CPUSHA` of both caches covers everything there. -/
theorem cacheMaintenance_covers_all :
    Covered id 0xF4F8 .all dirtyPage (cacheMaintenance (some recorder) 0xF4F8 dirtyPage).2 :=
  (@cacheMaintenance_covers _ (some recorder) id _ _ _
    (fun cb hcb store hstore _ _ _ => by cases hcb; cases hstore; rfl) (by decide +kernel)
    (by decide +kernel)).2
    { reaches := fun _ _ => ⟨fun h => (nomatch h), fun h => (nomatch h)⟩
      stored := fun _ _ => .inl rfl }

/-- `CPUSHP` of the page misses the dirty line in it: after it the line is valid still. -/
theorem cpushPage_misses_line :
    (cacheMaintenance (some recorder) 0xF470 dirtyPage).1 = .done ∧
      ¬ Covered id 0xF470 .page dirtyPage (cacheMaintenance (some recorder) 0xF470 dirtyPage).2 := by
  refine ⟨by decide +kernel, fun h => ?_⟩
  exact (h.dropped .data (by decide +kernel)).gone 0 0 (by decide +kernel)
    (by unfold CacheScope.Covers; decide +kernel)

end Caches

end Apollo.M68040
