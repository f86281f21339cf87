import Apollo.Lib.Slots
import Apollo.M68040.Mmu
import Apollo.Lib.Lanes
import Apollo.M68040.TableMemory

/-!
# The caches of the MC68040

`src/core/cpu/m68040/ap_m68040_cache.c`: sixty-four sets of four lines of four long words. A
tag is what an address has above the set, twenty-two bits.
-/

namespace Apollo.M68040

open Apollo.Lib

/-- `AP_M68040_CACHE_SETS`. -/
abbrev cacheSets : Nat := 64

/-- `AP_M68040_CACHE_WAYS`. -/
abbrev cacheWays : Nat := 4

/-- `AP_M68040_CACHE_LINE_LONGS`. -/
abbrev cacheLineLongs : Nat := 4

/-- `ap_m68040_cache_line_t`. -/
structure CacheLine where
  tag : BitVec 22 := 0
  valid : Bool := false
  dirty : Vector Bool cacheLineLongs := .replicate cacheLineLongs false
  data : Vector (BitVec 32) cacheLineLongs := .replicate cacheLineLongs 0
deriving DecidableEq

/-- `ap_m68040_cache_t`. -/
structure Cache where
  line : Vector (Vector CacheLine cacheWays) cacheSets
  counter : BitVec 32
  hasDirtyState : Bool
deriving DecidableEq

/-- `ap_m68040_cache_writeback_mask`. -/
def CacheLine.writebackMask (line : CacheLine) (i : Fin cacheLineLongs) : Bool :=
  line.valid && line.dirty[i]

/-- `drop`. -/
def CacheLine.drop (line : CacheLine) : CacheLine :=
  { line with valid := false, dirty := .replicate cacheLineLongs false }

/-- `ap_m68040_cache_set`. -/
def cacheSet (address : BitVec 32) : Fin cacheSets :=
  ⟨((address >>> 4) &&& 0x3F).toNat, by
    rw [BitVec.toNat_and]
    exact Nat.lt_succ_of_le Nat.and_le_right⟩

/-- `ap_m68040_cache_tag`. -/
def cacheTag (address : BitVec 32) : BitVec 22 := address.extractLsb' 10 22

/-- `line_base_040`. -/
def lineBase (tag : BitVec 22) (set : Fin cacheSets) : BitVec 32 :=
  (tag.setWidth 32 <<< 10) ||| (BitVec.ofNat 32 set.val <<< 4)

/-- `base + 4u * i`. -/
def longAddress (base : BitVec 32) (i : Fin cacheLineLongs) : BitVec 32 :=
  base + 4 * BitVec.ofNat 32 i.val

namespace Cache

/-- `ap_m68040_cache_init`. -/
def init (hasDirtyState : Bool) : Cache :=
  { line := .replicate cacheSets (.replicate cacheWays {}), counter := 0, hasDirtyState }

/-- The line in a way of a set. -/
def lineIn (cache : Cache) (set : Fin cacheSets) (way : Fin cacheWays) : CacheLine :=
  cache.line[set][way]

/-- The same cache with that line replaced. -/
def setLine (cache : Cache) (set : Fin cacheSets) (way : Fin cacheWays) (line : CacheLine) :
    Cache :=
  { cache with line := cache.line.set set (cache.line[set].set way line) }

/-- `ap_m68040_cache_lookup`; a miss is `none` rather than one more than the last way. -/
def lookup (cache : Cache) (address : BitVec 32) : Option (Fin cacheWays) :=
  Slots.first (fun line => line.valid && line.tag == cacheTag address)
    cache.line[cacheSet address]

/-- The line that a fill installs. -/
def filledLine (cache : Cache) (address : BitVec 32) (data : Vector (BitVec 32) cacheLineLongs)
    (dirtyMask : Fin cacheLineLongs → Bool) : CacheLine :=
  { tag := cacheTag address
    valid := true
    dirty := .ofFn fun i => cache.hasDirtyState && dirtyMask i
    data }

/-- `ap_m68040_cache_fill`. -/
def fill (cache : Cache) (way : Fin cacheWays) (address : BitVec 32)
    (data : Vector (BitVec 32) cacheLineLongs) (dirtyMask : Fin cacheLineLongs → Bool) : Cache :=
  cache.setLine (cacheSet address) way (cache.filledLine address data dirtyMask)

/-- `ap_m68040_cache_invalidate_line`. -/
def invalidateLine (cache : Cache) (address : BitVec 32) : Bool × Cache :=
  match cache.lookup address with
  | none => (false, cache)
  | some way =>
    (true, cache.setLine (cacheSet address) way (cache.lineIn (cacheSet address) way).drop)

/-- How many lines satisfy a test. -/
def count (cache : Cache) (p : Fin cacheSets → CacheLine → Bool) : Nat :=
  ((List.finRange cacheSets).flatMap fun set =>
    (List.finRange cacheWays).filter fun way => p set (cache.lineIn set way)).length

/-- The lines that satisfy a test are dropped. -/
def dropWhere (cache : Cache) (p : Fin cacheSets → CacheLine → Bool) : Cache :=
  { cache with
    line := .ofFn fun set => cache.line[set].map fun line =>
      if p set line then line.drop else line }

/-- A valid line of the page of an address. -/
def inPage (address pageBytes : BitVec 32) (set : Fin cacheSets) (line : CacheLine) : Bool :=
  line.valid &&
    (lineBase line.tag set &&& ~~~(pageBytes - 1)) == (address &&& ~~~(pageBytes - 1))

/-- A line with something to write back. -/
def hasWriteback (line : CacheLine) : Bool :=
  (List.finRange cacheLineLongs).any line.writebackMask

/-- `ap_m68040_cache_push_line`: how many lines, what was dirty, and the cache. -/
def pushLine (cache : Cache) (address : BitVec 32) :
    Nat × (Fin cacheLineLongs → Bool) × Cache :=
  match cache.lookup address with
  | none => (0, fun _ => false, cache)
  | some way =>
    let line := cache.lineIn (cacheSet address) way
    (1, line.writebackMask, cache.setLine (cacheSet address) way line.drop)

/-- `ap_m68040_cache_push_page`: how many lines, how many of them dirty, and the cache. -/
def pushPage (cache : Cache) (address pageBytes : BitVec 32) : Nat × Nat × Cache :=
  if pageBytes = 0 then (0, 0, cache)
  else
    let inPage := inPage address pageBytes
    (cache.count inPage, cache.count fun set line => inPage set line && hasWriteback line,
      cache.dropWhere inPage)

/-- `ap_m68040_cache_push_all`. -/
def pushAll (cache : Cache) : Nat × Nat × Cache :=
  (cache.count fun _ line => line.valid,
    cache.count fun _ line => line.valid && hasWriteback line,
    cache.dropWhere fun _ line => line.valid)

end Cache

/-! ## Addresses of long words -/

theorem cacheSet_val (a : BitVec 32) : (cacheSet a).val = a.toNat / 16 % 64 := by
  have h : ((a >>> 4) &&& 0x3F).toNat = a.toNat / 16 % 64 := by
    rw [BitVec.toNat_and, BitVec.toNat_ushiftRight, Nat.shiftRight_eq_div_pow]
    exact Nat.and_two_pow_sub_one_eq_mod _ 6
  exact h

theorem cacheTag_toNat (a : BitVec 32) : (cacheTag a).toNat = a.toNat / 1024 := by
  have ha := a.isLt
  rw [cacheTag, BitVec.extractLsb'_toNat, Nat.shiftRight_eq_div_pow]
  omega

theorem lineBase_toNat (tag : BitVec 22) (set : Fin cacheSets) :
    (lineBase tag set).toNat = tag.toNat * 1024 + set.val * 16 := by
  have htag := tag.isLt
  have hset : set.val < 64 := set.isLt
  have htag' : (tag.setWidth 32 <<< 10).toNat = tag.toNat <<< 10 := by
    rw [BitVec.toNat_shiftLeft, BitVec.toNat_setWidth, Nat.shiftLeft_eq, Nat.shiftLeft_eq]
    omega
  have hset' : (BitVec.ofNat 32 set.val <<< 4).toNat = set.val * 16 := by
    rw [BitVec.toNat_shiftLeft, BitVec.toNat_ofNat, Nat.shiftLeft_eq]
    omega
  rw [lineBase, BitVec.toNat_or, htag', hset', ← Nat.shiftLeft_add_eq_or_of_lt (by omega),
    Nat.shiftLeft_eq]

theorem and_not_fifteen (a : BitVec 32) : a &&& ~~~0xF = lineBase (cacheTag a) (cacheSet a) := by
  have ha := a.isLt
  apply BitVec.eq_of_toNat_eq
  rw [lineBase_toNat, cacheTag_toNat, cacheSet_val]
  have hclear : (a &&& ~~~(0xF : BitVec 32)) = (a >>> 4) <<< 4 := by
    apply BitVec.eq_of_getLsbD_eq
    intro i hi
    have hfifteen : ∀ i < 32, (0xF : BitVec 32).getLsbD i = decide (i < 4) := by decide
    rw [BitVec.getLsbD_and, BitVec.getLsbD_not, hfifteen i hi, BitVec.getLsbD_shiftLeft,
      BitVec.getLsbD_ushiftRight]
    by_cases hfour : i < 4
    · simp [hfour]
    · simp [hfour, hi, show 4 + (i - 4) = i by omega]
  rw [hclear, BitVec.toNat_shiftLeft, BitVec.toNat_ushiftRight, Nat.shiftLeft_eq,
    Nat.shiftRight_eq_div_pow]
  omega

/-! ## What a cache holds -/

/-- What a line is for. -/
def CacheLine.key (line : CacheLine) : Option (BitVec 22) :=
  if line.valid then some line.tag else none

theorem CacheLine.key_eq_some {line : CacheLine} {tag : BitVec 22} :
    line.key = some tag ↔ line.valid = true ∧ line.tag = tag := by
  unfold key
  cases line.valid <;> simp

namespace Cache

variable {cache : Cache} {set : Fin cacheSets} {way : Fin cacheWays} {line : CacheLine}

theorem lookup_eq (a : BitVec 32) :
    cache.lookup a =
      Slots.first (fun line => decide (CacheLine.key line = some (cacheTag a)))
        cache.line[cacheSet a] := by
  unfold lookup
  congr 1
  funext line
  rw [Bool.eq_iff_iff, decide_eq_true_iff, CacheLine.key_eq_some, Bool.and_eq_true, beq_iff_eq]

theorem key_of_lookup {a : BitVec 32} (h : cache.lookup a = some way) :
    (cache.lineIn (cacheSet a) way).key = some (cacheTag a) := by
  rw [lookup_eq] at h
  have hkey := Slots.of_first_eq_some
    (p := fun line => decide (CacheLine.key line = some (cacheTag a))) h
  exact of_decide_eq_true hkey

theorem line_setLine (set' : Fin cacheSets) :
    (cache.setLine set way line).line[set'] =
      if set = set' then cache.line[set'].set way line else cache.line[set'] := by
  unfold setLine
  rw [Slots.getElem_set]
  by_cases h : set = set'
  · rw [if_pos h, if_pos h, h]
  · rw [if_neg h, if_neg h]

end Cache

/-!
## Lines to memory

The pushes of the 68040 half of `src/core/cpu/m68030/ap_m68030_access.c`, and `CPUSH` from
`ap_m68030_step.c`. Behind the callback there is a state `τ`, the rest of the machine. Clocks and
wait states are left out.
-/

/-- The callback of `ap_m68030_access_ctx_t` that a push makes; it can be `NULL`. -/
structure AccessHooks (τ : Type) where
  store : Option (τ → BitVec 32 → BitVec 32 → Nat → Bool × τ)

/-- A cycle that was refused: its address and its value. -/
structure RefusedCycle where
  address : BitVec 32
  value : BitVec 32
deriving DecidableEq

section Push

variable {τ : Type} (cb : AccessHooks τ)

/-- The store callback; without one a store is taken for done. -/
def storeCycle (address value : BitVec 32) (size : Nat) (t : τ) : Bool × τ :=
  match cb.store with
  | some store => store t address value size
  | none => (true, t)

/-- The long words that a push of a line writes: the one that is dirty, or, if more than one
is, all. -/
def pushTargets (line : CacheLine) : List (Fin cacheLineLongs) :=
  let dirty := (List.finRange cacheLineLongs).filter line.writebackMask
  if dirty.length = 1 then dirty else List.finRange cacheLineLongs

/-- Long words of a line are written until one is refused. -/
def pushLongs (line : CacheLine) (base : BitVec 32) :
    List (Fin cacheLineLongs) → τ → Option RefusedCycle × τ
  | [], t => (none, t)
  | i :: rest, t =>
    match storeCycle cb (longAddress base i) line.data[i] 4 t with
    | (false, t) => (some { address := longAddress base i, value := line.data[i] }, t)
    | (true, t) => pushLongs line base rest t

/-- `push_line_040`: the cycle that was refused, if one was. -/
def pushLine (line : CacheLine) (set : Fin cacheSets) (t : τ) : Option RefusedCycle × τ :=
  if !Cache.hasWriteback line then (none, t)
  else pushLongs cb line (lineBase line.tag set) (pushTargets line) t

/-! ## Pushing on demand -/

/-- The scope of a cache instruction. -/
inductive CacheScope
  | line
  | page
  | all
deriving DecidableEq

/-- Whether a line is in the scope of a push. -/
def CacheScope.has (scope : CacheScope) (address pageBytes base : BitVec 32) : Bool :=
  match scope with
  | .line => base == (address &&& ~~~0xF)
  | .page =>
    pageBytes != 0 && (base &&& ~~~(pageBytes - 1)) == (address &&& ~~~(pageBytes - 1))
  | .all => true

/-- Lines are pushed until a cycle is refused, and counted. -/
def pushLines (cache : Cache) (scope : CacheScope) (address pageBytes : BitVec 32) :
    List (Fin cacheSets × Fin cacheWays) → Nat → τ → Option RefusedCycle × Nat × τ
  | [], lines, t => (none, lines, t)
  | (set, way) :: rest, lines, t =>
    let line := cache.lineIn set way
    if !line.valid || !Cache.hasWriteback line ||
        !scope.has address pageBytes (lineBase line.tag set) then
      pushLines cache scope address pageBytes rest lines t
    else
      match pushLine cb line set t with
      | (some refused, t) => (some refused, lines, t)
      | (none, t) => pushLines cache scope address pageBytes rest (lines + 1) t

/-- Every set and way, in order. -/
def everyLine : List (Fin cacheSets × Fin cacheWays) :=
  (List.finRange cacheSets).flatMap fun set =>
    (List.finRange cacheWays).map fun way => (set, way)

/-- `ap_m68030_access_push_dirty_040`. -/
def pushDirty (cache : Cache) (scope : CacheScope) (address pageBytes : BitVec 32) (t : τ) :
    Option RefusedCycle × Nat × τ :=
  pushLines cb cache scope address pageBytes everyLine 0 t

end Push

theorem mem_targets {line : CacheLine} {i : Fin cacheLineLongs} (h : line.writebackMask i = true) :
    i ∈ if Cache.hasWriteback line then pushTargets line else [] := by
  have hwriteback : Cache.hasWriteback line = true :=
    List.any_eq_true.2 ⟨i, List.mem_finRange i, h⟩
  rw [if_pos hwriteback]
  unfold pushTargets
  dsimp only
  split
  · exact List.mem_filter.2 ⟨List.mem_finRange i, h⟩
  · exact List.mem_finRange i

end Apollo.M68040
