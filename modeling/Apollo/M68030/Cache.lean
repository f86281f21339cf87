import Apollo.Lib.Sizes
import Mathlib

/-!
# The on-chip caches of the MC68030

`src/core/cpu/m68030/ap_m68030_cache.c`: sixteen lines of four long words, with one tag for
a line and a valid bit for each of its entries. The tag is the function code and the address
above the line select, so a line's tag and its place say which four long words it is about
(`lineOf`), and what a lookup finds is a partial copy of memory under those names.

Each operation has one lemma that says what a lookup can find after it: nothing but what it
put there and what was found before.
-/

namespace Apollo.M68030

/-- `AP_M68030_CACHE_LINES`. -/
abbrev cacheLines : Nat := 16

/-- `AP_M68030_CACHE_ENTRIES`. -/
abbrev cacheEntries : Nat := 4

/-- `ap_m68030_cache_line_t`. -/
structure CacheLine where
  tag : BitVec 32
  valid : Vector Bool cacheEntries
  entry : Vector (BitVec 32) cacheEntries
deriving DecidableEq

/-- `ap_m68030_cache_t`. -/
structure Cache where
  line : Vector CacheLine cacheLines
deriving DecidableEq

/-- `ap_m68030_cache_line_index`. -/
def cacheLineIndex (address : BitVec 32) : Fin cacheLines :=
  ⟨((address >>> 4) &&& 15).toNat, by
    rw [BitVec.toNat_and]
    exact Nat.lt_succ_of_le Nat.and_le_right⟩

/-- `ap_m68030_cache_entry_index`. -/
def cacheEntryIndex (address : BitVec 32) : Fin cacheEntries :=
  ⟨((address >>> 2) &&& 3).toNat, by
    rw [BitVec.toNat_and]
    exact Nat.lt_succ_of_le Nat.and_le_right⟩

/-- `ap_m68030_cache_tag`. -/
def cacheTag (address : BitVec 32) (functionCode : BitVec 8) : BitVec 32 :=
  ((address >>> 8) &&& 0x00FFFFFF#32) ||| ((functionCode &&& 0x7).setWidth 32 <<< 24)

namespace Cache

/-- The line an address selects. -/
def lineAt (cache : Cache) (address : BitVec 32) : CacheLine :=
  cache.line[(cacheLineIndex address).val]

/-- The same cache with that line replaced. -/
def setLine (cache : Cache) (address : BitVec 32) (line : CacheLine) : Cache :=
  { line := cache.line.set (cacheLineIndex address) line }

/-- `ap_m68030_cache_lookup`. -/
def lookup (cache : Cache) (address : BitVec 32) (functionCode : BitVec 8) : Option (BitVec 32) :=
  let line := cache.lineAt address
  let entry := cacheEntryIndex address
  if line.tag ≠ cacheTag address functionCode then none
  else if !line.valid[entry.val] then none
  else some line.entry[entry.val]

/-- `ap_m68030_cache_fill_entry`. -/
def fillEntry (cache : Cache) (address : BitVec 32) (functionCode : BitVec 8) (value : BitVec 32) :
    Cache :=
  let line := cache.lineAt address
  let tag := cacheTag address functionCode
  let line :=
    if line.tag ≠ tag then { line with valid := .replicate cacheEntries false, tag } else line
  let entry := cacheEntryIndex address
  cache.setLine address
    { line with entry := line.entry.set entry value, valid := line.valid.set entry true }

/-- `ap_m68030_cache_fill_line`. -/
def fillLine (cache : Cache) (address : BitVec 32) (functionCode : BitVec 8)
    (values : Vector (BitVec 32) cacheEntries) : Cache :=
  cache.setLine address
    { tag := cacheTag address functionCode
      valid := .replicate cacheEntries true
      entry := values }

end Cache

/-- `ap_m68030_cache_burst_request`. -/
def Cache.burstRequest (cache : Cache) (address : BitVec 32) (functionCode : BitVec 8)
    (burstEnable cacheEnabled frozen readModifyWrite : Bool) : Bool :=
  if !burstEnable || !cacheEnabled || frozen || readModifyWrite then false
  else
    let line := cache.lineAt address
    if line.tag ≠ cacheTag address functionCode then true else !line.valid.contains true

/-! ## What a line is about -/

/-- The sixteen bytes that a line holds for an address, in the address space of the function
code. -/
def lineOf (functionCode : BitVec 8) (address : BitVec 32) : BitVec 3 × BitVec 28 :=
  (functionCode.setWidth 3, address.extractLsb' 4 28)

theorem cacheTag_getLsbD (a : BitVec 32) (fc : BitVec 8) (i : Nat) :
    (cacheTag a fc).getLsbD i =
      if i < 24 then a.getLsbD (8 + i) else decide (i < 27) && fc.getLsbD (i - 24) := by
  have hmask : ∀ i < 32, (0x00FFFFFF#32).getLsbD i = decide (i < 24) := by decide
  have hseven : ∀ i < 8, (7 : BitVec 8).getLsbD i = decide (i < 3) := by decide
  have hcode : ∀ i < 32, ((fc &&& 0x7).setWidth 32 <<< 24).getLsbD i =
      (decide (24 ≤ i) && (decide (i < 27) && fc.getLsbD (i - 24))) := by
    intro i hi
    rw [BitVec.getLsbD_shiftLeft, BitVec.getLsbD_setWidth, BitVec.getLsbD_and,
      hseven (i - 24) (by omega), decide_eq_true hi, decide_eq_true (show i - 24 < 32 by omega)]
    by_cases hlow : i < 24
    · simp [hlow, Nat.not_le.2 hlow]
    · have hthree : i - 24 < 3 ↔ i < 27 := by omega
      simp [hlow, Nat.not_lt.1 hlow, hthree, Bool.and_comm]
  by_cases hi : i < 32
  · unfold cacheTag
    rw [BitVec.getLsbD_or, hcode i hi, BitVec.getLsbD_and, BitVec.getLsbD_ushiftRight, hmask i hi]
    by_cases hlow : i < 24
    · simp [hlow, Nat.not_le.2 hlow]
    · simp [hlow, Nat.not_lt.1 hlow]
  · rw [BitVec.getLsbD_of_ge _ _ (by omega), if_neg (by omega), decide_eq_false (by omega)]
    rfl

theorem cacheLineIndex_eq_iff {a a' : BitVec 32} :
    cacheLineIndex a = cacheLineIndex a' ↔ ∀ i < 4, a.getLsbD (4 + i) = a'.getLsbD (4 + i) := by
  have hfifteen : ∀ i < 32, (15 : BitVec 32).getLsbD i = decide (i < 4) := by decide
  rw [Fin.ext_iff]
  show ((a >>> 4) &&& 15).toNat = ((a' >>> 4) &&& 15).toNat ↔ _
  rw [← BitVec.toNat_eq]
  constructor
  · intro h i hi
    have hbit := congrArg (fun x => x.getLsbD i) h
    simpa only [BitVec.getLsbD_and, BitVec.getLsbD_ushiftRight, hfifteen i (by omega),
      decide_eq_true hi, Bool.and_true] using hbit
  · intro h
    apply BitVec.eq_of_getLsbD_eq
    intro i hi
    rw [BitVec.getLsbD_and, BitVec.getLsbD_and, BitVec.getLsbD_ushiftRight,
      BitVec.getLsbD_ushiftRight, hfifteen i hi]
    by_cases hlow : i < 4
    · rw [h i hlow]
    · rw [decide_eq_false hlow, Bool.and_false, Bool.and_false]

theorem lineOf_eq_iff {a a' : BitVec 32} {fc fc' : BitVec 8} :
    lineOf fc a = lineOf fc' a' ↔
      cacheTag a fc = cacheTag a' fc' ∧ cacheLineIndex a = cacheLineIndex a' := by
  rw [cacheLineIndex_eq_iff, lineOf, lineOf, Prod.mk.injEq]
  constructor
  · rintro ⟨hcode, hline⟩
    have hbit : ∀ i < 28, a.getLsbD (4 + i) = a'.getLsbD (4 + i) := by
      intro i hi
      have := congrArg (fun x => x.getLsbD i) hline
      simpa [hi] using this
    refine ⟨BitVec.eq_of_getLsbD_eq fun i _ => ?_, fun i hi => hbit i (by omega)⟩
    rw [cacheTag_getLsbD, cacheTag_getLsbD]
    by_cases hlow : i < 24
    · rw [if_pos hlow, if_pos hlow, show 8 + i = 4 + (4 + i) by omega]
      exact hbit (4 + i) (by omega)
    · rw [if_neg hlow, if_neg hlow]
      by_cases hthree : i < 27
      · have := congrArg (fun x => x.getLsbD (i - 24)) hcode
        simp only [BitVec.getLsbD_setWidth, decide_eq_true (show i - 24 < 3 by omega),
          Bool.true_and] at this
        rw [this]
      · rw [decide_eq_false hthree, Bool.false_and, Bool.false_and]
  · rintro ⟨htag, hline⟩
    have hbit : ∀ i, (cacheTag a fc).getLsbD i = (cacheTag a' fc').getLsbD i := by
      intro i
      rw [htag]
    simp only [cacheTag_getLsbD] at hbit
    refine ⟨BitVec.eq_of_getLsbD_eq fun i hi => ?_, BitVec.eq_of_getLsbD_eq fun i hi => ?_⟩
    · have := hbit (24 + i)
      rw [if_neg (by omega), if_neg (by omega), decide_eq_true (by omega), Bool.true_and,
        Bool.true_and, Nat.add_sub_cancel_left] at this
      rw [BitVec.getLsbD_setWidth, BitVec.getLsbD_setWidth, this]
    · rw [BitVec.getLsbD_extractLsb', BitVec.getLsbD_extractLsb', decide_eq_true hi, Bool.true_and,
        Bool.true_and]
      by_cases hlow : i < 4
      · exact hline i hlow
      · have := hbit (i - 4)
        rwa [if_pos (by omega), if_pos (by omega), show 8 + (i - 4) = 4 + i by omega] at this

/-- The long word of the line that an address is in. -/
def longOf (functionCode : BitVec 8) (address : BitVec 32) : (BitVec 3 × BitVec 28) × Fin 4 :=
  (lineOf functionCode address, cacheEntryIndex address)

namespace Cache

variable {c : Cache} {a a' : BitVec 32} {fc fc' : BitVec 8} {v w : BitVec 32}

/-! ## What a lookup finds -/

theorem lineAt_setLine (line : CacheLine) :
    (c.setLine a line).lineAt a' =
      if cacheLineIndex a = cacheLineIndex a' then line else c.lineAt a' := by
  unfold lineAt setLine
  rw [Vector.getElem_set]
  by_cases h : cacheLineIndex a = cacheLineIndex a'
  · rw [if_pos h, if_pos (congrArg Fin.val h)]
  · rw [if_neg h, if_neg (fun hval => h (Fin.ext hval))]

theorem lineAt_congr (h : cacheLineIndex a = cacheLineIndex a') : c.lineAt a = c.lineAt a' := by
  simp only [lineAt, h]

theorem lookup_eq_some :
    c.lookup a fc = some w ↔ (c.lineAt a).tag = cacheTag a fc ∧
      (c.lineAt a).valid[(cacheEntryIndex a).val] = true ∧
      (c.lineAt a).entry[(cacheEntryIndex a).val] = w := by
  unfold lookup
  dsimp only
  split
  · next htag => exact ⟨nofun, fun h => absurd h.1 htag⟩
  · next htag =>
    split
    · next hvalid =>
      rw [Bool.not_eq_true'] at hvalid
      exact ⟨nofun, fun h => by rw [hvalid] at h; cases h.2.1⟩
    · next hvalid =>
      rw [Bool.not_eq_true', Bool.not_eq_false] at hvalid
      exact ⟨fun h => ⟨not_not.1 htag, hvalid, Option.some.inj h⟩, fun h => congrArg some h.2.2⟩

theorem lookup_setLine_other {line : CacheLine} (h : cacheLineIndex a ≠ cacheLineIndex a') :
    (c.setLine a line).lookup a' fc' = c.lookup a' fc' := by
  unfold lookup
  rw [lineAt_setLine, if_neg h]

theorem lookup_setLine_same {line : CacheLine} (h : cacheLineIndex a = cacheLineIndex a') :
    (c.setLine a line).lookup a' fc' = some w ↔ line.tag = cacheTag a' fc' ∧
      line.valid[(cacheEntryIndex a').val] = true ∧
      line.entry[(cacheEntryIndex a').val] = w := by
  rw [lookup_eq_some, lineAt_setLine, if_pos h]

theorem found_of_fillEntry (h : (c.fillEntry a fc v).lookup a' fc' = some w) :
    (longOf fc a = longOf fc' a' ∧ w = v) ∨ c.lookup a' fc' = some w := by
  by_cases hline : cacheLineIndex a = cacheLineIndex a'
  · have hat : c.lineAt a = c.lineAt a' := lineAt_congr hline
    obtain ⟨htag, hvalid, hentry⟩ := (lookup_setLine_same hline).1 h
    dsimp only at htag hvalid hentry
    rw [Vector.getElem_set] at hvalid hentry
    by_cases hslot : cacheEntryIndex a = cacheEntryIndex a'
    · left
      rw [if_pos (congrArg Fin.val hslot)] at hentry
      refine ⟨Prod.ext (lineOf_eq_iff.2 ⟨?_, hline⟩) hslot, hentry.symm⟩
      by_cases hkept : (c.lineAt a).tag = cacheTag a fc
      · rw [if_neg (not_not.2 hkept)] at htag
        exact hkept.symm.trans htag
      · rwa [if_pos hkept] at htag
    · right
      have hval : ¬ (cacheEntryIndex a).val = (cacheEntryIndex a').val := fun h => hslot (Fin.ext h)
      rw [if_neg hval] at hvalid hentry
      by_cases hkept : (c.lineAt a).tag = cacheTag a fc
      · rw [if_neg (not_not.2 hkept)] at htag hvalid hentry
        rw [hat] at htag hvalid hentry
        exact lookup_eq_some.2 ⟨htag, hvalid, hentry⟩
      · rw [if_pos hkept] at hvalid
        simp at hvalid
  · rw [fillEntry, lookup_setLine_other hline] at h
    exact .inr h

theorem found_of_fillLine {values : Vector (BitVec 32) cacheEntries}
    (h : (c.fillLine a fc values).lookup a' fc' = some w) :
    (lineOf fc a = lineOf fc' a' ∧ w = values[(cacheEntryIndex a').val]) ∨
      c.lookup a' fc' = some w := by
  by_cases hline : cacheLineIndex a = cacheLineIndex a'
  · obtain ⟨htag, -, hentry⟩ := (lookup_setLine_same hline).1 h
    exact .inl ⟨lineOf_eq_iff.2 ⟨htag, hline⟩, hentry.symm⟩
  · rw [fillLine, lookup_setLine_other hline] at h
    exact .inr h

end Cache

end Apollo.M68030
