import Apollo.Lib.Slots

/-!
# The MC68030 address translation cache

`src/core/cpu/m68030/ap_m68030_atc.c`: 22 fully associative entries, each a logical page
of one function code and where it went. The page size is an argument of every call, and
decides how much of an entry's 24-bit tag is compared.

`AtcEntry.key` is what an entry answers to, and `keyOf` what an access asks for;
`tagOf_and_tagMask` says that under one page size two addresses ask for the same key
exactly when they are in the same page.
-/

namespace Apollo.M68030

open Apollo.Lib

/-- `AP_M68030_ATC_ENTRIES`. -/
abbrev atcEntries : Nat := 22

/-- `ap_m68030_atc_entry_t`. -/
structure AtcEntry where
  valid : Bool := false
  functionCode : BitVec 8 := 0
  logical : BitVec 32 := 0
  busError : Bool := false
  cacheInhibit : Bool := false
  writeProtect : Bool := false
  modified : Bool := false
  physical : BitVec 32 := 0
  history : Bool := false
deriving DecidableEq

/-- `ap_m68030_atc_t`. -/
structure Atc where
  entry : Vector AtcEntry atcEntries

/-- `ap_m68030_atc_status_t`. -/
inductive AtcStatus
  | miss
  | hit
  | fault
  | modify
deriving DecidableEq

/-- `ap_m68030_atc_result_t`. -/
structure AtcResult where
  status : AtcStatus := .miss
  physical : BitVec 32 := 0
  cacheInhibit : Bool := false
  index : Int := -1
deriving DecidableEq

/-- `ATC_ADDRESS_MASK`. -/
def atcAddressMask : BitVec 32 := 0x00FFFFFF

/-- `tag_mask`. -/
def tagMask (pageSizeBits : BitVec 8) : BitVec 32 :=
  if pageSizeBits.toNat ≤ 8 then atcAddressMask
  else
    let ignored := pageSizeBits.toNat - 8
    if 24 ≤ ignored then 0 else atcAddressMask &&& ~~~((1#32 <<< ignored) - 1)

/-- `tag_of`. -/
def tagOf (address : BitVec 32) : BitVec 32 := (address >>> 8) &&& atcAddressMask

/-- `entry_matches`. -/
def entryMatches (e : AtcEntry) (functionCode : BitVec 8) (address mask : BitVec 32) : Bool :=
  e.valid && e.functionCode &&& 7 == functionCode &&& 7 &&
    (e.logical ^^^ tagOf address) &&& mask == 0

/-- `entry_matches_masked`. -/
def entryMatchesMasked (e : AtcEntry) (functionCode functionCodeMask : BitVec 8)
    (address mask : BitVec 32) : Bool :=
  e.valid && (e.functionCode ^^^ functionCode) &&& functionCodeMask &&& 7 == 0 &&
    (e.logical ^^^ tagOf address) &&& mask == 0

namespace Atc

/-- `ap_m68030_atc_flush`. -/
def flush (atc : Atc) : Atc :=
  { entry := atc.entry.map fun e => { e with valid := false, history := false } }

/-- `ap_m68030_atc_flush_entry`. -/
def flushEntry (atc : Atc) (functionCode functionCodeMask : BitVec 8) (address : BitVec 32)
    (pageSizeBits : BitVec 8) : Atc :=
  let mask := tagMask pageSizeBits
  { entry := atc.entry.map fun e =>
      if entryMatchesMasked e functionCode functionCodeMask address mask then
        { e with valid := false }
      else e }

/-- The width of the page offset in `ap_m68030_atc_lookup`. -/
def offsetMask (pageSizeBits : BitVec 8) : BitVec 32 :=
  let offsetBits := if pageSizeBits.toNat ≤ 8 then 8 else pageSizeBits.toNat
  if 32 ≤ offsetBits then 0xFFFFFFFF else (1#32 <<< offsetBits) - 1

/-- `ap_m68030_atc_lookup`. -/
def lookup (atc : Atc) (functionCode : BitVec 8) (address : BitVec 32) (pageSizeBits : BitVec 8)
    (write readModifyWrite : Bool) : AtcResult :=
  match Slots.first (fun e => entryMatches e functionCode address (tagMask pageSizeBits))
      atc.entry with
  | none => {}
  | some i =>
    let hit := atc.entry[i]
    let mask := offsetMask pageSizeBits
    let frame := (hit.physical <<< 8) &&& ~~~mask
    let result : AtcResult :=
      { physical := frame ||| (address &&& mask), cacheInhibit := hit.cacheInhibit, index := i.val }
    let writing := write || readModifyWrite
    if hit.busError then { result with status := .fault }
    else if writing && hit.writeProtect then { result with status := .fault }
    else if writing && !hit.modified then { result with status := .modify }
    else { result with status := .hit }

/-- `choose_victim`: an invalid entry, then one that was not used since the last sweep,
and if there is none a sweep. -/
def chooseVictim (atc : Atc) : Fin atcEntries × Atc :=
  match Slots.first (fun e => !e.valid) atc.entry with
  | some i => (i, atc)
  | none =>
    match Slots.first (fun e => !e.history) atc.entry with
    | some i => (i, atc)
    | none => (0, { entry := atc.entry.map fun e => { e with history := false } })

/-- `ap_m68030_atc_insert`, with the index it returns. -/
def insert (atc : Atc) (functionCode : BitVec 8) (address : BitVec 32) (pageSizeBits : BitVec 8)
    (physicalPage : BitVec 32) (writeProtect cacheInhibit modified busError : Bool) :
    Fin atcEntries × Atc :=
  let (victim, atc) := (atc.flushEntry functionCode 7 address pageSizeBits).chooseVictim
  (victim,
    { entry := atc.entry.set victim
        { valid := true
          functionCode := functionCode &&& 7
          logical := tagOf address
          busError
          cacheInhibit
          writeProtect
          modified
          physical := physicalPage &&& atcAddressMask
          history := true } })

/-- `ap_m68030_atc_mark_used`. -/
def markUsed (atc : Atc) (index : Int) : Atc :=
  if index < 0 || (atcEntries : Int) ≤ index then atc
  else
    { entry := atc.entry.mapIdx fun i e => if (i : Int) = index then { e with history := true } else e }

/-- `ap_m68030_atc_flush_function_codes`. -/
def flushFunctionCodes (atc : Atc) (base mask : BitVec 8) : Atc :=
  let effective := mask &&& 7
  { entry := atc.entry.map fun e =>
      if e.valid && (e.functionCode ^^^ base) &&& effective == 0 then { e with valid := false }
      else e }

end Atc

/-! ## Keys -/

/-- The bits of an address below its page. -/
def pageBits (pageSizeBits : BitVec 8) : Nat := max 8 pageSizeBits.toNat

/-- Two addresses in one page. -/
def SamePage (pageSizeBits : BitVec 8) (a b : BitVec 32) : Prop :=
  a >>> pageBits pageSizeBits = b >>> pageBits pageSizeBits

instance (pageSizeBits : BitVec 8) (a b : BitVec 32) : Decidable (SamePage pageSizeBits a b) :=
  inferInstanceAs (Decidable (_ = _))

theorem getLsbD_one_shiftLeft_sub {k : Nat} (hk : k < 32) (i : Nat) :
    ((1#32 <<< k) - 1).getLsbD i = decide (i < k) := by
  have hpow : 2 ^ k < 2 ^ 32 := Nat.pow_lt_pow_right (by decide) hk
  have hpos : 0 < 2 ^ k := Nat.two_pow_pos k
  have hshift : (1#32 <<< k).toNat = 2 ^ k := by
    rw [BitVec.toNat_shiftLeft, BitVec.toNat_ofNat, Nat.one_mod, Nat.one_shiftLeft,
      Nat.mod_eq_of_lt hpow]
  have hnat : ((1#32 <<< k) - 1).toNat = 2 ^ k - 1 := by
    rw [BitVec.toNat_sub_of_le, hshift]
    · rfl
    · rw [BitVec.le_def, hshift]
      exact hpos
  rw [BitVec.getLsbD, hnat, Nat.testBit_two_pow_sub_one]

theorem getLsbD_tagMask (pageSizeBits : BitVec 8) (i : Nat) :
    (tagMask pageSizeBits).getLsbD i = decide (pageBits pageSizeBits ≤ i + 8 ∧ i < 24) := by
  have haddress : atcAddressMask.getLsbD i = decide (i < 24) := by
    have h := getLsbD_one_shiftLeft_sub (k := 24) (by decide) i
    rwa [show (1#32 <<< 24) - 1 = atcAddressMask by decide] at h
  unfold tagMask pageBits
  split
  · next hsmall =>
    rw [haddress, max_eq_left hsmall]
    simp
  · next hlarge =>
    dsimp only
    rw [max_eq_right (by omega)]
    split
    · next hall =>
      show (0#32).getLsbD i = _
      rw [BitVec.getLsbD_zero]
      refine (decide_eq_false ?_).symm
      omega
    · next hsome =>
      rw [BitVec.getLsbD_and, BitVec.getLsbD_not, haddress,
        getLsbD_one_shiftLeft_sub (by omega)]
      by_cases hi : i < 24
      · simp only [hi, decide_true, Bool.true_and, and_true, show i < 32 by omega]
        rw [← decide_not]
        exact decide_eq_decide.mpr (by omega)
      · simp only [hi, decide_false, Bool.false_and, and_false]

theorem tagOf_and_tagMask {pageSizeBits : BitVec 8} {a b : BitVec 32} :
    tagOf a &&& tagMask pageSizeBits = tagOf b &&& tagMask pageSizeBits ↔
      SamePage pageSizeBits a b := by
  have haddress : ∀ i, atcAddressMask.getLsbD i = decide (i < 24) := by
    intro i
    have h := getLsbD_one_shiftLeft_sub (k := 24) (by decide) i
    rwa [show (1#32 <<< 24) - 1 = atcAddressMask by decide] at h
  have hbit : ∀ (x : BitVec 32) (i : Nat), (tagOf x &&& tagMask pageSizeBits).getLsbD i =
      (decide (pageBits pageSizeBits ≤ i + 8 ∧ i < 24) && x.getLsbD (i + 8)) := by
    intro x i
    rw [BitVec.getLsbD_and, tagOf, BitVec.getLsbD_and, getLsbD_tagMask, BitVec.getLsbD_ushiftRight,
      haddress, Nat.add_comm 8 i]
    by_cases hi : i < 24
    · simp [hi, Bool.and_comm]
    · simp [hi]
  constructor
  · intro h
    apply BitVec.eq_of_getLsbD_eq
    intro i hi
    rw [BitVec.getLsbD_ushiftRight, BitVec.getLsbD_ushiftRight]
    have hpage : 8 ≤ pageBits pageSizeBits := le_max_left ..
    by_cases hin : pageBits pageSizeBits + i < 32
    · have := congrArg (fun x => x.getLsbD (pageBits pageSizeBits + i - 8)) h
      rw [hbit, hbit, show pageBits pageSizeBits + i - 8 + 8 = pageBits pageSizeBits + i by omega]
        at this
      rwa [decide_eq_true (by omega), Bool.true_and, Bool.true_and] at this
    · rw [BitVec.getLsbD_of_ge _ _ (by omega), BitVec.getLsbD_of_ge _ _ (by omega)]
  · intro h
    apply BitVec.eq_of_getLsbD_eq
    intro i hi
    rw [hbit, hbit]
    by_cases hin : pageBits pageSizeBits ≤ i + 8 ∧ i < 24
    · have := congrArg (fun x => x.getLsbD (i + 8 - pageBits pageSizeBits)) h
      rw [BitVec.getLsbD_ushiftRight, BitVec.getLsbD_ushiftRight,
        show pageBits pageSizeBits + (i + 8 - pageBits pageSizeBits) = i + 8 by omega] at this
      rw [this]
    · rw [decide_eq_false hin, Bool.false_and, Bool.false_and]

/-- What an access asks the entries for. -/
def keyOf (pageSizeBits functionCode : BitVec 8) (address : BitVec 32) : BitVec 8 × BitVec 32 :=
  (functionCode &&& 7, tagOf address &&& tagMask pageSizeBits)

theorem keyOf_eq_keyOf {pageSizeBits fc fc' : BitVec 8} {a a' : BitVec 32} :
    keyOf pageSizeBits fc a = keyOf pageSizeBits fc' a' ↔
      fc &&& 7 = fc' &&& 7 ∧ SamePage pageSizeBits a a' := by
  rw [keyOf, keyOf, Prod.mk.injEq, tagOf_and_tagMask]

/-- What an entry answers to. -/
def AtcEntry.key (pageSizeBits : BitVec 8) (e : AtcEntry) : Option (BitVec 8 × BitVec 32) :=
  if e.valid then some (e.functionCode &&& 7, e.logical &&& tagMask pageSizeBits) else none

theorem xor_and_eq_zero {w : Nat} {x y m : BitVec w} :
    (x ^^^ y) &&& m = 0#w ↔ x &&& m = y &&& m := by
  have hdistrib : (x ^^^ y) &&& m = (x &&& m) ^^^ (y &&& m) := by
    apply BitVec.eq_of_getLsbD_eq
    intro i hi
    simp only [BitVec.getLsbD_and, BitVec.getLsbD_xor]
    cases m.getLsbD i <;> simp
  rw [hdistrib, BitVec.xor_eq_zero_iff]

theorem entryMatches_iff {e : AtcEntry} {pageSizeBits fc : BitVec 8} {a : BitVec 32} :
    entryMatches e fc a (tagMask pageSizeBits) = true ↔
      e.key pageSizeBits = some (keyOf pageSizeBits fc a) := by
  unfold entryMatches AtcEntry.key keyOf
  simp only [Bool.and_eq_true, beq_iff_eq, BitVec.ofNat_eq_ofNat, xor_and_eq_zero]
  cases e.valid <;> simp

/-!
## What the translation cache remembers

For one page size, over every sequence of calls from an empty cache.

`Atc.held` is the abstract cache: what is known of a page of a function code, if
anything. A call either tells the cache of the page (`Distinct.held_of_told`), or makes it
forget the page (`Distinct.held_of_displaces`), or leaves it alone
(`Distinct.held_of_not_displaces`). The order of the 22 entries, the
victim and the history bits appear nowhere else. `remembers` is the claim for whole runs.
-/

/-- What `ap_m68030_atc_insert` is told of a page. -/
structure Translation where
  physical : BitVec 32
  writeProtect : Bool
  cacheInhibit : Bool
  modified : Bool
  busError : Bool
deriving DecidableEq

/-- What an entry holds of its page. -/
def AtcEntry.translation (e : AtcEntry) : Translation :=
  { physical := e.physical
    writeProtect := e.writeProtect
    cacheInhibit := e.cacheInhibit
    modified := e.modified
    busError := e.busError }

/-- What a lookup answers from a translation, found in some entry: a bus error and a
forbidden write are faults, a first write asks for a table search, and the page offset is
the access's own. -/
def Translation.answer (t : Translation) (address : BitVec 32) (pageSizeBits : BitVec 8)
    (write readModifyWrite : Bool) (i : Fin atcEntries) : AtcResult :=
  let mask := Atc.offsetMask pageSizeBits
  { status :=
      if t.busError then .fault
      else if (write || readModifyWrite) && t.writeProtect then .fault
      else if (write || readModifyWrite) && !t.modified then .modify
      else .hit
    physical := ((t.physical <<< 8) &&& ~~~mask) ||| (address &&& mask)
    cacheInhibit := t.cacheInhibit
    index := i.val }

/-- The calls of the cache. -/
inductive AtcCall
  | insert (functionCode : BitVec 8) (address physicalPage : BitVec 32)
      (writeProtect cacheInhibit modified busError : Bool)
  | lookup (functionCode : BitVec 8) (address : BitVec 32) (write readModifyWrite : Bool)
  | markUsed (index : Int)
  | flush
  | flushEntry (functionCode functionCodeMask : BitVec 8) (address : BitVec 32)
  | flushFunctionCodes (base mask : BitVec 8)

namespace Atc

/-- What a call leaves behind; a lookup leaves the cache as it was. -/
def step (pageSizeBits : BitVec 8) (atc : Atc) : AtcCall → Atc
  | .insert fc a p wp ci m b => (atc.insert fc a pageSizeBits p wp ci m b).2
  | .lookup .. => atc
  | .markUsed index => atc.markUsed index
  | .flush => atc.flush
  | .flushEntry fc mask a => atc.flushEntry fc mask a pageSizeBits
  | .flushFunctionCodes base mask => atc.flushFunctionCodes base mask

def run (pageSizeBits : BitVec 8) (atc : Atc) (calls : List AtcCall) : Atc :=
  calls.foldl (step pageSizeBits) atc

end Atc

/-- The call is an insert for this page of this function code. -/
def AtcCall.told (pageSizeBits functionCode : BitVec 8) (address : BitVec 32) :
    AtcCall → Option Translation
  | .insert fc a p wp ci m b =>
    if fc &&& 7 = functionCode &&& 7 ∧ SamePage pageSizeBits a address then
      some { physical := p &&& atcAddressMask, writeProtect := wp, cacheInhibit := ci,
             modified := m, busError := b }
    else none
  | _ => none

/-- The call ends what an earlier insert said of this page: it flushes the page, or it is
an insert, either for the page itself or one that evicts the entry that holds it. -/
def Atc.Displaces (pageSizeBits : BitVec 8) (atc : Atc) (functionCode : BitVec 8)
    (address : BitVec 32) : AtcCall → Prop
  | .insert fc a p wp ci m b =>
    (fc &&& 7 = functionCode &&& 7 ∧ SamePage pageSizeBits a address) ∨
      entryMatches atc.entry[(atc.insert fc a pageSizeBits p wp ci m b).1] functionCode address
        (tagMask pageSizeBits) = true
  | .lookup .. => False
  | .markUsed _ => False
  | .flush => True
  | .flushEntry fc mask a =>
    (fc ^^^ functionCode) &&& mask &&& 7 = 0 ∧ SamePage pageSizeBits a address
  | .flushFunctionCodes base mask => (functionCode ^^^ base) &&& (mask &&& 7) = 0

instance (pageSizeBits : BitVec 8) (atc : Atc) (functionCode : BitVec 8) (address : BitVec 32) :
    (call : AtcCall) → Decidable (atc.Displaces pageSizeBits functionCode address call)
  | .insert .. => inferInstanceAs (Decidable (_ ∨ _))
  | .lookup .. => inferInstanceAs (Decidable False)
  | .markUsed _ => inferInstanceAs (Decidable False)
  | .flush => inferInstanceAs (Decidable True)
  | .flushEntry .. => inferInstanceAs (Decidable (_ ∧ _))
  | .flushFunctionCodes .. => inferInstanceAs (Decidable (_ = _))

namespace Atc

/-! ## One entry after each call -/

section Calls

variable (atc : Atc) (pageSizeBits : BitVec 8)

theorem getElem_flushEntry (fc mask : BitVec 8) (a : BitVec 32) (i : Fin atcEntries) :
    (atc.flushEntry fc mask a pageSizeBits).entry[i] =
      if entryMatchesMasked atc.entry[i] fc mask a (tagMask pageSizeBits) then
        { atc.entry[i] with valid := false }
      else atc.entry[i] := by
  rw [flushEntry, Fin.getElem_fin, Vector.getElem_map]
  rfl

theorem getElem_flushFunctionCodes (base mask : BitVec 8) (i : Fin atcEntries) :
    (atc.flushFunctionCodes base mask).entry[i] =
      if atc.entry[i].valid && (atc.entry[i].functionCode ^^^ base) &&& (mask &&& 7) == 0 then
        { atc.entry[i] with valid := false }
      else atc.entry[i] := by
  rw [flushFunctionCodes, Fin.getElem_fin, Vector.getElem_map]
  rfl

theorem entryMatchesMasked_exact (e : AtcEntry) (fc : BitVec 8) (a m : BitVec 32) :
    entryMatchesMasked e fc 7 a m = entryMatches e fc a m := by
  have hcode : ((e.functionCode ^^^ fc) &&& 7 &&& 7 == 0) = (e.functionCode &&& 7 == fc &&& 7) := by
    rw [BitVec.and_assoc, BitVec.and_self, Bool.eq_iff_iff, beq_iff_eq, beq_iff_eq]
    exact xor_and_eq_zero
  rw [entryMatchesMasked, entryMatches, hcode]

theorem key_chooseVictim (i : Fin atcEntries) :
    (atc.chooseVictim.2.entry[i]).key pageSizeBits = (atc.entry[i]).key pageSizeBits ∧
      (atc.chooseVictim.2.entry[i]).translation = (atc.entry[i]).translation := by
  unfold chooseVictim
  split
  · exact ⟨rfl, rfl⟩
  · split
    · exact ⟨rfl, rfl⟩
    · simp only [Fin.getElem_fin, Vector.getElem_map]
      exact ⟨rfl, rfl⟩

theorem chooseVictim_of_invalid {i : Fin atcEntries} (hi : atc.entry[i].valid = false) :
    atc.chooseVictim.2 = atc ∧ atc.entry[atc.chooseVictim.1].valid = false := by
  cases hfirst : Slots.first (fun e : AtcEntry => !e.valid) atc.entry with
  | none =>
    have := Slots.first_eq_none.mp hfirst i
    rw [hi] at this
    cases this
  | some j =>
    have hchoice : atc.chooseVictim = (j, atc) := by simp only [chooseVictim, hfirst]
    have hj := Slots.of_first_eq_some hfirst
    rw [Bool.not_eq_true'] at hj
    refine ⟨by rw [hchoice], ?_⟩
    simp only [hchoice]
    exact hj

theorem getElem_insert (fc : BitVec 8) (a p : BitVec 32) (wp ci m b : Bool) (i : Fin atcEntries) :
    (atc.insert fc a pageSizeBits p wp ci m b).2.entry[i] =
      if (atc.insert fc a pageSizeBits p wp ci m b).1 = i then
        { valid := true, functionCode := fc &&& 7, logical := tagOf a, busError := b,
          cacheInhibit := ci, writeProtect := wp, modified := m, physical := p &&& atcAddressMask,
          history := true }
      else (atc.flushEntry fc 7 a pageSizeBits).chooseVictim.2.entry[i] := by
  rw [insert]
  exact Slots.getElem_set ..

theorem key_flushEntry (fc mask : BitVec 8) (a : BitVec 32) (i : Fin atcEntries) :
    ((atc.flushEntry fc mask a pageSizeBits).entry[i]).key pageSizeBits =
      if entryMatchesMasked atc.entry[i] fc mask a (tagMask pageSizeBits) then none
      else (atc.entry[i]).key pageSizeBits := by
  rw [getElem_flushEntry]
  split <;> rfl

theorem key_insert (fc : BitVec 8) (a p : BitVec 32) (wp ci m b : Bool) (i : Fin atcEntries) :
    ((atc.insert fc a pageSizeBits p wp ci m b).2.entry[i]).key pageSizeBits =
      if (atc.insert fc a pageSizeBits p wp ci m b).1 = i then some (keyOf pageSizeBits fc a)
      else if entryMatches atc.entry[i] fc a (tagMask pageSizeBits) then none
      else (atc.entry[i]).key pageSizeBits := by
  rw [getElem_insert]
  split
  · simp only [AtcEntry.key, keyOf, if_true]
    rw [BitVec.and_assoc, BitVec.and_self]
  · rw [(key_chooseVictim _ _ i).1, key_flushEntry, entryMatchesMasked_exact]

theorem translation_insert (fc : BitVec 8) (a p : BitVec 32) (wp ci m b : Bool) (i : Fin atcEntries) :
    ((atc.insert fc a pageSizeBits p wp ci m b).2.entry[i]).translation =
      if (atc.insert fc a pageSizeBits p wp ci m b).1 = i then
        { physical := p &&& atcAddressMask, writeProtect := wp, cacheInhibit := ci, modified := m,
          busError := b }
      else (atc.entry[i]).translation := by
  rw [getElem_insert]
  split
  · rfl
  · rw [(key_chooseVictim _ pageSizeBits i).2, getElem_flushEntry]
    split <;> rfl

end Calls

/-! ## The abstract cache -/

/-- No two entries answer to one page of one function code. -/
abbrev Distinct (pageSizeBits : BitVec 8) (atc : Atc) : Prop :=
  Slots.Distinct (AtcEntry.key pageSizeBits) atc.entry

/-- What is known of a page of a function code. -/
def held (pageSizeBits : BitVec 8) (atc : Atc) (functionCode : BitVec 8) (address : BitVec 32) :
    Option Translation :=
  (Slots.first (fun e => entryMatches e functionCode address (tagMask pageSizeBits)) atc.entry).map
    fun i => atc.entry[i].translation

section Held

variable {atc atc' : Atc} {psb fc : BitVec 8} {a : BitVec 32} {t : Translation}

theorem held_eq_none : held psb atc fc a = none ↔
    ∀ i : Fin atcEntries, (atc.entry[i]).key psb ≠ some (keyOf psb fc a) := by
  rw [held, Option.map_eq_none_iff, Slots.first_eq_none]
  refine forall_congr' fun i => ?_
  rw [← Bool.not_eq_true, ne_eq, entryMatches_iff]

theorem Distinct.held_eq_some (h : Distinct psb atc) : held psb atc fc a = some t ↔
    ∃ i : Fin atcEntries, (atc.entry[i]).key psb = some (keyOf psb fc a) ∧
      (atc.entry[i]).translation = t := by
  rw [held, Option.map_eq_some_iff]
  refine exists_congr fun i => ?_
  rw [Slots.Distinct.first_eq_some h fun e => entryMatches_iff]

theorem held_congr (h : Distinct psb atc) (h' : Distinct psb atc')
    (hsame : ∀ i : Fin atcEntries,
      (atc.entry[i].key psb = some (keyOf psb fc a) ↔ atc'.entry[i].key psb = some (keyOf psb fc a)) ∧
      (atc.entry[i].key psb = some (keyOf psb fc a) →
        atc'.entry[i].translation = atc.entry[i].translation)) :
    held psb atc' fc a = held psb atc fc a := by
  apply Option.ext
  intro t
  rw [h.held_eq_some, h'.held_eq_some]
  refine exists_congr fun i => ?_
  rw [← (hsame i).1]
  refine and_congr_right fun hkey => ?_
  rw [(hsame i).2 hkey]

theorem lookup_eq_answer (hheld : held psb atc fc a = some t) (write rmw : Bool) :
    ∃ i, atc.lookup fc a psb write rmw = t.answer a psb write rmw i := by
  obtain ⟨i, hi, rfl⟩ := Option.map_eq_some_iff.mp hheld
  refine ⟨i, ?_⟩
  simp only [lookup, hi, Translation.answer]
  clear hheld
  rcases atc.entry[i] with ⟨valid, code, logical, bus, ci, wp, m, p, history⟩
  cases bus <;> cases wp <;> cases m <;> cases write <;> cases rmw <;> rfl

theorem lookup_eq_miss (hheld : held psb atc fc a = none) (write rmw : Bool) :
    atc.lookup fc a psb write rmw = {} := by
  have hnone := Option.map_eq_none_iff.mp hheld
  simp only [lookup, hnone]

end Held

/-! ## One call -/

section Step

variable {atc : Atc} {psb : BitVec 8}

theorem xor_and_low (x y m k : BitVec 8) :
    (x ^^^ y) &&& m &&& k = ((x &&& k) ^^^ (y &&& k)) &&& m := by
  apply BitVec.eq_of_getLsbD_eq
  intro i hi
  simp only [BitVec.getLsbD_and, BitVec.getLsbD_xor]
  cases k.getLsbD i <;> simp

theorem key_eq_some {e : AtcEntry} {fc : BitVec 8} {a : BitVec 32} :
    e.key psb = some (keyOf psb fc a) ↔ e.valid = true ∧ e.functionCode &&& 7 = fc &&& 7 ∧
      e.logical &&& tagMask psb = tagOf a &&& tagMask psb := by
  unfold AtcEntry.key keyOf
  cases e.valid <;> simp

theorem entryMatchesMasked_of_key {e : AtcEntry} {fc : BitVec 8} {a : BitVec 32}
    (hkey : e.key psb = some (keyOf psb fc a)) (fc' mask : BitVec 8) (a' : BitVec 32) :
    entryMatchesMasked e fc' mask a' (tagMask psb) = true ↔
      (fc' ^^^ fc) &&& mask &&& 7 = 0 ∧ SamePage psb a' a := by
  obtain ⟨hvalid, hcode, hlogical⟩ := key_eq_some.mp hkey
  have hxor : (e.functionCode ^^^ fc') &&& mask &&& 7 = (fc' ^^^ fc) &&& mask &&& 7 := by
    rw [xor_and_low, xor_and_low, hcode, BitVec.xor_comm]
  have hpage : (e.logical ^^^ tagOf a') &&& tagMask psb = 0#32 ↔ SamePage psb a' a := by
    rw [xor_and_eq_zero, hlogical, tagOf_and_tagMask]
    exact eq_comm
  unfold entryMatchesMasked
  rw [hvalid, hxor, Bool.true_and, Bool.and_eq_true, beq_iff_eq, beq_iff_eq]
  exact and_congr_right fun _ => hpage

theorem flushFunctionCodes_of_key {e : AtcEntry} {fc : BitVec 8} {a : BitVec 32}
    (hkey : e.key psb = some (keyOf psb fc a)) (base mask : BitVec 8) :
    (e.valid && (e.functionCode ^^^ base) &&& (mask &&& 7) == 0) = true ↔
      (fc ^^^ base) &&& (mask &&& 7) = 0 := by
  obtain ⟨hvalid, hcode, -⟩ := key_eq_some.mp hkey
  rw [hvalid, Bool.true_and, beq_iff_eq, ← BitVec.and_assoc, ← BitVec.and_assoc, xor_and_low,
    xor_and_low fc, hcode]

/-- The entries for a page after an insert for another: the victim is not one of them, and
the others stay. -/
theorem key_insert_other {fc fc' : BitVec 8} {a a' : BitVec 32} (p : BitVec 32)
    (wp ci m b : Bool) (hother : keyOf psb fc a ≠ keyOf psb fc' a') (i : Fin atcEntries) :
    ((atc.insert fc a psb p wp ci m b).2.entry[i]).key psb = some (keyOf psb fc' a') ↔
      (atc.insert fc a psb p wp ci m b).1 ≠ i ∧ (atc.entry[i]).key psb = some (keyOf psb fc' a') := by
  rw [key_insert]
  split
  · next hvictim =>
    refine ⟨fun h => absurd (Option.some.inj h) hother, fun h => absurd hvictim h.1⟩
  · next hvictim =>
    split
    · next hmatch =>
      refine ⟨nofun, fun h => ?_⟩
      rw [entryMatches_iff, h.2] at hmatch
      exact absurd (Option.some.inj hmatch).symm hother
    · exact ⟨fun h => ⟨hvictim, h⟩, fun h => h.2⟩

theorem Distinct.insert (h : Distinct psb atc) (fc : BitVec 8) (a p : BitVec 32)
    (wp ci m b : Bool) : Distinct psb (atc.insert fc a psb p wp ci m b).2 := by
  intro i j k hi hj
  by_cases hk : keyOf psb fc a = k
  · -- only the victim answers to the page that was inserted
    have honly : ∀ x : Fin atcEntries,
        ((atc.insert fc a psb p wp ci m b).2.entry[x]).key psb = some k →
        (atc.insert fc a psb p wp ci m b).1 = x := by
      intro x hx
      rw [key_insert] at hx
      split at hx
      · next hvictim => exact hvictim
      · split at hx
        · cases hx
        · next hmatch =>
          rw [entryMatches_iff, hk] at hmatch
          exact absurd hx hmatch
    exact (honly i hi).symm.trans (honly j hj)
  · have hold : ∀ x : Fin atcEntries,
        ((atc.insert fc a psb p wp ci m b).2.entry[x]).key psb = some k →
        (atc.entry[x]).key psb = some k := by
      intro x hx
      rw [key_insert] at hx
      split at hx
      · exact absurd (Option.some.inj hx) hk
      · split at hx
        · cases hx
        · exact hx
    exact h i j k (hold i hi) (hold j hj)

theorem Distinct.step (h : Distinct psb atc) (call : AtcCall) :
    Distinct psb (atc.step psb call) := by
  cases call with
  | insert fc a p wp ci m b => exact h.insert fc a p wp ci m b
  | lookup => exact h
  | markUsed index =>
    unfold Atc.step markUsed
    dsimp only
    split
    · exact h
    · apply Slots.Distinct.of_key h
      intro i
      simp only [Fin.getElem_fin, Vector.getElem_mapIdx]
      split <;> exact .inr rfl
  | flush => exact Slots.Distinct.map h fun e => .inl rfl
  | flushEntry fc mask a =>
    apply Slots.Distinct.of_key h
    intro i
    unfold Atc.step
    rw [key_flushEntry]
    split
    · exact .inl rfl
    · exact .inr rfl
  | flushFunctionCodes base mask =>
    apply Slots.Distinct.of_key h
    intro i
    unfold Atc.step
    rw [getElem_flushFunctionCodes]
    split
    · exact .inl rfl
    · exact .inr rfl

theorem Distinct.held_of_told (h : Distinct psb atc) {call : AtcCall} {fc : BitVec 8}
    {a : BitVec 32} {t : Translation} (htold : call.told psb fc a = some t) :
    held psb (atc.step psb call) fc a = some t := by
  cases call with
  | insert fc' a' p wp ci m b =>
    rw [AtcCall.told, Option.ite_none_right_eq_some] at htold
    obtain ⟨hpage, heq⟩ := htold
    refine (h.insert fc' a' p wp ci m b).held_eq_some.mpr
      ⟨(atc.insert fc' a' psb p wp ci m b).1, ?_, ?_⟩
    · rw [key_insert, if_pos rfl, keyOf_eq_keyOf.mpr hpage]
    · rw [translation_insert, if_pos rfl]
      exact Option.some.inj heq
  | _ => cases htold

theorem Distinct.held_of_displaces (h : Distinct psb atc) {call : AtcCall} {fc : BitVec 8}
    {a : BitVec 32} (htold : call.told psb fc a = none) (hdisplaces : atc.Displaces psb fc a call) :
    held psb (atc.step psb call) fc a = none := by
  rw [held_eq_none]
  intro i hi
  cases call with
  | insert fc' a' p wp ci m b =>
    have hother : ¬ (fc' &&& 7 = fc &&& 7 ∧ SamePage psb a' a) := by
      intro hsame
      rw [AtcCall.told, if_pos hsame] at htold
      cases htold
    obtain ⟨hne, hkey⟩ :=
      (key_insert_other p wp ci m b (fun h => hother (keyOf_eq_keyOf.mp h)) i).mp hi
    rcases hdisplaces with hsame | hvictim
    · exact hother hsame
    · exact hne (h _ _ _ (entryMatches_iff.mp hvictim) hkey)
  | lookup => exact hdisplaces
  | markUsed => exact hdisplaces
  | flush =>
    simp only [Atc.step, flush, Fin.getElem_fin, Vector.getElem_map] at hi
    cases hi
  | flushEntry fc' mask a' =>
    unfold Atc.step at hi
    rw [key_flushEntry] at hi
    split at hi
    · cases hi
    · next hmatch =>
      exact hmatch ((entryMatchesMasked_of_key hi fc' mask a').mpr hdisplaces)
  | flushFunctionCodes base mask =>
    unfold Atc.step at hi
    rw [getElem_flushFunctionCodes] at hi
    split at hi
    · cases hi
    · next hmatch => exact hmatch ((flushFunctionCodes_of_key hi base mask).mpr hdisplaces)

theorem Distinct.held_of_not_displaces (h : Distinct psb atc) {call : AtcCall} {fc : BitVec 8}
    {a : BitVec 32} (hdisplaces : ¬ atc.Displaces psb fc a call) :
    held psb (atc.step psb call) fc a = held psb atc fc a := by
  apply held_congr h (h.step call)
  intro i
  cases call with
  | insert fc' a' p wp ci m b =>
    obtain ⟨hother, hvictim⟩ := not_or.mp hdisplaces
    have hne : keyOf psb fc' a' ≠ keyOf psb fc a := fun h => hother (keyOf_eq_keyOf.mp h)
    unfold Atc.step
    rw [key_insert_other p wp ci m b hne, translation_insert]
    by_cases hi : (atc.insert fc' a' psb p wp ci m b).1 = i
    · rw [entryMatches_iff] at hvictim
      simp only [hi] at hvictim
      exact ⟨⟨fun hkey => absurd hkey hvictim, fun hkey => hkey.2⟩, fun hkey => absurd hkey hvictim⟩
    · rw [if_neg hi]
      exact ⟨⟨fun hkey => ⟨hi, hkey⟩, fun hkey => hkey.2⟩, fun _ => rfl⟩
  | lookup => exact ⟨Iff.rfl, fun _ => rfl⟩
  | markUsed index =>
    unfold Atc.step markUsed
    dsimp only
    split
    · exact ⟨Iff.rfl, fun _ => rfl⟩
    · simp only [Fin.getElem_fin, Vector.getElem_mapIdx]
      split <;> exact ⟨Iff.rfl, fun _ => rfl⟩
  | flush => exact absurd trivial hdisplaces
  | flushEntry fc' mask a' =>
    unfold Atc.step
    rw [getElem_flushEntry]
    split
    · next hmatch =>
      refine ⟨⟨fun hkey => ?_, nofun⟩, fun _ => rfl⟩
      exact absurd ((entryMatchesMasked_of_key hkey fc' mask a').mp hmatch) hdisplaces
    · exact ⟨Iff.rfl, fun _ => rfl⟩
  | flushFunctionCodes base mask =>
    unfold Atc.step
    rw [getElem_flushFunctionCodes]
    split
    · next hmatch =>
      refine ⟨⟨fun hkey => ?_, nofun⟩, fun _ => rfl⟩
      exact absurd ((flushFunctionCodes_of_key hkey base mask).mp hmatch) hdisplaces
    · exact ⟨Iff.rfl, fun _ => rfl⟩

end Step

/-! ## Whole runs -/

/-- What the calls have told the cache of a page, last and for good: an insert for it that
no later call has displaced. -/
def Standing (pageSizeBits : BitVec 8) (atc : Atc) (calls : List AtcCall)
    (functionCode : BitVec 8) (address : BitVec 32) (t : Translation) : Prop :=
  ∃ before call after, calls = before ++ call :: after ∧
    call.told pageSizeBits functionCode address = some t ∧
    ∀ mid₁ later mid₂, after = mid₁ ++ later :: mid₂ →
      ¬ (run pageSizeBits atc (before ++ call :: mid₁)).Displaces pageSizeBits functionCode address
        later

section Run

variable {atc : Atc} {psb : BitVec 8}

theorem run_append (calls calls' : List AtcCall) :
    run psb atc (calls ++ calls') = run psb (run psb atc calls) calls' :=
  List.foldl_append

theorem distinct_of_invalid (hempty : ∀ i : Fin atcEntries, atc.entry[i].valid = false) :
    Distinct psb atc := by
  intro i j k hi
  rw [AtcEntry.key, hempty i] at hi
  cases hi

theorem Distinct.run (h : Distinct psb atc) (calls : List AtcCall) :
    Distinct psb (run psb atc calls) := by
  induction calls generalizing atc with
  | nil => exact h
  | cons call calls ih => exact ih (h.step call)

theorem Distinct.held_run (h : Distinct psb atc) {calls : List AtcCall} {fc : BitVec 8}
    {a : BitVec 32}
    (hkeep : ∀ before later after, calls = before ++ later :: after →
      ¬ (Atc.run psb atc before).Displaces psb fc a later) :
    held psb (Atc.run psb atc calls) fc a = held psb atc fc a := by
  induction calls generalizing atc with
  | nil => rfl
  | cons call calls ih =>
    have hfirst := h.held_of_not_displaces (hkeep [] call calls rfl)
    rw [← hfirst]
    refine ih (h.step call) fun before later after heq => ?_
    exact hkeep (call :: before) later after (by rw [heq, List.cons_append])

theorem Distinct.held_run_eq_some (h : Distinct psb atc)
    (hempty : ∀ i : Fin atcEntries, atc.entry[i].valid = false) (calls : List AtcCall)
    (fc : BitVec 8) (a : BitVec 32) (t : Translation) :
    held psb (Atc.run psb atc calls) fc a = some t ↔ Standing psb atc calls fc a t := by
  constructor
  · intro hheld
    induction calls using List.reverseRecOn with
    | nil =>
      obtain ⟨i, hi, -⟩ := h.held_eq_some.mp hheld
      rw [AtcEntry.key, hempty i] at hi
      cases hi
    | append_singleton calls call ih =>
      have hrun := h.run calls
      rw [run_append] at hheld
      cases htold : call.told psb fc a with
      | some t' =>
        obtain rfl : t' = t := by
          rw [show held psb (Atc.run psb (Atc.run psb atc calls) [call]) fc a = _ from
            hrun.held_of_told htold] at hheld
          exact Option.some.inj hheld
        refine ⟨calls, call, [], rfl, htold, fun mid₁ later mid₂ heq => ?_⟩
        exact absurd heq (List.append_ne_nil_of_right_ne_nil _ (List.cons_ne_nil _ _)).symm
      | none =>
        by_cases hdisplaces : (Atc.run psb atc calls).Displaces psb fc a call
        · rw [show held psb (Atc.run psb (Atc.run psb atc calls) [call]) fc a = _ from
            hrun.held_of_displaces htold hdisplaces] at hheld
          cases hheld
        · rw [show held psb (Atc.run psb (Atc.run psb atc calls) [call]) fc a = _ from
            hrun.held_of_not_displaces hdisplaces] at hheld
          obtain ⟨before, first, after, rfl, hfirst, hkeep⟩ := ih hheld
          refine ⟨before, first, after ++ [call], by rw [List.append_assoc]; rfl, hfirst,
            fun mid₁ later mid₂ heq => ?_⟩
          rcases List.eq_nil_or_concat mid₂ with rfl | ⟨mid₂, last, rfl⟩
          · obtain ⟨rfl, hlast⟩ := List.append_inj' heq rfl
            cases hlast
            exact hdisplaces
          · rw [List.concat_eq_append, ← List.cons_append, ← List.append_assoc] at heq
            exact hkeep mid₁ later mid₂ (List.append_inj' heq rfl).1
  · rintro ⟨before, call, after, rfl, htold, hkeep⟩
    rw [show before ++ call :: after = (before ++ [call]) ++ after by
      rw [List.append_assoc]; rfl, run_append]
    rw [Distinct.held_run (h.run _)]
    · rw [run_append]
      exact (h.run before).held_of_told htold
    · intro mid₁ later mid₂ heq
      rw [← run_append, List.append_assoc]
      exact hkeep mid₁ later mid₂ heq

end Run

/-- Whether a masked flush is meant for what an entry holds: the function codes agree where
the mask says so, and the page is the entry's. -/
def Flushes (pageSizeBits fc mask : BitVec 8) (a : BitVec 32) (e : AtcEntry) : Prop :=
  (e.functionCode ^^^ fc) &&& mask &&& 7 = 0 ∧ SamePage pageSizeBits (e.logical <<< 8) a

instance (pageSizeBits fc mask : BitVec 8) (a : BitVec 32) (e : AtcEntry) :
    Decidable (Flushes pageSizeBits fc mask a e) :=
  inferInstanceAs (Decidable (_ ∧ _))

theorem tagOf_shiftLeft_and (l : BitVec 32) (psb : BitVec 8) :
    tagOf (l <<< 8) &&& tagMask psb = l &&& tagMask psb := by
  apply BitVec.eq_of_getLsbD_eq
  intro i hi
  rw [tagOf, BitVec.getLsbD_and, BitVec.getLsbD_and, BitVec.getLsbD_and, getLsbD_tagMask,
    BitVec.getLsbD_ushiftRight, BitVec.getLsbD_shiftLeft]
  by_cases hlow : i < 24
  · have haddress : atcAddressMask.getLsbD i = true := by
      have h := getLsbD_one_shiftLeft_sub (k := 24) (by decide) i
      rw [show (1#32 <<< 24) - 1 = atcAddressMask by decide] at h
      rw [h, decide_eq_true hlow]
    rw [haddress, show 8 + i - 8 = i by omega, decide_eq_true (show 8 + i < 32 by omega),
      decide_eq_false (show ¬ 8 + i < 8 by omega)]
    simp
  · simp [hlow]

theorem entryMatchesMasked_iff_flushes (psb fc mask : BitVec 8) (a : BitVec 32) (e : AtcEntry) :
    entryMatchesMasked e fc mask a (tagMask psb) = true ↔ e.valid = true ∧ Flushes psb fc mask a e := by
  unfold entryMatchesMasked Flushes
  rw [Bool.and_eq_true, Bool.and_eq_true, beq_iff_eq, beq_iff_eq, and_assoc, ← tagOf_and_tagMask,
    tagOf_shiftLeft_and]
  exact and_congr_right fun _ => and_congr_right fun _ => xor_and_eq_zero

theorem invalidate_eq_self {e : AtcEntry} (h : ¬ e.valid = true) : { e with valid := false } = e := by
  obtain ⟨valid, code, logical, bus, ci, wp, m, p, history⟩ := e
  cases valid with
  | false => rfl
  | true => exact absurd rfl h

theorem getElem_insert_of_invalid {atc : Atc} {psb fc : BitVec 8} {a : BitVec 32}
    {i j : Fin atcEntries} (hfree : atc.entry[i].valid = false) (hvalid : atc.entry[j].valid = true)
    (hother : entryMatches atc.entry[j] fc a (tagMask psb) = false) (p : BitVec 32)
    (wp ci m b : Bool) :
    (atc.insert fc a psb p wp ci m b).2.entry[j] = atc.entry[j] := by
  have hflushed : ∀ x : Fin atcEntries, atc.entry[x].valid = false →
      (atc.flushEntry fc 7 a psb).entry[x].valid = false := by
    intro x hx
    rw [getElem_flushEntry]
    split
    · rfl
    · exact hx
  have hsame : (atc.flushEntry fc 7 a psb).entry[j] = atc.entry[j] := by
    rw [getElem_flushEntry, entryMatchesMasked_exact, hother]
    rfl
  obtain ⟨hchoice, hvictim⟩ := chooseVictim_of_invalid _ (hflushed i hfree)
  rw [getElem_insert, if_neg, hchoice, hsame]
  intro heq
  have hvictim' : (atc.flushEntry fc 7 a psb).entry[j].valid = false := by
    have hindex : (atc.flushEntry fc 7 a psb).chooseVictim.1 = j := heq
    simp only [hindex] at hvictim
    exact hvictim
  rw [hsame, hvalid] at hvictim'
  cases hvictim'

/-- THE TRANSLATION CACHE REMEMBERS WHAT IT WAS TOLD LAST. After any calls from an empty
cache: no two valid entries match one access; a lookup answers what stands for its page
and misses if nothing does; an insert with a free entry evicts nothing; and the two
masked flushes empty exactly the entries they are meant for. -/
theorem remembers (psb : BitVec 8) (empty : Atc)
    (hempty : ∀ i : Fin atcEntries, empty.entry[i].valid = false) (calls : List AtcCall) :
    let atc := run psb empty calls
    (∀ fc a (i j : Fin atcEntries), entryMatches atc.entry[i] fc a (tagMask psb) = true →
      entryMatches atc.entry[j] fc a (tagMask psb) = true → i = j) ∧
    (∀ fc a t, Standing psb empty calls fc a t →
      ∀ write rmw, ∃ i, atc.lookup fc a psb write rmw = t.answer a psb write rmw i) ∧
    (∀ fc a, (¬ ∃ t, Standing psb empty calls fc a t) →
      ∀ write rmw, (atc.lookup fc a psb write rmw).status = .miss) ∧
    (∀ fc a p wp ci m b (i j : Fin atcEntries), atc.entry[i].valid = false →
      atc.entry[j].valid = true → entryMatches atc.entry[j] fc a (tagMask psb) = false →
      (atc.insert fc a psb p wp ci m b).2.entry[j] = atc.entry[j]) ∧
    (∀ fc mask a (i : Fin atcEntries), (atc.flushEntry fc mask a psb).entry[i] =
      if Flushes psb fc mask a atc.entry[i] then { atc.entry[i] with valid := false }
      else atc.entry[i]) ∧
    (∀ base mask (i : Fin atcEntries), (atc.flushFunctionCodes base mask).entry[i] =
      if (atc.entry[i].functionCode ^^^ base) &&& (mask &&& 7) = 0 then
        { atc.entry[i] with valid := false }
      else atc.entry[i]) := by
  intro atc
  have hstart : Distinct psb empty := distinct_of_invalid hempty
  have hrun : Distinct psb atc := hstart.run calls
  refine ⟨fun fc a i j hi hj => hrun i j _ (entryMatches_iff.mp hi) (entryMatches_iff.mp hj),
    fun fc a t ht write rmw => ?_, fun fc a hnone write rmw => ?_,
    fun fc a p wp ci m b i j hfree hvalid hother =>
      getElem_insert_of_invalid hfree hvalid hother p wp ci m b,
    fun fc mask a i => ?_, fun base mask i => ?_⟩
  · exact lookup_eq_answer ((hstart.held_run_eq_some hempty calls fc a t).mpr ht) write rmw
  · cases hheld : held psb atc fc a with
    | none => rw [lookup_eq_miss hheld]
    | some t => exact absurd ⟨t, (hstart.held_run_eq_some hempty calls fc a t).mp hheld⟩ hnone
  · rw [getElem_flushEntry]
    by_cases hvalid : atc.entry[i].valid = true
    · simp only [entryMatchesMasked_iff_flushes, hvalid, true_and]
    · rw [if_neg fun h => hvalid ((entryMatchesMasked_iff_flushes ..).mp h).1,
        invalidate_eq_self hvalid, ite_self]
  · rw [getElem_flushFunctionCodes]
    by_cases hvalid : atc.entry[i].valid = true
    · simp only [hvalid, Bool.true_and, beq_iff_eq]
    · rw [if_neg fun h => hvalid (Bool.and_eq_true_iff.mp h).1, invalidate_eq_self hvalid, ite_self]

/-- An empty cache. -/
def empty : Atc := { entry := Vector.replicate atcEntries {} }

theorem remembers_twoPages :
    ∃ i, (run 12 empty [.insert 5 0x3C004C00 0x01000A false false true false,
        .insert 1 0x3C004C00 0x020000 false false false false,
        .flushEntry 1 7 0x3C004000]).lookup 5 0x3C004123 12 true false =
      (⟨0x01000A, false, false, true, false⟩ : Translation).answer 0x3C004123 12 true false i := by
  refine (remembers 12 empty (fun i => ?_) _).2.1 5 0x3C004123 _ ?_ true false
  · simp only [empty, Fin.getElem_fin, Vector.getElem_replicate]
  · refine ⟨[], _, _, rfl, by decide, fun mid₁ later mid₂ heq => ?_⟩
    rcases mid₁ with _ | ⟨first, _ | ⟨second, mid₁⟩⟩
    · cases heq
      decide +kernel
    · cases heq
      decide +kernel
    · simp only [List.cons_append, List.cons.injEq, List.nil_eq, List.append_eq_nil_iff,
        List.cons_ne_nil, and_false] at heq

end Atc

end Apollo.M68030
