import Apollo.M68030.Walk

/-!
# What a translation tree says

`resolve` is the meaning of a translation tree: the protection found on the way down and
the block of addresses at the end of it, for a tree that stands still and has no history
bits. The search of the code has both, but under `Tables` (reading changes nothing, and an
update that follows a read succeeds and changes history bits only) it computes `resolve`
(`walkFrom_resolve`) and leaves tables that mean the same.
-/

namespace Apollo.M68030

/-- A descriptor but for its history bits. -/
def Descriptor.withoutHistory (d : Descriptor) : Descriptor :=
  { d with used := false, modified := false }

@[simp] theorem Descriptor.dt_withoutHistory (d : Descriptor) : d.withoutHistory.dt = d.dt := rfl

section Tree

variable {τ : Type}

/-- A memory of descriptors: what stands at an address in a format. -/
abbrev Tree := BitVec 32 → Bool → Option Descriptor

/-- The tree that a state of the callbacks holds. -/
def treeOf (cb : Callbacks τ) (t : τ) : Tree :=
  fun a long => (cb.fetch t a long).1.map Descriptor.withoutHistory

/-- What the callbacks stand for: tables that can be read any number of times, and whose
history bits can be written wherever they were read. -/
structure Tables (cb : Callbacks τ) : Prop where
  fetch : ∀ t a long a' long', (cb.fetch (cb.fetch t a long).2 a' long').1 = (cb.fetch t a' long').1
  writable : ∀ update, cb.update = some update → ∀ t a long used modified,
    (cb.fetch t a long).1.isSome → (update t a used modified).1 = true
  history : ∀ update, cb.update = some update → ∀ t a used modified,
    treeOf cb (update t a used modified).2 = treeOf cb t

theorem Tables.treeOf_fetch {cb : Callbacks τ} (h : Tables cb) (t : τ) (a : BitVec 32)
    (long : Bool) : treeOf cb (cb.fetch t a long).2 = treeOf cb t := by
  funext a' long'
  rw [treeOf, treeOf, h.fetch]

/-- A block of addresses: which logical bits are offset, and what is added to them. -/
structure Mapping where
  base : BitVec 32
  offset : BitVec 32
deriving DecidableEq

def Mapping.physical (m : Mapping) (address : BitVec 32) : BitVec 32 :=
  m.base ||| (address &&& m.offset)

/-- The bits of an address that a given number of levels leaves over. -/
def remainingMask (tc : Tc) (levelsUsed : Nat) : BitVec 32 :=
  let consumed := bitsConsumedBefore tc levelsUsed
  if 32 ≤ consumed then 0
  else if 32 ≤ 32 - consumed then 0xFFFFFFFF else (1#32 <<< (32 - consumed)) - 1

theorem remainingOffset_eq (tc : Tc) (levelsUsed : Nat) (address : BitVec 32) :
    remainingOffset tc levelsUsed address = address &&& remainingMask tc levelsUsed := by
  unfold remainingOffset remainingMask
  dsimp only
  split
  · exact (BitVec.and_zero).symm
  · rfl

/-- The block of a page descriptor in a page table. -/
def pageMapping (tc : Tc) (d : Descriptor) : Mapping :=
  { base := descPageAddress d.addressField tc.pageSizeBits, offset := tc.pageSize - 1 }

/-- The block of a page descriptor above the page tables. -/
def blockMapping (tc : Tc) (level : Nat) (d : Descriptor) : Mapping :=
  { base := (d.addressField &&& 0x00FFFFFF) <<< 8, offset := remainingMask tc (level + 1) }

/-- What a tree says at the end of an indirect descriptor. -/
def resolveIndirect (tree : Tree) (tc : Tc) (pointedAddress : BitVec 32) (pointedLong : Bool)
    (s : Search) : Search × Option Mapping :=
  match tree pointedAddress pointedLong with
  | none => (s.failInvalid, none)
  | some p =>
    let s := s.accumulate p.writeProtect p.supervisor p.cacheInhibit
    if p.dt ≠ .page then (s.failInvalid, none) else (s, some (pageMapping tc p))

/-- What a tree says of an address with these indices left. -/
def resolve (tree : Tree) (tc : Tc) :
    List (BitVec 32) → Nat → Table → Search → Search × Option Mapping
  | [], _, _, s => (s.failInvalid, none)
  | index :: indices, level, table, s =>
    if table.haveLimit && !indexWithinLimit table.limit table.lowerLimit index then
      (s.failLimit, none)
    else
      match tree (table.descriptorAddress index) table.longFormat with
      | none => (s.failInvalid, none)
      | some d =>
        let s := s.accumulate d.writeProtect d.supervisor d.cacheInhibit
        match descRole d.dt indices.isEmpty with
        | .invalid => (s.failInvalid, none)
        | .indirect => resolveIndirect tree tc d.addressField (d.dt = .valid8Byte) s
        | .page => (s, some (pageMapping tc d))
        | .earlyPage => (s, some (blockMapping tc level d))
        | .table => resolve tree tc indices (level + 1) d.table s

theorem updateHistory_spec {cb : Callbacks τ} (h : Tables cb) (access : SearchAccess)
    {a : BitVec 32} {long : Bool} (d : Descriptor) (isPage : Bool) (r : WalkResult) {t : τ}
    (hread : (cb.fetch t a long).1.isSome) :
    ∃ r' t', updateHistory cb access a d isPage r t = (true, r', t') ∧ r'.search = r.search ∧
      r'.ok = r.ok ∧ treeOf cb t' = treeOf cb t := by
  unfold updateHistory
  cases hupdate : cb.update with
  | none => exact ⟨_, t, rfl, by split <;> rfl, by split <;> rfl, rfl⟩
  | some update =>
    have hwritten := h.writable update hupdate t a long
    have htree := h.history update hupdate t a
    dsimp only
    split
    · exact ⟨_, t, rfl, by split <;> rfl, by split <;> rfl, rfl⟩
    · rw [hwritten _ _ hread]
      exact ⟨_, _, rfl, by split <;> rfl, by split <;> rfl, htree _ _⟩

/-- A result says what the tree says. -/
structure WalkResult.Says (r : WalkResult) (said : Search × Option Mapping) (address : BitVec 32) :
    Prop where
  search : r.search = said.1
  ok : r.ok = said.2.isSome
  physical : ∀ m, said.2 = some m → r.physical = m.physical address

theorem WalkResult.says_none {r : WalkResult} (address : BitVec 32) (hok : r.ok = false) :
    r.Says (r.search, none) address := by
  refine ⟨rfl, hok, ?_⟩
  rintro m ⟨⟩

theorem fetch_cases {cb : Callbacks τ} (h : Tables cb) (t : τ) (a : BitVec 32) (long : Bool) :
    ∃ t', treeOf cb t' = treeOf cb t ∧
      ((cb.fetch t a long = (none, t') ∧ treeOf cb t a long = none) ∨
        ∃ d, cb.fetch t a long = (some d, t') ∧ treeOf cb t a long = some d.withoutHistory ∧
          (cb.fetch t' a long).1.isSome) := by
  have htree := h.treeOf_fetch t a long
  have hagain := h.fetch t a long a long
  rcases hfetch : cb.fetch t a long with ⟨_ | d, t'⟩
  · rw [hfetch] at htree
    exact ⟨t', htree, .inl ⟨rfl, by rw [treeOf, hfetch]; rfl⟩⟩
  · rw [hfetch] at htree hagain
    refine ⟨t', htree, .inr ⟨d, rfl, by rw [treeOf, hfetch]; rfl, ?_⟩⟩
    rw [show (cb.fetch t' a long).1 = some d from hagain]
    rfl

theorem walkIndirect_resolve {cb : Callbacks τ} (h : Tables cb) (tc : Tc) (address : BitVec 32)
    (access : SearchAccess) (pointedAddress : BitVec 32) (pointedLong : Bool)
    (r : WalkResult) (t : τ) (hok : r.ok = false) :
    let out := walkIndirect cb tc address access pointedAddress pointedLong r t
    out.1.Says (resolveIndirect (treeOf cb t) tc pointedAddress pointedLong r.search) address ∧
      treeOf cb out.2 = treeOf cb t := by
  obtain ⟨t₁, htree₁, ⟨hfetch, hnone⟩ | ⟨p, hfetch, hsome, hread⟩⟩ :=
    fetch_cases h t pointedAddress pointedLong
  · simp only [walkIndirect, hfetch, resolveIndirect, hnone]
    exact ⟨WalkResult.says_none address hok, htree₁⟩
  · simp only [walkIndirect, hfetch, resolveIndirect, hsome, Descriptor.dt_withoutHistory]
    by_cases hpage : p.dt = .page
    · simp only [hpage, ne_eq, not_true_eq_false, if_false]
      obtain ⟨r', t', hupdate, hsearch, -, htree'⟩ := updateHistory_spec h access p true
        { r with
          descriptorFetches := r.descriptorFetches + 1
          usedIndirect := true
          lastDescriptorAddress := pointedAddress
          search := r.search.accumulate p.writeProtect p.supervisor p.cacheInhibit } hread
      rw [hupdate]
      refine ⟨⟨hsearch, rfl, ?_⟩, htree'.trans htree₁⟩
      rintro m ⟨⟩
      rfl
    · simp only [hpage, ne_eq, not_false_eq_true, if_true]
      exact ⟨WalkResult.says_none address hok, htree₁⟩

/-- THE SEARCH COMPUTES WHAT THE TREE SAYS, and leaves a tree that says the same. -/
theorem walkFrom_resolve {cb : Callbacks τ} (h : Tables cb) (tc : Tc) (address : BitVec 32)
    (access : SearchAccess) (indices : List (BitVec 32)) (level : Nat) (table : Table)
    (r : WalkResult) (t : τ) (hok : r.ok = false) :
    let out := walkFrom cb tc address access 0 indices level table r t
    out.1.Says (resolve (treeOf cb t) tc indices level table r.search) address ∧
      treeOf cb out.2 = treeOf cb t := by
  induction indices generalizing level table r t with
  | nil => exact ⟨WalkResult.says_none address hok, rfl⟩
  | cons index indices ih =>
    simp only [walkFrom, resolve, walkLevel, ne_eq, not_true_eq_false, false_and, if_false]
    by_cases hlimit : (table.haveLimit && !indexWithinLimit table.limit table.lowerLimit index) = true
    · rw [if_pos hlimit, if_pos hlimit]
      exact ⟨WalkResult.says_none address hok, rfl⟩
    rw [if_neg hlimit, if_neg hlimit]
    obtain ⟨t₁, htree₁, ⟨hfetch, hnone⟩ | ⟨d, hfetch, hsome, hread⟩⟩ :=
      fetch_cases h t (table.descriptorAddress index) table.longFormat
    · rw [hfetch, hnone]
      exact ⟨WalkResult.says_none address hok, htree₁⟩
    rw [hfetch, hsome]
    have hupdated := fun isPage => updateHistory_spec h access d isPage
      { r with
        descriptorFetches := r.descriptorFetches + 1
        lastDescriptorAddress := table.descriptorAddress index
        levelsWalked := level + 1
        search := r.search.accumulate d.writeProtect d.supervisor d.cacheInhibit } hread
    dsimp only
    rw [Descriptor.dt_withoutHistory]
    cases descRole d.dt indices.isEmpty with
    | invalid => exact ⟨WalkResult.says_none address hok, htree₁⟩
    | indirect =>
      obtain ⟨r', t', hupdate, hsearch, hok', htree'⟩ := hupdated false
      simp only [hupdate]
      obtain ⟨hagrees, htree''⟩ := walkIndirect_resolve h tc address access d.addressField
        (decide (d.dt = .valid8Byte)) r' t' (hok'.trans hok)
      rw [hsearch, htree', htree₁] at hagrees
      exact ⟨hagrees, htree''.trans (htree'.trans htree₁)⟩
    | page =>
      obtain ⟨r', t', hupdate, hsearch, -, htree'⟩ := hupdated true
      simp only [hupdate]
      refine ⟨⟨hsearch, rfl, ?_⟩, htree'.trans htree₁⟩
      rintro m ⟨⟩
      rfl
    | earlyPage =>
      obtain ⟨r', t', hupdate, hsearch, -, htree'⟩ := hupdated true
      simp only [hupdate]
      refine ⟨⟨hsearch, rfl, ?_⟩, htree'.trans htree₁⟩
      rintro m ⟨⟩
      dsimp only
      rw [remainingOffset_eq]
      rfl
    | table =>
      obtain ⟨r', t', hupdate, hsearch, hok', htree'⟩ := hupdated false
      simp only [hupdate]
      obtain ⟨hagrees, htree''⟩ := ih (level + 1) d.table r' t' (hok'.trans hok)
      rw [hsearch, htree', htree₁] at hagrees
      exact ⟨hagrees, htree''.trans (htree'.trans htree₁)⟩

end Tree

end Apollo.M68030
