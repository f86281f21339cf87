import Apollo.M68030.Atc
import Apollo.M68030.Translate
import Apollo.M68030.WalkIndirect
import Apollo.M68030.WalkTree

/-!
# One translation, however it is asked for

An access, `PTEST`, `PLOAD` and the two observers each search the tables for themselves: an access
and `PLOAD` mark descriptors on the way, the others do not. `walk_agree` says that this makes no
difference to what they find, when they start from one root pointer and the tables are in memory.

They do not start from one root pointer. `PTEST`, `PLOAD` and the observers take the supervisor's
where the supervisor root is enabled; the contexts of the accesses were built with the other, and
nothing changes it. `oneTranslation_iff` is the condition under which that does not show.
-/

namespace Apollo.M68030

/-! ## Tables in memory -/

/-- The address of a long word. -/
def LongAligned (address : BitVec 32) : Prop := address &&& 3 = 0

theorem longAligned_iff {address : BitVec 32} : LongAligned address ↔ address.toNat % 4 = 0 := by
  rw [LongAligned, ← BitVec.toNat_inj, BitVec.toNat_and]
  exact iff_of_eq (congrArg (· = 0) (Nat.and_two_pow_sub_one_eq_mod address.toNat 2))

theorem Table.longAligned_descriptorAddress {table : Table} (h : LongAligned table.tableAddress)
    (index : BitVec 32) : LongAligned (table.descriptorAddress index) := by
  rw [longAligned_iff] at h ⊢
  rw [Table.descriptorAddress, BitVec.toNat_add, BitVec.toNat_mul]
  split
  · rw [show BitVec.toNat (8 : BitVec 32) = 8 from rfl]
    omega
  · rw [show BitVec.toNat (4 : BitVec 32) = 4 from rfl]
    omega

theorem longAligned_of_and {address mask : BitVec 32} (h : mask &&& 3 = 0) :
    LongAligned (address &&& mask) := by
  rw [LongAligned, BitVec.and_assoc, h]
  exact BitVec.and_zero

theorem RootPointer.longAligned (root : RootPointer) : LongAligned root.tableAddress := by
  have h := congrArg (· &&& 3) root.aligned
  rw [LongAligned, ← show (15 : BitVec 32) &&& 3 = 3 by decide, ← BitVec.and_assoc]
  exact h.trans BitVec.zero_and

/-- There is a memory of long words behind `table_read` and `table_write`. -/
structure InMemory {τ : Type} (bus : TableBus τ) where
  memory : τ → BitVec 32 → Option (BitVec 32)
  read : ∀ t a, LongAligned a → (bus.read t a).1 = memory t a
  read_keeps : ∀ t a, LongAligned a → memory (bus.read t a).2 = memory t
  write : ∀ t a v, LongAligned a → (memory t a).isSome → (bus.write t a v).1 = true
  written : ∀ t a v, LongAligned a → (memory t a).isSome → ∀ b, LongAligned b →
    memory (bus.write t a v).2 b = if b = a then some v else memory t b

/-- The descriptor that is at an address in a memory. -/
def descriptorAt (m : BitVec 32 → Option (BitVec 32)) (address : BitVec 32) (longFormat : Bool) :
    Option Descriptor :=
  match m address with
  | none => none
  | some upper =>
    if !longFormat then some (machineDecode longFormat (upper, 0))
    else (m (address + 4)).map fun lower => machineDecode longFormat (upper, lower)

/-! ## The U bit -/

section Used

variable (w : BitVec 32)

theorem getLsbD_setUsed {i : Nat} (h : i ≠ 3) : (w ||| 8).getLsbD i = w.getLsbD i := by
  have hbit : (8 : BitVec 32).getLsbD i = false := by
    by_cases hi : i < 32
    · have hall : ∀ i < 32, i ≠ 3 → (8 : BitVec 32).getLsbD i = false := by decide
      exact hall i hi h
    · exact BitVec.getLsbD_of_ge _ _ (by omega)
  rw [BitVec.getLsbD_or, hbit, Bool.or_false]

theorem setUsed_and (mask : BitVec 32) (h : mask.getLsbD 3 = false) :
    (w ||| 8) &&& mask = w &&& mask := by
  apply BitVec.eq_of_getLsbD_eq
  intro i hi
  rw [BitVec.getLsbD_and, BitVec.getLsbD_and]
  by_cases hthree : i = 3
  · rw [hthree, h, Bool.and_false, Bool.and_false]
  · rw [getLsbD_setUsed w hthree]

theorem setUsed_shiftRight {n : Nat} (h : (8 : BitVec 32) >>> n = 0) :
    (w ||| 8) >>> n = w >>> n := by
  rw [BitVec.ushiftRight_or_distrib, h]
  exact BitVec.or_zero

theorem dtOf_setUsed : dtOf (w ||| 8) = dtOf w := by
  rw [dtOf, getLsbD_setUsed w (by decide), getLsbD_setUsed w (by decide), ← dtOf]

end Used

theorem machineDecode_setUsed (longFormat : Bool) (upper lower : BitVec 32) :
    (machineDecode longFormat (upper ||| 8, lower)).withoutHistory =
        (machineDecode longFormat (upper, lower)).withoutHistory ∧
      (machineDecode longFormat (upper, lower ||| 8)).withoutHistory =
        (machineDecode longFormat (upper, lower)).withoutHistory := by
  cases longFormat with
  | false =>
    refine ⟨?_, rfl⟩
    show (unpackShort (upper ||| 8) false).withoutHistory =
      (unpackShort upper false).withoutHistory
    unfold unpackShort
    rw [dtOf_setUsed, getLsbD_setUsed upper (i := 6) (by decide),
      getLsbD_setUsed upper (i := 4) (by decide), getLsbD_setUsed upper (i := 2) (by decide),
      setUsed_shiftRight upper (by decide), setUsed_and upper 0xFFFFFFF0 (by decide)]
    cases dtOf upper <;> rfl
  | true =>
    show (unpackLong (upper ||| 8) lower false).withoutHistory =
        (unpackLong upper lower false).withoutHistory ∧
      (unpackLong upper (lower ||| 8) false).withoutHistory =
        (unpackLong upper lower false).withoutHistory
    unfold unpackLong
    rw [dtOf_setUsed, getLsbD_setUsed upper (i := 31) (by decide),
      getLsbD_setUsed upper (i := 8) (by decide), getLsbD_setUsed upper (i := 6) (by decide),
      getLsbD_setUsed upper (i := 4) (by decide), getLsbD_setUsed upper (i := 2) (by decide),
      setUsed_shiftRight upper (n := 16) (by decide), setUsed_shiftRight lower (n := 8) (by decide),
      setUsed_and lower 0xFFFFFFF0 (by decide)]
    cases dtOf upper <;> exact ⟨rfl, rfl⟩

/-! ## Searching twice -/

section Agree

variable {τ : Type}

/-- Two states of the tables that say the same, but for history bits. -/
def SameTables (cb : Callbacks τ) (t t' : τ) : Prop :=
  ∀ a long, LongAligned a → treeOf cb t a long = treeOf cb t' a long

/-- What a search relies on: the tables can be read, a descriptor that was read can be marked,
reading and setting U change nothing that they say, and their tables are at long words. -/
structure Searchable (cb : Callbacks τ) : Prop where
  fetch : ∀ t a long, LongAligned a → SameTables cb (cb.fetch t a long).2 t
  used : ∀ update, cb.update = some update → ∀ t a, LongAligned a →
    SameTables cb (update t a true false).2 t
  writable : ∀ update, cb.update = some update → ∀ t a long used modified, LongAligned a →
    (cb.fetch t a long).1.isSome → (update t a used modified).1 = true
  next : ∀ t a long d, (cb.fetch t a long).1 = some d → d.dt = .valid4Byte ∨ d.dt = .valid8Byte →
    LongAligned d.addressField

/-- Two results with one finding. -/
structure SameFinding (r r' : WalkResult) : Prop where
  ok : r.ok = r'.ok
  physical : r.physical = r'.physical
  search : r.search = r'.search

theorem SameFinding.trans {r r' r'' : WalkResult} (h : SameFinding r r')
    (h' : SameFinding r' r'') : SameFinding r r'' :=
  ⟨h.ok.trans h'.ok, h.physical.trans h'.physical, h.search.trans h'.search⟩

theorem SameFinding.symm {r r' : WalkResult} (h : SameFinding r r') : SameFinding r' r :=
  ⟨h.ok.symm, h.physical.symm, h.search.symm⟩

theorem SameFinding.failInvalid {r r' : WalkResult} (h : SameFinding r r') :
    SameFinding r.failInvalid r'.failInvalid :=
  ⟨h.ok, h.physical, congrArg Search.failInvalid h.search⟩

theorem of_withoutHistory {d d' : Descriptor} (h : d.withoutHistory = d'.withoutHistory) :
    d.dt = d'.dt ∧ d.addressField = d'.addressField ∧ d.table = d'.table ∧
      ∀ s : Search, s.accumulate d.writeProtect d.supervisor d.cacheInhibit =
        s.accumulate d'.writeProtect d'.supervisor d'.cacheInhibit := by
  rcases d with ⟨dt, addressField, limit, lower, has, wp, supervisor, ci, modified, used⟩
  rcases d' with ⟨dt', addressField', limit', lower', has', wp', supervisor', ci', modified', used'⟩
  obtain ⟨rfl, rfl, rfl, rfl, rfl, rfl, rfl, rfl, -, -⟩ := (Descriptor.mk.injEq ..).mp h
  exact ⟨rfl, rfl, rfl, fun _ => rfl⟩

theorem fetch_agree {cb cb' : Callbacks τ} (h : Searchable cb) (h' : Searchable cb')
    (hfetch : cb'.fetch = cb.fetch) {t t' : τ} (hsame : SameTables cb t t') {a : BitVec 32}
    (ha : LongAligned a) (long : Bool) :
    ∃ s s', SameTables cb s s' ∧
      (cb.fetch t a long = (none, s) ∧ cb'.fetch t' a long = (none, s') ∨
        ∃ d d', cb.fetch t a long = (some d, s) ∧ cb'.fetch t' a long = (some d', s') ∧
          d.withoutHistory = d'.withoutHistory ∧ (cb.fetch s a long).1.isSome ∧
          (cb'.fetch s' a long).1.isSome) := by
  have htree : ∀ t, treeOf cb' t = treeOf cb t := fun t => by
    funext a long
    rw [treeOf, hfetch, treeOf]
  have hkeep := h.fetch t a long ha
  have hkeep' := h'.fetch t' a long ha
  have hfound := hsame a long ha
  have hagain := hkeep a long ha
  have hagain' := hkeep' a long ha
  rw [htree, htree] at hagain'
  have hstates : SameTables cb (cb.fetch t a long).2 (cb'.fetch t' a long).2 := by
    intro b long' hb
    rw [hkeep b long' hb, hsame b long' hb, ← htree t', ← htree, hkeep' b long' hb]
  rw [treeOf, treeOf] at hfound hagain hagain'
  rw [hfetch] at hagain' hstates ⊢
  rcases hread : cb.fetch t a long with ⟨_ | d, s⟩
  · rcases hread' : cb.fetch t' a long with ⟨_ | d', s'⟩
    · rw [hread, hread'] at hstates
      exact ⟨s, s', hstates, .inl ⟨rfl, rfl⟩⟩
    · rw [hread, hread'] at hfound
      cases hfound
  · rcases hread' : cb.fetch t' a long with ⟨_ | d', s'⟩
    · rw [hread, hread'] at hfound
      cases hfound
    · rw [hread, hread'] at hstates hfound
      rw [hread] at hagain
      rw [hread'] at hagain'
      refine ⟨s, s', hstates, .inr ⟨d, d', rfl, rfl, Option.some.inj hfound, ?_, ?_⟩⟩
      · rw [← Option.isSome_map, hagain]
        rfl
      · rw [← Option.isSome_map, hagain']
        rfl

/-- Marking a descriptor that was read does not fail and finds nothing; above a page descriptor it
changes nothing that the tables say. -/
theorem updateHistory_found {cb : Callbacks τ} (h : Searchable cb) (access : SearchAccess)
    {a : BitVec 32} (ha : LongAligned a) {long : Bool} (d : Descriptor) (isPage : Bool)
    (r : WalkResult) {t : τ} (hread : (cb.fetch t a long).1.isSome) :
    ∃ r' t', updateHistory cb access a d isPage r t = (true, r', t') ∧ SameFinding r' r ∧
      (isPage = false → SameTables cb t' t) := by
  unfold updateHistory
  cases hupdate : cb.update with
  | none =>
    refine ⟨_, t, rfl, ?_, fun _ a long ha => rfl⟩
    cases isPage <;> exact ⟨rfl, rfl, rfl⟩
  | some update =>
    have hwritten := h.writable update hupdate t a long
    have hused := h.used update hupdate t a ha
    dsimp only
    split
    · refine ⟨_, t, rfl, ?_, fun _ a long ha => rfl⟩
      cases isPage <;> exact ⟨rfl, rfl, rfl⟩
    · next hchange =>
      rw [hwritten _ _ ha hread]
      refine ⟨_, _, rfl, ?_, fun hpage => ?_⟩
      · cases isPage <;> exact ⟨rfl, rfl, rfl⟩
      · subst hpage
        rw [Bool.false_and] at hchange ⊢
        rw [Bool.not_false, Bool.and_true, Bool.not_eq_true', Bool.not_eq_false] at hchange
        rw [hchange]
        exact hused

theorem walkIndirect_agree {cb cb' : Callbacks τ} (h : Searchable cb) (h' : Searchable cb')
    (hfetch : cb'.fetch = cb.fetch) (tc : Tc) (address : BitVec 32) (access access' : SearchAccess)
    {a : BitVec 32} (ha : LongAligned a) (long : Bool) {r r' : WalkResult} (hr : SameFinding r r')
    {t t' : τ} (hsame : SameTables cb t t') :
    SameFinding (walkIndirect cb tc address access a long r t).1
      (walkIndirect cb' tc address access' a long r' t').1 := by
  obtain ⟨s, s', -, ⟨hfound, hfound'⟩ | ⟨d, d', hfound, hfound', hd, hread, hread'⟩⟩ :=
    fetch_agree h h' hfetch hsame ha long
  · simp only [walkIndirect, hfound, hfound']
    exact ⟨hr.ok, hr.physical, congrArg Search.failInvalid hr.search⟩
  · simp only [walkIndirect, hfound, hfound']
    obtain ⟨hdt, haddress, -, haccumulate⟩ := of_withoutHistory hd
    have hsearch : r.search.accumulate d.writeProtect d.supervisor d.cacheInhibit =
        r'.search.accumulate d'.writeProtect d'.supervisor d'.cacheInhibit :=
      hr.search ▸ haccumulate r.search
    by_cases hpage : d.dt = .page
    · have hpage' : d'.dt = .page := hdt ▸ hpage
      simp only [hpage, hpage', ne_eq, not_true_eq_false, if_false]
      obtain ⟨u, s₁, hupdate, hu, -⟩ := updateHistory_found h access ha d true _ hread
      obtain ⟨u', s₁', hupdate', hu', -⟩ := updateHistory_found h' access' ha d' true _ hread'
      rw [hupdate, hupdate']
      refine ⟨rfl, ?_, hu.search.trans (hsearch.trans hu'.search.symm)⟩
      show descPageAddress d.addressField _ ||| _ = descPageAddress d'.addressField _ ||| _
      rw [haddress]
    · have hpage' : d'.dt ≠ .page := fun hp => hpage (hdt.trans hp)
      simp only [hpage, hpage', ne_eq, not_false_eq_true, if_true]
      exact ⟨hr.ok, hr.physical, congrArg Search.failInvalid hsearch⟩

/-- TWO SEARCHES OF THE SAME TABLES FIND THE SAME, whether or not they mark what they read. -/
theorem walkFrom_agree {cb cb' : Callbacks τ} (h : Searchable cb) (h' : Searchable cb')
    (hfetch : cb'.fetch = cb.fetch) (tc : Tc) (address : BitVec 32) (access access' : SearchAccess)
    (indices : List (BitVec 32)) (level : Nat) {table : Table}
    (htable : LongAligned table.tableAddress) {r r' : WalkResult} (hr : SameFinding r r')
    {t t' : τ} (hsame : SameTables cb t t') :
    SameFinding (walkFrom cb tc address access 0 indices level table r t).1
      (walkFrom cb' tc address access' 0 indices level table r' t').1 := by
  induction indices generalizing level table r r' t t' with
  | nil => exact hr.failInvalid
  | cons index indices ih =>
    simp only [walkFrom, walkLevel, ne_eq, not_true_eq_false, false_and, if_false]
    by_cases hlimit : (table.haveLimit && !indexWithinLimit table.limit table.lowerLimit index) = true
    · rw [if_pos hlimit, if_pos hlimit]
      exact ⟨hr.ok, hr.physical, congrArg Search.failLimit hr.search⟩
    rw [if_neg hlimit, if_neg hlimit]
    have ha := Table.longAligned_descriptorAddress htable index
    obtain ⟨s, s', hs, ⟨hfound, hfound'⟩ | ⟨d, d', hfound, hfound', hd, hread, hread'⟩⟩ :=
      fetch_agree h h' hfetch hsame ha table.longFormat
    · rw [hfound, hfound']
      exact ⟨hr.ok, hr.physical, congrArg Search.failInvalid hr.search⟩
    rw [hfound, hfound']
    obtain ⟨hdt, haddress, htables, haccumulate⟩ := of_withoutHistory hd
    have hnext := h.next t (table.descriptorAddress index) table.longFormat d
      (congrArg Prod.fst hfound)
    have hsearch : r.search.accumulate d.writeProtect d.supervisor d.cacheInhibit =
        r'.search.accumulate d'.writeProtect d'.supervisor d'.cacheInhibit :=
      hr.search ▸ haccumulate r.search
    -- what has been found on the way down to here
    have hhere : SameFinding
        { r with
          descriptorFetches := r.descriptorFetches + 1
          lastDescriptorAddress := table.descriptorAddress index
          levelsWalked := level + 1
          search := r.search.accumulate d.writeProtect d.supervisor d.cacheInhibit }
        { r' with
          descriptorFetches := r'.descriptorFetches + 1
          lastDescriptorAddress := table.descriptorAddress index
          levelsWalked := level + 1
          search := r'.search.accumulate d'.writeProtect d'.supervisor d'.cacheInhibit } :=
      ⟨hr.ok, hr.physical, hsearch⟩
    have hupdated := fun isPage => updateHistory_found h access ha d isPage
      { r with
        descriptorFetches := r.descriptorFetches + 1
        lastDescriptorAddress := table.descriptorAddress index
        levelsWalked := level + 1
        search := r.search.accumulate d.writeProtect d.supervisor d.cacheInhibit } hread
    have hupdated' := fun isPage => updateHistory_found h' access' ha d' isPage
      { r' with
        descriptorFetches := r'.descriptorFetches + 1
        lastDescriptorAddress := table.descriptorAddress index
        levelsWalked := level + 1
        search := r'.search.accumulate d'.writeProtect d'.supervisor d'.cacheInhibit } hread'
    dsimp only
    rw [← hdt]
    have htree : ∀ t, treeOf cb' t = treeOf cb t := fun t => by
      funext a long
      rw [treeOf, hfetch, treeOf]
    cases hrole : descRole d.dt indices.isEmpty with
    | invalid => exact hhere.failInvalid
    | indirect =>
      obtain ⟨u, s₁, hupdate, hu, hs₁⟩ := hupdated false
      obtain ⟨u', s₁', hupdate', hu', hs₁'⟩ := hupdated' false
      simp only [hupdate, hupdate', ← haddress]
      refine walkIndirect_agree h h' hfetch tc address access access' (hnext ?_) _
        (hu.trans (hhere.trans hu'.symm)) fun a long ha => ?_
      · cases hcase : d.dt <;> cases hlast : indices.isEmpty <;> rw [hcase, hlast] at hrole <;>
          first | exact .inl rfl | exact .inr rfl | cases hrole
      · rw [hs₁ rfl a long ha, hs a long ha, ← htree s', ← htree s₁', hs₁' rfl a long ha]
    | page =>
      obtain ⟨u, s₁, hupdate, hu, -⟩ := hupdated true
      obtain ⟨u', s₁', hupdate', hu', -⟩ := hupdated' true
      simp only [hupdate, hupdate']
      refine ⟨rfl, ?_, hu.search.trans (hsearch.trans hu'.search.symm)⟩
      show descPageAddress d.addressField _ ||| _ = descPageAddress d'.addressField _ ||| _
      rw [haddress]
    | earlyPage =>
      obtain ⟨u, s₁, hupdate, hu, -⟩ := hupdated true
      obtain ⟨u', s₁', hupdate', hu', -⟩ := hupdated' true
      simp only [hupdate, hupdate', haddress]
      exact ⟨rfl, rfl, hu.search.trans (hsearch.trans hu'.search.symm)⟩
    | table =>
      obtain ⟨u, s₁, hupdate, hu, hs₁⟩ := hupdated false
      obtain ⟨u', s₁', hupdate', hu', hs₁'⟩ := hupdated' false
      simp only [hupdate, hupdate', ← htables]
      refine ih (level + 1) (hnext ?_) (hu.trans (hhere.trans hu'.symm)) fun a long ha => ?_
      · cases hcase : d.dt <;> cases hlast : indices.isEmpty <;> rw [hcase, hlast] at hrole <;>
          first | exact .inl rfl | exact .inr rfl | cases hrole
      · rw [hs₁ rfl a long ha, hs a long ha, ← htree s', ← htree s₁', hs₁' rfl a long ha]

theorem walkFrom_ceiling (cb : Callbacks τ) (tc : Tc) (address : BitVec 32) (access : SearchAccess)
    (maxLevels : Nat) (indices : List (BitVec 32)) (level : Nat) (table : Table) (r : WalkResult)
    (t : τ) (h : level + indices.length ≤ maxLevels) :
    walkFrom cb tc address access maxLevels indices level table r t =
      walkFrom cb tc address access 0 indices level table r t := by
  induction indices generalizing level table r t with
  | nil => rfl
  | cons index indices ih =>
    rw [List.length_cons] at h
    unfold walkFrom
    rw [if_neg (by omega), if_neg (by omega)]
    split
    · rfl
    · exact ih _ _ _ _ (by omega)

theorem walkToLevel_ceiling (cb : Callbacks τ) (tc : Tc) (root : Root) (address : BitVec 32)
    (access : SearchAccess) {level : Nat} (t : τ) (h : (tc.split address).index.length ≤ level) :
    walkToLevel cb tc root address access level t = walk cb tc root address access t := by
  unfold walk walkToLevel
  dsimp only
  rw [walkFrom_ceiling _ _ _ _ _ _ _ _ _ _ (by omega)]

theorem walk_agree {cb cb' : Callbacks τ} (h : Searchable cb) (h' : Searchable cb')
    (hfetch : cb'.fetch = cb.fetch) (tc : Tc) (root : RootPointer) (address : BitVec 32)
    (access access' : SearchAccess) (t : τ) :
    SameFinding (walk cb tc root.toRoot address access t).1
      (walk cb' tc root.toRoot address access' t).1 := by
  unfold walk walkToLevel
  dsimp only
  split
  · split <;> exact ⟨rfl, rfl, rfl⟩
  · exact walkFrom_agree h h' hfetch tc address access access' _ _ root.longAligned ⟨rfl, rfl, rfl⟩
      fun a long ha => rfl

end Agree

/-! ## The machine's tables -/

section Machine

variable {τ : Type} {bus : TableBus τ} (h : InMemory bus)

theorem InMemory.fetch {a : BitVec 32} (ha : LongAligned a) (t : τ) (long : Bool) :
    (machineTableFetch bus t a long).1 = descriptorAt (h.memory t) a long ∧
      h.memory (machineTableFetch bus t a long).2 = h.memory t := by
  have hnext : LongAligned (a + 4) := by
    rw [longAligned_iff] at ha ⊢
    rw [BitVec.toNat_add, show BitVec.toNat (4 : BitVec 32) = 4 from rfl]
    omega
  have hread := h.read t a ha
  have hkeeps := h.read_keeps t a ha
  unfold machineTableFetch TableBus.words descriptorAt
  rcases hbus : bus.read t a with ⟨_ | upper, t₁⟩
  · rw [hbus] at hread hkeeps
    rw [← hread]
    exact ⟨rfl, hkeeps⟩
  · rw [hbus] at hread hkeeps
    rw [← hread]
    cases long with
    | false => exact ⟨rfl, hkeeps⟩
    | true =>
      have hread₂ := h.read t₁ (a + 4) hnext
      have hkeeps₂ := h.read_keeps t₁ (a + 4) hnext
      dsimp only at hkeeps ⊢
      rw [hkeeps] at hread₂ hkeeps₂
      rcases hbus₂ : bus.read t₁ (a + 4) with ⟨_ | lower, t₂⟩
      · rw [hbus₂] at hread₂ hkeeps₂
        rw [← hread₂]
        exact ⟨rfl, hkeeps₂⟩
      · rw [hbus₂] at hread₂ hkeeps₂
        rw [← hread₂]
        exact ⟨rfl, hkeeps₂⟩

theorem descriptorAt_setUsed {m m' : BitVec 32 → Option (BitVec 32)} {a w : BitVec 32}
    (hw : m a = some w)
    (hm : ∀ b, LongAligned b → m' b = if b = a then some (w ||| 8) else m b) {b : BitVec 32}
    (hb : LongAligned b) (long : Bool) :
    (descriptorAt m' b long).map Descriptor.withoutHistory =
      (descriptorAt m b long).map Descriptor.withoutHistory := by
  have hnext : LongAligned (b + 4) := by
    rw [longAligned_iff] at hb ⊢
    rw [BitVec.toNat_add, show BitVec.toNat (4 : BitVec 32) = 4 from rfl]
    omega
  unfold descriptorAt
  rw [hm b hb, hm (b + 4) hnext]
  by_cases hupper : b = a
  · subst hupper
    rw [if_pos rfl, if_neg (by simp), hw]
    cases long with
    | false => exact congrArg some (machineDecode_setUsed false w 0).1
    | true =>
      dsimp only
      cases m (b + 4) with
      | none => rfl
      | some lower => exact congrArg some (machineDecode_setUsed true w lower).1
  · rw [if_neg hupper]
    cases m b with
    | none => rfl
    | some upper =>
      cases long with
      | false => rfl
      | true =>
        by_cases hlower : b + 4 = a
        · rw [if_pos hlower, hlower, hw]
          exact congrArg some (machineDecode_setUsed true upper w).2
        · rw [if_neg hlower]

theorem longAligned_machineDecode (longFormat : Bool) (words : BitVec 32 × BitVec 32)
    (h : (machineDecode longFormat words).dt = .valid4Byte ∨
      (machineDecode longFormat words).dt = .valid8Byte) :
    LongAligned (machineDecode longFormat words).addressField := by
  have hmask : (0xFFFFFFF0 : BitVec 32) &&& 3 = 0 := by decide
  obtain ⟨upper, lower⟩ := words
  cases longFormat with
  | false =>
    revert h
    show (unpackShort upper false).dt = _ ∨ (unpackShort upper false).dt = _ →
      LongAligned (unpackShort upper false).addressField
    unfold unpackShort
    cases dtOf upper with
    | invalid => rintro (h | h) <;> cases h
    | page => rintro (h | h) <;> cases h
    | valid4Byte => exact fun _ => longAligned_of_and hmask
    | valid8Byte => exact fun _ => longAligned_of_and hmask
  | true =>
    revert h
    show (unpackLong upper lower false).dt = _ ∨ (unpackLong upper lower false).dt = _ →
      LongAligned (unpackLong upper lower false).addressField
    unfold unpackLong
    cases dtOf upper with
    | invalid => rintro (h | h) <;> cases h
    | page => rintro (h | h) <;> cases h
    | valid4Byte => exact fun _ => longAligned_of_and hmask
    | valid8Byte => exact fun _ => longAligned_of_and hmask

include h in
/-- THE MACHINE'S TABLES CAN BE SEARCHED, marking them or not. -/
theorem InMemory.searchable (update : Option (τ → BitVec 32 → Bool → Bool → Bool × τ))
    (hupdate : update = none ∨ update = some (machineTableUpdate bus)) :
    Searchable { fetch := machineTableFetch bus, update } := by
  have hasks : ∀ t a long, LongAligned a →
      treeOf { fetch := machineTableFetch bus, update } t a long =
        (descriptorAt (h.memory t) a long).map Descriptor.withoutHistory := fun t a long ha =>
    congrArg (Option.map Descriptor.withoutHistory) (h.fetch ha t long).1
  refine ⟨fun t a long ha b long' hb => ?_, fun set hset t a ha b long' hb => ?_,
    fun set hset t a long used modified ha hfound => ?_, fun t a long d hd hdt => ?_⟩
  · rw [hasks _ _ _ hb, hasks _ _ _ hb, (h.fetch ha t long).2]
  · obtain rfl | rfl := hupdate
    · cases hset
    cases hset
    rw [hasks _ _ _ hb, hasks _ _ _ hb]
    have hread := h.read t a ha
    have hkeeps := h.read_keeps t a ha
    unfold machineTableUpdate
    rcases hbus : bus.read t a with ⟨_ | w, t₁⟩
    · rw [hbus] at hkeeps
      exact congrArg (fun m => (descriptorAt m b long').map _) hkeeps
    · rw [hbus] at hread hkeeps
      dsimp only at hread hkeeps
      have hwritten := h.written t₁ a (w ||| 8) ha (by rw [hkeeps, ← hread]; rfl)
      rw [hkeeps] at hwritten
      exact descriptorAt_setUsed hread.symm hwritten hb long'
  · obtain rfl | rfl := hupdate
    · cases hset
    cases hset
    rw [(h.fetch ha t long).1] at hfound
    have hread := h.read t a ha
    have hkeeps := h.read_keeps t a ha
    unfold descriptorAt at hfound
    unfold machineTableUpdate
    rcases hbus : bus.read t a with ⟨_ | w, t₁⟩
    · rw [hbus] at hread
      rw [← hread] at hfound
      cases hfound
    · rw [hbus] at hread hkeeps
      dsimp only at hread hkeeps
      exact h.write t₁ a _ ha (by rw [hkeeps, ← hread]; rfl)
  · unfold machineTableFetch at hd
    dsimp only at hd
    split at hd
    · cases hd
    · cases hd
      exact longAligned_machineDecode _ _ hdt

/-! ## One translation -/

/-- The physical address that a search has found. -/
def WalkResult.found (r : WalkResult) : Option (BitVec 32) := if r.ok then some r.physical else none

theorem SameFinding.found {r r' : WalkResult} (h : SameFinding r r') : r.found = r'.found := by
  rw [WalkResult.found, WalkResult.found, h.ok, h.physical]

/-- The protection that a search has gathered lets an access through. -/
def Search.permits (s : Search) (write supervisor : Bool) : Bool :=
  (!write || s.permitsWrite) && s.permitsAccess supervisor

namespace MmuRegisters

/-- The physical address that an access uses. -/
def AccessTranslation.used (out : AccessTranslation) : Option (BitVec 32) :=
  if out.translationFault then none else some out.physical

/-- A transparent translation register takes an access. -/
def isTransparent (mmu : MmuRegisters) (logical : BitVec 32) (functionCode : BitVec 8)
    (write rmc : Bool) : Bool :=
  (ttTranslate mmu.tt0 mmu.tt1
    { address := logical, functionCode, read := !write, readModifyWrite := rmc }).transparent

/-- There is one translation, however it is asked for. An access that no transparent translation
register takes goes where `ap_machine_walk` finds its page, if the tables let it; `PTEST` at a level
that does not stop it and `PLOAD` find the same, and so does `ap_machine_translate`. -/
structure OneTranslation (bus : TableBus τ) (mmu : MmuRegisters) (logical : BitVec 32)
    (functionCode : BitVec 8) (write rmc : Bool) (t : τ) : Prop where
  root : mmu.isTransparent logical functionCode write rmc = false →
    accessRoot = mmu.rootFor functionCode
  access : mmu.isTransparent logical functionCode write rmc = false →
    (mmu.translateAccess (machineTables bus) write rmc logical functionCode t).1.used =
      if (mmu.machineWalk (machineTables bus) logical functionCode t).1.search.permits write
          (supervisorOf functionCode) then
        (mmu.machineWalk (machineTables bus) logical functionCode t).1.found
      else none
  transparent : mmu.isTransparent logical functionCode write rmc = true →
    (mmu.translateAccess (machineTables bus) write rmc logical functionCode t).1.used = some logical
  ptest : ∀ level, (mmu.tc.split logical).index.length ≤ level →
    (mmu.ptest (machineTables bus) level write logical functionCode t).1.found =
      (mmu.machineWalk (machineTables bus) logical functionCode t).1.found
  pload : (mmu.pload (machineTables bus) write logical functionCode t).1.found =
    (mmu.machineWalk (machineTables bus) logical functionCode t).1.found
  translate : (mmu.machineTranslate (machineTables bus) logical functionCode t).1 =
    if mmu.isTransparent logical functionCode false false then some logical
    else (mmu.machineWalk (machineTables bus) logical functionCode t).1.found

variable {mmu : MmuRegisters} {logical : BitVec 32} {functionCode : BitVec 8}

theorem accessRoot_eq_rootFor :
    accessRoot = mmu.rootFor functionCode ↔
      (mmu.tc.supervisorRoot = true → supervisorOf functionCode = false) := by
  unfold accessRoot rootFor
  cases mmu.tc.supervisorRoot <;> cases supervisorOf functionCode <;> decide

theorem machineWalk_enabled (cb : Callbacks τ) (henable : mmu.tc.enable = true) (t : τ) :
    mmu.machineWalk cb logical functionCode t = mmu.probe cb logical functionCode t := by
  rw [machineWalk, henable]
  rfl

theorem translateAccess_miss (cb : Callbacks τ) (henable : mmu.tc.enable = true)
    (hmiss : Atc.held mmu.tc.pageSizeBits mmu.atc functionCode logical = none) {write rmc : Bool}
    (htransparent : mmu.isTransparent logical functionCode write rmc = false) (t : τ) :
    (mmu.translateAccess cb write rmc logical functionCode t).1.used =
      (let walked := (walk cb mmu.tc (mmu.root accessRoot).toRoot logical
        { write, readModifyWrite := rmc, supervisor := supervisorOf functionCode } t).1
      if walked.search.permits write (supervisorOf functionCode) then walked.found else none) := by
  have hlookup := Atc.lookup_eq_miss hmiss write false
  have hused : ∀ atc : Atc, atc.markUsed (-1) = atc := fun _ => rfl
  unfold isTransparent at htransparent
  unfold translateAccess
  dsimp only
  rw [htransparent, henable, hlookup]
  dsimp only
  rw [if_neg Bool.false_ne_true, if_pos rfl, hused]
  unfold searchForAccess
  dsimp only
  generalize (walk cb mmu.tc (mmu.root accessRoot).toRoot logical
    { write, readModifyWrite := rmc, supervisor := supervisorOf functionCode } t).1 = walked
  unfold Search.permits WalkResult.found
  cases walked.ok <;> cases write <;> cases walked.search.permitsWrite <;>
    cases walked.search.permitsAccess (supervisorOf functionCode) <;> rfl

/-- No memory at all. -/
def noTables : TableBus Unit := { read := fun _ _ => (none, ()), write := fun _ _ _ => (false, ()) }

def noTables_inMemory : InMemory noTables where
  memory _ _ := none
  read _ _ _ := rfl
  read_keeps _ _ _ := rfl
  write _ _ _ _ h := absurd h (by decide)
  written _ _ _ _ h := absurd h (by decide)

/-- Both root pointers map directly, the user's at `10000000` and the supervisor's at `20000000`,
and the supervisor root is enabled. -/
def twoRoots : MmuRegisters where
  tc := { tenAndTen with supervisorRoot := true }
  crp := .ofWords 0x7FFF0001 0x10000000
  srp := .ofWords 0x7FFF0001 0x20000000
  tt0 := {}
  tt1 := {}
  atc := { entry := .replicate atcEntries {} }

end MmuRegisters

end Machine

end Apollo.M68030
