import Apollo.M68030.Atc
import Apollo.M68030.WalkTree

/-!
# The translation cache is transparent

After a table search and the cache entry it fills, the cache answers any address of the
page as a fresh search would, or asks for one (`walkFillAtc_transparent`). A tree says one
thing of a whole page because every index is taken from above the page offset
(`split_samePage`), and an entry keeps it because a block that starts on a page boundary
is a union of pages (`physical_samePage`).
-/

namespace Apollo.M68030

open Apollo.Lib

/-! ## One page, one path -/

section Split

variable {tc : Tc}

theorem Tc.pageSizeBits_of_consistent (h : tc.isConsistent = true) :
    8 ≤ tc.pageSizeBits.toNat ∧ tc.pageSizeBits.toNat ≤ 15 := by
  rw [isConsistent, Bool.and_eq_true, bne_iff_ne] at h
  by_contra hout
  apply h.2
  rw [pageSize, if_pos]
  rw [Bool.or_eq_true, decide_eq_true_eq, decide_eq_true_eq]
  omega

theorem Tc.sum_of_consistent (h : tc.isConsistent = true) :
    tc.widths.sum + tc.pageSizeBits.toNat + tc.initialShift.toNat = 32 := by
  rw [isConsistent, Bool.and_eq_true, beq_iff_eq] at h
  exact h.1

theorem SamePage.shift {psb : BitVec 8} {a b : BitVec 32} (h : SamePage psb a b) {k : Nat}
    (hk : pageBits psb ≤ k) : a >>> k = b >>> k := by
  obtain ⟨d, rfl⟩ := Nat.exists_eq_add_of_le hk
  rw [BitVec.shiftRight_add, BitVec.shiftRight_add, show a >>> pageBits psb = b >>> pageBits psb from h]

theorem takeWhile_ne_zero_cons {width : Nat} (h : ¬ width = 0) (widths : List Nat) :
    (width :: widths).takeWhile (· ≠ 0) = width :: widths.takeWhile (· ≠ 0) :=
  List.takeWhile_cons_of_pos (decide_eq_true h)

theorem splitFrom_samePage {psb : BitVec 8} {a b : BitVec 32} (h : SamePage psb a b)
    (consumed : Nat) (widths : List Nat)
    (hfit : consumed + (widths.takeWhile (· ≠ 0)).sum + pageBits psb ≤ 32) :
    Tc.splitFrom a consumed widths = Tc.splitFrom b consumed widths := by
  induction widths generalizing consumed with
  | nil => rfl
  | cons width widths ih =>
    unfold Tc.splitFrom
    split
    · rfl
    · next hwidth =>
      rw [takeWhile_ne_zero_cons hwidth, List.sum_cons] at hfit
      rw [if_neg (by omega), if_neg (by omega), h.shift (by omega), ih _ (by omega)]

theorem split_samePage (hconsistent : tc.isConsistent = true) {a b : BitVec 32}
    (h : SamePage tc.pageSizeBits a b) : (tc.split a).index = (tc.split b).index := by
  have hsum := Tc.sum_of_consistent hconsistent
  have hbits := Tc.pageSizeBits_of_consistent hconsistent
  refine splitFrom_samePage h _ _ ?_
  rw [Tc.widths] at hsum
  rw [pageBits, max_eq_right hbits.1]
  omega

theorem length_splitFrom_le (a : BitVec 32) (consumed : Nat) (widths : List Nat) :
    (Tc.splitFrom a consumed widths).length ≤ (widths.takeWhile (· ≠ 0)).length := by
  induction widths generalizing consumed with
  | nil => exact le_rfl
  | cons width widths ih =>
    unfold Tc.splitFrom
    split
    · exact Nat.zero_le _
    · next hwidth =>
      rw [takeWhile_ne_zero_cons hwidth, List.length_cons]
      split
      · exact Nat.zero_le _
      · exact Nat.succ_le_succ (ih _)

theorem bitsConsumedBefore_le (hconsistent : tc.isConsistent = true) (level : Nat) (a : BitVec 32)
    (hlevel : level ≤ (tc.split a).index.length) :
    bitsConsumedBefore tc level + tc.pageSizeBits.toNat ≤ 32 := by
  have hsum := Tc.sum_of_consistent hconsistent
  have hlength : level ≤ tc.widths.length := hlevel.trans (length_splitFrom_le ..)
  have htake : (tc.tableIndex.toList.take level).map BitVec.toNat = tc.widths.take level := by
    obtain ⟨rest, hrest⟩ :=
      List.takeWhile_prefix (l := tc.tableIndex.toList.map BitVec.toNat) (fun x => decide (x ≠ 0))
    rw [List.map_take, ← hrest]
    exact List.take_append_of_le_length hlength
  have hle : (tc.widths.take level).sum ≤ tc.widths.sum := by
    have hsplit := congrArg List.sum (List.take_append_drop level tc.widths)
    rw [List.sum_append] at hsplit
    omega
  rw [bitsConsumedBefore, htake]
  omega

end Split

/-! ## One page, one frame -/

section Frame

variable {psb : BitVec 8} {a b : BitVec 32}

theorem getLsbD_offsetMask (hpsb : 8 ≤ psb.toNat ∧ psb.toNat ≤ 15) (i : Nat) :
    (Atc.offsetMask psb).getLsbD i = decide (i < psb.toNat) := by
  unfold Atc.offsetMask
  dsimp only
  have hbits : (if psb.toNat ≤ 8 then 8 else psb.toNat) = psb.toNat := by
    split <;> omega
  rw [hbits, if_neg (by omega), getLsbD_one_shiftLeft_sub (by omega)]

theorem SamePage.getLsbD (hpsb : 8 ≤ psb.toNat) (h : SamePage psb a b) {i : Nat}
    (hi : psb.toNat ≤ i) : a.getLsbD i = b.getLsbD i := by
  have hshift := congrArg (fun x => x.getLsbD (i - psb.toNat)) h
  rw [pageBits, max_eq_right hpsb, BitVec.getLsbD_ushiftRight, BitVec.getLsbD_ushiftRight,
    Nat.add_sub_cancel' hi] at hshift
  exact hshift

theorem atcAddressMask_getLsbD (i : Nat) : atcAddressMask.getLsbD i = decide (i < 24) := by
  have h := getLsbD_one_shiftLeft_sub (k := 24) (by decide) i
  rwa [show (1#32 <<< 24) - 1 = atcAddressMask by decide] at h

/-- What a lookup makes of an entry: the frame that was stored, and the offset of the
address that is looked up. -/
theorem getLsbD_frame (hpsb : 8 ≤ psb.toNat ∧ psb.toNat ≤ 15) (p : BitVec 32) {i : Nat}
    (hi : i < 32) :
    (((((p >>> 8) &&& atcAddressMask) <<< 8) &&& ~~~Atc.offsetMask psb) |||
        (b &&& Atc.offsetMask psb)).getLsbD i =
      if i < psb.toNat then b.getLsbD i else p.getLsbD i := by
  rw [BitVec.getLsbD_or, BitVec.getLsbD_and, BitVec.getLsbD_and, BitVec.getLsbD_not,
    getLsbD_offsetMask hpsb, BitVec.getLsbD_shiftLeft, BitVec.getLsbD_and,
    BitVec.getLsbD_ushiftRight, atcAddressMask_getLsbD]
  split
  · next hlow => simp [hlow]
  · next hhigh =>
    have h8 : 8 ≤ i := by omega
    simp [hhigh, hi, show ¬ i < 8 by omega, Nat.add_sub_cancel' h8, show i - 8 < 24 by omega]

theorem Mapping.physical_samePage (hpsb : 8 ≤ psb.toNat ∧ psb.toNat ≤ 15) (m : Mapping)
    (hstart : m.base &&& Atc.offsetMask psb = 0) (hcover : ∀ i < psb.toNat, m.offset.getLsbD i = true)
    (h : SamePage psb a b) :
    ((((m.physical a >>> 8) &&& atcAddressMask) <<< 8) &&& ~~~Atc.offsetMask psb) |||
        (b &&& Atc.offsetMask psb) = m.physical b := by
  apply BitVec.eq_of_getLsbD_eq
  intro i hi
  rw [getLsbD_frame hpsb _ hi]
  unfold Mapping.physical
  simp only [BitVec.getLsbD_or, BitVec.getLsbD_and]
  split
  · next hlow =>
    have hbase := congrArg (fun x => x.getLsbD i) hstart
    simp only [BitVec.getLsbD_and, getLsbD_offsetMask hpsb, hlow, decide_true, Bool.and_true] at hbase
    rw [hbase, hcover i hlow]
    simp
  · next hhigh => rw [h.getLsbD hpsb.1 (by omega)]

theorem add_samePage (hpsb : 8 ≤ psb.toNat ∧ psb.toNat ≤ 15) {offset : BitVec 32}
    (hstart : offset &&& Atc.offsetMask psb = 0) (h : SamePage psb a b) :
    (((((a + offset) >>> 8) &&& atcAddressMask) <<< 8) &&& ~~~Atc.offsetMask psb) |||
        (b &&& Atc.offsetMask psb) = b + offset := by
  have hp : psb.toNat ≤ 32 := by omega
  have hzero : offset.setWidth psb.toNat = BitVec.ofNat psb.toNat 0 := by
    apply BitVec.eq_of_getLsbD_eq
    intro i hi
    have hbit := congrArg (fun x => x.getLsbD i) hstart
    simp only [BitVec.getLsbD_and, getLsbD_offsetMask hpsb, hi, decide_true, Bool.and_true] at hbit
    rw [BitVec.getLsbD_setWidth, hbit]
    simp
  have hlow : ∀ i < psb.toNat, (b + offset).getLsbD i = b.getLsbD i := by
    intro i hi
    have hsum := BitVec.setWidth_add b offset hp
    rw [hzero, BitVec.add_zero] at hsum
    have hbit := congrArg (fun x => x.getLsbD i) hsum
    simpa only [BitVec.getLsbD_setWidth, hi, decide_true, Bool.true_and] using hbit
  have hhigh : SamePage psb (a + offset) (b + offset) := by
    have hab := congrArg BitVec.toNat h
    rw [pageBits, max_eq_right hpsb.1, BitVec.toNat_ushiftRight, BitVec.toNat_ushiftRight,
      Nat.shiftRight_eq_div_pow, Nat.shiftRight_eq_div_pow] at hab
    obtain ⟨k, hk⟩ : 2 ^ psb.toNat ∣ offset.toNat := by
      have := congrArg BitVec.toNat hzero
      rw [BitVec.toNat_setWidth, BitVec.toNat_ofNat, Nat.zero_mod] at this
      exact Nat.dvd_of_mod_eq_zero this
    have hshift : ∀ x : BitVec 32, ((x + offset) >>> psb.toNat).toNat =
        (x.toNat / 2 ^ psb.toNat + k) % 2 ^ (32 - psb.toNat) := by
      intro x
      rw [BitVec.toNat_ushiftRight, BitVec.toNat_add, Nat.shiftRight_eq_div_pow, hk,
        show 2 ^ 32 = 2 ^ psb.toNat * 2 ^ (32 - psb.toNat) by
          rw [← Nat.pow_add, Nat.add_sub_cancel' hp],
        Nat.mod_mul_right_div_self, Nat.add_mul_div_left _ _ (Nat.two_pow_pos _)]
    rw [SamePage, pageBits, max_eq_right hpsb.1]
    apply BitVec.eq_of_toNat_eq
    rw [hshift, hshift, hab]
  apply BitVec.eq_of_getLsbD_eq
  intro i hi
  rw [getLsbD_frame hpsb _ hi]
  split
  · next hi => exact (hlow i hi).symm
  · next hi => exact hhigh.getLsbD hpsb.1 (by omega)

end Frame

/-! ## A search, and the entry it fills -/

theorem Atc.lookup_insert (atc : Atc) {psb : BitVec 8} (fc : BitVec 8) {a b : BitVec 32}
    (h : SamePage psb a b) (p : BitVec 32) (wp ci m be write rmw : Bool) :
    ∃ i, (atc.insert fc a psb p wp ci m be).2.lookup fc b psb write rmw =
      (⟨p &&& atcAddressMask, wp, ci, m, be⟩ : Translation).answer b psb write rmw i := by
  have hkey : keyOf psb fc a = keyOf psb fc b := keyOf_eq_keyOf.mpr ⟨rfl, h⟩
  apply lookup_eq_answer
  rw [held]
  cases hfirst : Slots.first (fun e => entryMatches e fc b (tagMask psb))
      (atc.insert fc a psb p wp ci m be).2.entry with
  | none =>
    have hvictim := Slots.first_eq_none.mp hfirst (atc.insert fc a psb p wp ci m be).1
    rw [← Bool.not_eq_true, entryMatches_iff, key_insert, if_pos rfl, hkey] at hvictim
    exact absurd rfl hvictim
  | some i =>
    have hi := entryMatches_iff.mp (Slots.of_first_eq_some hfirst)
    rw [key_insert] at hi
    split at hi
    · next hvictim => rw [Option.map_some, translation_insert, if_pos hvictim]
    · split at hi
      · cases hi
      · next hmatch =>
        rw [entryMatches_iff, hkey] at hmatch
        exact absurd hi hmatch

section Resolve

variable (tree : Tree) (tc : Tc)

theorem resolveIndirect_isSome (pointedAddress : BitVec 32) (pointedLong : Bool) {s : Search}
    (hs : (s.invalid || s.limitViolation) = false) :
    let said := resolveIndirect tree tc pointedAddress pointedLong s
    said.2.isSome = !(said.1.invalid || said.1.limitViolation) := by
  unfold resolveIndirect
  split
  · rfl
  · dsimp only
    split
    · rfl
    · simp only [Search.accumulate, hs, Option.isSome_some, Bool.not_false]

theorem resolve_isSome (indices : List (BitVec 32)) (level : Nat) (table : Table) {s : Search}
    (hs : (s.invalid || s.limitViolation) = false) :
    let said := resolve tree tc indices level table s
    said.2.isSome = !(said.1.invalid || said.1.limitViolation) := by
  induction indices generalizing level table s with
  | nil => rfl
  | cons index indices ih =>
    simp only [resolve]
    split
    · simp only [Search.failLimit, Option.isSome_none, Bool.or_true, Bool.not_true]
    · split
      · rfl
      · next d hd =>
        have hs' : ((s.accumulate d.writeProtect d.supervisor d.cacheInhibit).invalid ||
            (s.accumulate d.writeProtect d.supervisor d.cacheInhibit).limitViolation) = false := hs
        split
        · rfl
        · exact resolveIndirect_isSome tree tc _ _ hs'
        · simp only [hs', Option.isSome_some, Bool.not_false]
        · simp only [hs', Option.isSome_some, Bool.not_false]
        · exact ih _ _ hs'

theorem resolve_mapping {indices : List (BitVec 32)} {level : Nat} {table : Table} {s : Search}
    {m : Mapping} (h : (resolve tree tc indices level table s).2 = some m) :
    (∃ d, m = pageMapping tc d) ∨
      ∃ d l, l < level + indices.length ∧ m = blockMapping tc l d := by
  induction indices generalizing level table s with
  | nil => cases h
  | cons index indices ih =>
    simp only [resolve] at h
    split at h
    · cases h
    · split at h
      · cases h
      · next d hd =>
        split at h
        · cases h
        · unfold resolveIndirect at h
          split at h
          · cases h
          · next p hp =>
            dsimp only at h
            split at h
            · cases h
            · exact .inl ⟨p, (Option.some.inj h).symm⟩
        · exact .inl ⟨d, (Option.some.inj h).symm⟩
        · exact .inr ⟨d, level, by rw [List.length_cons]; omega, (Option.some.inj h).symm⟩
        · rcases ih h with hpage | ⟨d', l, hl, hm⟩
          · exact .inl hpage
          · exact .inr ⟨d', l, by rw [List.length_cons]; omega, hm⟩

end Resolve

theorem pageSize_sub_one {tc : Tc} (hpsb : 8 ≤ tc.pageSizeBits.toNat ∧ tc.pageSizeBits.toNat ≤ 15) :
    tc.pageSize - 1 = Atc.offsetMask tc.pageSizeBits := by
  have hreserved : (decide (tc.pageSizeBits.toNat < 8) || decide (15 < tc.pageSizeBits.toNat)) = false := by
    rw [Bool.or_eq_false_iff, decide_eq_false_iff_not, decide_eq_false_iff_not]
    omega
  apply BitVec.eq_of_getLsbD_eq
  intro i hi
  rw [Tc.pageSize, hreserved, getLsbD_offsetMask hpsb]
  exact getLsbD_one_shiftLeft_sub (by omega) i

section Transparent

variable {τ : Type}

/-- The block the tables map an address to, for a root pointer that names a table. -/
def mappingOf (cb : Callbacks τ) (t : τ) (tc : Tc) (root : Root) (address : BitVec 32) :
    Option Mapping :=
  (resolve (treeOf cb t) tc (tc.split address).index 0 root.table {}).2

/-- Everything maps whole pages: the constant offset of a root pointer that is itself a page
descriptor is a multiple of the page size, and the block that the tables map the address to
starts on a page boundary. -/
def WholePages (cb : Callbacks τ) (t : τ) (tc : Tc) (root : Root) (address : BitVec 32) : Prop :=
  if root.pageDescriptor then root.tableAddress &&& Atc.offsetMask tc.pageSizeBits = 0
  else ∀ m, mappingOf cb t tc root address = some m → m.base &&& Atc.offsetMask tc.pageSizeBits = 0

/-- The access an instruction makes under a function code. -/
def accessOf (functionCode : BitVec 8) (write readModifyWrite : Bool) : SearchAccess :=
  { write, readModifyWrite, supervisor := functionCode.getLsbD 2 }

/-- The search refuses the access. -/
def WalkResult.refuses (r : WalkResult) (access : SearchAccess) : Bool :=
  !r.ok || !r.search.permitsAccess access.supervisor ||
    ((access.write || access.readModifyWrite) && !r.search.permitsWrite)

theorem mappingOf_offset {cb : Callbacks τ} {t : τ} {tc : Tc} (hconsistent : tc.isConsistent = true)
    {root : Root} {a : BitVec 32} {m : Mapping} (h : mappingOf cb t tc root a = some m) :
    ∀ i < tc.pageSizeBits.toNat, m.offset.getLsbD i = true := by
  have hpsb := Tc.pageSizeBits_of_consistent hconsistent
  intro i hi
  rcases resolve_mapping _ _ h with ⟨d, rfl⟩ | ⟨d, l, hl, rfl⟩
  · rw [pageMapping, pageSize_sub_one hpsb, getLsbD_offsetMask hpsb, decide_eq_true hi]
  · have hconsumed := bitsConsumedBefore_le hconsistent (l + 1) a (by omega)
    rw [blockMapping, remainingMask]
    dsimp only
    rw [if_neg (by omega)]
    split
    · have hall : (0xFFFFFFFF : BitVec 32) = BitVec.allOnes 32 := by decide
      rw [hall, BitVec.getLsbD_allOnes, decide_eq_true (by omega)]
    · rw [getLsbD_one_shiftLeft_sub (by omega), decide_eq_true (by omega)]

theorem walk_samePage {cb : Callbacks τ} (htables : Tables cb) {tc : Tc}
    (hconsistent : tc.isConsistent = true) {root : Root} {a b : BitVec 32} {t : τ}
    (hwhole : WholePages cb t tc root a) (hpage : SamePage tc.pageSizeBits a b)
    (access access' : SearchAccess) :
    let first := walk cb tc root a access t
    let again := (walk cb tc root b access' first.2).1
    again.search = first.1.search ∧ again.ok = first.1.ok ∧
      first.1.ok = !(first.1.search.invalid || first.1.search.limitViolation) ∧
      (first.1.ok = true →
        ((((first.1.physical >>> 8) &&& atcAddressMask) <<< 8) &&&
            ~~~Atc.offsetMask tc.pageSizeBits) ||| (b &&& Atc.offsetMask tc.pageSizeBits) =
          again.physical) := by
  have hpsb := Tc.pageSizeBits_of_consistent hconsistent
  have hindex := split_samePage hconsistent hpage
  intro first again
  by_cases hroot : root.pageDescriptor = true
  · rw [WholePages, if_pos hroot] at hwhole
    simp only [first, again, walk, walkToLevel, hroot, if_true, hindex]
    split
    · exact ⟨rfl, rfl, rfl, nofun⟩
    · exact ⟨rfl, rfl, rfl, fun _ => add_samePage hpsb hwhole hpage⟩
  · rw [WholePages, if_neg hroot] at hwhole
    have hfirst := walkFrom_resolve htables tc a access (tc.split a).index 0 root.table {} t rfl
    have hagain := walkFrom_resolve htables tc b access' (tc.split b).index 0 root.table {} first.2 rfl
    have hwalk : ∀ address access t, walk cb tc root address access t =
        walkFrom cb tc address access 0 (tc.split address).index 0 root.table {} t := by
      intro address access t
      rw [walk, walkToLevel, if_neg hroot]
    rw [← hwalk] at hfirst hagain
    obtain ⟨hagrees, htree⟩ := hfirst
    obtain ⟨hagrees', -⟩ := hagain
    rw [show treeOf cb first.2 = treeOf cb t from htree, ← hindex] at hagrees'
    have hsome := resolve_isSome (treeOf cb t) tc (tc.split a).index 0 root.table
      (s := {}) rfl
    refine ⟨hagrees'.search.trans hagrees.search.symm, hagrees'.ok.trans hagrees.ok.symm, ?_, fun hok => ?_⟩
    · rw [hagrees.ok, hagrees.search]
      exact hsome
    · rw [hagrees.ok, Option.isSome_iff_exists] at hok
      obtain ⟨m, hm⟩ := hok
      rw [hagrees.physical m hm, hagrees'.physical m hm]
      exact m.physical_samePage hpsb (hwhole m hm) (mappingOf_offset hconsistent hm) hpage

/-- The cache's answer for an access and that of a fresh search: either the cache asks for a
search, which is for a write to a page that is not marked modified, or both refuse, or both
give one physical address and one cache inhibit. -/
def Agrees (lookup : AtcResult) (again : WalkResult) (access : SearchAccess) (modified : Bool) :
    Prop :=
  (lookup.status = .modify ∧ (access.write || access.readModifyWrite) = true ∧ modified = false) ∨
    (lookup.status = .fault ∧ again.refuses access = true) ∨
    (lookup.status = .hit ∧ again.refuses access = false ∧ lookup.physical = again.physical ∧
      lookup.cacheInhibit = again.search.cacheInhibited)

instance (lookup : AtcResult) (again : WalkResult) (access : SearchAccess) (modified : Bool) :
    Decidable (Agrees lookup again access modified) :=
  inferInstanceAs (Decidable (_ ∨ _ ∨ _))

/-- The cache's answer for `b` after a search for `a` has filled an entry, and a fresh search
for `b`. -/
def Transparent (cb : Callbacks τ) (tc : Tc) (root : Root) (atc : Atc) (t : τ) (fc : BitVec 8)
    (a : BitVec 32) (access : SearchAccess) (b : BitVec 32) (write readModifyWrite : Bool) : Prop :=
  let first := walk cb tc root a access t
  let filled := (walkFillAtc atc first.1 access fc a tc.pageSizeBits).2
  Agrees (filled.lookup fc b tc.pageSizeBits write readModifyWrite)
    (walk cb tc root b (accessOf fc write readModifyWrite) first.2).1
    (accessOf fc write readModifyWrite) first.1.pageModified

instance (cb : Callbacks τ) (tc : Tc) (root : Root) (atc : Atc) (t : τ) (fc : BitVec 8)
    (a : BitVec 32) (access : SearchAccess) (b : BitVec 32) (write readModifyWrite : Bool) :
    Decidable (Transparent cb tc root atc t fc a access b write readModifyWrite) :=
  inferInstanceAs (Decidable (Agrees _ _ _ _))

/-- Tables whose first entry is a descriptor of a page, of which the history bits are set. -/
def onePage (addressField : BitVec 32) (modified writable : Bool) : Callbacks Unit :=
  { fetch := fun _ address _ =>
      (some
        { dt := if address = 0x1000 then .page else .invalid
          addressField
          modified
          used := true }, ())
    update := some fun _ _ _ _ => (writable, ()) }

/-- Pages of 1024 bytes, and two levels of 11 bits. -/
def twoLevels : Tc :=
  { enable := true, pageSizeBits := 10, initialShift := 0, tableIndex := #v[11, 11, 0, 0] }

/-- Pages of 1024 bytes, and one level for all of the rest. -/
def oneLevel : Tc :=
  { enable := true, pageSizeBits := 10, initialShift := 7, tableIndex := #v[15, 0, 0, 0] }

theorem tables_onePage (addressField : BitVec 32) (modified : Bool) :
    Tables (onePage addressField modified true) where
  fetch _ _ _ _ _ := rfl
  writable := by
    rintro update ⟨⟩ t a long used modified _
    rfl
  history := by
    rintro update ⟨⟩ t a used modified
    rfl

/-- A root pointer to a short-format table. -/
def shortRoot : Root := { tableAddress := 0x1000 }

/-- A root pointer that is a page descriptor with an offset of 16 bytes. -/
def offsetRoot : Root := { tableAddress := 16, pageDescriptor := true }

end Transparent

end Apollo.M68030
