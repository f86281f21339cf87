import Apollo.M68030.WalkIndirect

/-!
# The limits a search meets

A root pointer, a table descriptor and a page descriptor above the page tables can each carry
a limit, and the index it is for is the next one of the address. `limitsMet` follows a search
down the tree and lists the limits in the order it takes them over, each with the index it
is for and the state of the memory at that moment.

`LimitsKept` is what they are for: no translation across a limit, and an index outside one
is the end of the search. The limits of a root and of a table are kept in every tree
(`walkFrom_outside`). The limit of a page descriptor above the page tables is decoded
and never looked at: there the search ends with a translation, whatever the limit says. So limits are kept exactly where no such limit is crossed (`limits_iff`).
-/

namespace Apollo.M68030

variable {τ : Type}

/-- What carries a limit. -/
inductive Bearer
  | root
  | table
  | earlyPage
deriving DecidableEq

/-- A limit that a search has come to: who carries it, the index it is for, and the state in
which the search took it over. -/
structure LimitMet (τ : Type) where
  bearer : Bearer
  limit : BitVec 16
  lowerLimit : Bool
  index : BitVec 32
  state : τ

/-- The index is within the limit. -/
def LimitMet.Within (m : LimitMet τ) : Prop := indexWithinLimit m.limit m.lowerLimit m.index = true

instance (m : LimitMet τ) : Decidable m.Within := inferInstanceAs (Decidable (_ = true))

/-- The state in which a search goes on from a descriptor it has read, if the history of the
descriptor can be written. -/
def followed (cb : Callbacks τ) (access : SearchAccess) (a : BitVec 32) (d : Descriptor)
    (isPage : Bool) (s : Search) (t : τ) : Option τ :=
  let out := updateHistory cb access a d isPage { search := s } t
  if out.1 then some out.2.2 else none

/-- The limit of a page descriptor above the page tables, on the first index it leaves over. -/
def earlyLimit (d : Descriptor) (indices : List (BitVec 32)) (t : τ) : List (LimitMet τ) :=
  match indices with
  | [] => []
  | next :: _ => if d.hasLimit then [⟨.earlyPage, d.limit, d.lowerLimit, next, t⟩] else []

/-- The limits met from a table on, the table's own first. An index outside it is the end. -/
def limitsFrom (cb : Callbacks τ) (access : SearchAccess) :
    Bearer → List (BitVec 32) → Table → Search → τ → List (LimitMet τ)
  | _, [], _, _, _ => []
  | bearer, index :: indices, table, s, t =>
    let own : List (LimitMet τ) :=
      if table.haveLimit then [⟨bearer, table.limit, table.lowerLimit, index, t⟩] else []
    if table.haveLimit && !indexWithinLimit table.limit table.lowerLimit index then own
    else
      own ++
        match cb.fetch t (table.descriptorAddress index) table.longFormat with
        | (none, _) => []
        | (some d, t) =>
          let s := s.accumulate d.writeProtect d.supervisor d.cacheInhibit
          match descRole d.dt indices.isEmpty with
          | .table =>
            match followed cb access (table.descriptorAddress index) d false s t with
            | none => []
            | some t => limitsFrom cb access .table indices d.table s t
          | .earlyPage =>
            match followed cb access (table.descriptorAddress index) d true s t with
            | none => []
            | some t => earlyLimit d indices t
          | .invalid | .indirect | .page => []

/-- The limits that a search meets. -/
def limitsMet (cb : Callbacks τ) (tc : Tc) (root : Root) (address : BitVec 32)
    (access : SearchAccess) (t : τ) : List (LimitMet τ) :=
  if root.pageDescriptor then
    match (tc.split address).index with
    | [] => []
    | index :: _ => if root.hasLimit then [⟨.root, root.limit, root.lowerLimit, index, t⟩] else []
  else limitsFrom cb access .root (tc.split address).index root.table {} t

/-- LIMITS ARE KEPT by a search: it translates only within every limit it meets, and an index
outside one is the end of it, a limit violation, with no callback called from then on. -/
structure LimitsKept (cb : Callbacks τ) (tc : Tc) (root : Root) (address : BitVec 32)
    (access : SearchAccess) (t : τ) : Prop where
  translated : (walk cb.traced tc root address access (t, [])).1.ok = true →
    ∀ m ∈ limitsMet cb.traced tc root address access (t, []), m.Within
  ended : ∀ m ∈ limitsMet cb.traced tc root address access (t, []), ¬ m.Within →
    (walk cb.traced tc root address access (t, [])).1.search.limitViolation = true ∧
      (walk cb.traced tc root address access (t, [])).1.ok = false ∧
      (walk cb.traced tc root address access (t, [])).2 = m.state

/-! ## One history update -/

section Search

variable {cb : Callbacks τ} {tc : Tc} {address : BitVec 32} {access : SearchAccess}

theorem updateHistory_congr (a : BitVec 32) (d : Descriptor) (isPage : Bool) {r r' : WalkResult}
    (hsearch : r.search = r'.search) (t : τ) :
    (updateHistory cb access a d isPage r t).1 = (updateHistory cb access a d isPage r' t).1 ∧
      (updateHistory cb access a d isPage r t).2.2 =
        (updateHistory cb access a d isPage r' t).2.2 := by
  unfold updateHistory
  rw [hsearch]
  cases cb.update with
  | none => exact ⟨rfl, rfl⟩
  | some update =>
    dsimp only
    split
    · exact ⟨rfl, rfl⟩
    · split <;> exact ⟨rfl, rfl⟩

variable (cb access) in
theorem updateHistory_ok (a : BitVec 32) (d : Descriptor) (isPage : Bool) (r : WalkResult) (t : τ) :
    (updateHistory cb access a d isPage r t).2.1.ok = r.ok := by
  unfold updateHistory
  cases cb.update with
  | none =>
    dsimp only
    split <;> rfl
  | some update =>
    dsimp only
    split
    · split <;> rfl
    · split <;> split <;> rfl

variable (cb access) in
theorem followed_cases (a : BitVec 32) (d : Descriptor) (isPage : Bool) (r : WalkResult) (t : τ) :
    (∃ r' t', updateHistory cb access a d isPage r t = (true, r', t') ∧ r'.search = r.search ∧
      r'.ok = r.ok ∧ followed cb access a d isPage r.search t = some t') ∨
    (∃ r' t', updateHistory cb access a d isPage r t = (false, r', t') ∧
      followed cb access a d isPage r.search t = none) := by
  obtain ⟨hdone, hstate⟩ :=
    @updateHistory_congr _ cb access a d isPage r { search := r.search } rfl t
  have hsearch := updateHistory_search cb access a d isPage r t
  have hok := updateHistory_ok cb access a d isPage r t
  rcases hout : updateHistory cb access a d isPage r t with ⟨_ | _, r', t'⟩
  · rw [hout] at hdone
    refine .inr ⟨r', t', rfl, ?_⟩
    rw [followed, ← hdone]
    rfl
  · rw [hout] at hdone hstate hsearch hok
    refine .inl ⟨r', t', rfl, hsearch, hok, ?_⟩
    rw [followed, ← hdone, ← hstate]
    rfl

/-! ## A search across a limit -/

/-- How a search ends that has an index outside a limit: as a limit violation in the state in
which it took the limit over, unless the limit is that of a page descriptor. -/
def EndsAt (m : LimitMet τ) (out : WalkResult × τ) : Prop :=
  if m.bearer = .earlyPage then out.1.ok = true
  else out.1.search.limitViolation = true ∧ out.1.ok = false ∧ out.2 = m.state

/-- A SEARCH ENDS AT THE FIRST INDEX OUTSIDE A LIMIT, and at a page descriptor above the page
tables it ends with a translation. -/
theorem walkFrom_outside (indices : List (BitVec 32)) (level : Nat) (table : Table)
    (r : WalkResult) (t : τ) (bearer : Bearer) (hbearer : bearer ≠ .earlyPage)
    (hok : r.ok = false) :
    ∀ m ∈ limitsFrom cb access bearer indices table r.search t, ¬ m.Within →
      EndsAt m (walkFrom cb tc address access 0 indices level table r t) := by
  induction indices generalizing level table r t bearer with
  | nil => exact fun m hm => absurd hm List.not_mem_nil
  | cons index indices ih =>
    intro m hm hout
    simp only [limitsFrom] at hm
    simp only [walkFrom, walkLevel, ne_eq, not_true_eq_false, false_and, if_false]
    by_cases hlimit : (table.haveLimit && !indexWithinLimit table.limit table.lowerLimit index) = true
    · rw [if_pos hlimit] at hm ⊢
      rw [Bool.and_eq_true] at hlimit
      rw [if_pos hlimit.1, List.mem_singleton] at hm
      subst hm
      rw [EndsAt, if_neg hbearer]
      exact ⟨rfl, hok, rfl⟩
    rw [if_neg hlimit] at hm ⊢
    rw [List.mem_append] at hm
    rcases hm with hown | hm
    · -- the table's own limit, which the index is within
      split at hown
      · next hhave =>
        rw [List.mem_singleton] at hown
        subst hown
        rw [hhave, Bool.true_and] at hlimit
        exact absurd (by simpa [LimitMet.Within] using hlimit) hout
      · exact absurd hown List.not_mem_nil
    rcases hfetch : cb.fetch t (table.descriptorAddress index) table.longFormat with ⟨_ | d, t₁⟩
    · rw [hfetch] at hm
      exact absurd hm List.not_mem_nil
    rw [hfetch] at hm
    dsimp only at hm ⊢
    have hfollowed := fun isPage => followed_cases cb access
      (table.descriptorAddress index) d isPage
      { r with
        descriptorFetches := r.descriptorFetches + 1
        lastDescriptorAddress := table.descriptorAddress index
        levelsWalked := level + 1
        search := r.search.accumulate d.writeProtect d.supervisor d.cacheInhibit } t₁
    cases hrole : descRole d.dt indices.isEmpty with
    | invalid => exact absurd (hrole ▸ hm) List.not_mem_nil
    | indirect => exact absurd (hrole ▸ hm) List.not_mem_nil
    | page => exact absurd (hrole ▸ hm) List.not_mem_nil
    | table =>
      rw [hrole] at hm
      dsimp only at hm ⊢
      obtain ⟨r', t', hupdate, hsearch, hok', hnext⟩ | ⟨r', t', hupdate, hnext⟩ := hfollowed false
      · rw [hnext] at hm
        rw [hupdate]
        dsimp only at hm ⊢ hsearch
        rw [← hsearch] at hm
        exact ih (level + 1) d.table r' t' .table (by decide) (hok'.trans hok) m hm hout
      · rw [hnext] at hm
        exact absurd hm List.not_mem_nil
    | earlyPage =>
      rw [hrole] at hm
      dsimp only at hm ⊢
      obtain ⟨r', t', hupdate, -, -, hnext⟩ | ⟨r', t', hupdate, hnext⟩ := hfollowed true
      · rw [hnext] at hm
        rw [hupdate]
        have hearly : m.bearer = .earlyPage := by
          cases indices with
          | nil => exact absurd hm List.not_mem_nil
          | cons next rest =>
            simp only [earlyLimit] at hm
            split at hm
            · rw [List.mem_singleton] at hm
              rw [hm]
            · exact absurd hm List.not_mem_nil
        rw [EndsAt, if_pos hearly]
      · rw [hnext] at hm
        exact absurd hm List.not_mem_nil

variable (cb tc address access) in
theorem walk_outside (root : Root) (t : τ) :
    ∀ m ∈ limitsMet cb tc root address access t, ¬ m.Within →
      EndsAt m (walk cb tc root address access t) := by
  intro m hm hout
  simp only [limitsMet] at hm
  simp only [walk, walkToLevel]
  split at hm
  · next hpage =>
    rw [if_pos hpage]
    cases hindex : (tc.split address).index with
    | nil =>
      rw [hindex] at hm
      exact absurd hm List.not_mem_nil
    | cons index indices =>
      rw [hindex] at hm
      dsimp only at hm
      split at hm
      · next hhave =>
        rw [List.mem_singleton] at hm
        subst hm
        have houtside : (root.hasLimit && decide (0 < (index :: indices).length) &&
            !indexWithinLimit root.limit root.lowerLimit ((index :: indices).headD 0)) = true := by
          simpa [LimitMet.Within, hhave] using hout
        rw [if_pos houtside]
        exact ⟨rfl, rfl, rfl⟩
      · exact absurd hm List.not_mem_nil
  · next hpage =>
    rw [if_neg hpage]
    exact walkFrom_outside _ 0 root.table {} t .root (by decide) rfl m hm hout

end Search

/-- LIMITS ARE KEPT EXACTLY WHERE NO PAGE DESCRIPTOR'S IS CROSSED: the search does not come to
a page descriptor above the page tables with a limit that the next index is outside of. -/
theorem limits_iff (cb : Callbacks τ) (tc : Tc) (root : Root) (address : BitVec 32)
    (access : SearchAccess) (t : τ) :
    LimitsKept cb tc root address access t ↔
      ∀ m ∈ limitsMet cb.traced tc root address access (t, []),
        m.bearer = .earlyPage → m.Within := by
  have houtside := walk_outside cb.traced tc address access root (t, [])
  constructor
  · intro h m hm hearly
    by_contra hout
    have hok := houtside m hm hout
    rw [EndsAt, if_pos hearly, (h.ended m hm hout).2.1] at hok
    cases hok
  · intro h
    have hended : ∀ m ∈ limitsMet cb.traced tc root address access (t, []), ¬ m.Within →
        (walk cb.traced tc root address access (t, [])).1.search.limitViolation = true ∧
          (walk cb.traced tc root address access (t, [])).1.ok = false ∧
          (walk cb.traced tc root address access (t, [])).2 = m.state := by
      intro m hm hout
      have hends := houtside m hm hout
      rwa [EndsAt, if_neg fun hearly => hout (h m hm hearly)] at hends
    refine ⟨fun hok m hm => ?_, hended⟩
    by_contra hout
    rw [(hended m hm hout).2.1] at hok
    cases hok

/-! ## A limit that is crossed -/

/-- A long page descriptor in the place of a table, with an upper limit of 0. -/
def limitedBus : TableBus Unit where
  read := fun t a => (if a = 0x2000 then some 0x00000001 else some 0x00080000, t)
  write := fun t _ _ => (true, t)

/-- Two levels of ten bits, and pages of 4096 bytes. -/
def limitedTc : Tc := tenAndTen

/-- The table in which that descriptor is the first. -/
def limitedRoot : Root := { tableAddress := 0x2000, longFormat := true }

/-- INDEX 1 GETS PAST A LIMIT OF 0. -/
theorem not_limitsKept :
    ¬ LimitsKept (machineTables limitedBus) limitedTc limitedRoot 0x1000 {} () := by
  intro h
  have hok : (walk (machineTables limitedBus).traced limitedTc limitedRoot 0x1000 {} ((), [])).1.ok
      = true := by decide
  have hwithin := h.translated hok
  have hcrossed : ¬ ∀ m ∈ limitsMet (machineTables limitedBus).traced limitedTc limitedRoot
      0x1000 {} ((), []), m.Within := by decide
  exact hcrossed hwithin

end Apollo.M68030
