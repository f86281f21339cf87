import Apollo.M68030.WalkIndirect
import Apollo.M68030.WalkTree

/-!
# The history bits of a table search

`update_history` of `src/core/cpu/m68030/ap_m68030_walk.c`, over a whole search. `searchPath`
is the path that a search takes through tables that stand still: the descriptors in the order
of their reading, each with its role and the protection found so far. `historyCalls` is what is
to be written on it: U where it is clear, M in the page descriptor that is written through.

`HistoryTables` is what callbacks stand for whose updates set bits in a memory, and the machine's
do (`machineTables_history`). Over such callbacks a search makes the calls of its path, until a
write is refused (`walkFrom_history`).

`HistoryKept` is what the history bits are for. The code marks an indirect descriptor used as
it marks a table descriptor, although the descriptor has no such bit. So history is kept
exactly where no indirect descriptor looks unused, and no write is refused (`history_iff`).
-/

namespace Apollo.M68030

variable {τ : Type}

/-! ## Tables with history bits -/

/-- What stands in the tables, history bits included. -/
def standing (cb : Callbacks τ) (t : τ) : Tree := fun a long => (cb.fetch t a long).1

/-- A descriptor, used if it has been marked. -/
def Descriptor.withUsed (d : Descriptor) (marked : Bool) : Descriptor :=
  { d with used := d.used || marked }

@[simp] theorem Descriptor.withUsed_dt (d : Descriptor) (marked : Bool) :
    (d.withUsed marked).dt = d.dt := rfl

@[simp] theorem Descriptor.withUsed_writeProtect (d : Descriptor) (marked : Bool) :
    (d.withUsed marked).writeProtect = d.writeProtect := rfl

@[simp] theorem Descriptor.withUsed_supervisor (d : Descriptor) (marked : Bool) :
    (d.withUsed marked).supervisor = d.supervisor := rfl

@[simp] theorem Descriptor.withUsed_cacheInhibit (d : Descriptor) (marked : Bool) :
    (d.withUsed marked).cacheInhibit = d.cacheInhibit := rfl

@[simp] theorem Descriptor.withUsed_addressField (d : Descriptor) (marked : Bool) :
    (d.withUsed marked).addressField = d.addressField := rfl

@[simp] theorem Descriptor.withUsed_table (d : Descriptor) (marked : Bool) :
    (d.withUsed marked).table = d.table := rfl

/-- A descriptor with history bits set. -/
def Descriptor.setHistory (d : Descriptor) (used modified : Bool) : Descriptor :=
  { d with used := d.used || used, modified := d.modified || modified }

/-- A tree with the descriptors at some addresses marked used. -/
def markUsed (marked : List (BitVec 32)) (tree : Tree) : Tree :=
  fun a long => (tree a long).map (·.withUsed (decide (a ∈ marked)))

/-- What is used in one tree is used in another. -/
def UsedKept (tree after : Tree) : Prop :=
  ∀ a long d, tree a long = some d → d.used = true →
    ∃ d', after a long = some d' ∧ d'.used = true

/-- What the callbacks stand for: descriptors in a memory. Reading changes nothing, the type is
the same in both formats, and a write sets the history bits of the descriptor, unless it is
refused. A write of M may do anything to other descriptors but clear their U bits. -/
structure HistoryTables (cb : Callbacks τ) (update : τ → BitVec 32 → Bool → Bool → Bool × τ)
    (refuses : BitVec 32 → Bool) : Prop where
  installed : cb.update = some update
  reads : ∀ t a long, standing cb (cb.fetch t a long).2 = standing cb t
  oneType : ∀ t a long long' d d', standing cb t a long = some d →
    standing cb t a long' = some d' → d.dt = d'.dt
  answers : ∀ t a used modified, (update t a used modified).1 = !refuses a
  refused : ∀ t a used modified, refuses a = true →
    standing cb (update t a used modified).2 = standing cb t
  used : ∀ t a long d, standing cb t a long = some d → d.dt ≠ .invalid → refuses a = false →
    standing cb (update t a true false).2 = markUsed [a] (standing cb t)
  modified : ∀ t a long d used, standing cb t a long = some d → d.dt = .page →
    refuses a = false →
      standing cb (update t a used true).2 a long = some (d.setHistory used true) ∧
        UsedKept (markUsed (if used then [a] else []) (standing cb t))
          (standing cb (update t a used true).2)

theorem UsedKept.refl (tree : Tree) : UsedKept tree tree :=
  fun _ _ d hd hused => ⟨d, hd, hused⟩

theorem Descriptor.withUsed_false (d : Descriptor) : d.withUsed false = d := by
  unfold withUsed
  rw [Bool.or_false]

theorem markUsed_nil (tree : Tree) : markUsed [] tree = tree := by
  funext a long
  unfold markUsed
  cases tree a long with
  | none => rfl
  | some d => exact congrArg some d.withUsed_false

theorem markUsed_markUsed (a : BitVec 32) (marked : List (BitVec 32)) (tree : Tree) :
    markUsed [a] (markUsed marked tree) = markUsed (a :: marked) tree := by
  funext a' long
  unfold markUsed Descriptor.withUsed
  cases tree a' long with
  | none => rfl
  | some d =>
    have hmem : (decide (a' ∈ marked) || decide (a' ∈ [a])) = decide (a' ∈ a :: marked) := by
      rw [← Bool.decide_or]
      exact decide_eq_decide.mpr (by rw [List.mem_singleton, List.mem_cons, or_comm])
    simp only [Option.map_some, Bool.or_assoc, hmem]

/-! ## The path of a search -/

/-- A descriptor on the path of a search: as it stands before the search, in the role that it
has there, with the protection found by then, its own included. -/
structure Visit where
  address : BitVec 32
  longFormat : Bool
  descriptor : Descriptor
  role : Role
  search : Search
deriving DecidableEq

/-- The two roles of a page descriptor. -/
def Role.isPage : Role → Bool
  | .page | .earlyPage => true
  | .invalid | .table | .indirect => false

/-- What an indirect descriptor leads to. Anything but a page descriptor is invalid there. -/
def pathIndirect (tree : Tree) (pointedAddress : BitVec 32) (pointedLong : Bool) (s : Search) :
    List Visit :=
  match tree pointedAddress pointedLong with
  | none => []
  | some p =>
    [{ address := pointedAddress
       longFormat := pointedLong
       descriptor := p
       role := if p.dt = .page then .page else .invalid
       search := s.accumulate p.writeProtect p.supervisor p.cacheInhibit }]

/-- The path of a search from a table on. -/
def pathFrom (tree : Tree) : List (BitVec 32) → Table → Search → List Visit
  | [], _, _ => []
  | index :: indices, table, s =>
    if table.haveLimit && !indexWithinLimit table.limit table.lowerLimit index then []
    else
      match tree (table.descriptorAddress index) table.longFormat with
      | none => []
      | some d =>
        let s := s.accumulate d.writeProtect d.supervisor d.cacheInhibit
        { address := table.descriptorAddress index
          longFormat := table.longFormat
          descriptor := d
          role := descRole d.dt indices.isEmpty
          search := s } ::
          match descRole d.dt indices.isEmpty with
          | .table => pathFrom tree indices d.table s
          | .indirect => pathIndirect tree d.addressField (d.dt = .valid8Byte) s
          | .invalid | .page | .earlyPage => []

/-- The path of a search. A root pointer that is a page descriptor needs none. -/
def searchPath (tree : Tree) (tc : Tc) (root : Root) (address : BitVec 32) : List Visit :=
  if root.pageDescriptor then [] else pathFrom tree (tc.split address).index root.table {}

/-- A supervisor violation has been met. -/
def Visit.Violated (v : Visit) (access : SearchAccess) : Prop :=
  v.search.supervisorOnly = true ∧ access.supervisor = false

instance (v : Visit) (access : SearchAccess) : Decidable (v.Violated access) :=
  inferInstanceAs (Decidable (_ ∧ _))

/-- The access writes through a page descriptor: M is to be set if it is clear. -/
def Visit.WritesThrough (v : Visit) (access : SearchAccess) : Prop :=
  (access.write = true ∨ access.readModifyWrite = true) ∧ v.search.writeProtected = false ∧
    ¬ v.Violated access

/-- U is to be set in a descriptor, given the addresses that have been marked by then. -/
def Visit.setsUsed (access : SearchAccess) (marked : List (BitVec 32)) (v : Visit) : Bool :=
  decide (v.role ≠ .invalid) && (!(v.descriptor.used || decide (v.address ∈ marked)) &&
    v.search.permitsAccess access.supervisor)

/-- M is to be set in a descriptor. -/
def Visit.setsModified (access : SearchAccess) (v : Visit) : Bool :=
  v.role.isPage && v.search.shouldSetModified access.write access.readModifyWrite
    access.supervisor v.descriptor.modified

/-- The addresses marked after a descriptor. -/
def Visit.marks (access : SearchAccess) (marked : List (BitVec 32)) (v : Visit) :
    List (BitVec 32) :=
  if v.setsUsed access marked then v.address :: marked else marked

/-- One write sets both bits. -/
def historyWrite (a : BitVec 32) (used modified : Bool) : List TableCycle :=
  if used || modified then [.updated a used modified] else []

/-- The write at a descriptor, if one is needed. -/
def Visit.writes (access : SearchAccess) (marked : List (BitVec 32)) (v : Visit) :
    List TableCycle :=
  historyWrite v.address (v.setsUsed access marked) (v.setsModified access)

/-- The addresses marked along a path. -/
def markedBy (access : SearchAccess) : List (BitVec 32) → List Visit → List (BitVec 32)
  | marked, [] => marked
  | marked, v :: rest => markedBy access (v.marks access marked) rest

/-- The calls along a path. -/
def historyCalls (access : SearchAccess) : List (BitVec 32) → List Visit → List TableCycle
  | _, [] => []
  | marked, v :: rest =>
    .fetched v.address v.longFormat ::
      (v.writes access marked ++ historyCalls access (v.marks access marked) rest)

/-- The descriptors on a path in which a history bit is to be set. -/
def written (access : SearchAccess) : List (BitVec 32) → List Visit → List Visit
  | _, [] => []
  | marked, v :: rest =>
    (if v.setsUsed access marked || v.setsModified access then [v] else []) ++
      written access (v.marks access marked) rest

/-! ## What history bits are for -/

/-- The updates at the head of a record of calls. -/
def headUpdates : List TableCycle → List TableCycle
  | .updated a used modified :: rest => .updated a used modified :: headUpdates rest
  | _ => []

/-- The updates that follow a read, up to the next. -/
def updatesAfter : List TableCycle → Nat → List TableCycle
  | [], _ => []
  | .updated _ _ _ :: rest, i => updatesAfter rest i
  | .fetched _ _ :: rest, 0 => headUpdates rest
  | .fetched _ _ :: rest, i + 1 => updatesAfter rest i

/-- Where a call writes. -/
def TableCycle.updatedAt : TableCycle → Option (BitVec 32)
  | .fetched _ _ => none
  | .updated a _ _ => some a

/-- What a search says but for the history bits. -/
def WalkResult.verdict (r : WalkResult) : WalkResult :=
  { r with historyWrites := 0, pageModified := false }

/-- The same callbacks without an update. -/
def Callbacks.observer (cb : Callbacks τ) : Callbacks τ := { cb with update := none }

/-- HISTORY IS KEPT by a search, with `path` for the descriptors on its path, `out` for the
result, the tables and the record of calls that it leaves behind, and `seen` for those of a
search without an update. -/
structure HistoryKept (cb : Callbacks τ) (access : SearchAccess) (t : τ) (path : List Visit)
    (out seen : WalkResult × τ × List TableCycle) : Prop where
  /-- U is set in every table and page descriptor that is reached without a violation. -/
  used : ∀ v ∈ path, v.role = .table ∨ v.role.isPage = true → ¬ v.Violated access →
    ∃ d, standing cb out.2.1 v.address v.longFormat = some d ∧ d.used = true
  /-- M is set in the page descriptor exactly by an access that writes through it. -/
  modified : ∀ i v, path[i]? = some v → v.role.isPage = true →
    ((∃ used, .updated v.address used true ∈ updatesAfter out.2.2 i) ↔
      v.descriptor.modified = false ∧ v.WritesThrough access)
  /-- What is reported is the M bit then in memory. -/
  reported : ∀ v ∈ path, v.role.isPage = true →
    ∃ d, standing cb out.2.1 v.address v.longFormat = some d ∧ out.1.pageModified = d.modified ∧
      (d.modified = true ↔ v.descriptor.modified = true ∨ v.WritesThrough access)
  /-- No descriptor is written twice. -/
  once : (out.2.2.filterMap TableCycle.updatedAt).Nodup
  /-- Nothing is written before it has been read, -/
  readFirst : headUpdates out.2.2 = []
  /-- and only in table and page descriptors, where the bit is clear. -/
  spared : ∀ i call, call ∈ updatesAfter out.2.2 i → ∃ v used modified, path[i]? = some v ∧
    call = .updated v.address used modified ∧ (v.role = .table ∨ v.role.isPage = true) ∧
    (used = true → v.descriptor.used = false ∧ ¬ v.Violated access) ∧
    (modified = true → v.role.isPage = true)
  /-- Without an update nothing is written, -/
  untouched : (∀ call ∈ seen.2.2, call.updatedAt = none) ∧
    standing cb seen.2.1 = standing cb t
  /-- and everything else that is said is the same. -/
  verdict : seen.1.verdict = out.1.verdict

/-! ## The path -/

/-- What is known of each descriptor on a path. -/
structure Visit.Found (tree : Tree) (v : Visit) : Prop where
  stands : tree v.address v.longFormat = some v.descriptor
  page : v.role.isPage = true ↔ v.descriptor.dt = .page
  valid : v.role = .table ∨ v.role = .indirect → v.descriptor.dt ≠ .invalid
  search : v.search.invalid = false ∧ v.search.limitViolation = false

theorem isPage_descRole (dt : Dt) (inPageTable : Bool) :
    (descRole dt inPageTable).isPage = true ↔ dt = .page := by
  cases dt <;> cases inPageTable <;> decide

theorem descRole_valid (dt : Dt) (inPageTable : Bool)
    (h : descRole dt inPageTable ≠ .invalid) : dt ≠ .invalid := by
  rintro rfl
  exact h rfl

theorem found_descRole {tree : Tree} {a : BitVec 32} {long : Bool} {d : Descriptor}
    (hd : tree a long = some d) (inPageTable : Bool) {s : Search}
    (hs : s.invalid = false ∧ s.limitViolation = false) :
    Visit.Found tree
      { address := a
        longFormat := long
        descriptor := d
        role := descRole d.dt inPageTable
        search := s } := by
  refine ⟨hd, isPage_descRole _ _, fun hrole => descRole_valid d.dt inPageTable ?_, hs⟩
  change descRole d.dt inPageTable = _ ∨ descRole d.dt inPageTable = _ at hrole
  rcases hrole with hrole | hrole <;> rw [hrole] <;> decide

theorem pathIndirect_found {tree : Tree} {pa : BitVec 32} {pl : Bool} {s : Search}
    (hs : s.invalid = false ∧ s.limitViolation = false) :
    ∀ v ∈ pathIndirect tree pa pl s, v.Found tree := by
  intro v hv
  unfold pathIndirect at hv
  cases hp : tree pa pl with
  | none =>
    rw [hp] at hv
    exact absurd hv List.not_mem_nil
  | some p =>
    rw [hp] at hv
    obtain rfl := List.mem_singleton.1 hv
    by_cases hpage : p.dt = .page
    · exact ⟨hp, by simp [hpage, Role.isPage], by simp [hpage], hs⟩
    · exact ⟨hp, by simp [hpage, Role.isPage], by simp [hpage], hs⟩

theorem pathFrom_found {tree : Tree} (indices : List (BitVec 32)) (table : Table) (s : Search)
    (hs : s.invalid = false ∧ s.limitViolation = false) :
    ∀ v ∈ pathFrom tree indices table s, v.Found tree := by
  induction indices generalizing table s with
  | nil => exact fun v hv => absurd hv List.not_mem_nil
  | cons index indices ih =>
    intro v hv
    rw [pathFrom] at hv
    by_cases hlimit : (table.haveLimit && !indexWithinLimit table.limit table.lowerLimit index) = true
    · rw [if_pos hlimit] at hv
      exact absurd hv List.not_mem_nil
    rw [if_neg hlimit] at hv
    cases hd : tree (table.descriptorAddress index) table.longFormat with
    | none =>
      rw [hd] at hv
      exact absurd hv List.not_mem_nil
    | some d =>
      rw [hd] at hv
      rcases List.mem_cons.1 hv with rfl | hv
      · exact found_descRole hd _ hs
      · cases hrole : descRole d.dt indices.isEmpty with
        | table =>
          rw [hrole] at hv
          exact ih d.table (s.accumulate d.writeProtect d.supervisor d.cacheInhibit) hs v hv
        | indirect =>
          rw [hrole] at hv
          exact pathIndirect_found (s := s.accumulate d.writeProtect d.supervisor d.cacheInhibit)
            hs v hv
        | invalid | page | earlyPage =>
          rw [hrole] at hv
          exact absurd hv List.not_mem_nil

theorem pathIndirect_page {tree : Tree} {pa : BitVec 32} {pl : Bool} {s : Search}
    {pre post : List Visit} {v : Visit} (h : pathIndirect tree pa pl s = pre ++ v :: post) :
    post = [] := by
  unfold pathIndirect at h
  cases hp : tree pa pl with
  | none =>
    rw [hp] at h
    cases pre <;> cases h
  | some p =>
    rw [hp] at h
    cases pre with
    | nil => exact (List.cons.inj h).2.symm
    | cons w pre =>
      have := (List.cons.inj h).2
      cases pre <;> cases this

theorem pathFrom_page {tree : Tree} (indices : List (BitVec 32)) (table : Table) (s : Search)
    (pre post : List Visit) (v : Visit) (h : pathFrom tree indices table s = pre ++ v :: post)
    (hv : v.role.isPage = true) : post = [] := by
  induction indices generalizing table s pre with
  | nil => cases pre <;> cases h
  | cons index indices ih =>
    rw [pathFrom] at h
    by_cases hlimit : (table.haveLimit && !indexWithinLimit table.limit table.lowerLimit index) = true
    · rw [if_pos hlimit] at h
      cases pre <;> cases h
    rw [if_neg hlimit] at h
    cases hd : tree (table.descriptorAddress index) table.longFormat with
    | none =>
      rw [hd] at h
      cases pre <;> cases h
    | some d =>
      rw [hd] at h
      cases pre with
      | nil =>
        obtain ⟨rfl, hrest⟩ := List.cons.inj h
        rw [← hrest]
        cases hrole : descRole d.dt indices.isEmpty with
        | table | indirect =>
          dsimp only at hv
          rw [hrole] at hv
          cases hv
        | invalid | page | earlyPage => rfl
      | cons w pre =>
        have hrest := (List.cons.inj h).2
        cases hrole : descRole d.dt indices.isEmpty with
        | table =>
          rw [hrole] at hrest
          exact ih d.table _ pre hrest
        | indirect =>
          rw [hrole] at hrest
          exact pathIndirect_page hrest
        | invalid | page | earlyPage =>
          rw [hrole] at hrest
          cases pre <;> cases hrest

/-! ## The calls along a path -/

section Calls

variable (access : SearchAccess)

theorem Visit.Found.permits_iff {tree : Tree} {v : Visit} (h : v.Found tree) :
    v.search.permitsAccess access.supervisor = true ↔ ¬ v.Violated access := by
  unfold Search.permitsAccess Violated
  rw [h.search.1, h.search.2]
  cases access.supervisor <;> cases v.search.supervisorOnly <;> decide

theorem Visit.Found.setsModified_iff {tree : Tree} {v : Visit} (h : v.Found tree) :
    v.setsModified access = true ↔
      v.role.isPage = true ∧ v.descriptor.modified = false ∧ v.WritesThrough access := by
  unfold setsModified Search.shouldSetModified WritesThrough Violated
  rw [h.search.1, h.search.2]
  cases v.role.isPage <;> cases access.write <;> cases access.readModifyWrite <;>
    cases v.descriptor.modified <;> cases v.search.writeProtected <;>
    cases v.search.supervisorOnly <;> cases access.supervisor <;> decide

theorem Visit.Found.of_setsUsed {tree : Tree} {v : Visit} (h : v.Found tree)
    {marked : List (BitVec 32)} (hset : v.setsUsed access marked = true) :
    v.descriptor.used = false ∧ ¬ v.Violated access := by
  rw [setsUsed, Bool.and_eq_true, Bool.and_eq_true, Bool.not_eq_true', Bool.or_eq_false_iff] at hset
  exact ⟨hset.2.1.1, (h.permits_iff access).1 hset.2.2⟩

theorem Visit.writable {marked : List (BitVec 32)} (v : Visit)
    (hwants : (v.setsUsed access marked || v.setsModified access) = true)
    (hindirect : v.role ≠ .indirect) : v.role = .table ∨ v.role.isPage = true := by
  unfold setsUsed setsModified at hwants
  cases hrole : v.role with
  | invalid =>
    rw [hrole] at hwants
    cases hwants
  | indirect => exact absurd hrole hindirect
  | table => exact .inl rfl
  | page | earlyPage => exact .inr rfl

theorem mem_written {marked : List (BitVec 32)} {path : List Visit} {v : Visit} :
    v ∈ written access marked path ↔ ∃ pre post, path = pre ++ v :: post ∧
      (v.setsUsed access (markedBy access marked pre) || v.setsModified access) = true := by
  induction path generalizing marked with
  | nil =>
    refine iff_of_false List.not_mem_nil ?_
    rintro ⟨pre, post, h, -⟩
    cases pre <;> cases h
  | cons w rest ih =>
    rw [written, List.mem_append, ih]
    constructor
    · rintro (h | ⟨pre, post, rfl, hwants⟩)
      · split at h
        · obtain rfl := List.mem_singleton.1 h
          exact ⟨[], rest, rfl, ‹_›⟩
        · exact absurd h List.not_mem_nil
      · exact ⟨w :: pre, post, rfl, hwants⟩
    · rintro ⟨_ | ⟨u, pre⟩, post, h, hwants⟩
      · obtain ⟨rfl, rfl⟩ := List.cons.inj h
        left
        rw [markedBy] at hwants
        rw [if_pos hwants]
        exact List.mem_singleton_self _
      · obtain ⟨rfl, rfl⟩ := List.cons.inj h
        exact .inr ⟨pre, post, rfl, hwants⟩

theorem headUpdates_historyWrite (a : BitVec 32) (used modified : Bool)
    (rest : List TableCycle) :
    headUpdates (historyWrite a used modified ++ rest) =
      historyWrite a used modified ++ headUpdates rest := by
  unfold historyWrite
  split <;> rfl

theorem updatesAfter_historyWrite (a : BitVec 32) (used modified : Bool)
    (rest : List TableCycle) (i : Nat) :
    updatesAfter (historyWrite a used modified ++ rest) i = updatesAfter rest i := by
  unfold historyWrite
  split <;> rfl

theorem updatesAfter_of_reads {last : List TableCycle} (h : ∀ c ∈ last, c.updatedAt = none) :
    headUpdates last = [] ∧ ∀ i, updatesAfter last i = [] := by
  induction last with
  | nil => exact ⟨rfl, fun _ => rfl⟩
  | cons c last ih =>
    obtain ⟨hhead, hafter⟩ := ih fun c hc => h c (List.mem_cons_of_mem _ hc)
    cases c with
    | fetched a long =>
      refine ⟨rfl, fun i => ?_⟩
      cases i with
      | zero => exact hhead
      | succ i => exact hafter i
    | updated a used modified => cases h _ List.mem_cons_self

theorem updatesAfter_historyCalls (marked : List (BitVec 32)) (path : List Visit)
    {last : List TableCycle} (hlast : ∀ c ∈ last, c.updatedAt = none) :
    headUpdates (historyCalls access marked path ++ last) = [] ∧
      ∀ i, updatesAfter (historyCalls access marked path ++ last) i =
        (path[i]?.map fun v => v.writes access (markedBy access marked (path.take i))).getD [] := by
  induction path generalizing marked with
  | nil => exact updatesAfter_of_reads hlast
  | cons v rest ih =>
    refine ⟨rfl, fun i => ?_⟩
    obtain ⟨hhead, hafter⟩ := ih (v.marks access marked)
    rw [historyCalls, List.cons_append, List.append_assoc]
    cases i with
    | zero =>
      rw [updatesAfter, Visit.writes, headUpdates_historyWrite, hhead, List.append_nil]
      rfl
    | succ i =>
      rw [updatesAfter, Visit.writes, updatesAfter_historyWrite, hafter]
      rfl

theorem updatedAt_historyCalls (marked : List (BitVec 32)) (path : List Visit) :
    (historyCalls access marked path).filterMap TableCycle.updatedAt =
      (written access marked path).map Visit.address := by
  induction path generalizing marked with
  | nil => rfl
  | cons v rest ih =>
    rw [historyCalls, List.filterMap_cons_none rfl, List.filterMap_append, ih, written,
      List.map_append, Visit.writes, historyWrite]
    split <;> rfl

theorem mem_markedBy {marked : List (BitVec 32)} {path : List Visit} {a : BitVec 32}
    (h : a ∈ marked) : a ∈ markedBy access marked path := by
  induction path generalizing marked with
  | nil => exact h
  | cons v rest ih =>
    refine ih ?_
    unfold Visit.marks
    split
    · exact List.mem_cons_of_mem _ h
    · exact h

theorem mem_marks {marked : List (BitVec 32)} {v : Visit} (h : v.setsUsed access marked = true) :
    v.address ∈ v.marks access marked := by
  rw [Visit.marks, if_pos h]
  exact List.mem_cons_self

theorem Visit.Found.marked {tree : Tree} {v : Visit} (h : v.Found tree)
    (hrole : v.role = .table ∨ v.role.isPage = true) (hpermits : ¬ v.Violated access)
    (marked : List (BitVec 32)) {path : List Visit} (hv : v ∈ path) :
    v.descriptor.used = true ∨ v.address ∈ markedBy access marked path := by
  induction path generalizing marked with
  | nil => exact absurd hv List.not_mem_nil
  | cons w rest ih =>
    rcases List.mem_cons.1 hv with rfl | hv
    · cases hused : v.descriptor.used with
      | true => exact .inl rfl
      | false =>
        right
        rw [markedBy]
        apply mem_markedBy access
        by_cases hmem : v.address ∈ marked
        · unfold marks
          split
          · exact List.mem_cons_of_mem _ hmem
          · exact hmem
        · refine mem_marks access ?_
          have hvalid : v.role ≠ .invalid := by
            rintro hinvalid
            rw [hinvalid] at hrole
            rcases hrole with hrole | hrole <;> cases hrole
          rw [setsUsed, hused, decide_eq_false hmem, decide_eq_true hvalid,
            (h.permits_iff access).2 hpermits]
          rfl
    · exact ih _ hv

/-- NO DESCRIPTOR IS WRITTEN TWICE along a path: what is marked is not marked again, and a page
descriptor, in which M may be left to set, has not been met before. -/
theorem written_nodup {tree : Tree} {path : List Visit} (hfound : ∀ v ∈ path, v.Found tree)
    (htype : ∀ a long long' d d', tree a long = some d → tree a long' = some d' → d.dt = d'.dt)
    (hpage : ∀ pre v post, path = pre ++ v :: post → v.role.isPage = true → post = [])
    (marked : List (BitVec 32)) : ((written access marked path).map Visit.address).Nodup := by
  induction path generalizing marked with
  | nil => exact List.nodup_nil
  | cons v rest ih =>
    have hrest := ih (fun w hw => hfound w (List.mem_cons_of_mem _ hw))
      (fun pre w post h => hpage (v :: pre) w post (by rw [h]; rfl)) (v.marks access marked)
    rw [written]
    split
    · next hwants =>
      rw [List.singleton_append, List.map_cons, List.nodup_cons]
      refine ⟨fun hmem => ?_, hrest⟩
      obtain ⟨w, hw, haddress⟩ := List.mem_map.1 hmem
      obtain ⟨pre, post, rfl, hwants'⟩ := (mem_written access).1 hw
      have hv := hfound v List.mem_cons_self
      have hw' := hfound w (by simp)
      -- the first of the two is no page descriptor, since it is not the last
      have hnotPage : v.role.isPage = false := by
        by_contra hcontra
        have := hpage [] v _ rfl (by simpa using hcontra)
        cases pre <;> cases this
      have hmodified : v.setsModified access = false := by rw [Visit.setsModified, hnotPage]; rfl
      rw [hmodified, Bool.or_false] at hwants
      have hmarked : w.address ∈ markedBy access (v.marks access marked) pre := by
        rw [haddress]
        exact mem_markedBy access (mem_marks access hwants)
      have hused : w.setsUsed access (markedBy access (v.marks access marked) pre) = false := by
        rw [Visit.setsUsed, decide_eq_true hmarked, Bool.or_true, Bool.not_true, Bool.false_and,
          Bool.and_false]
      rw [hused, Bool.false_or, hw'.setsModified_iff] at hwants'
      have hdt := htype _ _ _ _ _ hv.stands (haddress ▸ hw'.stands)
      rw [hw'.page.1 hwants'.1] at hdt
      rw [hv.page.2 hdt] at hnotPage
      cases hnotPage
    · exact hrest

end Calls

/-! ## A search -/

section Search

variable {cb : Callbacks τ} {update : τ → BitVec 32 → Bool → Bool → Bool × τ}
  {refuses : BitVec 32 → Bool} {access : SearchAccess}

theorem traced_fetch (t : τ) (log : List TableCycle) (a : BitVec 32) (long : Bool) :
    cb.traced.fetch (t, log) a long =
      (standing cb t a long, (cb.fetch t a long).2, log ++ [.fetched a long]) := rfl

theorem HistoryTables.update_cases (h : HistoryTables cb update refuses) {a : BitVec 32}
    {long : Bool} {d : Descriptor} (isPage : Bool) (r : WalkResult) {t : τ}
    (log : List TableCycle) (hread : standing cb t a long = some d) (hvalid : d.dt ≠ .invalid)
    (hpage : isPage = true → d.dt = .page) {used modified : Bool}
    (hused : (!d.used && r.search.permitsAccess access.supervisor) = used)
    (hmodified : (isPage && r.search.shouldSetModified access.write access.readModifyWrite
      access.supervisor d.modified) = modified) :
    (∃ n m t', updateHistory cb.traced access a d isPage r (t, log) =
        (true, { r with historyWrites := n, pageModified := m }, t',
          log ++ historyWrite a used modified) ∧
      ((used || modified) = true → refuses a = false) ∧
      UsedKept (markUsed (if used then [a] else []) (standing cb t)) (standing cb t') ∧
      (isPage = true → ∃ d', standing cb t' a long = some d' ∧
        d'.modified = (d.modified || modified) ∧ m = d'.modified) ∧
      (isPage = false →
        standing cb t' = markUsed (if used then [a] else []) (standing cb t))) ∨
    (∃ r' t', updateHistory cb.traced access a d isPage r (t, log) =
        (false, r', t', log ++ [.updated a used modified]) ∧
      (used || modified) = true ∧ refuses a = true ∧ standing cb t' = standing cb t) := by
  have hinstalled : cb.traced.update = some fun t a used modified =>
      ((update t.1 a used modified).1, (update t.1 a used modified).2,
        t.2 ++ [.updated a used modified]) := by
    unfold Callbacks.traced
    rw [h.installed]
    rfl
  unfold updateHistory
  rw [hinstalled]
  dsimp only
  rw [Bool.not_not, hused, hmodified]
  cases hwants : (used || modified) with
  | false =>
    obtain ⟨rfl, rfl⟩ := Bool.or_eq_false_iff.1 hwants
    refine .inl ⟨r.historyWrites, if isPage then d.modified else r.pageModified, t, ?_, nofun,
      ?_, fun hp => ⟨d, hread, (Bool.or_false _).symm, by rw [hp]; rfl⟩, fun _ => ?_⟩
    · rw [historyWrite, hwants, Bool.or_false]
      simp only [Bool.not_false, Bool.and_self, if_true, Bool.false_eq_true, if_false,
        List.append_nil]
      cases isPage <;> rfl
    · rw [if_neg (by decide), markUsed_nil]
      exact UsedKept.refl _
    · rw [if_neg (by decide), markUsed_nil]
  | true =>
    have hdeMorgan : (!used && !modified) = false := by rw [← Bool.not_or, hwants]; rfl
    rw [hdeMorgan, if_neg (by decide), h.answers]
    cases hrefuses : refuses a with
    | true =>
      exact .inr ⟨_, _, rfl, rfl, rfl, h.refused t a used modified hrefuses⟩
    | false =>
      refine .inl ⟨r.historyWrites + 1, if isPage then d.modified || modified else r.pageModified,
        (update t a used modified).2, ?_, fun _ => rfl, ?_⟩
      · rw [historyWrite, hwants]
        cases isPage <;> rfl
      · cases modified with
        | false =>
          rw [Bool.or_false] at hwants
          subst hwants
          have hafter := h.used t a long d hread hvalid hrefuses
          rw [if_pos rfl]
          refine ⟨by rw [hafter]; exact UsedKept.refl _, fun hp => ?_, fun _ => hafter⟩
          refine ⟨d.withUsed (decide (a ∈ [a])), ?_, (Bool.or_false _).symm, ?_⟩
          · rw [hafter, markUsed, hread]
            rfl
          · rw [hp, Bool.or_false]
            rfl
        | true =>
          have hp : isPage = true := (Bool.and_eq_true_iff.1 hmodified).1
          obtain ⟨hafter, hkept⟩ := h.modified t a long d used hread (hpage hp) hrefuses
          refine ⟨hkept, fun _ => ⟨_, hafter, rfl, ?_⟩, fun hnot => ?_⟩
          · rw [hp]
            rfl
          · rw [hp] at hnot
            cases hnot

variable (access) in
theorem HistoryTables.visit_cases (h : HistoryTables cb update refuses) {tree : Tree}
    {marked : List (BitVec 32)} {v : Visit} (hfound : v.Found tree) (hvalid : v.role ≠ .invalid)
    {r : WalkResult} (hsearch : r.search = v.search) {t : τ} (log : List TableCycle)
    (hstands : standing cb t = markUsed marked tree) :
    (∃ n m t', updateHistory cb.traced access v.address
        (v.descriptor.withUsed (decide (v.address ∈ marked))) v.role.isPage r (t, log) =
          (true, { r with historyWrites := n, pageModified := m }, t',
            log ++ v.writes access marked) ∧
      ((v.setsUsed access marked || v.setsModified access) = true → refuses v.address = false) ∧
      UsedKept (markUsed (v.marks access marked) tree) (standing cb t') ∧
      (v.role.isPage = true → ∃ d, standing cb t' v.address v.longFormat = some d ∧
        d.modified = (v.descriptor.modified || v.setsModified access) ∧ m = d.modified) ∧
      (v.role.isPage = false → standing cb t' = markUsed (v.marks access marked) tree)) ∨
    (∃ r' t', updateHistory cb.traced access v.address
        (v.descriptor.withUsed (decide (v.address ∈ marked))) v.role.isPage r (t, log) =
          (false, r', t',
            log ++ [.updated v.address (v.setsUsed access marked) (v.setsModified access)]) ∧
      (v.setsUsed access marked || v.setsModified access) = true ∧ refuses v.address = true ∧
      standing cb t' = markUsed marked tree) := by
  have hread : standing cb t v.address v.longFormat =
      some (v.descriptor.withUsed (decide (v.address ∈ marked))) := by
    rw [hstands, markUsed, hfound.stands]
    rfl
  have hdt : v.descriptor.dt ≠ .invalid := by
    cases hrole : v.role with
    | invalid => exact absurd hrole hvalid
    | table => exact hfound.valid (.inl hrole)
    | indirect => exact hfound.valid (.inr hrole)
    | page | earlyPage =>
      rw [hfound.page.1 (by rw [hrole]; rfl)]
      decide
  have hused : (!(v.descriptor.withUsed (decide (v.address ∈ marked))).used &&
      r.search.permitsAccess access.supervisor) = v.setsUsed access marked := by
    rw [Visit.setsUsed, decide_eq_true hvalid, Bool.true_and, hsearch]
    rfl
  have hmodified : (v.role.isPage && r.search.shouldSetModified access.write
      access.readModifyWrite access.supervisor
      (v.descriptor.withUsed (decide (v.address ∈ marked))).modified) =
        v.setsModified access := by
    rw [hsearch]
    rfl
  have hmarks : markUsed (if v.setsUsed access marked = true then [v.address] else [])
      (standing cb t) = markUsed (v.marks access marked) tree := by
    rw [hstands, Visit.marks]
    split
    · exact markUsed_markUsed _ _ _
    · exact markUsed_nil _
  have hcases := h.update_cases v.role.isPage r log hread hdt
    (fun hp => hfound.page.1 hp) hused hmodified
  rw [hmarks, hstands] at hcases
  exact hcases

theorem fetched_read (a : BitVec 32) (long : Bool) :
    ∀ c ∈ [TableCycle.fetched a long], c.updatedAt = none := by
  intro c hc
  obtain rfl := List.mem_singleton.1 hc
  rfl

variable (cb refuses access) in
/-- A search has come to the end of its path, and so has one without an update. -/
structure Searched (tree : Tree) (marked : List (BitVec 32)) (path : List Visit)
    (log log' : List TableCycle) (out seen : WalkResult × τ × List TableCycle) : Prop where
  permitted : ∀ v ∈ written access marked path, refuses v.address = false
  calls : ∃ last, out.2.2 = log ++ (historyCalls access marked path ++ last) ∧
    ∀ c ∈ last, c.updatedAt = none
  kept : UsedKept (markUsed (markedBy access marked path) tree) (standing cb out.2.1)
  page : ∀ v ∈ path, v.role.isPage = true →
    ∃ d, standing cb out.2.1 v.address v.longFormat = some d ∧
      d.modified = (v.descriptor.modified || v.setsModified access) ∧
      out.1.pageModified = d.modified
  reads : (∀ c ∈ log', c.updatedAt = none) → ∀ c ∈ seen.2.2, c.updatedAt = none
  untouched : standing cb seen.2.1 = tree
  verdict : ∃ n m, out.1 = { seen.1 with historyWrites := n, pageModified := m }

variable (cb refuses access) in
/-- A write was refused on the path, and the search ended there. -/
def RefusedAt (tree : Tree) (marked : List (BitVec 32)) (path : List Visit)
    (log : List TableCycle) (out : WalkResult × τ × List TableCycle) : Prop :=
  ∃ pre v post, path = pre ++ v :: post ∧
    (v.setsUsed access (markedBy access marked pre) || v.setsModified access) = true ∧
    refuses v.address = true ∧
    standing cb out.2.1 = markUsed (markedBy access marked pre) tree ∧
    out.2.2 = log ++ historyCalls access marked (pre ++ [v])

variable (cb refuses access) in
/-- What comes of a search. -/
def Sought (tree : Tree) (marked : List (BitVec 32)) (path : List Visit)
    (log log' : List TableCycle) (out seen : WalkResult × τ × List TableCycle) : Prop :=
  Searched cb refuses access tree marked path log log' out seen ∨
    RefusedAt cb refuses access tree marked path log out

theorem Sought.nil {tree : Tree} {marked : List (BitVec 32)} {log log' : List TableCycle}
    {r r' : WalkResult} {t t' : τ}
    (hr : ∃ n m, r = { r' with historyWrites := n, pageModified := m })
    (hstands : standing cb t = markUsed marked tree) (hseen : standing cb t' = tree)
    {last : List TableCycle} (hlast : ∀ c ∈ last, c.updatedAt = none) :
    Sought cb refuses access tree marked [] log log' (r, t, log ++ last)
      (r', t', log' ++ last) := by
  refine .inl ⟨fun v hv => absurd hv List.not_mem_nil, ⟨last, rfl, hlast⟩, ?_,
    fun v hv => absurd hv List.not_mem_nil, fun hlog c hc => ?_, hseen, hr⟩
  · dsimp only [markedBy]
    rw [hstands]
    exact UsedKept.refl _
  · exact (List.mem_append.1 hc).elim (hlog c) (hlast c)

theorem Sought.ended {tree : Tree} {marked : List (BitVec 32)} {log log' : List TableCycle}
    {r r' : WalkResult} {t t' : τ}
    (hr : ∃ n m, r = { r' with historyWrites := n, pageModified := m })
    (hstands : standing cb t = markUsed marked tree) (hseen : standing cb t' = tree) :
    Sought cb refuses access tree marked [] log log' (r, t, log) (r', t', log') := by
  have hnil : Sought cb refuses access tree marked [] log log' (r, t, log ++ [])
      (r', t', log' ++ []) := Sought.nil hr hstands hseen (List.forall_mem_nil _)
  rwa [List.append_nil, List.append_nil] at hnil

theorem Sought.cons {tree : Tree} {marked : List (BitVec 32)} {rest : List Visit}
    {log log' : List TableCycle} {out seen : WalkResult × τ × List TableCycle} {v : Visit}
    (hv : v.role.isPage = false)
    (hpermitted : (v.setsUsed access marked || v.setsModified access) = true →
      refuses v.address = false)
    (h : Sought cb refuses access tree (v.marks access marked) rest
      (log ++ [.fetched v.address v.longFormat] ++ v.writes access marked)
      (log' ++ [.fetched v.address v.longFormat]) out seen) :
    Sought cb refuses access tree marked (v :: rest) log log' out seen := by
  have hcons : ∀ path, log ++ [.fetched v.address v.longFormat] ++ v.writes access marked ++
      historyCalls access (v.marks access marked) path =
        log ++ historyCalls access marked (v :: path) := by
    intro path
    rw [historyCalls, List.append_assoc, List.append_assoc, List.singleton_append]
  rcases h with h | ⟨pre, w, post, rfl, hwants, hrefuses, hstands, hcalls⟩
  · refine .inl ⟨fun w hw => ?_, ?_, h.kept, fun w hw hrole => ?_, fun hlog => h.reads ?_,
      h.untouched, h.verdict⟩
    · rw [written] at hw
      rcases List.mem_append.1 hw with hw | hw
      · split at hw
        · obtain rfl := List.mem_singleton.1 hw
          exact hpermitted ‹_›
        · exact absurd hw List.not_mem_nil
      · exact h.permitted w hw
    · obtain ⟨last, hcalls, hlast⟩ := h.calls
      refine ⟨last, ?_, hlast⟩
      rw [hcalls, ← List.append_assoc, hcons, List.append_assoc]
    · rcases List.mem_cons.1 hw with rfl | hw
      · rw [hv] at hrole
        cases hrole
      · exact h.page w hw hrole
    · exact fun c hc => (List.mem_append.1 hc).elim (hlog c) (fetched_read _ _ c)
  · refine .inr ⟨v :: pre, w, post, rfl, hwants, hrefuses, hstands, ?_⟩
    rw [hcalls, hcons, List.cons_append]

theorem Sought.invalid {tree : Tree} {marked : List (BitVec 32)} {log log' : List TableCycle}
    {r r' : WalkResult} {t t' : τ} {v : Visit} (hrole : v.role = .invalid)
    (hr : ∃ n m, r = { r' with historyWrites := n, pageModified := m })
    (hstands : standing cb t = markUsed marked tree) (hseen : standing cb t' = tree) :
    Sought cb refuses access tree marked [v] log log'
      (r, t, log ++ [.fetched v.address v.longFormat])
      (r', t', log' ++ [.fetched v.address v.longFormat]) := by
  have hused : v.setsUsed access marked = false := by rw [Visit.setsUsed, hrole]; rfl
  have hmodified : v.setsModified access = false := by rw [Visit.setsModified, hrole]; rfl
  refine Sought.cons (by rw [hrole]; rfl) (by rw [hused, hmodified]; nofun) ?_
  rw [Visit.marks, hused, if_neg (by decide), Visit.writes, hused, hmodified, historyWrite,
    if_neg (by decide), List.append_nil]
  exact Sought.ended hr hstands hseen

theorem Sought.refused {tree : Tree} {marked : List (BitVec 32)} {rest : List Visit}
    {log log' : List TableCycle} {r : WalkResult} {t : τ}
    {seen : WalkResult × τ × List TableCycle} {v : Visit}
    (hwants : (v.setsUsed access marked || v.setsModified access) = true)
    (hrefuses : refuses v.address = true) (hstands : standing cb t = markUsed marked tree) :
    Sought cb refuses access tree marked (v :: rest) log log'
      (r, t, log ++ [.fetched v.address v.longFormat] ++
        [.updated v.address (v.setsUsed access marked) (v.setsModified access)]) seen := by
  refine .inr ⟨[], v, rest, rfl, hwants, hrefuses, hstands, ?_⟩
  rw [List.nil_append, historyCalls, historyCalls, Visit.writes, historyWrite, if_pos hwants,
    List.append_nil, List.append_assoc]
  rfl

theorem Sought.page {tree : Tree} {marked : List (BitVec 32)} {log log' : List TableCycle}
    {r r' : WalkResult} {t t' : τ} {v : Visit}
    (hr : ∃ n m, r = { r' with historyWrites := n, pageModified := m })
    (hpermitted : (v.setsUsed access marked || v.setsModified access) = true →
      refuses v.address = false)
    (hkept : UsedKept (markUsed (v.marks access marked) tree) (standing cb t))
    (hpage : ∃ d, standing cb t v.address v.longFormat = some d ∧
      d.modified = (v.descriptor.modified || v.setsModified access) ∧
      r.pageModified = d.modified)
    (hseen : standing cb t' = tree) :
    Sought cb refuses access tree marked [v] log log'
      (r, t, log ++ [.fetched v.address v.longFormat] ++ v.writes access marked)
      (r', t', log' ++ [.fetched v.address v.longFormat]) := by
  refine .inl ⟨fun w hw => ?_, ⟨[], ?_, fun c hc => absurd hc List.not_mem_nil⟩, hkept,
    fun w hw _ => ?_, fun hlog c hc => (List.mem_append.1 hc).elim (hlog c) (fetched_read _ _ c),
    hseen, hr⟩
  · obtain ⟨pre, post, hpath, hwants⟩ := (mem_written access).1 hw
    cases pre with
    | nil =>
      obtain ⟨rfl, -⟩ := List.cons.inj hpath
      exact hpermitted hwants
    | cons u pre =>
      have := (List.cons.inj hpath).2
      cases pre <;> cases this
  · rw [historyCalls, historyCalls, List.append_nil, List.append_nil, List.append_assoc]
    rfl
  · obtain rfl := List.mem_singleton.1 hw
    exact hpage

theorem observer_update (a : BitVec 32) (d : Descriptor) (isPage : Bool) (r : WalkResult)
    (t : τ × List TableCycle) :
    updateHistory cb.observer.traced access a d isPage r t =
      (true, { r with pageModified := if isPage then d.modified else r.pageModified }, t) := by
  cases isPage <;> rfl

theorem standing_marked {tree : Tree} {marked : List (BitVec 32)} {t : τ}
    (h : standing cb t = markUsed marked tree) {a : BitVec 32} {long : Bool} {d : Option Descriptor}
    (hd : tree a long = d) :
    standing cb t a long = d.map (·.withUsed (decide (a ∈ marked))) := by
  rw [h, ← hd]
  rfl

theorem walkIndirect_history (h : HistoryTables cb update refuses) {tc : Tc}
    {address : BitVec 32} {tree : Tree} {marked : List (BitVec 32)} (pa : BitVec 32) (pl : Bool)
    (r : WalkResult) (hr : r.search.invalid = false ∧ r.search.limitViolation = false) (n : Nat)
    (m : Bool) {t t' : τ} (log log' : List TableCycle)
    (hstands : standing cb t = markUsed marked tree) (hseen : standing cb t' = tree) :
    Sought cb refuses access tree marked (pathIndirect tree pa pl r.search) log log'
      (walkIndirect cb.traced tc address access pa pl
        { r with historyWrites := n, pageModified := m } (t, log))
      (walkIndirect cb.observer.traced tc address access pa pl r (t', log')) := by
  have hstands' : standing cb (cb.fetch t pa pl).2 = markUsed marked tree :=
    (h.reads t pa pl).trans hstands
  have hseen' : standing cb (cb.fetch t' pa pl).2 = tree := (h.reads t' pa pl).trans hseen
  unfold walkIndirect pathIndirect
  rw [traced_fetch, traced_fetch]
  cases hp : tree pa pl with
  | none =>
    have hread := standing_marked hstands hp
    have hread' : standing cb.observer t' pa pl = none := (congrFun (congrFun hseen pa) pl).trans hp
    rw [hread, hread']
    refine Sought.nil ?_ hstands' hseen' (fetched_read pa pl)
    exact ⟨n, m, rfl⟩
  | some p =>
    have hread := standing_marked hstands hp
    have hread' : standing cb.observer t' pa pl = some p :=
      (congrFun (congrFun hseen pa) pl).trans hp
    rw [hread, hread']
    dsimp only [Option.map_some]
    by_cases hpage : p.dt = .page
    · have hfound : Visit.Found tree
          { address := pa
            longFormat := pl
            descriptor := p
            role := .page
            search := r.search.accumulate p.writeProtect p.supervisor p.cacheInhibit } :=
        ⟨hp, iff_of_true rfl hpage, (by rintro (h | h) <;> cases h), hr⟩
      rw [if_pos hpage, if_neg (not_not.2 hpage), observer_update,
        if_neg (show ¬ (p.withUsed (decide (pa ∈ marked))).dt ≠ .page from not_not.2 hpage)]
      dsimp only [Descriptor.withUsed_writeProtect, Descriptor.withUsed_supervisor,
        Descriptor.withUsed_cacheInhibit]
      have hcases := h.visit_cases access hfound nofun (r :=
        { r with
          descriptorFetches := r.descriptorFetches + 1
          historyWrites := n
          pageModified := m
          usedIndirect := true
          lastDescriptorAddress := pa
          search := r.search.accumulate p.writeProtect p.supervisor p.cacheInhibit }) rfl
        (log ++ [.fetched pa pl]) hstands'
      rcases hcases with
        ⟨n', m', t₁, hupdate, hpermitted, hkept, hmodified, -⟩ |
          ⟨r₁, t₁, hupdate, hwants, hrefuses, hstands₁⟩ <;>
        dsimp only [Role.isPage] at hupdate
      · rw [hupdate]
        refine Sought.page ?_ hpermitted hkept (hmodified rfl) hseen'
        exact ⟨n', m', rfl⟩
      · rw [hupdate]
        exact Sought.refused hwants hrefuses hstands₁
    · rw [if_neg hpage, if_pos hpage,
        if_pos (show (p.withUsed (decide (pa ∈ marked))).dt ≠ .page from hpage)]
      refine Sought.invalid rfl ?_ hstands' hseen'
      exact ⟨n, m, rfl⟩

/-- A SEARCH MAKES THE CALLS OF ITS PATH, until a write is refused; and a search without an
update comes to the same end. -/
theorem walkFrom_history (h : HistoryTables cb update refuses) {tc : Tc} {address : BitVec 32}
    {tree : Tree} {marked : List (BitVec 32)} (indices : List (BitVec 32)) (level : Nat)
    (table : Table) (r : WalkResult)
    (hr : r.search.invalid = false ∧ r.search.limitViolation = false) (n : Nat) (m : Bool)
    {t t' : τ} (log log' : List TableCycle)
    (hstands : standing cb t = markUsed marked tree) (hseen : standing cb t' = tree) :
    Sought cb refuses access tree marked (pathFrom tree indices table r.search) log log'
      (walkFrom cb.traced tc address access 0 indices level table
        { r with historyWrites := n, pageModified := m } (t, log))
      (walkFrom cb.observer.traced tc address access 0 indices level table r (t', log')) := by
  induction indices generalizing level table r n m t t' log log' marked with
  | nil =>
    refine Sought.ended ?_ hstands hseen
    exact ⟨n, m, rfl⟩
  | cons index indices ih =>
    simp only [walkFrom, walkLevel, pathFrom, ne_eq, not_true_eq_false, false_and, if_false]
    by_cases hlimit : (table.haveLimit && !indexWithinLimit table.limit table.lowerLimit index) = true
    · rw [if_pos hlimit, if_pos hlimit, if_pos hlimit]
      refine Sought.ended ?_ hstands hseen
      exact ⟨n, m, rfl⟩
    rw [if_neg hlimit, if_neg hlimit, if_neg hlimit, traced_fetch, traced_fetch]
    have hstands' := (h.reads t (table.descriptorAddress index) table.longFormat).trans hstands
    have hseen' := (h.reads t' (table.descriptorAddress index) table.longFormat).trans hseen
    cases hd : tree (table.descriptorAddress index) table.longFormat with
    | none =>
      have hread := standing_marked hstands hd
      have hread' : standing cb.observer t' (table.descriptorAddress index) table.longFormat =
        none := (congrFun (congrFun hseen _) _).trans hd
      rw [hread, hread']
      refine Sought.nil ?_ hstands' hseen' (fetched_read _ _)
      exact ⟨n, m, rfl⟩
    | some d =>
      have hread := standing_marked hstands hd
      have hread' : standing cb.observer t' (table.descriptorAddress index) table.longFormat =
        some d := (congrFun (congrFun hseen _) _).trans hd
      rw [hread, hread']
      dsimp only [Option.map_some, Descriptor.withUsed_dt, Descriptor.withUsed_writeProtect,
        Descriptor.withUsed_supervisor, Descriptor.withUsed_cacheInhibit,
        Descriptor.withUsed_table, Descriptor.withUsed_addressField]
      have hfound := found_descRole hd indices.isEmpty
        (s := r.search.accumulate d.writeProtect d.supervisor d.cacheInhibit) hr
      have hcases := fun hvalid => h.visit_cases access hfound hvalid (r :=
        { r with
          descriptorFetches := r.descriptorFetches + 1
          historyWrites := n
          pageModified := m
          lastDescriptorAddress := table.descriptorAddress index
          levelsWalked := level + 1
          search := r.search.accumulate d.writeProtect d.supervisor d.cacheInhibit }) rfl
        (log ++ [.fetched (table.descriptorAddress index) table.longFormat]) hstands'
      dsimp only at hcases
      cases hrole : descRole d.dt indices.isEmpty with
      | invalid =>
        refine Sought.invalid rfl ?_ hstands' hseen'
        exact ⟨n, m, rfl⟩
      | page =>
        rw [hrole] at hcases
        rcases hcases (by decide) with ⟨n', m', t₁, hupdate, hpermitted, hkept, hmodified, -⟩ |
          ⟨r₁, t₁, hupdate, hwants, hrefuses, hstands₁⟩ <;>
          dsimp only [Role.isPage] at hupdate <;> dsimp only <;>
          rw [hupdate, observer_update]
        · refine Sought.page ?_ hpermitted hkept (hmodified rfl) hseen'
          exact ⟨n', m', rfl⟩
        · exact Sought.refused hwants hrefuses hstands₁
      | earlyPage =>
        rw [hrole] at hcases
        rcases hcases (by decide) with ⟨n', m', t₁, hupdate, hpermitted, hkept, hmodified, -⟩ |
          ⟨r₁, t₁, hupdate, hwants, hrefuses, hstands₁⟩ <;>
          dsimp only [Role.isPage] at hupdate <;> dsimp only <;>
          rw [hupdate, observer_update]
        · refine Sought.page ?_ hpermitted hkept (hmodified rfl) hseen'
          exact ⟨n', m', rfl⟩
        · exact Sought.refused hwants hrefuses hstands₁
      | indirect =>
        rw [hrole] at hcases
        rcases hcases (by decide) with ⟨n', m', t₁, hupdate, hpermitted, -, -, hafter⟩ |
          ⟨r₁, t₁, hupdate, hwants, hrefuses, hstands₁⟩ <;>
          dsimp only [Role.isPage] at hupdate <;> dsimp only <;>
          rw [hupdate, observer_update]
        · refine Sought.cons rfl hpermitted ?_
          exact walkIndirect_history h _ _
            { r with
              descriptorFetches := r.descriptorFetches + 1
              lastDescriptorAddress := table.descriptorAddress index
              levelsWalked := level + 1
              search := r.search.accumulate d.writeProtect d.supervisor d.cacheInhibit }
            hr n' m' _ _ (hafter rfl) hseen'
        · exact Sought.refused hwants hrefuses hstands₁
      | table =>
        rw [hrole] at hcases
        rcases hcases (by decide) with ⟨n', m', t₁, hupdate, hpermitted, -, -, hafter⟩ |
          ⟨r₁, t₁, hupdate, hwants, hrefuses, hstands₁⟩ <;>
          dsimp only [Role.isPage] at hupdate <;> dsimp only <;>
          rw [hupdate, observer_update]
        · refine Sought.cons rfl hpermitted ?_
          exact ih _ _
            { r with
              descriptorFetches := r.descriptorFetches + 1
              lastDescriptorAddress := table.descriptorAddress index
              levelsWalked := level + 1
              search := r.search.accumulate d.writeProtect d.supervisor d.cacheInhibit }
            hr n' m' _ _ (hafter rfl) hseen'
        · exact Sought.refused hwants hrefuses hstands₁

theorem searchPath_found (tree : Tree) (tc : Tc) (root : Root) (address : BitVec 32) :
    ∀ v ∈ searchPath tree tc root address, v.Found tree := by
  unfold searchPath
  split
  · exact fun v hv => absurd hv List.not_mem_nil
  · exact pathFrom_found _ _ _ ⟨rfl, rfl⟩

theorem searchPath_page (tree : Tree) (tc : Tc) (root : Root) (address : BitVec 32)
    (pre : List Visit) (v : Visit) (post : List Visit)
    (h : searchPath tree tc root address = pre ++ v :: post) (hv : v.role.isPage = true) :
    post = [] := by
  unfold searchPath at h
  split at h
  · cases pre <;> cases h
  · exact pathFrom_page _ _ _ _ _ _ h hv

theorem walk_history (h : HistoryTables cb update refuses) (access : SearchAccess) (tc : Tc)
    (root : Root) (address : BitVec 32) (t : τ) :
    Sought cb refuses access (standing cb t) [] (searchPath (standing cb t) tc root address) [] []
      (walk cb.traced tc root address access (t, []))
      (walk cb.observer.traced tc root address access (t, [])) := by
  have hstands : standing cb t = markUsed [] (standing cb t) := (markUsed_nil _).symm
  unfold walk walkToLevel searchPath
  dsimp only
  split
  · split
    · refine Sought.ended ?_ hstands rfl
      exact ⟨0, false, rfl⟩
    · refine Sought.ended ?_ hstands rfl
      exact ⟨0, false, rfl⟩
  · exact walkFrom_history h _ _ _ {} ⟨rfl, rfl⟩ 0 false [] [] hstands rfl

theorem Searched.historyKept (h : HistoryTables cb update refuses) {path : List Visit} {t : τ}
    {out seen : WalkResult × τ × List TableCycle}
    (hsearched : Searched cb refuses access (standing cb t) [] path [] [] out seen)
    (hfound : ∀ v ∈ path, v.Found (standing cb t))
    (hpage : ∀ pre v post, path = pre ++ v :: post → v.role.isPage = true → post = [])
    (hdirect : ∀ v ∈ written access [] path, v.role ≠ .indirect) :
    HistoryKept cb access t path out seen := by
  obtain ⟨last, hcalls, hlast⟩ := hsearched.calls
  rw [List.nil_append] at hcalls
  obtain ⟨hhead, hafter⟩ := updatesAfter_historyCalls access [] path hlast
  rw [← hcalls] at hhead hafter
  refine
    { used := ?_
      modified := ?_
      reported := ?_
      once := ?_
      readFirst := hhead
      spared := ?_
      untouched := ⟨hsearched.reads (List.forall_mem_nil _), hsearched.untouched⟩
      verdict := ?_ }
  · intro v hv hrole hpermits
    have hmarked := (hfound v hv).marked access hrole hpermits [] hv
    refine hsearched.kept _ _ (v.descriptor.withUsed
      (decide (v.address ∈ markedBy access [] path))) ?_ ?_
    · rw [markUsed, (hfound v hv).stands]
      rfl
    · rw [Descriptor.withUsed, Bool.or_eq_true, decide_eq_true_iff]
      exact hmarked
  · intro i v hv hrole
    have hmem := List.mem_of_getElem? hv
    rw [hafter, hv, Option.map_some, Option.getD_some, Visit.writes, historyWrite]
    constructor
    · rintro ⟨used, hcall⟩
      split at hcall
      · have hcall := List.mem_singleton.1 hcall
        injection hcall with _ _ hmodified
        exact ((hfound v hmem).setsModified_iff access |>.1 hmodified.symm).2
      · exact absurd hcall List.not_mem_nil
    · intro hthrough
      have hmodified := (hfound v hmem).setsModified_iff access |>.2 ⟨hrole, hthrough⟩
      refine ⟨v.setsUsed access (markedBy access [] (path.take i)), ?_⟩
      rw [hmodified, Bool.or_true, if_pos rfl]
      exact List.mem_singleton_self _
  · intro v hv hrole
    obtain ⟨d, hd, hmodified, hreported⟩ := hsearched.page v hv hrole
    refine ⟨d, hd, hreported, ?_⟩
    rw [hmodified, Bool.or_eq_true, (hfound v hv).setsModified_iff]
    constructor
    · exact Or.imp_right fun hset => hset.2.2
    · rintro (hset | hset)
      · exact .inl hset
      · by_cases hm : v.descriptor.modified = true
        · exact .inl hm
        · exact .inr ⟨hrole, by simpa using hm, hset⟩
  · have hreads : last.filterMap TableCycle.updatedAt = [] :=
      List.filterMap_eq_nil_iff.2 hlast
    rw [hcalls, List.filterMap_append, hreads, List.append_nil, updatedAt_historyCalls]
    exact written_nodup access hfound (h.oneType t) hpage []
  · intro i call hcall
    rw [hafter] at hcall
    cases hv : path[i]? with
    | none =>
      rw [hv] at hcall
      exact absurd hcall List.not_mem_nil
    | some v =>
      have hfound' := hfound v (List.mem_of_getElem? hv)
      rw [hv, Option.map_some, Option.getD_some, Visit.writes, historyWrite] at hcall
      split at hcall
      · next hwants =>
        have hsplit : path = path.take i ++ v :: path.drop (i + 1) := by
          obtain ⟨hi, rfl⟩ := List.getElem?_eq_some_iff.1 hv
          rw [List.getElem_cons_drop, List.take_append_drop]
        have hnotIndirect := hdirect v ((mem_written access).2 ⟨_, _, hsplit, hwants⟩)
        refine ⟨v, _, _, rfl, List.mem_singleton.1 hcall, ?_, ?_, ?_⟩
        · exact v.writable access hwants hnotIndirect
        · exact hfound'.of_setsUsed access
        · exact fun hmodified => (Bool.and_eq_true_iff.1 hmodified).1
      · exact absurd hcall List.not_mem_nil
  · obtain ⟨n, m, hout⟩ := hsearched.verdict
    rw [hout]
    rfl

theorem HistoryKept.not_indirect {t : τ} {pre post post' : List Visit} {v : Visit}
    {out seen : WalkResult × τ × List TableCycle}
    (hkept : HistoryKept cb access t (pre ++ v :: post) out seen) {last : List TableCycle}
    (hcalls : out.2.2 = historyCalls access [] (pre ++ v :: post') ++ last)
    (hlast : ∀ c ∈ last, c.updatedAt = none)
    (hwants : (v.setsUsed access (markedBy access [] pre) || v.setsModified access) = true) :
    v.role ≠ .indirect := by
  intro hindirect
  have hafter := (updatesAfter_historyCalls access [] (pre ++ v :: post') hlast).2 pre.length
  rw [← hcalls, List.getElem?_append_right (le_refl _), Nat.sub_self, List.take_left,
    List.getElem?_cons_zero, Option.map_some, Option.getD_some, Visit.writes, historyWrite,
    if_pos hwants] at hafter
  obtain ⟨w, -, -, hw, -, hrole, -⟩ := hkept.spared pre.length _
    (by rw [hafter]; exact List.mem_singleton_self _)
  rw [List.getElem?_append_right (le_refl _), Nat.sub_self, List.getElem?_cons_zero] at hw
  obtain rfl := Option.some.inj hw
  rw [hindirect] at hrole
  rcases hrole with hrole | hrole <;> cases hrole

/-- HISTORY IS KEPT EXACTLY WHERE NO INDIRECT DESCRIPTOR LOOKS UNUSED, and no write that the
search needs is refused. -/
theorem history_iff (h : HistoryTables cb update refuses) (tc : Tc) (root : Root)
    (address : BitVec 32) (t : τ) :
    HistoryKept cb access t (searchPath (standing cb t) tc root address)
        (walk cb.traced tc root address access (t, []))
        (walk cb.observer.traced tc root address access (t, [])) ↔
      ∀ v ∈ written access [] (searchPath (standing cb t) tc root address),
        v.role ≠ .indirect ∧ refuses v.address = false := by
  have hfound := searchPath_found (standing cb t) tc root address
  have hpage := searchPath_page (standing cb t) tc root address
  have houtcome := walk_history h access tc root address t
  generalize searchPath (standing cb t) tc root address = path at *
  generalize walk cb.traced tc root address access (t, []) = out at *
  generalize walk cb.observer.traced tc root address access (t, []) = seen at *
  constructor
  · intro hkept
    rcases houtcome with hsearched | ⟨pre, v, post, rfl, hwants, hrefuses, hstands, hcalls⟩
    · intro v hv
      refine ⟨fun hindirect => ?_, hsearched.permitted v hv⟩
      obtain ⟨pre, post, rfl, hwants⟩ := (mem_written access).1 hv
      obtain ⟨last, hcalls, hlast⟩ := hsearched.calls
      exact hkept.not_indirect hcalls hlast hwants hindirect
    · -- what was refused is not set in memory
      exfalso
      have hcalls' : out.2.2 = historyCalls access [] (pre ++ v :: []) ++ [] := by
        rw [hcalls, List.append_nil]
        rfl
      have hnotIndirect := hkept.not_indirect hcalls' (List.forall_mem_nil _) hwants
      have hrole := v.writable access hwants hnotIndirect
      have hv := hfound v (by simp)
      have hread : standing cb out.2.1 v.address v.longFormat =
          some (v.descriptor.withUsed (decide (v.address ∈ markedBy access [] pre))) := by
        rw [hstands, markUsed, hv.stands]
        rfl
      cases hused : v.setsUsed access (markedBy access [] pre) with
      | true =>
        obtain ⟨d, hd, hset⟩ := hkept.used v (by simp) hrole (hv.of_setsUsed access hused).2
        obtain rfl := Option.some.inj (hread.symm.trans hd)
        rw [Visit.setsUsed, Bool.and_eq_true, Bool.and_eq_true, Bool.not_eq_true'] at hused
        exact Bool.false_ne_true (hused.2.1.symm.trans hset)
      | false =>
        rw [hused, Bool.false_or, hv.setsModified_iff] at hwants
        obtain ⟨d, hd, -, hset⟩ := hkept.reported v (by simp) hwants.1
        obtain rfl := Option.some.inj (hread.symm.trans hd)
        exact Bool.false_ne_true (hwants.2.1.symm.trans (hset.2 (.inr hwants.2.2)))
  · intro hclear
    rcases houtcome with hsearched | ⟨pre, v, post, rfl, hwants, hrefuses, -, -⟩
    · exact hsearched.historyKept h hfound hpage fun v hv => (hclear v hv).1
    · have hpermitted := (hclear v ((mem_written access).2 ⟨pre, post, rfl, hwants⟩)).2
      rw [hrefuses] at hpermitted
      cases hpermitted

end Search

/-! ## The machine's tables -/

/-- A memory of long words, of which some are absent and some cannot be written. -/
def wordBus (present refuses : BitVec 32 → Bool) : TableBus (BitVec 32 → BitVec 32) :=
  { read := fun words a => (if present a then some (words a) else none, words)
    write := fun words a word =>
      if refuses a then (false, words) else (true, Function.update words a word) }

/-- A word with history bits set. -/
def setHistoryBits (word : BitVec 32) (used modified : Bool) : BitVec 32 :=
  let word := if used then word ||| 0x8 else word
  if modified then word ||| 0x10 else word

theorem setHistoryBits_getLsbD (word : BitVec 32) (used modified : Bool) {i : Nat} (hi : i < 32) :
    (setHistoryBits word used modified).getLsbD i =
      (word.getLsbD i || (used && decide (i = 3)) || (modified && decide (i = 4))) := by
  have hused : ∀ i < 32, (8#32).getLsbD i = decide (i = 3) := by decide
  have hmodified : ∀ i < 32, (16#32).getLsbD i = decide (i = 4) := by decide
  unfold setHistoryBits
  cases used <;> cases modified <;> simp [hused i hi, hmodified i hi]

theorem dtOf_setHistoryBits (word : BitVec 32) (used modified : Bool) :
    dtOf (setHistoryBits word used modified) = dtOf word := by
  unfold dtOf
  rw [setHistoryBits_getLsbD _ _ _ (by decide), setHistoryBits_getLsbD _ _ _ (by decide)]
  simp

theorem setHistoryBits_page (word : BitVec 32) (used modified : Bool) :
    setHistoryBits word used modified >>> 8 = word >>> 8 := by
  apply BitVec.eq_of_getLsbD_eq
  intro i hi
  rw [BitVec.getLsbD_ushiftRight, BitVec.getLsbD_ushiftRight]
  by_cases h : 8 + i < 32
  · rw [setHistoryBits_getLsbD _ _ _ h, decide_eq_false (show ¬ 8 + i = 3 by omega),
      decide_eq_false (show ¬ 8 + i = 4 by omega), Bool.and_false, Bool.and_false, Bool.or_false,
      Bool.or_false]
  · rw [BitVec.getLsbD_of_ge _ _ (by omega), BitVec.getLsbD_of_ge _ _ (by omega)]

theorem setUsedBit_table (word : BitVec 32) :
    setHistoryBits word true false &&& 0xFFFFFFF0 = word &&& 0xFFFFFFF0 := by
  have hmask : ∀ i < 32, (0xFFFFFFF0 : BitVec 32).getLsbD i = decide (4 ≤ i) := by decide
  apply BitVec.eq_of_getLsbD_eq
  intro i hi
  rw [BitVec.getLsbD_and, BitVec.getLsbD_and, setHistoryBits_getLsbD _ _ _ hi, hmask i hi]
  by_cases h : 4 ≤ i
  · rw [decide_eq_false (show ¬ i = 3 by omega)]
    simp
  · rw [decide_eq_false h, Bool.and_false, Bool.and_false]

theorem setHistoryBits_getElem (word : BitVec 32) (used modified : Bool) {i : Nat} (hi : i < 32) :
    (setHistoryBits word used modified)[i] =
      (word[i] || (used && decide (i = 3)) || (modified && decide (i = 4))) := by
  rw [← BitVec.getLsbD_eq_getElem, ← BitVec.getLsbD_eq_getElem, setHistoryBits_getLsbD _ _ _ hi]

theorem machineDecode_setHistoryBits (long : Bool) (words : BitVec 32 × BitVec 32)
    (hvalid : dtOf words.1 ≠ .invalid) :
    machineDecode long (setHistoryBits words.1 true false, words.2) =
      (machineDecode long words).withUsed true := by
  have hshift : setHistoryBits words.1 true false >>> 16 = words.1 >>> 16 := by
    rw [show 16 = 8 + 8 from rfl, BitVec.shiftRight_add, setHistoryBits_page, BitVec.shiftRight_add]
  unfold machineDecode unpackShort unpackLong
  dsimp only
  rw [dtOf_setHistoryBits, hshift]
  cases long <;> cases hdt : dtOf words.1 <;>
    simp [descRole, setHistoryBits_page, Descriptor.withUsed, setHistoryBits_getElem, hdt]
      at hvalid ⊢
  all_goals exact setUsedBit_table _

theorem machineDecode_setModified (long used : Bool) (words : BitVec 32 × BitVec 32)
    (hpage : dtOf words.1 = .page) :
    machineDecode long (setHistoryBits words.1 used true, words.2) =
      (machineDecode long words).setHistory used true := by
  have hshift : setHistoryBits words.1 used true >>> 16 = words.1 >>> 16 := by
    rw [show 16 = 8 + 8 from rfl, BitVec.shiftRight_add, setHistoryBits_page, BitVec.shiftRight_add]
  unfold machineDecode unpackShort unpackLong
  dsimp only
  rw [dtOf_setHistoryBits, hshift]
  cases long <;>
    simp [descRole, setHistoryBits_page, Descriptor.setHistory, setHistoryBits_getElem, hpage]

theorem machineDecode_lower (upper lower : BitVec 32) :
    machineDecode true (upper, setHistoryBits lower true false) =
      machineDecode true (upper, lower) := by
  unfold machineDecode unpackLong
  dsimp only
  cases hdt : dtOf upper <;> simp [descRole, setHistoryBits_page]
  all_goals exact setUsedBit_table _

theorem machineDecode_used (long : Bool) (words : BitVec 32 × BitVec 32) :
    (machineDecode long words).used = (decide (dtOf words.1 ≠ .invalid) && words.1.getLsbD 3) := by
  unfold machineDecode unpackShort unpackLong
  dsimp only
  cases long <;> cases dtOf words.1 <;> simp [descRole]

theorem machineDecode_dt (long : Bool) (words : BitVec 32 × BitVec 32) :
    (machineDecode long words).dt = dtOf words.1 := by
  unfold machineDecode unpackShort unpackLong
  dsimp only
  cases long <;> cases dtOf words.1 <;> simp [descRole]

section Words

variable (present refuses : BitVec 32 → Bool)

theorem standing_wordBus (words : BitVec 32 → BitVec 32) (a : BitVec 32) (long : Bool) :
    standing (machineTables (wordBus present refuses)) words a long =
      if present a && (!long || present (a + 4)) then
        some (machineDecode long (words a, if long then words (a + 4) else 0))
      else none := by
  show (machineTableFetch (wordBus present refuses) words a long).1 = _
  unfold machineTableFetch TableBus.words wordBus
  dsimp only
  cases present a <;> cases long <;> cases present (a + 4) <;> rfl

theorem reads_wordBus (words : BitVec 32 → BitVec 32) (a : BitVec 32) (long : Bool) :
    ((machineTables (wordBus present refuses)).fetch words a long).2 = words := by
  show (machineTableFetch (wordBus present refuses) words a long).2 = _
  unfold machineTableFetch TableBus.words wordBus
  dsimp only
  cases present a <;> cases long <;> cases present (a + 4) <;> rfl

theorem update_wordBus (words : BitVec 32 → BitVec 32) (a : BitVec 32) (used modified : Bool) :
    machineTableUpdate (wordBus present refuses) words a used modified =
      if present a && !refuses a then
        (true, Function.update words a (setHistoryBits (words a) used modified))
      else (false, words) := by
  unfold machineTableUpdate wordBus setHistoryBits
  dsimp only
  cases present a <;> cases refuses a <;> rfl

theorem update_wordBus_permitted (words : BitVec 32 → BitVec 32) {a : BitVec 32}
    (used modified : Bool) (h : (!(present a && !refuses a)) = false) :
    (machineTableUpdate (wordBus present refuses) words a used modified).2 =
      Function.update words a (setHistoryBits (words a) used modified) := by
  rw [update_wordBus, if_pos (by simpa only [Bool.not_eq_false'] using h)]

/-- THE MACHINE'S TABLES HAVE HISTORY BITS: its callbacks set bits 3 and 4 of a word. -/
theorem machineTables_history :
    HistoryTables (machineTables (wordBus present refuses))
      (machineTableUpdate (wordBus present refuses)) (fun a => !(present a && !refuses a)) where
  installed := rfl
  reads := fun t a long => congrArg (standing _) (reads_wordBus present refuses t a long)
  oneType := by
    intro t a long long' d d' hd hd'
    rw [standing_wordBus] at hd hd'
    split at hd
    · split at hd'
      · rw [← Option.some.inj hd, ← Option.some.inj hd', machineDecode_dt, machineDecode_dt]
      · cases hd'
    · cases hd
  answers := by
    intro t a used modified
    rw [update_wordBus, Bool.not_not]
    split
    · next hdone => exact hdone.symm
    · next hdone => exact (Bool.not_eq_true _ ▸ hdone).symm
  refused := by
    intro t a used modified hrefuses
    rw [Bool.not_eq_true'] at hrefuses
    rw [update_wordBus, hrefuses]
    rfl
  used := by
    intro t a long d hd hvalid hrefuses
    rw [standing_wordBus] at hd
    split at hd
    · obtain rfl := Option.some.inj hd
      rw [machineDecode_dt] at hvalid
      funext a' long'
      rw [update_wordBus_permitted present refuses t true false hrefuses, standing_wordBus,
        markUsed, standing_wordBus]
      split
      · rw [Option.map_some]
        by_cases ha : a' = a
        · subst ha
          rw [Function.update_self, Function.update_of_ne (by simp), decide_eq_true (by simp)]
          exact congrArg some (machineDecode_setHistoryBits long'
            (t a', if long' then t (a' + 4) else 0) hvalid)
        · rw [Function.update_of_ne ha, decide_eq_false (by simpa using ha),
            Descriptor.withUsed_false]
          cases long' with
          | false => rfl
          | true =>
            by_cases hlower : a' + 4 = a
            · subst hlower
              rw [if_pos rfl, if_pos rfl, Function.update_self, machineDecode_lower]
            · rw [if_pos rfl, if_pos rfl, Function.update_of_ne hlower]
      · rfl
    · cases hd
  modified := by
    intro t a long d used hd hpage hrefuses
    rw [standing_wordBus] at hd
    split at hd
    · next hpresent =>
      obtain rfl := Option.some.inj hd
      rw [machineDecode_dt] at hpage
      rw [update_wordBus_permitted present refuses t used true hrefuses]
      refine ⟨?_, fun a' long' d' hd' hused => ?_⟩
      · rw [standing_wordBus, if_pos hpresent, Function.update_self,
          Function.update_of_ne (by simp)]
        exact congrArg some (machineDecode_setModified long used
          (t a, if long then t (a + 4) else 0) hpage)
      · rw [markUsed, standing_wordBus] at hd'
        rw [standing_wordBus]
        by_cases hpresent' : (present a' && (!long' || present (a' + 4))) = true
        · rw [if_pos hpresent', Option.map_some] at hd'
          obtain rfl := Option.some.inj hd'
          refine ⟨_, if_pos hpresent', ?_⟩
          rw [Descriptor.withUsed, machineDecode_used, Bool.or_eq_true, decide_eq_true_iff]
            at hused
          rw [machineDecode_used]
          by_cases ha : a' = a
          · subst ha
            rw [Function.update_self, dtOf_setHistoryBits, hpage,
              setHistoryBits_getLsbD _ _ _ (by decide)]
            rcases hused with hused | hused
            · rw [(Bool.and_eq_true_iff.1 hused).2]
              rfl
            · cases used with
              | false => exact absurd hused List.not_mem_nil
              | true => simp
          · rw [Function.update_of_ne ha]
            rcases hused with hused | hused
            · exact hused
            · cases used with
              | false => exact absurd hused List.not_mem_nil
              | true => exact absurd (List.mem_singleton.1 hused) ha
        · rw [if_neg hpresent', Option.map_none] at hd'
          cases hd'
    · cases hd

end Words

/-! ## A tree without indirect descriptors, and one with -/

/-- A memory of a few long words; everything else is zero. -/
def wordsOf (image : List (BitVec 32 × BitVec 32)) (a : BitVec 32) : BitVec 32 :=
  (image.lookup a).getD 0

/-- A memory that can be read and written everywhere. -/
abbrev plainBus : TableBus (BitVec 32 → BitVec 32) := wordBus (fun _ => true) fun _ => false

/-- A table at 0x1000, a page table at 0x2000, and a page that has not been used. -/
def freshPage : BitVec 32 → BitVec 32 := wordsOf [(0x1000, 0x2002), (0x2000, 0x5001)]

/-- A user's write through the page. -/
theorem history_iff_freshPage :
    HistoryKept (machineTables plainBus) { write := true } freshPage
      (searchPath (standing (machineTables plainBus) freshPage) tenAndTen imageRoot 0)
      (walk (machineTables plainBus).traced tenAndTen imageRoot 0 { write := true } (freshPage, []))
      (walk (machineTables plainBus).observer.traced tenAndTen imageRoot 0 { write := true }
        (freshPage, [])) :=
  (history_iff (machineTables_history _ _) tenAndTen imageRoot 0 freshPage).2 (by decide +kernel)

/-- A table at 0x1000, a page table of long descriptors at 0x2000 with an indirect descriptor
in it, and the page descriptor at 0x3000 that it leads to. -/
def longIndirect : BitVec 32 → BitVec 32 :=
  wordsOf [(0x1000, 0x200B), (0x2000, 0x2), (0x2004, 0x3000), (0x3000, 0x5009)]

/-- The indirect descriptor is marked used. -/
theorem not_historyKept :
    ¬ HistoryKept (machineTables plainBus) {} longIndirect
      (searchPath (standing (machineTables plainBus) longIndirect) tenAndTen imageRoot 0)
      (walk (machineTables plainBus).traced tenAndTen imageRoot 0 {} (longIndirect, []))
      (walk (machineTables plainBus).observer.traced tenAndTen imageRoot 0 {}
        (longIndirect, [])) := by
  intro hkept
  obtain ⟨v, _, _, hv, -, hrole, -⟩ := hkept.spared 1 (.updated 0x2000 true false)
    (by decide +kernel)
  have hpath : (searchPath (standing (machineTables plainBus) longIndirect) tenAndTen imageRoot
      0)[1]?.map Visit.role = some .indirect := by decide +kernel
  rw [hv] at hpath
  rw [Option.some.inj hpath] at hrole
  rcases hrole with hrole | hrole <;> cases hrole

end Apollo.M68030
