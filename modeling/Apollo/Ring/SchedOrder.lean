import Apollo.Lib.Diamond
import Apollo.Ring.SchedMerge

/-!
# Runs compose, and the order of ties is not observable

Two facts about `ap_ring_sched_run_until` that hold of every scheduler, whatever its
deadlines are.

A run keeps nothing but the scheduler itself, and of that it does not read `now`:
so a run may be cut anywhere (`ends_iff_ends_ends`).

Callbacks that keep to their own context and their own slot of the medium are
`Local`. Under them two nodes that are both due before the next bit commute, whether
or not they are due at one instant, and neither takes the other's turn away. That is
`independent_fire`, from which `Lib.Diamond` gives the order of ties; only `now`,
which no callback reads and which the end of a run overwrites, has to be masked.
-/

namespace Apollo.Ring.Sched

open Apollo.Lib

/-- The scheduler and what its callbacks keep. -/
abbrev State (σ : Type) := Sched σ × σ

section Serve

variable {σ : Type}

/-! ## Serving one event -/

/-- What a node answers; one without a callback answers nothing. -/
def answer : Option (Step σ) → Step σ
  | none, world, _, _ => (world, [])
  | some step, world, medium, due => step world medium due

/-- What the loop of `ap_ring_sched_run_until` does with an event, whoever it is for. -/
def serve (a : State σ) (due : Time) : Option Nat → State σ
  | none =>
    ({ a.1 with now := due, medium := a.1.medium.advance, nextBit := a.1.nextBit + a.1.bitPeriod },
      a.2)
  | some i =>
    let p := a.1.participantAt i
    let (world, cells) := answer p.step a.2 a.1.medium due
    ({ a.1 with
        now := due
        participant := a.1.participant.setIfInBounds i { p with next := p.next + p.period }
        medium := transmitAll a.1.medium cells },
      world)

/-- Whose event the scan found, and why: the bit clock if no node is strictly earlier,
and otherwise a node that no other is earlier than. -/
theorem earliest_cases (s : Sched σ) :
    (s.earliest.2 = -1 ∧ s.earliest.1 = s.nextBit ∧
      ∀ i < s.used, (s.participantAt i).present → s.nextBit ≤ (s.participantAt i).next) ∨
    ∃ i : Nat, s.earliest.2 = i ∧ s.earliest.1 = (s.participantAt i).next ∧ i < s.used ∧
      (s.participantAt i).present ∧ (s.participantAt i).next < s.nextBit ∧
      ∀ j < s.used, (s.participantAt j).present →
        (s.participantAt i).next ≤ (s.participantAt j).next := by
  have hscan := s.scanned_earliest
  obtain ⟨period, hpend⟩ := hscan.pending
  have hfirst := hscan.first
  generalize s.earliest = best at hpend hfirst ⊢
  obtain ⟨due, who⟩ := best
  have hnode : ∀ j < s.used, (s.participantAt j).present →
      s.pending (j : Int) = some ((s.participantAt j).next, (s.participantAt j).period) := by
    intro j hj hjp
    rw [pending_natCast, if_pos ⟨hj, hjp⟩]
  rcases who with i | _ | k
  · rw [show Int.ofNat i = (i : Int) from rfl] at hpend hfirst ⊢
    rw [pending_natCast, Option.ite_none_right_eq_some] at hpend
    obtain ⟨⟨hused, hpresent⟩, heq⟩ := hpend
    cases heq
    refine .inr ⟨i, rfl, rfl, hused, hpresent, ?_, fun j hj hjp => ?_⟩
    · rcases hfirst (-1) s.nextBit s.bitPeriod (by omega) s.pending_bit (by omega) with hlt | ⟨-, hlt⟩
      · exact hlt
      · exact absurd hlt (by dsimp only; omega)
    · by_cases hji : j = i
      · subst hji
        exact BitVec.le_refl _
      · rcases hfirst j _ _ (by omega) (hnode j hj hjp) (by omega) with hlt | ⟨heq, -⟩
        · exact BitVec.le_of_lt hlt
        · exact Nat.le_of_eq heq
  · cases hpend
    refine .inl ⟨rfl, rfl, fun j hj hjp => ?_⟩
    rcases hfirst j _ _ (by omega) (hnode j hj hjp) (by omega) with hlt | ⟨heq, -⟩
    · exact BitVec.le_of_lt hlt
    · exact Nat.le_of_eq heq
  · cases hpend

theorem turn_eq_serve (s : Sched σ) (world : σ) (target : Time) :
    s.turn world target =
      if target < s.earliest.1 then none
      else some (s.earliest,
        serve (s, world) s.earliest.1 (if s.earliest.2 < 0 then none else some s.earliest.2.toNat)) := by
  unfold turn
  dsimp only
  split
  · rfl
  · split
    · rfl
    · have hsame : ({ s with now := s.earliest.1 } : Sched σ).participantAt s.earliest.2.toNat =
          s.participantAt s.earliest.2.toNat := rfl
      simp only [hsame, serve]
      cases (s.participantAt s.earliest.2.toNat).step with
      | none => rfl
      | some step => rfl

/-! ## Runs compose -/

/-- `ap_ring_sched_run_until` comes back, with this scheduler and these contexts. -/
def Ends (a : State σ) (target : Time) (b : State σ) : Prop :=
  ∃ fuel events, runUntil fuel a.1 a.2 target = some (events, b)

/-- The scheduler with its clock face set. -/
def atTime (a : State σ) (now : Time) : State σ := ({ a.1 with now }, a.2)

theorem runUntil_atTime (fuel : Nat) (a : State σ) (now target : Time) :
    runUntil fuel (atTime a now).1 a.2 target = runUntil fuel a.1 a.2 target := by
  cases fuel with
  | zero => rfl
  | succ fuel => rfl

theorem Ends.unique {a b c : State σ} {target : Time} (h : Ends a target b)
    (h' : Ends a target c) : b = c := by
  obtain ⟨fuel, events, hrun⟩ := h
  obtain ⟨fuel', events', hrun'⟩ := h'
  have hsame := runUntil_mono hrun (le_max_left fuel fuel')
  rw [runUntil_mono hrun' (le_max_right fuel fuel')] at hsame
  cases hsame
  rfl

theorem ends_of_turn_none {a b : State σ} {target : Time} (hturn : a.1.turn a.2 target = none) :
    Ends a target b ↔ b = atTime a target := by
  constructor
  · rintro ⟨fuel, events, hrun⟩
    cases fuel with
    | zero => cases hrun
    | succ fuel =>
      simp only [runUntil, hturn] at hrun
      cases hrun
      rfl
  · rintro rfl
    refine ⟨1, [], ?_⟩
    simp only [runUntil, hturn]
    rfl

theorem ends_of_turn_some {a b c : State σ} {target : Time} {event : Time × Int}
    (hturn : a.1.turn a.2 target = some (event, c)) : Ends a target b ↔ Ends c target b := by
  constructor
  · rintro ⟨fuel, events, hrun⟩
    cases fuel with
    | zero => cases hrun
    | succ fuel =>
      simp only [runUntil, hturn] at hrun
      obtain ⟨⟨events', b'⟩, hrest, heq⟩ := Option.map_eq_some_iff.mp hrun
      cases heq
      exact ⟨fuel, events', hrest⟩
  · rintro ⟨fuel, events, hrun⟩
    refine ⟨fuel + 1, event :: events, ?_⟩
    simp only [runUntil, hturn, hrun]
    rfl

theorem turn_later {s : Sched σ} {world : σ} {t₁ t₂ : Time} (hle : t₁ ≤ t₂)
    {out : (Time × Int) × State σ} (hturn : s.turn world t₁ = some out) :
    s.turn world t₂ = some out := by
  rw [turn_eq_serve] at hturn ⊢
  split at hturn
  · cases hturn
  · next hdue =>
    rw [if_neg (show ¬ t₂ < s.earliest.1 from fun hlt => hdue (Nat.lt_of_le_of_lt hle hlt))]
    exact hturn

theorem ends_iff_ends_ends {t₁ t₂ : Time} (hle : t₁ ≤ t₂) (a b : State σ) :
    Ends a t₂ b ↔ ∃ c, Ends a t₁ c ∧ Ends c t₂ b := by
  constructor
  · rintro ⟨fuel, events, hrun⟩
    induction fuel generalizing a events with
    | zero => cases hrun
    | succ fuel ih =>
      cases hfirst : a.1.turn a.2 t₁ with
      | none =>
        refine ⟨atTime a t₁, (ends_of_turn_none hfirst).mpr rfl, fuel + 1, events, ?_⟩
        rw [← hrun]
        exact runUntil_atTime (fuel + 1) a t₁ t₂
      | some out =>
        obtain ⟨event, a'⟩ := out
        simp only [runUntil, turn_later hle hfirst] at hrun
        obtain ⟨⟨events', b'⟩, hrest, heq⟩ := Option.map_eq_some_iff.mp hrun
        cases heq
        obtain ⟨c, hac, hcb⟩ := ih a' events' hrest
        exact ⟨c, (ends_of_turn_some hfirst).mpr hac, hcb⟩
  · rintro ⟨c, ⟨fuel, events, hrun⟩, hcb⟩
    induction fuel generalizing a events with
    | zero => cases hrun
    | succ fuel ih =>
      cases hfirst : a.1.turn a.2 t₁ with
      | none =>
        rw [(ends_of_turn_none hfirst).mp ⟨fuel + 1, events, hrun⟩] at hcb
        obtain ⟨fuel', events', hrest⟩ := hcb
        refine ⟨fuel', events', ?_⟩
        rw [← hrest]
        exact (runUntil_atTime fuel' a t₁ t₂).symm
      | some out =>
        obtain ⟨event, a'⟩ := out
        simp only [runUntil, hfirst] at hrun
        obtain ⟨⟨events', b'⟩, hrest, heq⟩ := Option.map_eq_some_iff.mp hrun
        cases heq
        exact (ends_of_turn_some (turn_later hle hfirst)).mpr (ih a' events' hrest)

/-! ## Ties in any order -/

/-- Who may go next if nodes due at one instant go in any order. The bit clock still
goes before a node that ties with it. -/
def Tied (s : Sched σ) (due : Time) : Option Nat → Prop
  | none => s.earliest.2 = -1
  | some i =>
    s.earliest.2 ≠ -1 ∧ i < s.used ∧ (s.participantAt i).present ∧ (s.participantAt i).next = due

/-- One round of the loop with ties in any order. -/
def AnyTurn (target : Time) (a b : State σ) : Prop :=
  a.1.earliest.1 ≤ target ∧
    ∃ who, a.1.Tied a.1.earliest.1 who ∧ b = serve a a.1.earliest.1 who

/-- The loop with ties in any order has come to its end. -/
def AnyEnds (a : State σ) (target : Time) (b : State σ) : Prop :=
  ∃ n c, Steps (AnyTurn target) n a c ∧ target < c.1.earliest.1 ∧ b = atTime c target

end Serve

section Local

variable {κ : Nat → Type}

/-- A callback that touches its own context, `ap_ring_medium_receive` on its own slot
and `ap_ring_medium_transmit` on its own slot, and nothing else. What it receives does
not change while it runs. -/
def localStep (slot : Nat) (f : κ slot → Cell → Time → κ slot × List Cell) : Step (∀ i, κ i) :=
  fun contexts medium due =>
    let (context, cells) := f (contexts slot) (medium.receive slot) due
    (Function.update contexts slot context, cells.map fun cell => ((slot : Int), cell))

/-- Every callback keeps to its own context and its own slot. -/
def Local (s : Sched (∀ i, κ i)) : Prop :=
  ∀ slot step, (s.participantAt slot).step = some step → ∃ f, step = localStep slot f

theorem Local.answer {s : Sched (∀ i, κ i)} (h : s.Local) (i : Nat) :
    ∃ f, Sched.answer (s.participantAt i).step = localStep i f := by
  cases hstep : (s.participantAt i).step with
  | none =>
    refine ⟨fun context _ _ => (context, []), ?_⟩
    funext contexts medium due
    simp only [Sched.answer, localStep, Function.update_eq_self, List.map_nil]
  | some step =>
    obtain ⟨f, rfl⟩ := h i step hstep
    exact ⟨f, rfl⟩

/-! ## Two slots of the medium -/

theorem medium_ext {m m' : Medium} (hslots : m.slots = m'.slots)
    (hnode : ∀ i, m.nodeAt i = m'.nodeAt i) (htime : m.bitTime = m'.bitTime) : m = m' := by
  obtain ⟨node, bitTime, fits⟩ := m
  obtain ⟨node', bitTime', fits'⟩ := m'
  have hlist : node = node' := by
    refine List.ext_getElem hslots fun i hi hi' => ?_
    have := hnode i
    rwa [Medium.nodeAt, Medium.nodeAt, List.getD_eq_getElem _ _ hi,
      List.getD_eq_getElem _ _ hi'] at this
  subst hlist
  cases htime
  rfl

theorem valid_transmit (m : Medium) (slot slot' : Int) (c : Cell) :
    (m.transmit slot c).valid slot' = m.valid slot' := by
  simp only [Medium.valid, Medium.transmit, Medium.slots_modify]

theorem transmit_comm (m : Medium) {i j : Nat} (hij : i ≠ j) (c d : Cell) :
    (m.transmit i c).transmit j d = (m.transmit j d).transmit i c := by
  apply medium_ext
  · simp only [Medium.transmit, Medium.slots_modify]
  · intro k
    have hi := valid_transmit m j i d
    have hj := valid_transmit m i j c
    simp only [Medium.transmit] at hi hj ⊢
    simp only [Medium.nodeAt_modify, hi, hj, Int.toNat_natCast]
    by_cases hk : i = k
    · have hjk : j ≠ k := fun h => hij (hk.trans h.symm)
      simp only [hjk, and_false, if_false]
    · simp only [hk, and_false, if_false]
  · simp only [Medium.transmit, bitTime_modify]

theorem receive_transmit (m : Medium) {i j : Nat} (hij : i ≠ j) (c : Cell) :
    (m.transmit i c).receive j = m.receive j := by
  have hnode : (m.transmit i c).nodeAt j = m.nodeAt j := by
    rw [Medium.transmit, Medium.nodeAt_modify, Int.toNat_natCast, if_neg fun h => hij h.2]
  simp only [Medium.receive, valid_transmit, Int.toNat_natCast, hnode]

/-- The cells of a node's own slot. -/
def ownCells (slot : Nat) (cells : List Cell) : List (Int × Cell) :=
  cells.map fun cell => ((slot : Int), cell)

theorem receive_transmitAll (m : Medium) {i j : Nat} (hij : i ≠ j) (cells : List Cell) :
    (transmitAll m (ownCells i cells)).receive j = m.receive j := by
  induction cells generalizing m with
  | nil => rfl
  | cons c cells ih => exact (ih (m.transmit i c)).trans (receive_transmit m hij c)

theorem transmit_transmitAll (m : Medium) {i j : Nat} (hij : i ≠ j) (cells : List Cell) (d : Cell) :
    (transmitAll m (ownCells i cells)).transmit j d =
      transmitAll (m.transmit j d) (ownCells i cells) := by
  induction cells generalizing m with
  | nil => rfl
  | cons c cells ih =>
    show (transmitAll (m.transmit i c) (ownCells i cells)).transmit j d = _
    rw [ih, transmit_comm m hij]
    rfl

theorem transmitAll_comm (m : Medium) {i j : Nat} (hij : i ≠ j) (cells cells' : List Cell) :
    transmitAll (transmitAll m (ownCells i cells)) (ownCells j cells') =
      transmitAll (transmitAll m (ownCells j cells')) (ownCells i cells) := by
  induction cells' generalizing m with
  | nil => rfl
  | cons d cells' ih =>
    show transmitAll ((transmitAll m (ownCells i cells)).transmit j d) (ownCells j cells') = _
    rw [transmit_transmitAll m hij, ih]
    rfl

/-! ## Two nodes -/

/-- When an event is due. -/
def deadline (s : Sched (∀ i, κ i)) : Option Nat → Time
  | none => s.nextBit
  | some i => (s.participantAt i).next

/-- Who can go next if nodes due before the next bit go in any order at all. -/
def Ready (target : Time) (who : Option Nat) (a : State (∀ i, κ i)) : Prop :=
  a.1.deadline who ≤ target ∧
    match who with
    | none => ∀ i < a.1.used, (a.1.participantAt i).present → a.1.nextBit ≤ (a.1.participantAt i).next
    | some i => i < a.1.used ∧ (a.1.participantAt i).present ∧ (a.1.participantAt i).next < a.1.nextBit

/-- One event, on a scheduler whose `now` is masked. -/
def fire (who : Option Nat) (a : State (∀ i, κ i)) : State (∀ i, κ i) :=
  atTime (serve a (a.1.deadline who) who) 0

theorem participantAt_fire {a : State (∀ i, κ i)} {i : Nat} (hi : (a.1.participantAt i).present)
    (j : Nat) : (fire (some i) a).1.participantAt j =
      if i = j then
        { a.1.participantAt i with
          next := (a.1.participantAt i).next + (a.1.participantAt i).period }
      else a.1.participantAt j := by
  have hroom : i < maxNodes := by
    by_contra hout
    rw [participantAt, Vector.getElem?_eq_none (Nat.le_of_not_lt hout)] at hi
    cases hi
  exact participantAt_set hroom _ j

theorem Local.fire {a : State (∀ i, κ i)} (h : a.1.Local) {who : Option Nat}
    {target : Time} (hready : Ready target who a) : (Sched.fire who a).1.Local := by
  intro slot step hstep
  cases who with
  | none => exact h slot step hstep
  | some i =>
    rw [participantAt_fire hready.2.2.1] at hstep
    split at hstep
    · next heq =>
      subst heq
      exact h i step hstep
    · exact h slot step hstep

theorem Ready.some {target : Time} {who who' : Option Nat} {a : State (∀ i, κ i)}
    (hne : who ≠ who') (h : Ready target who a) (h' : Ready target who' a) :
    ∃ i, who = some i := by
  cases who with
  | some i => exact ⟨i, rfl⟩
  | none =>
    cases who' with
    | none => exact absurd rfl hne
    | some j =>
      obtain ⟨-, hused, hpresent, hearly⟩ := h'
      exact absurd hearly (BitVec.not_lt.mpr (h.2 j hused hpresent))

theorem fire_local {a : State (∀ i, κ i)} {i : Nat} {f : κ i → Cell → Time → κ i × List Cell}
    (hf : answer (a.1.participantAt i).step = localStep i f) :
    fire (some i) a =
      let p := a.1.participantAt i
      let out := f (a.2 i) (a.1.medium.receive i) p.next
      ({ a.1 with
          now := 0
          participant := a.1.participant.setIfInBounds i { p with next := p.next + p.period }
          medium := transmitAll a.1.medium (ownCells i out.2) },
        Function.update a.2 i out.1) := by
  simp only [fire, serve, hf]
  rfl

theorem setIfInBounds_comm {α : Type} {n : Nat} (v : Vector α n) {i j : Nat} (hij : i ≠ j)
    (x y : α) :
    (v.setIfInBounds i x).setIfInBounds j y = (v.setIfInBounds j y).setIfInBounds i x := by
  apply Vector.ext
  intro k hk
  rw [Vector.getElem_setIfInBounds, Vector.getElem_setIfInBounds, Vector.getElem_setIfInBounds,
    Vector.getElem_setIfInBounds]
  by_cases hik : i = k
  · rw [if_pos hik, if_pos hik, if_neg fun h => hij (hik.trans h.symm)]
  · rw [if_neg hik, if_neg hik]

theorem independent_fire (target : Time) :
    Independent (fun who (a : State (∀ i, κ i)) => a.1.Local ∧ Ready target who a) fire where
  stays := by
    rintro who who' a hne ⟨hlocal, hready⟩ ⟨-, hready'⟩
    refine ⟨hlocal.fire hready, ?_⟩
    obtain ⟨i, rfl⟩ := hready.some hne hready'
    obtain ⟨j, rfl⟩ := hready'.some (Ne.symm hne) hready
    have hij : i ≠ j := fun h => hne (congrArg _ h)
    have hj : (fire (some i) a).1.participantAt j = a.1.participantAt j := by
      rw [participantAt_fire hready.2.2.1, if_neg hij]
    unfold Ready deadline at hready' ⊢
    dsimp only at hready' ⊢
    rw [hj]
    exact hready'
  comm := by
    rintro who who' a hne ⟨hlocal, hready⟩ ⟨-, hready'⟩
    obtain ⟨i, rfl⟩ := hready.some hne hready'
    obtain ⟨j, rfl⟩ := hready'.some (Ne.symm hne) hready
    have hij : i ≠ j := fun h => hne (congrArg _ h)
    have hi : (fire (some j) a).1.participantAt i = a.1.participantAt i := by
      rw [participantAt_fire hready'.2.2.1, if_neg (Ne.symm hij)]
    have hj : (fire (some i) a).1.participantAt j = a.1.participantAt j := by
      rw [participantAt_fire hready.2.2.1, if_neg hij]
    obtain ⟨f, hf⟩ := hlocal.answer i
    obtain ⟨g, hg⟩ := hlocal.answer j
    have hleft := fire_local (a := fire (some i) a) (i := j) (f := g) (by rw [hj]; exact hg)
    have hright := fire_local (a := fire (some j) a) (i := i) (f := f) (by rw [hi]; exact hf)
    simp only [hi, hj] at hleft hright
    rw [hleft, hright, fire_local hf, fire_local hg]
    simp only [receive_transmitAll _ hij, receive_transmitAll _ (Ne.symm hij),
      Function.update_of_ne hij, Function.update_of_ne (Ne.symm hij)]
    rw [transmitAll_comm _ hij, setIfInBounds_comm _ hij, Function.update_comm hij]

/-! ## Ties in any order are one of those orders -/

/-- One event of the unordered system. -/
def ReadyTurn (target : Time) (a b : State (∀ i, κ i)) : Prop :=
  ∃ who, (a.1.Local ∧ Ready target who a) ∧ b = fire who a

theorem AnyTurn.ready {target : Time} {a b : State (∀ i, κ i)} (hlocal : a.1.Local)
    (h : AnyTurn target a b) : ReadyTurn target (atTime a 0) (atTime b 0) ∧ b.1.Local := by
  obtain ⟨hdue, who, htied, rfl⟩ := h
  have hready : Ready target who (atTime a 0) ∧ a.1.earliest.1 = a.1.deadline who := by
    rcases a.1.earliest_cases with ⟨hbit, hnext, last⟩ | ⟨j, hj, hnext, -, -, early, -⟩
    · cases who with
      | none =>
        rw [hnext] at hdue ⊢
        exact ⟨⟨hdue, last⟩, rfl⟩
      | some i => exact absurd hbit htied.1
    · cases who with
      | none =>
        have hbit : a.1.earliest.2 = -1 := htied
        omega
      | some i =>
        obtain ⟨-, hused, hpresent, hi⟩ := htied
        rw [← hnext, ← hi] at early
        rw [← hi] at hdue ⊢
        exact ⟨⟨hdue, hused, hpresent, early⟩, rfl⟩
  obtain ⟨hready, hdeadline⟩ := hready
  rw [hdeadline]
  exact ⟨⟨who, ⟨hlocal, hready⟩, rfl⟩, Local.fire (a := a) hlocal hready⟩

theorem Ready.due {target : Time} {who : Option Nat} {a : State (∀ i, κ i)}
    (h : Ready target who a) : a.1.earliest.1 ≤ target := by
  obtain ⟨hdue, hrest⟩ := h
  rcases a.1.earliest_cases with ⟨-, hnext, last⟩ | ⟨j, -, hnext, -, -, early, least⟩
  · rw [hnext]
    cases who with
    | none => exact hdue
    | some i =>
      obtain ⟨hused, hpresent, -⟩ := hrest
      exact BitVec.le_trans (last i hused hpresent) hdue
  · rw [hnext]
    cases who with
    | none => exact BitVec.le_trans (BitVec.le_of_lt early) hdue
    | some i =>
      obtain ⟨hused, hpresent, -⟩ := hrest
      exact BitVec.le_trans (least i hused hpresent) hdue

theorem anyTurn_of_turn {target : Time} {a b : State (∀ i, κ i)} {event : Time × Int}
    (hturn : a.1.turn a.2 target = some (event, b)) : AnyTurn target a b := by
  rw [turn_eq_serve] at hturn
  split at hturn
  · cases hturn
  · next hdue =>
    cases hturn
    refine ⟨BitVec.not_lt.mp hdue, _, ?_, rfl⟩
    rcases a.1.earliest_cases with ⟨hbit, -, -⟩ | ⟨i, hi, hnext, hused, hpresent, -, -⟩
    · rw [if_pos (by omega)]
      exact hbit
    · rw [if_neg (by omega), hi, Int.toNat_natCast]
      exact ⟨by omega, hused, hpresent, hnext.symm⟩

theorem stuck_atTime {target : Time} {a : State (∀ i, κ i)} (hdue : target < a.1.earliest.1) :
    Stuck (ReadyTurn target) (atTime a 0) := by
  rintro b ⟨who, ⟨-, hready⟩, -⟩
  exact absurd (Ready.due hready) (BitVec.not_le.mpr hdue)

theorem steps_ready {target : Time} {n : Nat} {a b : State (∀ i, κ i)}
    (h : Steps (AnyTurn target) n a b) (hlocal : a.1.Local) :
    Steps (ReadyTurn target) n (atTime a 0) (atTime b 0) ∧ b.1.Local := by
  induction h with
  | refl a => exact ⟨.refl _, hlocal⟩
  | head hstep _ ih =>
    obtain ⟨hready, hlocal'⟩ := hstep.ready hlocal
    obtain ⟨hsteps, hend⟩ := ih hlocal'
    exact ⟨.head hready hsteps, hend⟩

theorem anyEnds_of_ends {target : Time} {a b : State (∀ i, κ i)} (h : Ends a target b) :
    AnyEnds a target b := by
  obtain ⟨fuel, events, hrun⟩ := h
  induction fuel generalizing a events with
  | zero => cases hrun
  | succ fuel ih =>
    cases hturn : a.1.turn a.2 target with
    | none =>
      obtain rfl := (ends_of_turn_none hturn).mp ⟨fuel + 1, events, hrun⟩
      refine ⟨0, a, .refl a, ?_, rfl⟩
      rw [turn_eq_serve] at hturn
      split at hturn
      · next hdue => exact hdue
      · cases hturn
    | some out =>
      obtain ⟨event, a'⟩ := out
      simp only [runUntil, hturn] at hrun
      obtain ⟨⟨events', b'⟩, hrest, heq⟩ := Option.map_eq_some_iff.mp hrun
      cases heq
      obtain ⟨n, c, hsteps, hdone, hb⟩ := ih events' hrest
      exact ⟨n + 1, c, .head (anyTurn_of_turn hturn) hsteps, hdone, hb⟩

theorem ends_of_steps {target : Time} {k : Nat} {c z : State (∀ i, κ i)} (hlocal : c.1.Local)
    (hdone : target < z.1.earliest.1) (hrest : Steps (ReadyTurn target) k (atTime c 0) (atTime z 0)) :
    Ends c target (atTime z target) := by
  induction k generalizing c with
  | zero =>
    have hsame : atTime c 0 = atTime z 0 := by
      generalize atTime z 0 = z' at hrest
      cases hrest
      rfl
    have hdue : (atTime c 0).1.earliest = (atTime z 0).1.earliest := by rw [hsame]
    have hturn : c.1.turn c.2 target = none := by
      rw [turn_eq_serve]
      exact if_pos (hdue ▸ hdone)
    rw [ends_of_turn_none hturn]
    exact (congrArg (fun a => atTime a target) hsame).symm
  | succ k ih =>
    have hstep : ∃ d, ReadyTurn target (atTime c 0) d := by
      cases hrest with
      | head hfirst => exact ⟨_, hfirst⟩
    obtain ⟨d, who, ⟨-, hready⟩, -⟩ := hstep
    have hdue : c.1.earliest.1 ≤ target := Ready.due hready
    have hturn := c.1.turn_eq_serve c.2 target
    rw [if_neg (BitVec.not_lt.mpr hdue)] at hturn
    obtain ⟨hnext, hlocal'⟩ := (anyTurn_of_turn hturn).ready hlocal
    obtain ⟨m, hm, hrest'⟩ :=
      (independent_fire target).diamond.descend hrest (stuck_atTime hdone) hnext
    obtain rfl : k = m := by omega
    exact (ends_of_turn_some hturn).mpr (ih hlocal' hrest')

/-- From wherever rounds in any order have led, the code's run ends where one run in any
order has ended. -/
theorem AnyEnds.complete {target : Time} {a b c : State (∀ i, κ i)} {n : Nat}
    (h : AnyEnds a target b) (hlocal : a.1.Local) (hsteps : Steps (AnyTurn target) n a c) :
    Ends c target b := by
  obtain ⟨m, z, hrun, hdone, rfl⟩ := h
  obtain ⟨hready, -⟩ := steps_ready hrun hlocal
  obtain ⟨hother, hlocal'⟩ := steps_ready hsteps hlocal
  obtain ⟨k, -, hrest⟩ :=
    (independent_fire target).diamond.complete hready (stuck_atTime hdone) hother
  exact ends_of_steps hlocal' hdone hrest

/-- RUNS COMPOSE AND TIES ARE NOT OBSERVABLE. What a run leaves is determined; cutting it
changes nothing; the loop with ties in any order ends exactly where the code's loop ends,
and whatever rounds it has already made in its own order it can still get there. -/
theorem run_composes (s : Sched (∀ i, κ i)) (world : ∀ i, κ i) (hlocal : s.Local) :
    (∀ target b c, Ends (s, world) target b → Ends (s, world) target c → b = c) ∧
    (∀ t₁ t₂, t₁ ≤ t₂ → ∀ b, Ends (s, world) t₂ b ↔
      ∃ c, Ends (s, world) t₁ c ∧ Ends c t₂ b) ∧
    (∀ target b, AnyEnds (s, world) target b ↔ Ends (s, world) target b) ∧
    (∀ target b n c, Ends (s, world) target b → Steps (AnyTurn target) n (s, world) c →
      AnyEnds c target b) := by
  refine ⟨fun target b c => Ends.unique, fun t₁ t₂ hle b => ends_iff_ends_ends hle (s, world) b,
    fun target b => ⟨fun h => h.complete hlocal (.refl _), anyEnds_of_ends⟩,
    fun target b n c h hsteps => ?_⟩
  exact anyEnds_of_ends ((anyEnds_of_ends h).complete hlocal hsteps)

end Local

/-! ## Schedulers a caller can build -/

section Built

variable {κ : Nat → Type}

theorem local_init : (init : Sched (∀ i, κ i)).Local := by
  intro slot step hstep
  have hnone : ((init : Sched (∀ i, κ i)).participantAt slot).step = none := by
    rw [participantAt, init, Vector.getElem?_replicate]
    split <;> rfl
  rw [hnone] at hstep
  cases hstep

theorem Local.add {s : Sched (∀ i, κ i)} (h : s.Local) {hz : BitVec 32}
    {step : Option (Step (∀ i, κ i))}
    (hstep : ∀ slot, (s.add hz step).1 = some slot → ∀ g, step = some g →
      ∃ f, g = localStep slot f) : (s.add hz step).2.Local := by
  unfold Sched.add at hstep ⊢
  cases hclock : clockInit hz with
  | none => exact h
  | some clock =>
    rw [hclock] at hstep
    dsimp only at hstep ⊢
    rcases hattach : s.medium.attach with ⟨_ | slot, medium⟩
    · exact h
    · rw [hattach] at hstep
      intro i g hg
      simp only [participantAt, Vector.getElem?_setIfInBounds] at hg
      split at hg
      · next heq =>
        subst heq
        split at hg
        · exact hstep slot rfl g hg
        · cases hg
      · exact h i g hg

/-- Counts its own calls and sends each cell back turned over. -/
def echoStep (slot : Nat) : Step (Nat → Nat) :=
  @localStep (fun _ => Nat) slot fun count cell _ =>
    (count + 1, [{ clockWindow := !cell.clockWindow, dataWindow := !cell.dataWindow }])

/-- Two nodes on the ring's own frequency, which tie at every bit. -/
def twoEchoes : Sched (Nat → Nat) :=
  ((init.add 12000000 (some (echoStep 0))).2.add 12000000 (some (echoStep 1))).2

theorem local_twoEchoes : @Local (fun _ => Nat) twoEchoes := by
  refine Local.add (Local.add local_init ?_) ?_
  · rintro slot hslot g ⟨⟩
    cases hslot
    exact ⟨_, rfl⟩
  · rintro slot hslot g ⟨⟩
    have hone : some slot = some 1 := hslot.symm.trans (by decide +kernel)
    cases hone
    exact ⟨_, rfl⟩

theorem run_composes_twoEchoes :
    (∀ b, Ends (twoEchoes, fun _ => 0) 4000000 b ↔
      ∃ c, Ends (twoEchoes, fun _ => 0) 2000000 c ∧ Ends c 4000000 b) ∧
    ∀ b, AnyEnds (twoEchoes, fun _ => 0) 4000000 b ↔ Ends (twoEchoes, fun _ => 0) 4000000 b := by
  obtain ⟨-, hcut, hties, -⟩ := @run_composes (fun _ => Nat) twoEchoes (fun _ => 0) local_twoEchoes
  exact ⟨hcut 2000000 4000000 (by decide), hties 4000000⟩

end Built

end Apollo.Ring.Sched
