import Apollo.Lib.Clocks
import Apollo.Ring.MediumDelay
import Apollo.Ring.Sched

/-!
# The scheduler never gains or loses a cycle

The scheduler's deadlines are those of a merge of periodic clocks: the bit clock
under the name `-1` and each node under its slot. `Sched.Follows` is that refinement,
`Follows.turn` is one round of the loop and `Follows.runUntil` the whole of it, and
what `Lib.Merging` says about the merge then holds of the scheduler.

The one thing the merge does not have is a wrapping clock. A target below
`2 ^ 64` less the largest period is what keeps every deadline the loop computes from
wrapping.
-/

namespace Apollo.Ring.Sched

open Apollo.Lib

variable {σ : Type}

/-! ## Deadlines -/

/-- The next deadline of a clock and its period; the bit clock's name is `-1`. -/
def pending (s : Sched σ) : Int → Option (Time × Time)
  | .ofNat i =>
    if i < s.used ∧ (s.participantAt i).present = true then
      some ((s.participantAt i).next, (s.participantAt i).period)
    else none
  | .negSucc 0 => some (s.nextBit, s.bitPeriod)
  | .negSucc _ => none

theorem pending_bit (s : Sched σ) : s.pending (-1) = some (s.nextBit, s.bitPeriod) := rfl

theorem pending_natCast (s : Sched σ) (i : Nat) : s.pending (i : Int) =
    if i < s.used ∧ (s.participantAt i).present = true then
      some ((s.participantAt i).next, (s.participantAt i).period)
    else none := rfl

/-- What the scan has found among the bit clock and the slots below `k`. -/
structure Scanned (s : Sched σ) (k : Nat) (best : Time × Int) : Prop where
  pending : ∃ period, s.pending best.2 = some (best.1, period)
  below : best.2 < k
  first : ∀ who next period, who < (k : Int) → s.pending who = some (next, period) →
    who ≠ best.2 → Before (best.1.toNat, best.2) (next.toNat, who)

theorem Scanned.scan {s : Sched σ} {k : Nat} {best : Time × Int} (hk : k < s.used)
    (h : Scanned s k best) : Scanned s (k + 1) (s.scan best k) := by
  unfold Sched.scan
  dsimp only
  split
  · next hwin =>
    rw [Bool.and_eq_true, decide_eq_true_eq] at hwin
    obtain ⟨hpresent, hearlier⟩ := hwin
    refine ⟨⟨(s.participantAt k).period, ?_⟩, by push_cast; omega,
      fun who next period hlt hpend hne => ?_⟩
    · rw [pending_natCast, if_pos ⟨hk, hpresent⟩]
    · have hold : Before ((s.participantAt k).next.toNat, (k : Int)) (best.1.toNat, best.2) :=
        .inl hearlier
      by_cases hbest : who = best.2
      · obtain ⟨period', hpend'⟩ := h.pending
        rw [hbest, hpend'] at hpend
        cases hpend
        rwa [hbest]
      · push_cast at hlt
        exact hold.trans (h.first who next period (by omega) hpend hbest)
  · next hlose =>
    have hbelow := h.below
    refine ⟨h.pending, by push_cast; omega, fun who next period hlt hpend hne => ?_⟩
    push_cast at hlt
    by_cases hlast : who = k
    · subst hlast
      rw [pending_natCast, Option.ite_none_right_eq_some] at hpend
      obtain ⟨⟨-, hpresent⟩, heq⟩ := hpend
      cases heq
      rw [hpresent, Bool.true_and, decide_eq_true_eq] at hlose
      rcases Nat.lt_or_eq_of_le (Nat.le_of_not_lt hlose) with hlt' | heq
      · exact .inl hlt'
      · exact .inr ⟨heq, hbelow⟩
    · exact h.first who next period (by omega) hpend hne

theorem scanned_earliest (s : Sched σ) : Scanned s s.used s.earliest := by
  have key : ∀ k ≤ s.used, Scanned s k ((List.range k).foldl s.scan (s.nextBit, -1)) := by
    intro k hk
    induction k with
    | zero =>
      refine ⟨⟨_, s.pending_bit⟩, ?_, fun who next period hlt hpend hne => ?_⟩
      · show (-1 : Int) < 0
        decide
      · cases who with
        | ofNat i => exact absurd hlt (Int.not_lt.mpr (Int.natCast_nonneg i))
        | negSucc i =>
          cases i with
          | zero => exact absurd rfl hne
          | succ i => cases hpend
    | succ k ih =>
      rw [List.range_succ, List.foldl_append]
      exact (ih (Nat.le_of_succ_le hk)).scan hk
  exact key s.used le_rfl

theorem pending_lt_used {s : Sched σ} {who : Int} {next period : Time}
    (h : s.pending who = some (next, period)) : who < s.used := by
  cases who with
  | ofNat i =>
    rw [show Int.ofNat i = (i : Int) from rfl, pending_natCast, Option.ite_none_right_eq_some] at h
    exact Int.ofNat_lt.mpr h.1.1
  | negSucc i =>
    have := Int.negSucc_lt_zero i
    omega

/-! ## The medium under the scheduler -/

theorem redriven_transmitAll (m : Medium) (cells : List (Int × Cell)) :
    m.Redriven (transmitAll m cells) := by
  induction cells generalizing m with
  | nil => exact .refl m
  | cons cell cells ih => exact (Medium.redriven_transmit m cell.1 cell.2).trans (ih _)

@[simp] theorem bitTime_modify (m : Medium) (slot : Int) (f : Node → Node) :
    (m.modify slot f).bitTime = m.bitTime := by
  unfold Medium.modify
  split <;> rfl

theorem bitTime_transmitAll (m : Medium) (cells : List (Int × Cell)) :
    (transmitAll m cells).bitTime = m.bitTime := by
  induction cells generalizing m with
  | nil => rfl
  | cons cell cells ih => exact (ih _).trans (bitTime_modify ..)

theorem bitTime_advance (m : Medium) : m.advance.bitTime = m.bitTime + 1 := by
  unfold Medium.advance
  split <;> rfl

/-- Every slot below `used` holds a node in the ring. -/
def Populated (m : Medium) (used : Nat) : Prop :=
  m.slots = used ∧ ∀ i < used, m.drives i = true

theorem Populated.redriven {m m' : Medium} {used : Nat} (h : Populated m used)
    (hre : m.Redriven m') : Populated m' used :=
  ⟨hre.slots.trans h.1, fun i hi => (hre.sameLayout.drives i).trans (h.2 i hi)⟩

theorem Populated.advance {m : Medium} {used : Nat} (h : Populated m used) :
    Populated m.advance used := by
  refine ⟨(Medium.slots_advance m).trans h.1, fun i hi => ?_⟩
  exact ((Medium.sameLayout_advance ⟨i, h.2 i hi⟩).drives i).trans (h.2 i hi)

theorem Populated.attach {m m' : Medium} {used slot : Nat} (h : Populated m used)
    (hattach : m.attach = (some slot, m')) :
    slot = used ∧ used < maxNodes ∧ Populated m' (used + 1) ∧ m'.bitTime = m.bitTime := by
  have hnone : m.node.findIdx? (fun n => !n.attached) = none := by
    rw [List.findIdx?_eq_none_iff]
    intro n hn
    obtain ⟨i, hi, rfl⟩ := List.getElem_of_mem hn
    have hdrive := h.2 i (h.1 ▸ hi)
    rw [Medium.drives, Medium.nodeAt, List.getD_eq_getElem _ _ hi, Bool.and_eq_true] at hdrive
    rw [hdrive.1, Bool.not_true]
  unfold Medium.attach at hattach
  rw [hnone] at hattach
  dsimp only at hattach
  split at hattach
  · cases hattach
  · next hroom =>
    cases hattach
    refine ⟨h.1, h.1 ▸ Nat.lt_of_not_le hroom, ⟨?_, fun i hi => ?_⟩, rfl⟩
    · rw [Medium.slots, List.length_append, ← h.1]
      rfl
    · rcases Nat.lt_or_eq_of_le (Nat.le_of_lt_succ hi) with hlt | rfl
      · have hold := h.2 i hlt
        have hin : i < m.node.length := hlt.trans_eq h.1.symm
        rw [Medium.drives, Medium.nodeAt] at hold ⊢
        rwa [List.getD_append _ _ _ _ hin]
      · have hlen : m.node.length = i := h.1
        have hlast : (m.node ++ [({ attached := true } : Node)]).getD i {} = { attached := true } := by
          rw [List.getD_append_right _ _ _ _ hlen.le, hlen, Nat.sub_self]
          rfl
        simp only [Medium.drives, Medium.nodeAt, hlast]
        rfl

/-! ## One turn -/

/-- The ring's bit clock, which starts with the scheduler. -/
def bitClock : PeriodicClock := ⟨0, bitCellTicks.toNat, by decide⟩

/-- The scheduler is the merge of `clocks`, each of which has fired `count` times
and left its events in `log`. -/
structure Follows (s : Sched σ) (clocks : Int → Option PeriodicClock) (log : List (Nat × Int))
    (count : Int → Nat) : Prop where
  merging : Merging clocks log count
  deadlines : ∀ who, (s.pending who).map (fun p => (p.1.toNat, p.2.toNat)) =
    (clocks who).map fun c => (c.tick (count who), c.period)
  past : ∀ e ∈ log, e.1 ≤ s.now.toNat
  joined : ∀ who c, clocks who = some c → c.start ≤ s.now.toNat
  ahead : ∀ who c, clocks who = some c → s.now.toNat ≤ c.tick (count who)
  bit : clocks (-1) = some bitClock
  bitTime : s.medium.bitTime = BitVec.ofNat 64 (count (-1))
  populated : Populated s.medium s.used
  room : s.used ≤ maxNodes

section Turn

variable {s s' : Sched σ} {clocks : Int → Option PeriodicClock} {log : List (Nat × Int)}
  {count : Int → Nat} {world world' : σ} {target : Time} {event : Time × Int}

theorem Follows.clock (h : s.Follows clocks log count) {who : Int} {next period : Time}
    (hpend : s.pending who = some (next, period)) :
    ∃ c, clocks who = some c ∧ next.toNat = c.tick (count who) ∧ period.toNat = c.period := by
  have hd := h.deadlines who
  rw [hpend, Option.map_some] at hd
  obtain ⟨c, hc, heq⟩ := Option.map_eq_some_iff.mp hd.symm
  simp only [Prod.mk.injEq] at heq
  exact ⟨c, hc, heq.1.symm, heq.2.symm⟩

theorem Follows.pending (h : s.Follows clocks log count) {who : Int} {c : PeriodicClock}
    (hc : clocks who = some c) :
    ∃ next period, s.pending who = some (next, period) ∧ next.toNat = c.tick (count who) ∧
      period.toNat = c.period := by
  have hd := h.deadlines who
  rw [hc, Option.map_some] at hd
  obtain ⟨⟨next, period⟩, hpend, heq⟩ := Option.map_eq_some_iff.mp hd
  simp only [Prod.mk.injEq] at heq
  exact ⟨next, period, hpend, heq.1, heq.2⟩

theorem participantAt_set {v : Vector (Participant σ) maxNodes} {i : Nat} (hi : i < maxNodes)
    (p : Participant σ) (j : Nat) :
    (v.setIfInBounds i p)[j]?.getD {} = if i = j then p else v[j]?.getD {} := by
  rw [Vector.getElem?_setIfInBounds]
  split
  · next h =>
    subst h
    rfl
  · rfl

theorem turn_event (hturn : s.turn world target = some (event, s', world')) :
    event = s.earliest := by
  unfold turn at hturn
  dsimp only at hturn
  split at hturn
  · cases hturn
  · split at hturn
    · cases hturn
      rfl
    · split at hturn <;> cases hturn <;> rfl

theorem turn_eq_some (hturn : s.turn world target = some (event, s', world')) {period : Time}
    (hpend : s.pending event.2 = some (event.1, period)) (hroom : s.used ≤ maxNodes) :
    event.1 ≤ target ∧ s'.now = event.1 ∧ s'.used = s.used ∧
      (∀ who, s'.pending who =
        if who = event.2 then some (event.1 + period, period) else s.pending who) ∧
      s'.medium.bitTime = (if event.2 = -1 then s.medium.bitTime + 1 else s.medium.bitTime) ∧
      (∀ used, Populated s.medium used → Populated s'.medium used) := by
  have hevent := turn_event hturn
  subst hevent
  unfold turn at hturn
  dsimp only at hturn
  split at hturn
  · cases hturn
  · next hdue =>
    have hle : s.earliest.1 ≤ target := BitVec.not_lt.mp hdue
    generalize s.earliest = event at *
    split at hturn
    · next hbit =>
      -- the bit clock: the only name below zero that has a deadline
      have hwho : event.2 = -1 := by
        cases hw : event.2 with
        | ofNat i => rw [hw] at hbit; exact absurd hbit (Int.not_lt.mpr (Int.natCast_nonneg i))
        | negSucc i =>
          rw [hw] at hpend
          cases i with
          | zero => rfl
          | succ i => cases hpend
      rw [hwho, pending_bit, Option.some.injEq, Prod.mk.injEq] at hpend
      obtain ⟨hnext, rfl⟩ := hpend
      cases hturn
      refine ⟨hle, rfl, rfl, fun who => ?_, ?_, fun used h => h.advance⟩
      · rw [hwho, ← hnext]
        rcases who with i | _ | i <;> rfl
      · rw [if_pos hwho, bitTime_advance]
    · next hnode =>
      obtain ⟨i, hi⟩ := Int.eq_ofNat_of_zero_le (Int.not_lt.mp hnode)
      have hne : event.2 ≠ -1 := by omega
      rw [hi, pending_natCast, Option.ite_none_right_eq_some, Option.some.injEq,
        Prod.mk.injEq] at hpend
      obtain ⟨⟨hlt, hpresent⟩, hnext, rfl⟩ := hpend
      -- whatever the callback does to the medium, the deadlines are these
      have hpending : ∀ (medium : Medium) (who : Int),
          ({ s with
              medium
              now := event.1
              participant := s.participant.setIfInBounds event.2.toNat
                { s.participantAt event.2.toNat with
                  next := (s.participantAt event.2.toNat).next +
                    (s.participantAt event.2.toNat).period } } : Sched σ).pending who =
            if who = event.2 then
              some (event.1 + (s.participantAt i).period, (s.participantAt i).period)
            else s.pending who := by
        intro medium who
        have htoNat : event.2.toNat = i := by rw [hi, Int.toNat_natCast]
        rw [htoNat, hi]
        rcases who with j | _ | j
        · rw [show Int.ofNat j = (j : Int) from rfl, pending_natCast, pending_natCast]
          simp only [participantAt, participantAt_set (Nat.lt_of_lt_of_le hlt hroom), Nat.cast_inj]
          by_cases hj : i = j
          · subst hj
            simp only [if_true]
            rw [if_pos ⟨hlt, hpresent⟩, ← hnext]
            rfl
          · simp only [if_neg hj, if_neg (Ne.symm hj)]
            rfl
        · rfl
        · rfl
      split at hturn
      · cases hturn
        exact ⟨hle, rfl, rfl, hpending _, by rw [if_neg hne], fun used h => h⟩
      · cases hturn
        exact ⟨hle, rfl, rfl, hpending _, by rw [if_neg hne, bitTime_transmitAll],
          fun used h => h.redriven (redriven_transmitAll _ _)⟩

theorem Follows.turn_none (h : s.Follows clocks log count) (hturn : s.turn world target = none) :
    ∀ who c, clocks who = some c → target.toNat < c.tick (count who) := by
  intro who c hc
  obtain ⟨next, period, hpend, hnext, -⟩ := h.pending hc
  have hscan := scanned_earliest s
  have hdue : target < s.earliest.1 := by
    unfold turn at hturn
    dsimp only at hturn
    split at hturn
    · next hdue => exact hdue
    · split at hturn
      · cases hturn
      · split at hturn <;> cases hturn
  have hle : s.earliest.1.toNat ≤ next.toNat := by
    by_cases hwho : who = s.earliest.2
    · obtain ⟨period', hpend'⟩ := hscan.pending
      rw [hwho, hpend'] at hpend
      cases hpend
      exact le_rfl
    · rcases hscan.first who next period (pending_lt_used hpend) hpend hwho with hlt | ⟨heq, -⟩
      · exact hlt.le
      · exact heq.le
  have hdue' : target.toNat < s.earliest.1.toNat := hdue
  omega

theorem Follows.turn (h : s.Follows clocks log count)
    (hfit : ∀ who c, clocks who = some c → target.toNat + c.period < 2 ^ 64)
    (hturn : s.turn world target = some (event, s', world')) :
    ∃ c, clocks event.2 = some c ∧ event.1.toNat = c.tick (count event.2) ∧
      event.1.toNat ≤ target.toNat ∧ s'.now = event.1 ∧
      s'.Follows clocks (log ++ [(event.1.toNat, event.2)])
        (Function.update count event.2 (count event.2 + 1)) := by
  have hscan := scanned_earliest s
  obtain ⟨period, hpend⟩ := hscan.pending
  rw [← turn_event hturn] at hscan hpend
  obtain ⟨hle, hnow, hused, hpending, hbitTime, hpop⟩ := turn_eq_some hturn hpend h.room
  obtain ⟨c, hc, htick, hperiod⟩ := h.clock hpend
  have hle' : event.1.toNat ≤ target.toNat := hle
  have hfirst : ∀ j d, clocks j = some d → j ≠ event.2 →
      Before (c.tick (count event.2), event.2) (d.tick (count j), j) := by
    intro j d hd hne
    obtain ⟨next, period', hpend', hnext, -⟩ := h.pending hd
    rw [← htick, ← hnext]
    exact hscan.first j next period' (pending_lt_used hpend') hpend' hne
  have hdeadline : ∀ j d, clocks j = some d → event.1.toNat ≤ d.tick (count j) := by
    intro j d hd
    by_cases hj : j = event.2
    · rw [hj] at hd ⊢
      cases hc.symm.trans hd
      exact htick.le
    · rcases hfirst j d hd hj with hlt | ⟨heq, -⟩
      · exact (htick ▸ hlt).le
      · exact (htick ▸ heq).le
  refine ⟨c, hc, htick, hle', hnow, ?_, fun who => ?_, fun e he => ?_, fun who d hd => ?_,
    fun who d hd => ?_, h.bit, ?_, hused ▸ hpop _ h.populated, hused ▸ h.room⟩
  · rw [htick]
    exact h.merging.fire hc hfirst
  · rw [hpending]
    by_cases hwho : who = event.2
    · have hsum : (event.1 + period).toNat = event.1.toNat + period.toNat := by
        have := hfit event.2 c hc
        rw [BitVec.toNat_add, Nat.mod_eq_of_lt (by omega)]
      rw [if_pos hwho, hwho, hc, Option.map_some, Option.map_some, Function.update_self, hsum,
        c.tick_succ, htick, hperiod]
    · rw [if_neg hwho, Function.update_of_ne hwho]
      exact h.deadlines who
  · rw [hnow]
    rcases List.mem_append.mp he with he | he
    · rcases h.merging.behind e he event.2 c hc with hlt | ⟨heq, -⟩
      · exact (htick.symm ▸ hlt).le
      · exact (htick.symm ▸ heq).le
    · rw [List.mem_singleton.mp he]
  · rw [hnow]
    exact (h.joined who d hd).trans ((h.ahead event.2 c hc).trans htick.ge)
  · rw [hnow]
    by_cases hwho : who = event.2
    · rw [hwho, Function.update_self]
      have := hdeadline who d hd
      rw [hwho] at this
      rw [d.tick_succ]
      omega
    · rw [Function.update_of_ne hwho]
      exact hdeadline who d hd
  · rw [hbitTime, h.bitTime]
    by_cases hbit : event.2 = -1
    · rw [if_pos hbit, hbit, Function.update_self]
      apply BitVec.eq_of_toNat_eq
      have hone : (1 : BitVec 64).toNat = 1 := rfl
      simp only [BitVec.toNat_add, BitVec.toNat_ofNat, hone]
      omega
    · rw [if_neg hbit, Function.update_of_ne (Ne.symm hbit)]

end Turn

/-! ## A whole run -/

/-- An event with its time as a number. -/
def eventAt (event : Time × Int) : Nat × Int := (event.1.toNat, event.2)

/-- Between runs nothing is due: every deadline lies ahead of the present. -/
structure Settled (s : Sched σ) (clocks : Int → Option PeriodicClock) (log : List (Nat × Int))
    (count : Int → Nat) : Prop extends s.Follows clocks log count where
  due : ∀ who c, clocks who = some c → s.now.toNat < c.tick (count who)

section Run

variable {s s' : Sched σ} {clocks : Int → Option PeriodicClock} {log : List (Nat × Int)}
  {count : Int → Nat}

theorem Follows.mem_names (h : s.Follows clocks log count) {who : Int} {c : PeriodicClock}
    (hc : clocks who = some c) : who ∈ Finset.Icc (-1 : Int) maxNodes := by
  obtain ⟨next, period, hpend, -⟩ := h.pending hc
  have hlt := pending_lt_used hpend
  have hroom := h.room
  rw [Finset.mem_Icc]
  refine ⟨?_, by omega⟩
  rcases who with i | _ | i
  · exact (by decide : (-1 : Int) ≤ 0).trans (Int.natCast_nonneg i)
  · exact le_rfl
  · cases hpend

theorem Follows.runUntil (h : s.Follows clocks log count) {target : Time}
    (hfit : ∀ who c, clocks who = some c → target.toNat + c.period < 2 ^ 64)
    (hnow : s.now.toNat ≤ target.toNat) (world : σ) :
    ∃ fuel₀ events s' world' count',
      (∀ fuel ≥ fuel₀, Sched.runUntil fuel s world target = some (events, s', world')) ∧
      s'.Settled clocks (log ++ events.map eventAt) count' ∧ s'.now = target := by
  generalize hn : remaining clocks count target.toNat (Finset.Icc (-1 : Int) maxNodes) = n
  induction n using Nat.strong_induction_on generalizing s log count world with
  | h n ih =>
    cases hturn : s.turn world target with
    | none =>
      refine ⟨1, [], { s with now := target }, world, count, fun fuel hfuel => ?_, ?_, rfl⟩
      · obtain ⟨fuel, rfl⟩ := Nat.exists_eq_add_of_le' hfuel
        simp only [Sched.runUntil, hturn]
      · have hdue := h.turn_none hturn
        rw [List.map_nil, List.append_nil]
        refine ⟨⟨h.merging, fun who => ?_, fun e he => (h.past e he).trans hnow,
          fun who c hc => (h.joined who c hc).trans hnow, fun who c hc => (hdue who c hc).le, h.bit,
          h.bitTime, h.populated, h.room⟩, hdue⟩
        rw [← h.deadlines who]
        rcases who with i | _ | i <;> rfl
    | some out =>
      obtain ⟨event, s₁, world₁⟩ := out
      obtain ⟨c, hc, htick, hle, hnow₁, hfollows⟩ := h.turn hfit hturn
      have hless : remaining clocks (Function.update count event.2 (count event.2 + 1)) target.toNat
          (Finset.Icc (-1 : Int) maxNodes) < n := by
        rw [← hn]
        exact remaining_fire (h.mem_names hc) hc (htick ▸ hle)
      obtain ⟨fuel₀, events, s₂, world₂, count', hrun, hsettled, hnow₂⟩ :=
        ih _ hless hfollows (hnow₁ ▸ hle) world₁ rfl
      refine ⟨fuel₀ + 1, event :: events, s₂, world₂, count', fun fuel hfuel => ?_, ?_, hnow₂⟩
      · obtain ⟨fuel, rfl⟩ := Nat.exists_eq_add_of_le' (Nat.one_le_of_lt hfuel)
        simp only [Sched.runUntil, hturn, hrun fuel (by omega), Option.map_some]
      · rw [List.map_cons]
        rwa [List.append_assoc, List.singleton_append] at hsettled

theorem Settled.add (h : s.Settled clocks log count) {hz : BitVec 32} {step : Option (Step σ)}
    {slot : Option Nat} (hadd : s.add hz step = (slot, s'))
    (hfit : ∀ clock, clockInit hz = some clock → s.now.toNat + clock.period.toNat < 2 ^ 64) :
    s'.now = s.now ∧
      match slot with
      | none => s'.Settled clocks log count
      | some slot => ∃ c, clocks slot = none ∧ c.start = s.now.toNat ∧
          (∃ clock, clockInit hz = some clock ∧ c.period = clock.period.toNat) ∧
          s'.Settled (Function.update clocks slot (some c)) log (Function.update count slot 0) := by
  unfold Sched.add at hadd
  cases hclock : clockInit hz with
  | none =>
    rw [hclock] at hadd
    cases hadd
    exact ⟨rfl, h⟩
  | some clock =>
    rw [hclock] at hadd
    rcases hattach : s.medium.attach with ⟨_ | slot', medium⟩
    · rw [hattach] at hadd
      cases hadd
      have hsame : medium = s.medium := by
        unfold Medium.attach at hattach
        split at hattach
        · cases hattach
        · split at hattach <;> cases hattach
          rfl
      rw [hsame]
      exact ⟨rfl, h⟩
    · rw [hattach] at hadd
      cases hadd
      obtain ⟨rfl, hroom, hpop, htime⟩ := h.populated.attach hattach
      obtain ⟨hpos, -⟩ := period_of_clockInit hclock
      have hfit' := hfit clock hclock
      have hnew : clocks (s.used : Int) = none := by
        have hd := h.deadlines s.used
        rw [pending_natCast, if_neg fun hc => lt_irrefl _ hc.1, Option.map_none] at hd
        exact Option.map_eq_none_iff.mp hd.symm
      have hne : (-1 : Int) ≠ (s.used : Int) := by omega
      have hpending : ∀ who : Int, ({ s with
          medium
          participant := s.participant.setIfInBounds s.used
            { present := true, period := clock.period, next := s.now + clock.period, step }
          used := if s.used ≤ s.used then s.used + 1 else s.used } : Sched σ).pending who =
          if who = s.used then some (s.now + clock.period, clock.period) else s.pending who := by
        intro who
        rcases who with j | _ | j
        · rw [show Int.ofNat j = (j : Int) from rfl, pending_natCast, pending_natCast]
          simp only [participantAt, participantAt_set hroom, Nat.cast_inj, le_refl, if_true]
          by_cases hj : j = s.used
          · subst hj
            simp only [if_true, Nat.lt_succ_self, and_self]
          · have hiff : j < s.used + 1 ↔ j < s.used := by omega
            simp only [if_neg hj, if_neg (Ne.symm hj), hiff]
            rfl
        · rfl
        · rfl
      have hsum : (s.now + clock.period).toNat = s.now.toNat + clock.period.toNat := by
        rw [BitVec.toNat_add, Nat.mod_eq_of_lt hfit']
      -- every clock that was there keeps its deadline
      have hold : ∀ who c, Function.update clocks (s.used : Int)
            (some ⟨s.now.toNat, clock.period.toNat, hpos⟩) who = some c →
          (who = s.used ∧ c = ⟨s.now.toNat, clock.period.toNat, hpos⟩) ∨
            (who ≠ s.used ∧ clocks who = some c) := by
        intro who c hc
        by_cases hwho : who = s.used
        · rw [hwho, Function.update_self] at hc
          exact .inl ⟨hwho, (Option.some.inj hc).symm⟩
        · rw [Function.update_of_ne hwho] at hc
          exact .inr ⟨hwho, hc⟩
      have hdue : ∀ who c, Function.update clocks (s.used : Int)
            (some ⟨s.now.toNat, clock.period.toNat, hpos⟩) who = some c →
          s.now.toNat < c.tick (Function.update count (s.used : Int) 0 who) := by
        intro who c hc
        rcases hold who c hc with ⟨rfl, rfl⟩ | ⟨hwho, hc⟩
        · exact PeriodicClock.start_lt_tick ⟨s.now.toNat, clock.period.toNat, hpos⟩ _
        · rw [Function.update_of_ne hwho]
          exact h.due who c hc
      refine ⟨rfl, ⟨s.now.toNat, clock.period.toNat, hpos⟩, hnew, rfl, ⟨clock, rfl, rfl⟩,
        ⟨⟨h.merging.join hnew _ h.past, fun who => ?_, h.past, fun who c hc => ?_,
          fun who c hc => (hdue who c hc).le, ?_, ?_, ?_, ?_⟩, hdue⟩⟩
      · rw [hpending]
        by_cases hwho : who = s.used
        · rw [if_pos hwho, hwho, Function.update_self, Function.update_self, Option.map_some,
            Option.map_some, hsum]
          simp only [PeriodicClock.tick, zero_add, one_mul]
        · rw [if_neg hwho, Function.update_of_ne hwho, Function.update_of_ne hwho]
          exact h.deadlines who
      · rcases hold who c hc with ⟨-, rfl⟩ | ⟨-, hc⟩
        · exact le_rfl
        · exact h.joined who c hc
      · rw [Function.update_of_ne hne]
        exact h.bit
      · rw [Function.update_of_ne hne]
        exact htime.trans h.bitTime
      · simp only [le_refl, if_true]
        exact hpop
      · simp only [le_refl, if_true]
        exact hroom

theorem settled_init : (init : Sched σ).Settled
    (Function.update (fun _ => none) (-1) (some bitClock)) []
    (Function.update (fun _ => 0) (-1) 0) := by
  have hpending : ∀ who : Int, (init : Sched σ).pending who =
      if who = -1 then some (bitCellTicks, bitCellTicks) else none := by
    intro who
    rcases who with i | _ | i
    · rw [show Int.ofNat i = (i : Int) from rfl, pending_natCast,
        if_neg fun h => Nat.not_lt_zero i h.1, if_neg (by omega)]
    · rfl
    · rfl
  have hclock : ∀ who c, Function.update (fun _ : Int => (none : Option PeriodicClock)) (-1)
      (some bitClock) who = some c →
      who = -1 ∧ c = bitClock := by
    intro who c hc
    by_cases hwho : who = -1
    · rw [hwho, Function.update_self] at hc
      exact ⟨hwho, (Option.some.inj hc).symm⟩
    · rw [Function.update_of_ne hwho] at hc
      cases hc
  refine ⟨⟨Merging.nil.join rfl _ fun e he => (nomatch he), fun who => ?_, fun e he => (nomatch he),
    fun who c hc => ?_, fun who c hc => Nat.zero_le _, Function.update_self .., ?_,
    ⟨rfl, fun i hi => absurd hi (Nat.not_lt_zero i)⟩, Nat.zero_le _⟩, fun who c hc => ?_⟩
  · rw [hpending]
    by_cases hwho : who = -1
    · subst hwho
      rfl
    · simp only [if_neg hwho, Function.update_of_ne hwho, Option.map_none]
  · rw [(hclock who c hc).2]
    exact Nat.zero_le _
  · rw [Function.update_self]
    rfl
  · rw [(hclock who c hc).2]
    exact PeriodicClock.start_lt_tick bitClock _

theorem period_init {largest : Nat} (hbit : bitCellTicks.toNat ≤ largest) (who : Int)
    (c : PeriodicClock) (hc : Function.update (fun _ : Int => (none : Option PeriodicClock)) (-1)
      (some bitClock) who = some c) : c.period ≤ largest := by
  by_cases hwho : who = -1
  · rw [hwho, Function.update_self] at hc
    cases hc
    exact hbit
  · rw [Function.update_of_ne hwho] at hc
    cases hc

/-- The targets of a caller's runs, in order. -/
def targets (cmds : List (Command σ)) : List Time :=
  cmds.filterMap fun cmd => match cmd with
    | .add .. => none
    | .runUntil target => some target

/-- No deadline wraps: periods are at most `largest`, and every target leaves room
for one more period. -/
structure Bounded (cmds : List (Command σ)) (largest : Nat) : Prop where
  bit : bitCellTicks.toNat ≤ largest
  nodes : ∀ hz step, .add hz step ∈ cmds →
    ∀ clock, clockInit hz = some clock → clock.period.toNat ≤ largest
  targets : ∀ target ∈ targets cmds, target.toNat < 2 ^ 64 - largest

theorem runUntil_mono {fuel fuel' : Nat} {s : Sched σ} {world : σ} {target : Time}
    {out : List (Time × Int) × Sched σ × σ} (h : Sched.runUntil fuel s world target = some out)
    (hle : fuel ≤ fuel') : Sched.runUntil fuel' s world target = some out := by
  induction fuel generalizing fuel' s world out with
  | zero => cases h
  | succ fuel ih =>
    obtain ⟨fuel', rfl⟩ := Nat.exists_eq_add_of_le' (Nat.one_le_of_lt hle)
    simp only [Sched.runUntil] at h ⊢
    split at h
    · exact h
    · next event s₁ world₁ hturn =>
      obtain ⟨rest, hrest, heq⟩ := Option.map_eq_some_iff.mp h
      rw [ih hrest (by omega), Option.map_some, heq]

/-- What a caller who added a node knows of its clock afterwards. -/
def Added (clocks : Int → Option PeriodicClock) (s : Sched σ) (world : σ)
    (cmds : List (Command σ)) : Prop :=
  ∀ cmds₁ hz step cmds₂, cmds = cmds₁ ++ .add hz step :: cmds₂ →
    ∀ fuel events₁ s₁ world₁, exec fuel cmds₁ s world = some (events₁, s₁, world₁) →
      ∀ slot s₂, s₁.add hz step = (some slot, s₂) →
        ∃ c clock, clocks slot = some c ∧ clockInit hz = some clock ∧ c.start = s₁.now.toNat ∧
          c.period = clock.period.toNat

theorem Settled.exec (h : s.Settled clocks log count) {cmds : List (Command σ)} {largest : Nat}
    (hbound : Bounded cmds largest) (hmono : (targets cmds).Pairwise (·.toNat ≤ ·.toNat))
    (hnow : ∀ target ∈ targets cmds, s.now.toNat ≤ target.toNat)
    (hnowFit : ∀ p ≤ largest, p < 2 ^ 64 → s.now.toNat + p < 2 ^ 64)
    (hperiods : ∀ who c, clocks who = some c → c.period ≤ largest) (world : σ) :
    ∃ fuel₀ events s' world' clocks' count',
      (∀ fuel ≥ fuel₀, Sched.exec fuel cmds s world = some (events, s', world')) ∧
      s'.Settled clocks' (log ++ events.map eventAt) count' ∧
      s'.now = (targets cmds).getLastD s.now ∧
      (∀ who c, clocks who = some c → clocks' who = some c) ∧ Added clocks' s world cmds := by
  induction cmds generalizing s log clocks count world with
  | nil =>
    refine ⟨0, [], s, world, clocks, count, fun _ _ => rfl, ?_, rfl, fun _ _ hc => hc,
      fun cmds₁ _ _ _ heq => ?_⟩
    · rwa [List.map_nil, List.append_nil]
    · exact absurd heq.symm (List.append_ne_nil_of_right_ne_nil _ (List.cons_ne_nil _ _))
  | cons cmd cmds ih =>
    have hbound' : Bounded cmds largest := by
      refine ⟨hbound.bit, fun hz step hmem => hbound.nodes hz step (List.mem_cons_of_mem _ hmem),
        fun target hmem => hbound.targets target ?_⟩
      cases cmd with
      | add => exact hmem
      | runUntil => exact List.mem_cons_of_mem _ hmem
    cases cmd with
    | add hz step =>
      rcases hadd : s.add hz step with ⟨slot, s₁⟩
      have hfit : ∀ clock, clockInit hz = some clock →
          s.now.toNat + clock.period.toNat < 2 ^ 64 := fun clock hclock =>
        hnowFit _ (hbound.nodes hz step List.mem_cons_self clock hclock) clock.period.isLt
      obtain ⟨hsame, hresult⟩ := h.add hadd hfit
      -- both answers of the call leave a scheduler that is settled on clocks that include these
      have hnext : ∃ clocks₁ count₁, s₁.Settled clocks₁ log count₁ ∧
          (∀ who d, clocks who = some d → clocks₁ who = some d) ∧
          (∀ who d, clocks₁ who = some d → d.period ≤ largest) ∧
          ∀ slot', slot = some slot' → ∃ c clock, clocks₁ slot' = some c ∧
            clockInit hz = some clock ∧ c.start = s.now.toNat ∧ c.period = clock.period.toNat := by
        cases slot with
        | none => exact ⟨clocks, count, hresult, fun _ _ hd => hd, hperiods, fun _ heq => nomatch heq⟩
        | some slot =>
          obtain ⟨c, hnew, hstart, ⟨clock, hclock, hperiod⟩, hjoined⟩ := hresult
          refine ⟨_, _, hjoined, fun who d hd => ?_, fun who d hd => ?_, fun slot' heq => ?_⟩
          · have hwho : who ≠ slot := fun heq => by
              rw [heq, hnew] at hd
              cases hd
            rwa [Function.update_of_ne hwho]
          · by_cases hwho : who = slot
            · rw [hwho, Function.update_self] at hd
              cases hd
              exact hperiod ▸ hbound.nodes hz step List.mem_cons_self clock hclock
            · rw [Function.update_of_ne hwho] at hd
              exact hperiods who d hd
          · cases heq
            exact ⟨c, clock, Function.update_self .., hclock, hstart, hperiod⟩
      obtain ⟨clocks₁, count₁, hsettled₁, hkeep₁, hperiods₁, hadded⟩ := hnext
      obtain ⟨fuel₀, events, s', world', clocks', count', hrun, hsettled, hlast, hkeep, hlater⟩ :=
        ih hsettled₁ hbound' hmono (by rwa [hsame]) (by rwa [hsame]) hperiods₁ world
      refine ⟨fuel₀, events, s', world', clocks', count', fun fuel hfuel => ?_, hsettled,
        hsame ▸ hlast, fun who d hd => hkeep who d (hkeep₁ who d hd),
        fun cmds₁ hz' step' cmds₂ heq fuel events₁ s₂ world₂ hexec slot' s₃ hadd' => ?_⟩
      · simp only [Sched.exec, hadd, hrun fuel hfuel]
      · cases cmds₁ with
        | nil =>
          cases heq
          cases hexec
          obtain ⟨c, clock, hc, hrest⟩ := hadded slot' (by rw [hadd] at hadd'; cases hadd'; rfl)
          exact ⟨c, clock, hkeep _ c hc, hrest⟩
        | cons cmd cmds₁ =>
          cases heq
          simp only [Sched.exec, hadd] at hexec
          exact hlater cmds₁ hz' step' cmds₂ rfl fuel events₁ s₂ world₂ hexec slot' s₃ hadd'
    | runUntil target =>
      have hmem : target ∈ targets (Command.runUntil target :: cmds) := List.mem_cons_self
      have hlarge := hbound.targets target hmem
      have hfit : ∀ who c, clocks who = some c → target.toNat + c.period < 2 ^ 64 := by
        intro who c hc
        have := hperiods who c hc
        omega
      obtain ⟨fuel₁, events₁, s₁, world₁, count₁, hrun₁, hsettled₁, hnow₁⟩ :=
        h.toFollows.runUntil hfit (hnow target hmem) world
      obtain ⟨hfirst, hmono'⟩ := List.pairwise_cons.mp hmono
      obtain ⟨fuel₂, events₂, s₂, world₂, clocks₂, count₂, hrun₂, hsettled₂, hlast, hkeep, hlater⟩ :=
        ih hsettled₁ hbound' hmono' (fun t ht => hnow₁ ▸ hfirst t ht)
          (fun p hp _ => by rw [hnow₁]; omega) hperiods world₁
      refine ⟨max fuel₁ fuel₂, events₁ ++ events₂, s₂, world₂, clocks₂, count₂,
        fun fuel hfuel => ?_, ?_, ?_, hkeep,
        fun cmds₁ hz' step' cmds₂ heq fuel events s₃ world₃ hexec slot' s₄ hadd' => ?_⟩
      · simp only [Sched.exec, hrun₁ fuel (le_of_max_le_left hfuel),
          hrun₂ fuel (le_of_max_le_right hfuel), Option.map_some]
      · rwa [List.map_append, ← List.append_assoc]
      · rw [hlast, hnow₁]
        exact (List.getLastD_cons ..).symm
      · cases cmds₁ with
        | nil => cases heq
        | cons cmd cmds₁ =>
          cases heq
          simp only [Sched.exec] at hexec
          split at hexec
          · cases hexec
          · next events' s' world' hrun =>
            have hsame := runUntil_mono hrun (le_max_left fuel fuel₁)
            rw [hrun₁ _ (le_max_right fuel fuel₁)] at hsame
            cases hsame
            obtain ⟨out, hout, hpair⟩ := Option.map_eq_some_iff.mp hexec
            cases hpair
            exact hlater cmds₁ hz' step' cmds₂ rfl fuel _ _ _ hout slot' s₄ hadd'

end Run

/-- The events and the scheduler a caller's commands leave are exact. -/
structure Exact (cmds : List (Command σ)) (world : σ) (events : List (Time × Int)) (s : Sched σ) :
    Prop where
  /-- The runs went to the last target. -/
  now : s.now = (targets cmds).getLastD 0
  /-- Times do not decrease, and at one time the bit clock comes first and lower
  slots before higher. -/
  sorted : (events.map eventAt).Pairwise Before
  /-- The bit clock ticked at every multiple of its period. -/
  bitClock : firings (events.map eventAt) (-1) =
    (List.range (s.now.toNat / bitCellTicks.toNat)).map fun k => (k + 1) * bitCellTicks.toNat
  /-- And the medium advanced as often. -/
  advanced : s.medium.bitTime = BitVec.ofNat 64 (s.now.toNat / bitCellTicks.toNat)
  /-- A node that joined after some of the commands was stepped at every multiple of
  its own period since. -/
  nodes : ∀ cmds₁ hz step cmds₂, cmds = cmds₁ ++ .add hz step :: cmds₂ →
    ∀ fuel events₁ s₁ world₁, exec fuel cmds₁ init world = some (events₁, s₁, world₁) →
    ∀ slot s₂, s₁.add hz step = (some slot, s₂) →
      ∃ clock, clockInit hz = some clock ∧ firings (events.map eventAt) slot =
        (List.range ((s.now.toNat - s₁.now.toNat) / clock.period.toNat)).map
          fun k => s₁.now.toNat + (k + 1) * clock.period.toNat

/-- A 25 MHz node and, later, one on the ring's own frequency. -/
def twoNodes : List (Command Unit) :=
  [.add 25000000 none, .runUntil 2000000, .add 12000000 none, .runUntil 9000000]

theorem targets_twoNodes : targets twoNodes = [2000000, 9000000] := rfl

theorem bounded_twoNodes : Bounded twoNodes bitCellTicks.toNat := by
  have hfast : clockInit 25000000 = some { hz := 25000000, period := 861696 } := by decide +kernel
  have hring : clockInit 12000000 = some { hz := 12000000, period := 1795200 } := by decide +kernel
  have hticks : bitCellTicks = 1795200 := by decide +kernel
  rw [hticks]
  refine ⟨hticks ▸ le_rfl, fun hz step hmem clock hclock => ?_, fun target htarget => ?_⟩
  · simp only [twoNodes, List.mem_cons, List.not_mem_nil, or_false, Command.add.injEq, reduceCtorEq,
      false_or] at hmem
    rcases hmem with ⟨rfl, -⟩ | ⟨rfl, -⟩
    · rw [← Option.some.inj (hfast.symm.trans hclock)]
      decide
    · rw [← Option.some.inj (hring.symm.trans hclock)]
  · rw [targets_twoNodes] at htarget
    have hlimit : (9000000 : Time).toNat < 2 ^ 64 - (1795200 : Time).toNat := by
      change 9000000 < 2 ^ 64 - 1795200
      norm_num
    simp only [List.mem_cons, List.not_mem_nil, or_false] at htarget
    rcases htarget with rfl | rfl
    · exact (by decide : (2000000 : Time).toNat < (9000000 : Time).toNat).trans hlimit
    · exact hlimit

end Apollo.Ring.Sched
