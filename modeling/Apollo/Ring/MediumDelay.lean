import Apollo.Ring.Medium

/-!
# The medium is a set of delay lines

What stands on the wire in front of a slot is decided by looking upstream: the
first node in the ring drives it, every cable in between delays it and every
bypassed node passes it on. `Medium.arriving` is that reading of the ring, and
`Medium.advanceFrom_nodeAt` says that the two passes of `ap_ring_medium_advance`
compute it, wherever the walk starts.

`Medium.advance_delay` follows it through time. `Lib.DelayLine.through_trace` gives
each cable's delay, and along a run of bypassed nodes the delays add up.
-/

namespace Apollo.Ring.Medium

open Apollo.Lib

/-! ## Going round -/

section Round

variable {m : Medium} {i d : Nat}

theorem back_eq (hi : i < m.slots) (hd : d ≤ m.slots) :
    m.back i d = if d ≤ i then i - d else i + m.slots - d := by
  unfold back
  split
  · next h =>
    rw [show i + m.slots - d = (i - d) + m.slots by omega, Nat.add_mod_right,
      Nat.mod_eq_of_lt (by omega)]
  · next h => rw [Nat.mod_eq_of_lt (by omega)]

theorem back_lt (hi : i < m.slots) (hd : d ≤ m.slots) : m.back i d < m.slots := by
  rw [back_eq hi hd]
  split <;> omega

theorem back_back (hi : i < m.slots) (hd : d < m.slots) :
    m.back (m.back i 1) d = m.back i (d + 1) := by
  rw [back_eq (back_lt hi (by omega)) (by omega), back_eq hi (by omega), back_eq hi (by omega)]
  split <;> split <;> split <;> omega

theorem exists_back_eq {k : Nat} (hi : i < m.slots) (hk : k < m.slots) :
    ∃ d < m.slots, m.back i (d + 1) = k := by
  by_cases h : k < i
  · refine ⟨i - k - 1, by omega, ?_⟩
    rw [back_eq hi (by omega)]
    split <;> omega
  · refine ⟨i + m.slots - k - 1, by omega, ?_⟩
    rw [back_eq hi (by omega)]
    split <;> omega

theorem wrap_eq {a : Nat} (ha : a < 2 * m.slots) :
    a % m.slots = if a < m.slots then a else a - m.slots := by
  split
  · next h => exact Nat.mod_eq_of_lt h
  · next h => rw [Nat.mod_eq_sub_mod (by omega), Nat.mod_eq_of_lt (by omega)]

theorem back_succ (hi : i < m.slots) : m.back ((i + 1) % m.slots) 1 = i := by
  have hnext : (i + 1) % m.slots < m.slots := Nat.mod_lt _ (by omega)
  rw [back_eq hnext (by omega), wrap_eq (by omega)]
  split <;> split <;> omega

theorem succ_back (hi : i < m.slots) (hd : d < m.slots) :
    (m.back i (d + 1) + 1) % m.slots = m.back i d := by
  have hb := back_lt (m := m) hi (d := d + 1) hd
  rw [wrap_eq (by omega), back_eq hi (by omega), back_eq hi (by omega)]
  split <;> split <;> split <;> omega

end Round

/-! ## The wire in front of a slot -/

/-- The slot's node puts its own cell on its cable. -/
def drives (m : Medium) (i : Nat) : Bool := (m.nodeAt i).attached && (m.nodeAt i).inRing

/-- The cell on the wire in front of a slot, looking `fuel` slots upstream. -/
def wireFrom (m : Medium) : Nat → Nat → Cell
  | 0, _ => {}
  | fuel + 1, i =>
    let j := m.back i 1
    let n := m.nodeAt j
    if n.attached then n.cable.through (if n.inRing then n.driving else m.wireFrom fuel j)
    else m.wireFrom fuel j

/-- The cell on the wire in front of a slot. -/
def arriving (m : Medium) (i : Nat) : Cell := m.wireFrom m.slots i

/-- What a slot puts on its cable. -/
def input (m : Medium) (i : Nat) : Cell :=
  if (m.nodeAt i).inRing then (m.nodeAt i).driving else m.arriving i

/-- What leaves a slot's cable. -/
def output (m : Medium) (i : Nat) : Cell := (m.nodeAt i).cable.through (m.input i)

/-- A node in the ring stands within `fuel` slots upstream. -/
def Sourced (m : Medium) : Nat → Nat → Prop
  | 0, _ => False
  | fuel + 1, i => m.drives (m.back i 1) = true ∨ Sourced m fuel (m.back i 1)

section Wire

variable {m : Medium}

theorem drives_lt {i : Nat} (h : m.drives i = true) : i < m.slots := by
  by_contra hge
  have hempty : m.nodeAt i = {} := by
    rw [nodeAt, List.getD_eq_getElem?_getD, List.getElem?_eq_none (Nat.le_of_not_lt hge)]
    rfl
  rw [drives, hempty] at h
  cases h

theorem Sourced.of_back {i d : Nat} (hi : i < m.slots) (hd : d < m.slots)
    (h : m.drives (m.back i (d + 1)) = true) {fuel : Nat} (hfuel : d < fuel) :
    m.Sourced fuel i := by
  induction d generalizing i fuel with
  | zero =>
    obtain ⟨fuel, rfl⟩ := Nat.exists_eq_add_of_lt hfuel
    exact .inl h
  | succ d ih =>
    obtain ⟨fuel, rfl⟩ : ∃ f, fuel = f + 1 := ⟨fuel - 1, by omega⟩
    right
    refine ih (back_lt hi (by omega)) (by omega) ?_ (by omega)
    rwa [back_back hi hd]

theorem sourced (hring : ∃ k, m.drives k = true) {i : Nat} (hi : i < m.slots) :
    m.Sourced m.slots i := by
  obtain ⟨k, hk⟩ := hring
  obtain ⟨d, hd, hback⟩ := exists_back_eq hi (drives_lt hk)
  exact .of_back hi hd (by rwa [hback]) hd

theorem wireFrom_eq {fuel fuel' i : Nat} (h : m.Sourced fuel i) (h' : m.Sourced fuel' i) :
    m.wireFrom fuel i = m.wireFrom fuel' i := by
  induction fuel generalizing fuel' i with
  | zero => exact h.elim
  | succ fuel ih =>
    cases fuel' with
    | zero => exact h'.elim
    | succ fuel' =>
      simp only [wireFrom]
      by_cases hd : m.drives (m.back i 1) = true
      · have hboth := Bool.and_eq_true_iff.mp hd
        rw [if_pos hboth.1, if_pos hboth.1, if_pos hboth.2, if_pos hboth.2]
      · rw [ih (h.resolve_left hd) (h'.resolve_left hd)]

theorem arriving_succ (hring : ∃ k, m.drives k = true) {i : Nat} (hi : i < m.slots) :
    m.arriving ((i + 1) % m.slots) = if (m.nodeAt i).attached then m.output i else m.arriving i := by
  have hnext := sourced hring (Nat.mod_lt (i + 1) (Nat.zero_lt_of_lt hi))
  have hself := sourced hring hi
  unfold arriving at *
  generalize hfuel : m.slots = fuel at hnext hself hi
  cases fuel with
  | zero => exact absurd hi (Nat.not_lt_zero i)
  | succ fuel =>
    have hback : m.back ((i + 1) % (fuel + 1)) 1 = i := by
      rw [← hfuel]
      exact back_succ (by omega)
    rw [wireFrom, hback]
    rw [Sourced, hback] at hnext
    have hrec : m.drives i = false → m.wireFrom fuel i = m.wireFrom (fuel + 1) i := by
      intro hnot
      rw [hnot] at hnext
      exact wireFrom_eq (hnext.resolve_left Bool.false_ne_true) hself
    unfold output input arriving
    rw [hfuel]
    cases hatt : (m.nodeAt i).attached with
    | false =>
      rw [if_neg Bool.false_ne_true, if_neg Bool.false_ne_true]
      exact hrec (by rw [drives, hatt, Bool.false_and])
    | true =>
      rw [if_pos rfl, if_pos rfl]
      cases hin : (m.nodeAt i).inRing with
      | true => rfl
      | false =>
        rw [if_neg Bool.false_ne_true, if_neg Bool.false_ne_true,
          hrec (by rw [drives, hin, Bool.and_false])]

theorem output_attachedUpstreamOf (hring : ∃ k, m.drives k = true) {i : Nat} (hi : i < m.slots) :
    m.attachedUpstreamOf i < m.slots ∧ (m.nodeAt (m.attachedUpstreamOf i)).attached = true ∧
      m.output (m.attachedUpstreamOf i) = m.arriving i := by
  have hpos : 0 < m.slots := Nat.zero_lt_of_lt hi
  unfold attachedUpstreamOf
  split
  · next step hfind =>
    obtain ⟨hatt, hlt, hskip⟩ := List.find?_range_eq_some.mp hfind
    rw [List.mem_range] at hlt
    refine ⟨back_lt hi hlt, hatt, ?_⟩
    -- nothing but empty slots between the two
    have key : ∀ d ≤ step, m.arriving (m.back i d) = m.arriving i := by
      intro d hd
      induction d with
      | zero => rw [back_eq hi (Nat.zero_le _), if_pos (Nat.zero_le i), Nat.sub_zero]
      | succ d ih =>
        have hempty : (m.nodeAt (m.back i (d + 1))).attached = false :=
          Bool.not_eq_eq_eq_not.mp (hskip d hd)
        have hsucc := arriving_succ hring (back_lt (m := m) hi (d := d + 1) (by omega))
        rw [succ_back hi (by omega), hempty, if_neg Bool.false_ne_true] at hsucc
        rw [← hsucc]
        exact ih (by omega)
    have hsucc := arriving_succ hring (back_lt (m := m) hi (d := step + 1) hlt)
    rw [succ_back hi hlt, if_pos hatt, key step le_rfl] at hsucc
    exact hsucc.symm
  · next hnone =>
    obtain ⟨k, hk⟩ := hring
    obtain ⟨d, hd, hback⟩ := exists_back_eq hi (drives_lt hk)
    have hno := List.find?_range_eq_none.mp hnone d hd
    rw [hback, (Bool.and_eq_true_iff.mp hk).1] at hno
    cases hno

end Wire

/-! ## The walk computes it -/

/-- How many steps behind the start of a walk a slot is visited. -/
def walkOrder (m : Medium) (first i : Nat) : Nat :=
  if first ≤ i then i - first else i + m.slots - first

theorem walkOrder_lt {m : Medium} {first i : Nat} (hfirst : first < m.slots) (hi : i < m.slots) :
    m.walkOrder first i < m.slots := by
  unfold walkOrder
  split <;> omega

theorem walkOrder_eq_iff {m : Medium} {first i k : Nat} (hfirst : first < m.slots)
    (hi : i < m.slots) (hk : k < m.slots) :
    m.walkOrder first i = k ↔ (first + k) % m.slots = i := by
  rw [wrap_eq (by omega), walkOrder]
  constructor <;> intro h <;> split at h <;> split <;> omega

/-- Attach what a slot puts on its cable to the slot. -/
def shiftCable (m : Medium) (i : Nat) : Node :=
  { m.nodeAt i with cable := (m.nodeAt i).cable.shift (m.input i) }

/-- The walk after `k` slots: those it has visited have taken their cell in and
show what leaves them, the others are as they were, and what it carries stands in
front of the next one. -/
structure Walked (m : Medium) (first k : Nat) (w : Walk) : Prop where
  lengthNode : w.node.length = m.slots
  lengthCable : w.fromCable.length = m.slots
  node : ∀ i < m.slots, w.node.getD i {} =
    if m.walkOrder first i < k ∧ (m.nodeAt i).attached = true then m.shiftCable i else m.nodeAt i
  fromCable : ∀ i < m.slots, w.fromCable.getD i {} =
    if m.walkOrder first i < k ∧ (m.nodeAt i).attached = true then m.output i
    else m.fromCable.getD i {}
  carried : 0 < k → w.carried = m.arriving ((first + k) % m.slots)

theorem getD_fromCable {m : Medium} {i : Nat} (hi : i < m.slots) :
    m.fromCable.getD i {} =
      if h : (m.nodeAt i).attached ∧ 0 < (m.nodeAt i).cable.bits
        then (m.nodeAt i).cable.oldest h.2 else {} := by
  have hnode : m.nodeAt i = m.node[i] := List.getD_eq_getElem _ _ hi
  unfold Medium.fromCable
  rw [hnode, List.getD_eq_getElem _ _ (by rw [List.length_map]; exact hi), List.getElem_map]
  rfl

theorem getD_set {α : Type} {l : List α} {i : Nat} (hi : i < l.length) (x d : α) (j : Nat) :
    (l.set i x).getD j d = if i = j then x else l.getD j d := by
  rw [List.getD_eq_getElem?_getD, List.getD_eq_getElem?_getD, List.getElem?_set]
  split
  · next h => rfl
  · rfl

theorem Walk.visit_eq {w : Walk} {n : Node} {i : Nat} {x : Cell} (hn : w.node.getD i {} = n)
    (hatt : n.attached = true) (hi : i < w.fromCable.length)
    (hold : ∀ h : 0 < n.cable.bits, w.fromCable.getD i {} = n.cable.oldest h)
    (hx : (if n.inRing then n.driving else w.carried) = x) :
    w.visit i =
      { node := w.node.set i { n with cable := n.cable.shift x }
        fromCable := w.fromCable.set i (n.cable.through x)
        carried := n.cable.through x } := by
  unfold Walk.visit DelayLine.shift DelayLine.through
  dsimp only
  rw [hn, if_neg (by rw [hatt]; exact Bool.false_ne_true), hx]
  by_cases h : 0 < n.cable.bits
  · rw [dif_pos h, dif_pos h, dif_pos h]
    have hget : w.fromCable[i] = n.cable.oldest h := by
      rw [← hold h, List.getD_eq_getElem _ _ hi]
    rw [hold h, ← hget, List.set_getElem_self]
  · rw [dif_neg h, dif_neg h, dif_neg h]
    have hnode : w.node.set i n = w.node := by
      by_cases hlt : i < w.node.length
      · rw [← hn, List.getD_eq_getElem _ _ hlt, List.set_getElem_self]
      · rw [List.set_eq_of_length_le (Nat.le_of_not_lt hlt)]
    rw [getD_set hi, if_pos rfl, hnode]

theorem Walk.visit_empty {w : Walk} {i : Nat} (h : (w.node.getD i {}).attached = false) :
    w.visit i = w := by
  unfold Walk.visit
  simp only [h, Bool.not_false, if_true]

theorem Walked.visit {m : Medium} {first k : Nat} {w : Walk} (hdrive : m.drives first = true)
    (hk : k < m.slots) (h : m.Walked first k w) :
    m.Walked first (k + 1) (w.visit ((first + k) % m.slots)) := by
  have hfirst := drives_lt hdrive
  have hi : (first + k) % m.slots < m.slots := Nat.mod_lt _ (by omega)
  have hturn : ∀ j < m.slots, m.walkOrder first j < k + 1 ↔
      m.walkOrder first j < k ∨ (first + k) % m.slots = j := by
    intro j hj
    rw [← walkOrder_eq_iff hfirst hj hk]
    omega
  have hnot : ¬ m.walkOrder first ((first + k) % m.slots) < k := by
    rw [(walkOrder_eq_iff hfirst hi hk).mpr rfl]
    exact lt_irrefl k
  have hnode : w.node.getD ((first + k) % m.slots) {} = m.nodeAt ((first + k) % m.slots) := by
    rw [h.node _ hi, if_neg fun hc => hnot hc.1]
  have hsucc : (first + (k + 1)) % m.slots = ((first + k) % m.slots + 1) % m.slots := by
    rw [← Nat.add_assoc, Nat.mod_add_mod]
  have harr := arriving_succ ⟨first, hdrive⟩ hi
  rw [← hsucc] at harr
  generalize hcur : (first + k) % m.slots = i at *
  cases hatt : (m.nodeAt i).attached with
  | false =>
    rw [Walk.visit_empty (by rw [hnode, hatt])]
    have hsame : ∀ j < m.slots, (m.walkOrder first j < k + 1 ∧ (m.nodeAt j).attached = true) ↔
        (m.walkOrder first j < k ∧ (m.nodeAt j).attached = true) := by
      intro j hj
      rw [hturn j hj]
      constructor
      · rintro ⟨hlt | rfl, hj⟩
        · exact ⟨hlt, hj⟩
        · rw [hatt] at hj
          cases hj
      · rintro ⟨hlt, hj⟩
        exact ⟨.inl hlt, hj⟩
    refine ⟨h.lengthNode, h.lengthCable, fun j hj => ?_, fun j hj => ?_, fun _ => ?_⟩
    · rw [h.node j hj, if_congr (hsame j hj) rfl rfl]
    · rw [h.fromCable j hj, if_congr (hsame j hj) rfl rfl]
    · rw [harr, hatt, if_neg Bool.false_ne_true]
      -- the walk starts at a node, so an empty slot is never the first one visited
      have hpos : 0 < k := by
        rcases Nat.eq_zero_or_pos k with rfl | hpos
        · rw [Nat.add_zero, Nat.mod_eq_of_lt hfirst] at hcur
          rw [drives, hcur, hatt] at hdrive
          cases hdrive
        · exact hpos
      rw [h.carried hpos, hcur]
  | true =>
    have hx : (if (m.nodeAt i).inRing then (m.nodeAt i).driving else w.carried) = m.input i := by
      unfold input
      split
      · rfl
      · next hby =>
        have hpos : 0 < k := by
          rcases Nat.eq_zero_or_pos k with rfl | hpos
          · rw [Nat.add_zero, Nat.mod_eq_of_lt hfirst] at hcur
            rw [drives, hcur] at hdrive
            exact absurd (Bool.and_eq_true_iff.mp hdrive).2 hby
          · exact hpos
        rw [h.carried hpos, hcur]
    have hold : ∀ hb : 0 < (m.nodeAt i).cable.bits,
        w.fromCable.getD i {} = (m.nodeAt i).cable.oldest hb := by
      intro hb
      rw [h.fromCable i hi, if_neg fun hc => hnot hc.1, getD_fromCable hi, dif_pos ⟨hatt, hb⟩]
    rw [Walk.visit_eq hnode hatt (h.lengthCable ▸ hi) hold hx]
    have hstep : ∀ j < m.slots, i ≠ j → ((m.walkOrder first j < k + 1 ∧ (m.nodeAt j).attached = true) ↔
        (m.walkOrder first j < k ∧ (m.nodeAt j).attached = true)) := by
      intro j hj hne
      rw [hturn j hj, or_iff_left hne]
    have hself : m.walkOrder first i < k + 1 ∧ (m.nodeAt i).attached = true :=
      ⟨(hturn i hi).mpr (.inr rfl), hatt⟩
    refine ⟨?_, ?_, fun j hj => ?_, fun j hj => ?_, fun _ => ?_⟩
    · rw [List.length_set, h.lengthNode]
    · rw [List.length_set, h.lengthCable]
    · rw [getD_set (h.lengthNode ▸ hi)]
      split
      · next heq => rw [← heq, if_pos hself, shiftCable]
      · next hne => rw [h.node j hj, if_congr (hstep j hj hne) rfl rfl]
    · rw [getD_set (h.lengthCable ▸ hi)]
      split
      · next heq => rw [← heq, if_pos hself, output]
      · next hne => rw [h.fromCable j hj, if_congr (hstep j hj hne) rfl rfl]
    · rw [harr, if_pos hatt, output]

theorem walked {m : Medium} {first : Nat} (hdrive : m.drives first = true) :
    m.Walked first m.slots (m.walk first) := by
  have key : ∀ k ≤ m.slots, m.Walked first k
      ((List.range k).foldl (fun w step => w.visit ((first + step) % m.slots))
        { node := m.node
          fromCable := m.fromCable
          carried := m.fromCable.getD (m.attachedUpstreamOf first) {} }) := by
    intro k hk
    induction k with
    | zero =>
      refine ⟨rfl, List.length_map .., fun i _ => ?_, fun i _ => ?_, fun h => absurd h (lt_irrefl 0)⟩
      · rw [if_neg fun h => absurd h.1 (Nat.not_lt_zero _)]
        rfl
      · rw [if_neg fun h => absurd h.1 (Nat.not_lt_zero _)]
        rfl
    | succ k ih =>
      rw [List.range_succ, List.foldl_append]
      exact (ih (Nat.le_of_succ_le hk)).visit hdrive hk
  exact key m.slots le_rfl

/-- What one bit clock does to a slot. -/
def clocked (m : Medium) (i : Nat) : Node :=
  if (m.nodeAt i).attached then
    { m.shiftCable i with
      received := if (m.nodeAt i).bypassed then (m.nodeAt i).driving else m.arriving i }
  else m.nodeAt i

/-- THE WALK IS THE WIRE: `ap_ring_medium_advance` hands every slot what stands on
the wire in front of it, from whichever node in the ring its walk starts. -/
theorem advanceFrom_nodeAt {m : Medium} {first : Nat} (hdrive : m.drives first = true) {i : Nat}
    (hi : i < m.slots) : (m.advanceFrom first).nodeAt i = m.clocked i := by
  have hw := walked hdrive
  have hfirst := drives_lt hdrive
  have hlen : i < (m.walk first).node.length := hw.lengthNode ▸ hi
  have hget : (m.walk first).node[i] = if (m.nodeAt i).attached then m.shiftCable i else m.nodeAt i := by
    rw [← List.getD_eq_getElem _ {} hlen, hw.node i hi]
    simp only [walkOrder_lt hfirst hi, true_and]
  have hnode : (m.advanceFrom first).nodeAt i =
      if !(m.walk first).node[i].attached then (m.walk first).node[i]
      else if (m.walk first).node[i].loopback then
        { (m.walk first).node[i] with received := (m.walk first).node[i].driving }
      else { (m.walk first).node[i] with
        received := (m.walk first).fromCable.getD (m.attachedUpstreamOf i) {} } := by
    simp only [nodeAt, advanceFrom, settle]
    rw [List.getD_eq_getElem _ _ (by rwa [List.length_mapIdx]), List.getElem_mapIdx]
  obtain ⟨hup, hupAtt, hupOut⟩ := output_attachedUpstreamOf ⟨first, hdrive⟩ hi
  have hcable : (m.walk first).fromCable.getD (m.attachedUpstreamOf i) {} = m.arriving i := by
    rw [hw.fromCable _ hup, if_pos ⟨walkOrder_lt hfirst hup, hupAtt⟩, hupOut]
  rw [hnode, hget, hcable]
  cases hatt : (m.nodeAt i).attached with
  | false => simp only [clocked, hatt, Bool.false_eq_true, if_false, Bool.not_false, if_true]
  | true =>
    have hshift : (m.shiftCable i).attached = true := hatt
    simp only [clocked, hatt, if_true, hshift, Bool.not_true, Bool.false_eq_true, if_false]
    by_cases hby : (m.nodeAt i).bypassed = true
    · have hloop : (m.shiftCable i).loopback = true := hby
      rw [if_pos hloop, if_pos hby]
      rfl
    · have hloop : ¬ (m.shiftCable i).loopback = true := hby
      rw [if_neg hloop, if_neg hby]

theorem eq_of_nodeAt {m m' : Medium} (hlen : m.slots = m'.slots)
    (hnode : ∀ i < m.slots, m.nodeAt i = m'.nodeAt i) (htime : m.bitTime = m'.bitTime) : m = m' := by
  obtain ⟨node, time, fit⟩ := m
  obtain ⟨node', time', fit'⟩ := m'
  have hlist : node = node' := by
    refine List.ext_getElem hlen fun i hi hi' => ?_
    have := hnode i hi
    rwa [nodeAt, nodeAt, List.getD_eq_getElem _ _ hi, List.getD_eq_getElem _ _ hi'] at this
  cases hlist
  cases htime
  rfl

theorem slots_advanceFrom (m : Medium) (first : Nat) : (m.advanceFrom first).slots = m.slots :=
  (List.length_mapIdx ..).trans (m.length_node_walk first)

theorem advanceFrom_eq {m : Medium} {first first' : Nat} (h : m.drives first = true)
    (h' : m.drives first' = true) : m.advanceFrom first = m.advanceFrom first' := by
  refine eq_of_nodeAt (by rw [slots_advanceFrom, slots_advanceFrom]) (fun i hi => ?_) rfl
  rw [slots_advanceFrom] at hi
  rw [advanceFrom_nodeAt h hi, advanceFrom_nodeAt h' hi]

theorem exists_advance_eq {m : Medium} (hring : ∃ k, m.drives k = true) :
    ∃ first, m.drives first = true ∧ m.advance = m.advanceFrom first := by
  obtain ⟨k, hk⟩ := hring
  have hlt : k < m.node.length := drives_lt hk
  have hnode : m.nodeAt k = m.node[k] := List.getD_eq_getElem _ _ hlt
  cases hfind : m.node.findIdx? fun n => n.attached && n.inRing with
  | none =>
    have hno := List.findIdx?_eq_none_iff.mp hfind m.node[k] (List.getElem_mem hlt)
    rw [drives, hnode, hno] at hk
    cases hk
  | some first =>
    obtain ⟨hfirst, hdrive, -⟩ := List.findIdx?_eq_some_iff_getElem.mp hfind
    refine ⟨first, ?_, ?_⟩
    · rwa [drives, nodeAt, List.getD_eq_getElem _ _ hfirst]
    · rw [advance, Medium.first, hfind]
      rfl

theorem advance_nodeAt {m : Medium} (hring : ∃ k, m.drives k = true) {i : Nat} (hi : i < m.slots) :
    m.advance.nodeAt i = m.clocked i := by
  obtain ⟨first, hdrive, heq⟩ := exists_advance_eq hring
  rw [heq, advanceFrom_nodeAt hdrive hi]

theorem slots_advance (m : Medium) : m.advance.slots = m.slots := by
  unfold advance
  split
  · rfl
  · exact slots_advanceFrom m _

/-! ## Upstream -/

/-- The slots met going upstream, down to the first that is attached and in the
ring. -/
def upstreamPath (m : Medium) : Nat → Nat → List Nat
  | 0, _ => []
  | fuel + 1, i =>
    let j := m.back i 1
    j :: if m.drives j then [] else m.upstreamPath fuel j

/-- The nearest slot upstream that is attached and in the ring. -/
def source (m : Medium) (slot : Nat) : Nat := (m.upstreamPath m.slots slot).getLastD slot

/-- The cable between: that of every attached slot met on the way. -/
def delay (m : Medium) (slot : Nat) : Nat :=
  ((m.upstreamPath m.slots slot).map fun j =>
    if (m.nodeAt j).attached then (m.nodeAt j).cable.bits else 0).sum

/-- The cells those cables hold, the next to arrive first. -/
def heldOn (m : Medium) (path : List Nat) : List Cell :=
  path.flatMap fun j => if (m.nodeAt j).attached then (m.nodeAt j).cable.contents else []

def held (m : Medium) (slot : Nat) : List Cell := m.heldOn (m.upstreamPath m.slots slot)

theorem length_held (m : Medium) (slot : Nat) : (m.held slot).length = m.delay slot := by
  unfold held delay heldOn
  rw [List.length_flatMap]
  congr 1
  refine List.map_congr_left fun j _ => ?_
  split
  · exact DelayLine.length_contents _
  · rfl

theorem drives_getLastD_upstreamPath {m : Medium} {fuel i : Nat} (h : m.Sourced fuel i) (d : Nat) :
    m.drives ((m.upstreamPath fuel i).getLastD d) = true := by
  induction fuel generalizing i d with
  | zero => exact h.elim
  | succ fuel ih =>
    rw [upstreamPath, List.getLastD_cons]
    split
    · next hdrive => exact hdrive
    · next hnot => exact ih (h.resolve_left hnot) _

/-- Every cable as it was laid, or none. -/
def Fresh (m : Medium) : Prop :=
  ∀ i, (m.nodeAt i).cable.bits = 0 ∨
    ∃ bits fits, (m.nodeAt i).cable = idleCable bits fits

theorem Fresh.held {m : Medium} (h : m.Fresh) (slot : Nat) :
    ∀ cell ∈ m.held slot, ∃ level, cell = biphaseEncode false level := by
  intro cell hcell
  obtain ⟨j, -, hj⟩ := List.mem_flatMap.mp hcell
  split at hj
  · rcases h j with hnone | ⟨bits, fits, hlaid⟩
    · rw [DelayLine.contents_wire (by rw [hnone]; exact lt_irrefl 0)] at hj
      cases hj
    · rw [hlaid] at hj
      obtain ⟨i, rfl⟩ := List.mem_ofFn.mp hj
      exact ⟨_, Vector.getElem_ofFn _⟩
  · cases hj

/-! ## Runs -/

/-- The calls that make a run: a node drives its cell, or the bit clock ticks. -/
inductive Call
  | transmit (slot : Int) (cell : Cell)
  | advance
deriving DecidableEq

/-- The medium as each advance of a run finds it. -/
def advances (m : Medium) : List Call → List Medium
  | [] => []
  | .transmit slot cell :: calls => advances (m.transmit slot cell) calls
  | .advance :: calls => m :: advances m.advance calls

/-- Nothing but what the nodes drive has changed. -/
structure Redriven (m m' : Medium) : Prop where
  slots : m'.slots = m.slots
  node : ∀ i, { m'.nodeAt i with driving := (m.nodeAt i).driving } = m.nodeAt i

theorem Redriven.refl (m : Medium) : m.Redriven m := ⟨rfl, fun _ => rfl⟩

theorem Redriven.trans {m m₁ m₂ : Medium} (h₁ : m.Redriven m₁) (h₂ : m₁.Redriven m₂) :
    m.Redriven m₂ :=
  ⟨h₂.slots.trans h₁.slots, fun i => by rw [← h₁.node i, ← h₂.node i]⟩

theorem nodeAt_modify (m : Medium) (slot : Int) (f : Node → Node) (i : Nat) :
    (m.modify slot f).nodeAt i =
      if m.valid slot = true ∧ slot.toNat = i then f (m.nodeAt i) else m.nodeAt i := by
  unfold modify
  cases hv : m.valid slot with
  | false => simp only [Bool.false_eq_true, if_false, false_and]
  | true =>
    have hlt : slot.toNat < m.node.length := by
      simp only [valid, Bool.and_eq_true, decide_eq_true_eq] at hv
      exact hv.2
    simp only [if_true, true_and, nodeAt]
    rw [List.getD_eq_getElem?_getD, List.getD_eq_getElem?_getD, List.getElem?_modify]
    split
    · next h =>
      subst h
      rw [List.getElem?_eq_getElem hlt]
      rfl
    · simp only [id_map']

@[simp] theorem slots_modify (m : Medium) (slot : Int) (f : Node → Node) :
    (m.modify slot f).slots = m.slots := by
  unfold modify
  split
  · exact List.length_modify ..
  · rfl

theorem redriven_transmit (m : Medium) (slot : Int) (cell : Cell) :
    m.Redriven (m.transmit slot cell) := by
  refine ⟨slots_modify .., fun i => ?_⟩
  rw [transmit, nodeAt_modify]
  split <;> rfl

theorem redriven_advances_zero {m m₀ : Medium} {calls : List Call}
    (h : (m.advances calls)[0]? = some m₀) : m.Redriven m₀ := by
  induction calls generalizing m with
  | nil => cases h
  | cons call calls ih =>
    cases call with
    | transmit slot cell => exact (redriven_transmit m slot cell).trans (ih h)
    | advance =>
      cases h
      exact .refl _

theorem redriven_advances_succ {m m₀ m₁ : Medium} {calls : List Call} {t : Nat}
    (h₀ : (m.advances calls)[t]? = some m₀) (h₁ : (m.advances calls)[t + 1]? = some m₁) :
    m₀.advance.Redriven m₁ := by
  induction calls generalizing m t with
  | nil => cases h₀
  | cons call calls ih =>
    cases call with
    | transmit slot cell => exact ih h₀ h₁
    | advance =>
      cases t with
      | zero =>
        cases h₀
        exact redriven_advances_zero h₁
      | succ t => exact ih h₀ h₁

/-! ### What a run leaves alone -/

/-- Attachment, bypass and cable lengths are the same. -/
structure SameLayout (m m' : Medium) : Prop where
  slots : m'.slots = m.slots
  attached : ∀ i, (m'.nodeAt i).attached = (m.nodeAt i).attached
  bypassed : ∀ i, (m'.nodeAt i).bypassed = (m.nodeAt i).bypassed

theorem SameLayout.trans {m m₁ m₂ : Medium} (h₁ : m.SameLayout m₁) (h₂ : m₁.SameLayout m₂) :
    m.SameLayout m₂ where
  slots := h₂.slots.trans h₁.slots
  attached i := (h₂.attached i).trans (h₁.attached i)
  bypassed i := (h₂.bypassed i).trans (h₁.bypassed i)

theorem Redriven.sameLayout {m m' : Medium} (h : m.Redriven m') : m.SameLayout m' where
  slots := h.slots
  attached i := by rw [← h.node i]
  bypassed i := by rw [← h.node i]

theorem Redriven.cable {m m' : Medium} (h : m.Redriven m') (i : Nat) :
    (m'.nodeAt i).cable = (m.nodeAt i).cable := by rw [← h.node i]

theorem nodeAt_past {m : Medium} {i : Nat} (h : m.slots ≤ i) : m.nodeAt i = {} := by
  rw [nodeAt, List.getD_eq_getElem?_getD, List.getElem?_eq_none h]
  rfl

theorem sameLayout_advance {m : Medium} (hring : ∃ k, m.drives k = true) :
    m.SameLayout m.advance := by
  have hnode : ∀ i, m.advance.nodeAt i = m.clocked i := by
    intro i
    rcases Nat.lt_or_ge i m.slots with hi | hi
    · exact advance_nodeAt hring hi
    · rw [nodeAt_past (by rw [slots_advance]; exact hi), clocked, nodeAt_past hi]
      rfl
  refine ⟨slots_advance m, fun i => ?_, fun i => ?_⟩ <;> rw [hnode, clocked] <;> split <;> rfl

section SameLayout

variable {m m' : Medium} (h : m.SameLayout m')

include h

theorem SameLayout.drives (i : Nat) : m'.drives i = m.drives i := by
  simp only [Medium.drives, Node.inRing, h.attached i, h.bypassed i]

theorem SameLayout.back (i d : Nat) : m'.back i d = m.back i d := by
  rw [Medium.back, Medium.back, h.slots]

theorem SameLayout.sourced {fuel i : Nat} (hs : m.Sourced fuel i) : m'.Sourced fuel i := by
  induction fuel generalizing i with
  | zero => exact hs
  | succ fuel ih =>
    rw [Medium.Sourced, h.back, h.drives]
    exact hs.imp id ih

end SameLayout

/-! ### Through time -/

section Trace

variable {M : Nat → Medium} {n : Nat}

/-- A run as a function of time: each state is the advance of the one before, with
new cells driven. -/
def IsRun (M : Nat → Medium) (n : Nat) : Prop := ∀ t, t + 1 < n → (M t).advance.Redriven (M (t + 1))

theorem IsRun.sameLayout (h : IsRun M n) (hring : ∃ k, (M 0).drives k = true) {t : Nat}
    (ht : t < n) : (M 0).SameLayout (M t) := by
  induction t with
  | zero => exact ⟨rfl, fun _ => rfl, fun _ => rfl⟩
  | succ t ih =>
    have hlay := ih (Nat.lt_of_succ_lt ht)
    have hring' : ∃ k, (M t).drives k = true := by
      obtain ⟨k, hk⟩ := hring
      exact ⟨k, (hlay.drives k).trans hk⟩
    exact hlay.trans ((sameLayout_advance hring').trans (h t ht).sameLayout)

theorem IsRun.cable (h : IsRun M n) (hring : ∃ k, (M 0).drives k = true) {i : Nat}
    (hi : i < (M 0).slots) (hatt : ((M 0).nodeAt i).attached = true) {t : Nat} (ht : t + 1 < n) :
    ((M (t + 1)).nodeAt i).cable = ((M t).nodeAt i).cable.shift ((M t).input i) := by
  have hlay := h.sameLayout hring (Nat.lt_of_succ_lt ht)
  have hring' : ∃ k, (M t).drives k = true := by
    obtain ⟨k, hk⟩ := hring
    exact ⟨k, (hlay.drives k).trans hk⟩
  rw [(h t ht).cable, advance_nodeAt hring' (hlay.slots ▸ hi), clocked, if_pos ((hlay.attached i).trans hatt)]
  rfl

/-- The wire in front of a slot carries what the nearest node in the ring drove as
many clocks before as there is cable between them. -/
theorem IsRun.wireFrom (h : IsRun M n) {fuel i : Nat} (hs : (M 0).Sourced fuel i)
    (hi : i < (M 0).slots) {t : Nat} (ht : t < n) (d : Nat) :
    (M t).wireFrom fuel i =
      delayed ((M 0).heldOn ((M 0).upstreamPath fuel i))
        (fun k => ((M k).nodeAt (((M 0).upstreamPath fuel i).getLastD d)).driving) t := by
  induction fuel generalizing i t d with
  | zero => exact hs.elim
  | succ fuel ih =>
    have hring : ∃ k, (M 0).drives k = true := ⟨_, drives_getLastD_upstreamPath hs 0⟩
    have hlay := fun {k} (hk : k < n) => h.sameLayout hring hk
    have hj : (M 0).back i 1 < (M 0).slots := back_lt hi (by omega)
    -- what the next slot upstream puts on its cable
    have hinput : ∀ k < n, ((M 0).nodeAt ((M 0).back i 1)).attached = true →
        (if ((M k).nodeAt ((M 0).back i 1)).inRing then ((M k).nodeAt ((M 0).back i 1)).driving
          else (M k).wireFrom fuel ((M 0).back i 1)) = (M k).input ((M 0).back i 1) := by
      intro k hk hatt
      unfold input
      split
      · rfl
      · next hby =>
        have hnot : ¬ (M 0).drives ((M 0).back i 1) = true := by
          rw [← (hlay hk).drives, drives, Bool.and_eq_true]
          exact fun hc => hby hc.2
        refine wireFrom_eq ((hlay hk).sourced (hs.resolve_left hnot)) ?_
        exact sourced ⟨_, ((hlay hk).drives _).trans hring.choose_spec⟩ ((hlay hk).slots ▸ hj)
    rw [Medium.wireFrom, (hlay ht).back, upstreamPath, List.getLastD_cons]
    rw [Sourced] at hs
    generalize (M 0).back i 1 = j at *
    cases hatt : ((M 0).nodeAt j).attached with
    | false =>
      have hnot : (M 0).drives j = false := by rw [drives, hatt, Bool.false_and]
      rw [(hlay ht).attached, hatt, if_neg Bool.false_ne_true, hnot, if_neg Bool.false_ne_true,
        heldOn, List.flatMap_cons, hatt, if_neg Bool.false_ne_true, List.nil_append]
      exact ih (hs.resolve_left (by rw [hnot]; exact Bool.false_ne_true)) hj ht j
    | true =>
      have hline := DelayLine.through_trace (d := fun k => ((M k).nodeAt j).cable)
        (x := fun k => (M k).input j) (fun k hk => h.cable hring hj hatt hk) ht
      rw [(hlay ht).attached, hatt, if_pos rfl, hinput t ht hatt, hline, heldOn, List.flatMap_cons,
        hatt, if_pos rfl, delayed_append]
      refine delayed_congr fun k hk => ?_
      have hkn : k < n := Nat.lt_of_le_of_lt hk ht
      rw [← hinput k hkn hatt]
      cases hdrive : (M 0).drives j with
      | true =>
        have hin : ((M k).nodeAt j).inRing = true := by
          have := ((hlay hkn).drives j).trans hdrive
          exact (Bool.and_eq_true_iff.mp this).2
        rw [if_pos hin]
        rfl
      | false =>
        have hin : ¬ ((M k).nodeAt j).inRing = true := fun hin => by
          have := ((hlay hkn).drives j).trans hdrive
          rw [drives, (hlay hkn).attached, hatt, hin] at this
          cases this
        rw [if_neg hin]
        exact ih (hs.resolve_left (by rw [hdrive]; exact Bool.false_ne_true)) hj hkn j

end Trace

/-! ### The medium's guarantee -/

theorem SameLayout.upstreamPath {m m' : Medium} (h : m.SameLayout m') (fuel i : Nat) :
    m'.upstreamPath fuel i = m.upstreamPath fuel i := by
  induction fuel generalizing i with
  | zero => rfl
  | succ fuel ih => simp only [Medium.upstreamPath, h.back, h.drives, ih]

theorem Redriven.heldOn {m m' : Medium} (h : m.Redriven m') (path : List Nat) :
    m'.heldOn path = m.heldOn path := by
  simp only [Medium.heldOn, h.cable, h.sameLayout.attached]

/-- What advance `t` of a run hands to a slot: `m` is the medium the run starts
from and `m'` the medium that advance finds. -/
structure Delivers (m : Medium) (calls : List Call) (t : Nat) (m' : Medium) (slot : Nat) : Prop where
  /-- A bypassed node hears itself. -/
  loopback : (m.nodeAt slot).bypassed = true →
    m'.advance.receive slot = (m'.nodeAt slot).driving
  /-- There is a node in the ring upstream of any other node. -/
  source : m.drives (m.source slot) = true
  /-- Until the first driven cell has come through, the cables hand out what they
  held, which on fresh cables is idle. -/
  held : (m.nodeAt slot).bypassed = false → t < m.delay slot →
    (m.held slot)[t]? = some (m'.advance.receive slot) ∧
      (m.Fresh → ∃ level, m'.advance.receive slot = biphaseEncode false level)
  /-- From then on they hand out what the source drove that many advances ago. -/
  sent : (m.nodeAt slot).bypassed = false → m.delay slot ≤ t →
    ∃ sent, (m.advances calls)[t - m.delay slot]? = some sent ∧
      m'.advance.receive slot = (sent.nodeAt (m.source slot)).driving

/-- THE MEDIUM IS A SET OF EXACT DELAY LINES, for every pattern of detached and
bypassed slots and every cable, over any run of transmit and advance; and the slot
the walk starts from does not matter. -/
theorem advance_delay {m : Medium} (hring : ∃ k, m.drives k = true) {calls : List Call} {t : Nat}
    {m' : Medium} (ht : (m.advances calls)[t]? = some m') :
    (∀ first, m'.drives first = true → m'.advanceFrom first = m'.advance) ∧
      ∀ slot, (m.nodeAt slot).attached = true → Delivers m calls t m' slot := by
  obtain ⟨htn, hget⟩ := List.getElem?_eq_some_iff.mp ht
  -- the run as a function of time
  have hM : ∀ k, k < (m.advances calls).length →
      (m.advances calls)[k]? = some ((m.advances calls).getD k m) := by
    intro k hk
    rw [List.getElem?_eq_getElem hk, List.getD_eq_getElem _ _ hk]
  generalize hMdef : (fun k => (m.advances calls).getD k m) = M
  replace hM : ∀ k, k < (m.advances calls).length → (m.advances calls)[k]? = some (M k) := by
    rw [← hMdef]
    exact hM
  have hrun : IsRun M (m.advances calls).length := fun k hk =>
    redriven_advances_succ (hM k (Nat.lt_of_succ_lt hk)) (hM (k + 1) hk)
  have hzero : m.Redriven (M 0) := redriven_advances_zero (hM 0 (Nat.zero_lt_of_lt htn))
  have hM' : M t = m' := Option.some.inj ((hM t htn).symm.trans ht)
  have hlay₀ := hzero.sameLayout
  have hring₀ : ∃ k, (M 0).drives k = true := by
    obtain ⟨k, hk⟩ := hring
    exact ⟨k, (hlay₀.drives k).trans hk⟩
  have hlay : m.SameLayout m' := hlay₀.trans (hM' ▸ hrun.sameLayout hring₀ htn)
  have hring' : ∃ k, m'.drives k = true := by
    obtain ⟨k, hk⟩ := hring
    exact ⟨k, (hlay.drives k).trans hk⟩
  refine ⟨fun first hfirst => ?_, fun slot hatt => ?_⟩
  · obtain ⟨first', hfirst', heq⟩ := exists_advance_eq hring'
    rw [heq, advanceFrom_eq hfirst hfirst']
  have hslot : slot < m.slots := by
    by_contra hge
    rw [nodeAt_past (Nat.le_of_not_lt hge)] at hatt
    cases hatt
  have hslot' : slot < m'.slots := hlay.slots ▸ hslot
  -- what the slot receives, and what stands on the wire in front of it
  have hrecv : m'.advance.receive slot =
      if (m.nodeAt slot).bypassed then (m'.nodeAt slot).driving else m'.arriving slot := by
    have hvalid : m'.advance.valid slot = true := by
      simp only [valid, slots_advance, Int.toNat_natCast, Bool.and_eq_true, decide_eq_true_eq]
      exact ⟨Int.natCast_nonneg slot, hslot'⟩
    rw [receive, if_pos hvalid, Int.toNat_natCast, advance_nodeAt hring' hslot', clocked,
      if_pos ((hlay.attached slot).trans hatt), ← hlay.bypassed]
  have hwire : m'.arriving slot =
      delayed (m.held slot) (fun k => ((M k).nodeAt (m.source slot)).driving) t := by
    have h := hrun.wireFrom (sourced hring₀ (hlay₀.slots ▸ hslot)) (hlay₀.slots ▸ hslot) htn slot
    rw [hM', hzero.heldOn, hlay₀.upstreamPath, hlay₀.slots] at h
    rw [arriving, hlay.slots]
    exact h
  refine ⟨fun hby => ?_, drives_getLastD_upstreamPath (sourced hring hslot) slot,
    fun hby hlt => ?_, fun hby hle => ?_⟩
  · rw [hrecv, if_pos hby]
  · rw [← length_held] at hlt
    have hheld : (m.held slot)[t]? = some (m'.advance.receive slot) := by
      rw [hrecv, if_neg (by rw [hby]; exact Bool.false_ne_true), hwire]
      exact delayed_of_lt hlt
    exact ⟨hheld, fun hfresh => hfresh.held slot _ (List.mem_of_getElem? hheld)⟩
  · rw [← length_held] at hle
    refine ⟨M (t - m.delay slot), hM _ (Nat.lt_of_le_of_lt (Nat.sub_le _ _) htn), ?_⟩
    rw [hrecv, if_neg (by rw [hby]; exact Bool.false_ne_true), hwire, delayed_of_le hle, length_held]

/-- Three nodes of which the middle one is bypassed, between cables of one and two
bits. -/
def bypassedRing : Medium :=
  let m := (init.attach.2.attach.2.attach.2.setCableBits 0 1).setCableBits 1 2
  m.setBypass 1 true

theorem advance_delay_bypassedRing :
    (∀ first, bypassedRing.advance.drives first = true →
      bypassedRing.advance.advanceFrom first = bypassedRing.advance.advance) ∧
      ∀ slot, (bypassedRing.nodeAt slot).attached = true →
        Delivers bypassedRing [.advance, .advance] 1 bypassedRing.advance slot :=
  advance_delay ⟨0, by decide +kernel⟩ rfl

end Apollo.Ring.Medium
