import Apollo.Ring.MediumDelay

/-!
# A segment nobody drives

With every attached node bypassed the segment is cable and nothing else, and
`ap_ring_medium_advance` means it to circulate what its lines hold: "`carried` is seeded from the
upstream line so a lap of stored cells still comes round".

`ringCells` is that lap: the cells in the order in which they stand on the ring, cable by cable,
each line read from its head backwards, newest first. One bit clock moves it up by one place and
puts `fed` in front (`ringCells_advance`). What is fed is the output of the LAST attached slot's
cable, read before the walk, and there lies the one fault: where that cable has no length, its output
is not known before the walk and a dead cell is fed in its place, while the cell that the walk
brings round is dropped. `circulates_iff` says that nothing else goes wrong.
-/

namespace Apollo.Ring

open Apollo.Lib

/-- The cells on the cable that leaves a slot, newest first. -/
def Node.onCable (n : Node) : List Cell := if n.attached then n.cable.contents.reverse else []

/-- What of a node the walk looks at. -/
def Node.wiring (n : Node) : Bool × Bool × Cable := (n.attached, n.bypassed, n.cable)

/-- What of a node a run without a change of topology leaves. -/
def Node.plant (n : Node) : Bool × Bool × Nat := (n.attached, n.bypassed, n.cable.bits)

section Wiring

variable {as bs : List Node} (h : as.map Node.wiring = bs.map Node.wiring)
include h

theorem flatMap_onCable_congr : as.flatMap Node.onCable = bs.flatMap Node.onCable := by
  have hall : ∀ ns : List Node, ns.flatMap Node.onCable =
      (ns.map Node.wiring).flatMap fun p => if p.1 then p.2.2.contents.reverse else [] :=
    fun ns => by rw [List.flatMap_map]; rfl
  rw [hall, hall, h]

theorem map_plant_congr : as.map Node.plant = bs.map Node.plant := by
  have hall : ∀ ns : List Node, ns.map Node.plant =
      (ns.map Node.wiring).map fun p => (p.1, p.2.1, p.2.2.bits) :=
    fun ns => by rw [List.map_map]; rfl
  rw [hall, hall, h]

theorem wiring_getD (i : Nat) : (as.getD i {}).wiring = (bs.getD i {}).wiring := by
  have hall : ∀ ns : List Node, (ns.getD i {}).wiring = (ns.map Node.wiring).getD i (Node.wiring {}) :=
    fun ns => (List.getD_map ..).symm
  rw [hall, hall, h]

end Wiring

theorem length_onCable_congr {n n' : Node} (h : n.plant = n'.plant) :
    n.onCable.length = n'.onCable.length := by
  obtain ⟨hatt, -, hbits⟩ : n.attached = n'.attached ∧ n.bypassed = n'.bypassed ∧
      n.cable.bits = n'.cable.bits := by simpa only [Node.plant, Prod.mk.injEq] using h
  unfold Node.onCable
  rw [hatt]
  split
  · rw [List.length_reverse, List.length_reverse, DelayLine.length_contents,
      DelayLine.length_contents, hbits]
  · rfl

theorem onCable_getD {as bs : List Node} (hplant : as.map Node.plant = bs.map Node.plant)
    (hcells : as.flatMap Node.onCable = bs.flatMap Node.onCable) (i : Nat) :
    (as.getD i {}).onCable = (bs.getD i {}).onCable := by
  induction as generalizing bs i with
  | nil =>
    rw [List.map_nil, eq_comm, List.map_eq_nil_iff] at hplant
    rw [hplant]
  | cons a as ih =>
    cases bs with
    | nil => cases hplant
    | cons b bs =>
      rw [List.map_cons, List.map_cons, List.cons.injEq] at hplant
      rw [List.flatMap_cons, List.flatMap_cons] at hcells
      obtain ⟨hhead, htail⟩ := List.append_inj hcells (length_onCable_congr hplant.1)
      cases i with
      | zero => exact hhead
      | succ i => exact ih hplant.2 htail i

theorem flatMap_onCable_of_contents {as bs : List Node}
    (hplant : as.map Node.plant = bs.map Node.plant)
    (hcells : ∀ i, (as.getD i {}).cable.contents = (bs.getD i {}).cable.contents) :
    as.flatMap Node.onCable = bs.flatMap Node.onCable := by
  induction as generalizing bs with
  | nil =>
    rw [List.map_nil, eq_comm, List.map_eq_nil_iff] at hplant
    rw [hplant]
  | cons a as ih =>
    cases bs with
    | nil => cases hplant
    | cons b bs =>
      rw [List.map_cons, List.map_cons, List.cons.injEq] at hplant
      have hatt : a.attached = b.attached := congrArg (·.1) hplant.1
      have hhead : a.cable.contents = b.cable.contents := hcells 0
      rw [List.flatMap_cons, List.flatMap_cons, ih hplant.2 fun i => hcells (i + 1), Node.onCable,
        Node.onCable, hatt, hhead]

namespace Medium

/-! ## The segment -/

/-- The cells of the whole ring, each in front of its neighbour downstream: cable order, and every
line from its head backwards. -/
def ringCells (m : Medium) : List Cell := m.node.flatMap Node.onCable

/-- A segment with a node and none that drives. -/
structure Undriven (m : Medium) : Prop where
  attached : ∃ n ∈ m.node, n.attached = true
  bypassed : ∀ n ∈ m.node, n.attached = true → n.bypassed = true

/-- The last attached slot's node. -/
def lastNode (m : Medium) : Option Node := (m.node.filter Node.attached).getLast?

/-- Its cable stores something, so that its output is known before the walk. -/
def LastStores (m : Medium) : Prop := ∃ n, m.lastNode = some n ∧ 0 < n.cable.bits

/-- The cell the walk starts with. -/
def fed (m : Medium) : Cell :=
  m.lastNode.elim {} fun n => if h : 0 < n.cable.bits then n.cable.oldest h else {}

/-- A call of a run with no change of topology. -/
def call (m : Medium) : Call → Medium
  | .transmit slot cell => m.transmit slot cell
  | .advance => m.advance

/-- The segment circulates what its cables hold. -/
structure Circulates (m : Medium) : Prop where
  /-- One clock puts the last cell of the ring in front of the others. -/
  rotates : ∀ cells cell, m.ringCells = cells ++ [cell] → m.advance.ringCells = cell :: cells
  /-- Once round, every cable holds what it held, whatever the nodes drive meanwhile. -/
  lap : ∀ calls : List Call, calls.count .advance = m.circumferenceBits →
    ∀ slot, ((calls.foldl call m).nodeAt slot).cable.contents = (m.nodeAt slot).cable.contents

/-! ## The walk through bypassed nodes -/

/-- A cell goes in front of a list of nodes, and another comes out behind. -/
def pass : Cell → List Node → List Node × Cell
  | x, [] => ([], x)
  | x, n :: ns =>
    if n.attached then
      ({ n with cable := n.cable.shift x } :: (pass (n.cable.through x) ns).1,
        (pass (n.cable.through x) ns).2)
    else (n :: (pass x ns).1, (pass x ns).2)

theorem pass_append (x : Cell) (as bs : List Node) :
    pass x (as ++ bs) =
      ((pass x as).1 ++ (pass (pass x as).2 bs).1, (pass (pass x as).2 bs).2) := by
  induction as generalizing x with
  | nil => rfl
  | cons n as ih =>
    rw [List.cons_append]
    simp only [pass]
    split <;> simp only [ih, List.cons_append]

theorem map_plant_pass (x : Cell) (ns : List Node) :
    (pass x ns).1.map Node.plant = ns.map Node.plant := by
  induction ns generalizing x with
  | nil => rfl
  | cons n ns ih =>
    simp only [pass]
    split
    · rw [List.map_cons, List.map_cons, ih, Node.plant, DelayLine.bits_shift]
      rfl
    · rw [List.map_cons, List.map_cons, ih]

theorem pass_getD_empty (x : Cell) (ns : List Node) {i : Nat}
    (h : (ns.getD i {}).attached = false) : (pass x ns).1.getD i {} = ns.getD i {} := by
  induction ns generalizing x i with
  | nil => rfl
  | cons n ns ih =>
    simp only [pass]
    cases i with
    | zero =>
      have hn : n.attached = false := h
      rw [hn, if_neg Bool.false_ne_true]
      rfl
    | succ i => split <;> exact ih _ h

theorem flatMap_pass (x : Cell) (ns : List Node) :
    (pass x ns).1.flatMap Node.onCable ++ [(pass x ns).2] = x :: ns.flatMap Node.onCable := by
  induction ns generalizing x with
  | nil => rfl
  | cons n ns ih =>
    simp only [pass]
    by_cases hatt : n.attached = true
    · have hcells := congrArg List.reverse (n.cable.contents_concat x)
      rw [List.reverse_append, List.reverse_singleton, List.reverse_cons] at hcells
      have hold : n.onCable = n.cable.contents.reverse := if_pos hatt
      have hnew : Node.onCable { n with cable := n.cable.shift x } =
          (n.cable.shift x).contents.reverse := if_pos hatt
      rw [if_pos hatt, List.flatMap_cons, List.flatMap_cons, List.append_assoc, ih, hold, hnew,
        ← List.cons_append, ← List.singleton_append (x := x), hcells, List.append_assoc]
      rfl
    · have hnone : n.onCable = [] := if_neg hatt
      rw [if_neg hatt, List.flatMap_cons, List.flatMap_cons, hnone, List.nil_append,
        List.nil_append, ih]

/-- The walk has gone through the first `k` slots. -/
structure Passed (m : Medium) (x : Cell) (k : Nat) (w : Walk) : Prop where
  node : w.node = (pass x (m.node.take k)).1 ++ m.node.drop k
  carried : w.carried = (pass x (m.node.take k)).2
  fromCable : ∀ i, k ≤ i → w.fromCable.getD i {} = m.fromCable.getD i {}
  length : w.fromCable.length = m.slots

theorem Passed.node_all {m : Medium} {x : Cell} {w : Walk} (h : m.Passed x m.slots w) :
    w.node = (pass x m.node).1 := by
  have hnode := h.node
  rwa [Medium.slots, List.take_length, List.drop_length, List.append_nil] at hnode

theorem length_pass (x : Cell) (ns : List Node) : (pass x ns).1.length = ns.length := by
  have h := congrArg List.length (map_plant_pass x ns)
  rwa [List.length_map, List.length_map] at h

theorem pass_empty (x : Cell) {ns : List Node} (h : ∀ n ∈ ns, n.attached = false) :
    pass x ns = (ns, x) := by
  induction ns with
  | nil => rfl
  | cons n ns ih =>
    simp only [pass, h n List.mem_cons_self, Bool.false_eq_true, if_false,
      ih fun n hn => h n (List.mem_cons_of_mem _ hn)]

section Undriven

variable {m : Medium} (hm : m.Undriven)
include hm

theorem Passed.visit {x : Cell} {k : Nat} {w : Walk} (h : m.Passed x k w) (hk : k < m.slots) :
    m.Passed x (k + 1) (w.visit k) := by
  have hlen : (pass x (m.node.take k)).1.length = k := by
    rw [length_pass, List.length_take_of_le (Nat.le_of_lt hk)]
  have hdrop : m.node.drop k = m.node[k] :: m.node.drop (k + 1) := List.drop_eq_getElem_cons hk
  have htake : m.node.take (k + 1) = m.node.take k ++ [m.node[k]] := (List.take_concat_get' m.node k hk).symm
  have hnode : w.node.getD k {} = m.node[k] := by
    rw [h.node, hdrop, List.getD_append_right _ _ _ _ (Nat.le_of_eq hlen), hlen, Nat.sub_self]
    rfl
  cases hatt : m.node[k].attached with
  | false =>
    have hpass : pass (pass x (m.node.take k)).2 [m.node[k]] =
        ([m.node[k]], (pass x (m.node.take k)).2) := by
      simp only [pass, hatt, Bool.false_eq_true, if_false]
    rw [Walk.visit_empty (by rw [hnode]; exact hatt)]
    refine ⟨?_, ?_, fun i hi => h.fromCable i (Nat.le_of_succ_le hi), h.length⟩
    · rw [htake, pass_append, hpass, List.append_assoc, List.singleton_append, ← hdrop]
      exact h.node
    · rw [htake, pass_append, hpass]
      exact h.carried
  | true =>
    have hby : m.node[k].inRing = false := by
      rw [Node.inRing, hm.bypassed _ (List.getElem_mem hk) hatt, Bool.not_true]
    have hnodeAt : m.nodeAt k = m.node[k] := List.getD_eq_getElem _ _ hk
    have hold : ∀ hb : 0 < m.node[k].cable.bits,
        w.fromCable.getD k {} = m.node[k].cable.oldest hb := by
      intro hb
      rw [h.fromCable k (Nat.le_refl k), getD_fromCable hk, hnodeAt, dif_pos ⟨hatt, hb⟩]
    have hpass : pass (pass x (m.node.take k)).2 [m.node[k]] =
        ([{ m.node[k] with cable := m.node[k].cable.shift (pass x (m.node.take k)).2 }],
          m.node[k].cable.through (pass x (m.node.take k)).2) := by
      simp only [pass, hatt, if_true]
    have hset : w.node.set k
        { m.node[k] with cable := m.node[k].cable.shift (pass x (m.node.take k)).2 } =
        (pass x (m.node.take k)).1 ++
          { m.node[k] with cable := m.node[k].cable.shift (pass x (m.node.take k)).2 } ::
            m.node.drop (k + 1) := by
      rw [h.node, hdrop, List.set_append_right _ _ (Nat.le_of_eq hlen), hlen, Nat.sub_self,
        List.set_cons_zero]
    rw [Walk.visit_eq (x := (pass x (m.node.take k)).2) hnode hatt (h.length ▸ hk) hold
      (by rw [hby]; exact h.carried)]
    refine ⟨?_, ?_, fun i hi => ?_, ?_⟩
    · rw [htake, pass_append, hpass, List.append_assoc, List.singleton_append]
      exact hset
    · rw [htake, pass_append, hpass]
    · dsimp only
      rw [getD_set (h.length ▸ hk), if_neg (by omega)]
      exact h.fromCable i (Nat.le_of_succ_le hi)
    · exact (List.length_set ..).trans h.length

theorem Undriven.exists_first : ∃ first, m.first = some first ∧ first < m.slots ∧
    (m.nodeAt first).attached = true ∧ ∀ i < first, (m.nodeAt i).attached = false := by
  have hnone : (m.node.findIdx? fun n => n.attached && n.inRing) = none := by
    rw [List.findIdx?_eq_none_iff]
    intro n hn
    cases hatt : n.attached with
    | false => rfl
    | true => rw [Node.inRing, hm.bypassed n hn hatt]; rfl
  obtain ⟨n, hn, hatt⟩ := hm.attached
  cases hfind : m.node.findIdx? fun n => n.attached with
  | none => rw [List.findIdx?_eq_none_iff.mp hfind n hn] at hatt; cases hatt
  | some first =>
    obtain ⟨hlt, hfirst, hbefore⟩ := List.findIdx?_eq_some_iff_getElem.mp hfind
    refine ⟨first, ?_, hlt, ?_, fun i hi => ?_⟩
    · rw [Medium.first, hnone, hfind]
      rfl
    · rwa [nodeAt, List.getD_eq_getElem _ _ hlt]
    · rw [nodeAt, List.getD_eq_getElem _ _ (hi.trans hlt)]
      exact Bool.eq_false_iff.mpr (hbefore i hi)

/-- THE WALK: it takes a cell in front of the nodes through all of them, though it starts at the
first that is attached and comes back to the empty slots at the end. -/
theorem node_walk {first : Nat} (hlt : first < m.slots)
    (hbefore : ∀ i < first, (m.nodeAt i).attached = false) :
    (m.walk first).node = (pass (m.fromCable.getD (m.attachedUpstreamOf first) {}) m.node).1 := by
  generalize hx : m.fromCable.getD (m.attachedUpstreamOf first) {} = x
  have hempty : ∀ n ∈ m.node.take first, n.attached = false := by
    intro n hn
    obtain ⟨i, hi, rfl⟩ := List.getElem_of_mem hn
    rw [List.length_take] at hi
    have hget : m.node[i] = m.nodeAt i := (List.getD_eq_getElem _ _ (by omega)).symm
    rw [List.getElem_take, hget]
    exact hbefore i (by omega)
  have hstart : m.Passed x first { node := m.node, fromCable := m.fromCable, carried := x } := by
    refine ⟨?_, ?_, fun _ _ => rfl, List.length_map ..⟩
    · rw [pass_empty x hempty, List.take_append_drop]
    · rw [pass_empty x hempty]
  have key : ∀ k ≤ m.slots, m.Passed x (min (first + k) m.slots)
      ((List.range k).foldl (fun w step => w.visit ((first + step) % m.slots))
        { node := m.node, fromCable := m.fromCable, carried := x }) := by
    intro k hk
    induction k with
    | zero =>
      rw [Nat.add_zero, Nat.min_eq_left (Nat.le_of_lt hlt)]
      exact hstart
    | succ k ih =>
      rw [List.range_succ, List.foldl_append, List.foldl_cons, List.foldl_nil]
      have hpassed := ih (Nat.le_of_succ_le hk)
      rcases Nat.lt_or_ge (first + k) m.slots with hmore | hover
      · rw [Nat.min_eq_left (Nat.le_of_lt hmore)] at hpassed
        rw [Nat.mod_eq_of_lt hmore, ← Nat.add_assoc, Nat.min_eq_left hmore]
        exact hpassed.visit hm hmore
      · -- Round again: the slots in front of the first one are empty.
        have hwrap : (first + k) % m.slots = first + k - m.slots := by
          rw [Nat.mod_eq_sub_mod hover, Nat.mod_eq_of_lt (by omega)]
        have hfront : first + k - m.slots < first := by omega
        rw [Nat.min_eq_right hover] at hpassed
        rw [Nat.min_eq_right (by omega), hwrap, Walk.visit_empty]
        · exact hpassed
        · rw [hpassed.node_all, pass_getD_empty x _ (hbefore _ hfront)]
          exact hbefore _ hfront
  have hall := key m.slots (Nat.le_refl _)
  rw [Nat.min_eq_right (Nat.le_add_left _ _)] at hall
  rw [walk, hx]
  exact hall.node_all

end Undriven

/-! ## What the walk starts with -/

theorem exists_lastNode {m : Medium} (h : ∃ n ∈ m.node, n.attached = true) :
    ∃ before n after, m.node = before ++ n :: after ∧ n.attached = true ∧
      (∀ n ∈ after, n.attached = false) ∧ m.lastNode = some n := by
  obtain ⟨n₀, hn₀, hatt₀⟩ := h
  have hne : m.node.filter Node.attached ≠ [] :=
    List.ne_nil_of_mem (List.mem_filter.mpr ⟨hn₀, hatt₀⟩)
  obtain ⟨front, n, hfilter⟩ := List.eq_nil_or_concat' (m.node.filter Node.attached) |>.resolve_left hne
  rw [List.filter_eq_append_iff] at hfilter
  obtain ⟨as, bs, hnode, -, hbs⟩ := hfilter
  obtain ⟨cs, ds, rfl, hempty, hatt, hds⟩ := List.filter_eq_cons_iff.mp hbs
  have hnone : ∀ n ∈ ds, n.attached = false := by
    intro n hn
    exact Bool.eq_false_iff.mpr (List.filter_eq_nil_iff.mp hds n hn)
  refine ⟨as ++ cs, n, ds, ?_, hatt, hnone, ?_⟩
  · rw [hnode, List.append_assoc]
  · rw [lastNode, hnode, List.filter_append, List.filter_append, List.filter_cons_of_pos hatt, hds,
      ← List.append_assoc, List.getLast?_concat]

theorem attachedUpstreamOf_first {m : Medium} {first : Nat} (hlt : first < m.slots)
    (hatt : (m.nodeAt first).attached = true)
    (hbefore : ∀ i < first, (m.nodeAt i).attached = false) {before after : List Node} {n : Node}
    (hnode : m.node = before ++ n :: after) (hn : n.attached = true)
    (hafter : ∀ n ∈ after, n.attached = false) : m.attachedUpstreamOf first = before.length := by
  have hslots : m.slots = before.length + (after.length + 1) := by
    rw [Medium.slots, hnode, List.length_append, List.length_cons]
  have hlast : m.nodeAt before.length = n := by
    rw [nodeAt, hnode, List.getD_append_right _ _ _ _ (Nat.le_refl _), Nat.sub_self]
    rfl
  have hpast : ∀ i, before.length < i → i < m.slots → (m.nodeAt i).attached = false := by
    intro i hi hslot
    obtain ⟨j, rfl⟩ := Nat.exists_eq_add_of_lt hi
    have hj : j < after.length := by omega
    have hget : m.nodeAt (before.length + j + 1) = after[j] := by
      rw [nodeAt, hnode, List.getD_append_right _ _ _ _ (by omega),
        show before.length + j + 1 - before.length = j + 1 by omega, List.getD_cons_succ,
        List.getD_eq_getElem _ _ hj]
    rw [hget]
    exact hafter _ (List.getElem_mem hj)
  have hle : first ≤ before.length := by
    by_contra hgt
    rw [hpast first (Nat.lt_of_not_le hgt) hlt] at hatt
    cases hatt
  -- The steps upstream go down to slot 0 past empty slots, and on from the last slot.
  have hfind : (List.range m.slots).find?
      (fun step => (m.nodeAt (m.back first (step + 1))).attached) =
      some (first + m.slots - before.length - 1) := by
    rw [List.find?_range_eq_some]
    refine ⟨?_, List.mem_range.mpr (by omega), fun j hj => ?_⟩
    · have hback : m.back first (first + m.slots - before.length - 1 + 1) = before.length := by
        rw [back_eq hlt (by omega)]
        split <;> omega
      rw [hback, hlast]
      exact hn
    · rw [Bool.not_eq_true', back_eq hlt (by omega)]
      split
      · exact hbefore _ (by omega)
      · exact hpast _ (by omega) (by omega)
  unfold attachedUpstreamOf
  rw [hfind]
  dsimp only
  rw [back_eq hlt (by omega)]
  split <;> omega

section Undriven

variable {m : Medium} (hm : m.Undriven)
include hm

theorem wiring_advance :
    m.advance.node.map Node.wiring = (pass m.fed m.node).1.map Node.wiring := by
  obtain ⟨first, hfirst, hlt, hatt, hbefore⟩ := hm.exists_first
  obtain ⟨before, n, after, hnode, hn, hafter, hlast⟩ := exists_lastNode hm.attached
  have hup := attachedUpstreamOf_first hlt hatt hbefore hnode hn hafter
  have hslot : before.length < m.slots := by
    rw [Medium.slots, hnode, List.length_append, List.length_cons]
    omega
  have hnodeAt : m.nodeAt before.length = n := by
    rw [nodeAt, hnode, List.getD_append_right _ _ _ _ (Nat.le_refl _), Nat.sub_self]
    rfl
  have hseed : m.fromCable.getD (m.attachedUpstreamOf first) {} = m.fed := by
    rw [hup, getD_fromCable hslot, hnodeAt, fed, hlast, Option.elim_some]
    by_cases hbits : 0 < n.cable.bits
    · rw [dif_pos hbits, dif_pos ⟨hn, hbits⟩]
    · rw [dif_neg hbits, dif_neg fun h => hbits h.2]
  have hadvance : m.advance.node = m.settle (m.walk first) := by
    rw [advance, hfirst]
    rfl
  rw [hadvance, ← hseed, ← node_walk hm hlt hbefore]
  unfold settle
  apply List.ext_getElem
  · rw [List.length_map, List.length_map, List.length_mapIdx]
  · intro i h₁ h₂
    rw [List.getElem_map, List.getElem_map, List.getElem_mapIdx]
    split
    · rfl
    · split <;> rfl

/-- ONE CLOCK: every cell moves up by one place behind what is fed, and the last one leaves. -/
theorem ringCells_advance : ∃ out, m.advance.ringCells ++ [out] = m.fed :: m.ringCells := by
  refine ⟨(pass m.fed m.node).2, ?_⟩
  rw [ringCells, flatMap_onCable_congr (wiring_advance hm)]
  exact flatMap_pass m.fed m.node

end Undriven

/-! ## Runs -/

/-- The plant is as it was, and so is what hangs on an empty slot. -/
structure SamePlant (m m' : Medium) : Prop where
  plant : m'.node.map Node.plant = m.node.map Node.plant
  left : ∀ i, (m.nodeAt i).attached = false → (m'.nodeAt i).cable = (m.nodeAt i).cable

theorem attached_nodeAt_congr {m m' : Medium}
    (h : m'.node.map Node.plant = m.node.map Node.plant) (i : Nat) :
    (m'.nodeAt i).attached = (m.nodeAt i).attached := by
  have hall : ∀ ns : List Node, (ns.getD i {}).attached =
      ((ns.map Node.plant).getD i (Node.plant {})).1 := fun ns => by rw [List.getD_map]; rfl
  rw [nodeAt, nodeAt, hall, hall, h]

theorem SamePlant.refl (m : Medium) : m.SamePlant m := ⟨rfl, fun _ _ => rfl⟩

theorem SamePlant.trans {m m₁ m₂ : Medium} (h₁ : m.SamePlant m₁) (h₂ : m₁.SamePlant m₂) :
    m.SamePlant m₂ where
  plant := h₂.plant.trans h₁.plant
  left := fun i hi => (h₂.left i ((attached_nodeAt_congr h₁.plant i).trans hi)).trans (h₁.left i hi)

theorem SamePlant.symm {m m' : Medium} (h : m.SamePlant m') : m'.SamePlant m where
  plant := h.plant.symm
  left := fun i hi => (h.left i ((attached_nodeAt_congr h.plant i).symm.trans hi)).symm

theorem samePlant_advance {m : Medium} (hm : m.Undriven) : m.SamePlant m.advance where
  plant := (map_plant_congr (wiring_advance hm)).trans (map_plant_pass m.fed m.node)
  left := fun i hi => by
    have hwiring := wiring_getD (wiring_advance hm) i
    rw [pass_getD_empty _ _ hi] at hwiring
    exact congrArg (·.2.2) hwiring

theorem Redriven.wiring {m m' : Medium} (h : m.Redriven m') :
    m'.node.map Node.wiring = m.node.map Node.wiring := by
  apply List.ext_getElem
  · rw [List.length_map, List.length_map]
    exact h.slots
  · intro i h₁ h₂
    rw [List.length_map] at h₁ h₂
    have hnode := h.node i
    rw [nodeAt, nodeAt, List.getD_eq_getElem _ _ h₁, List.getD_eq_getElem _ _ h₂] at hnode
    rw [List.getElem_map, List.getElem_map, ← hnode]
    rfl

theorem Redriven.samePlant {m m' : Medium} (h : m.Redriven m') : m.SamePlant m' :=
  ⟨map_plant_congr h.wiring, fun i _ => h.cable i⟩

section SamePlant

variable {m m' : Medium} (h : m.SamePlant m')
include h

theorem SamePlant.undriven (hm : m.Undriven) : m'.Undriven := by
  obtain ⟨⟨n, hn, hatt⟩, hby⟩ := hm
  have hall : ∀ n' ∈ m'.node, ∃ n ∈ m.node, n.plant = n'.plant := by
    intro n' hn'
    have hmem : n'.plant ∈ m.node.map Node.plant := h.plant ▸ List.mem_map_of_mem hn'
    exact List.mem_map.mp hmem
  refine ⟨?_, fun n' hn' hatt' => ?_⟩
  · have hmem : n.plant ∈ m'.node.map Node.plant := h.plant ▸ List.mem_map_of_mem hn
    obtain ⟨n', hn', hplant⟩ := List.mem_map.mp hmem
    exact ⟨n', hn', (congrArg (·.1) hplant).trans hatt⟩
  · obtain ⟨n, hn, hplant⟩ := hall n' hn'
    exact (congrArg (·.2.1) hplant).symm.trans (hby n hn ((congrArg (·.1) hplant).trans hatt'))

theorem SamePlant.lastStores (hm : m.LastStores) : m'.LastStores := by
  obtain ⟨n, hn, hbits⟩ := hm
  have hall : ∀ ns : List Node, (ns.filter Node.attached).getLast?.map Node.plant =
      ((ns.map Node.plant).filter (·.1)).getLast? := by
    intro ns
    rw [List.filter_map, List.getLast?_map]
    rfl
  have hlast : m'.lastNode.map Node.plant = some n.plant := by
    rw [lastNode, hall, h.plant, ← hall]
    exact congrArg (Option.map Node.plant) hn
  obtain ⟨n', hn', hplant⟩ := Option.map_eq_some_iff.mp hlast
  refine ⟨n', hn', ?_⟩
  have hsame : n'.cable.bits = n.cable.bits := congrArg (·.2.2) hplant
  omega

theorem SamePlant.length_ringCells : m'.ringCells.length = m.ringCells.length := by
  have hall : ∀ ns : List Node, (ns.flatMap Node.onCable).length =
      ((ns.map Node.plant).map fun p => if p.1 then p.2.2 else 0).sum := by
    intro ns
    rw [List.length_flatMap, List.map_map]
    congr 1
    refine List.map_congr_left fun n _ => ?_
    change n.onCable.length = if n.attached then n.cable.bits else 0
    unfold Node.onCable
    by_cases hatt : n.attached = true
    · rw [if_pos hatt, if_pos hatt, List.length_reverse, DelayLine.length_contents]
    · rw [if_neg hatt, if_neg hatt]
      rfl
  rw [ringCells, ringCells, hall, hall, h.plant]

theorem SamePlant.contents (hcells : m'.ringCells = m.ringCells) (slot : Nat) :
    (m'.nodeAt slot).cable.contents = (m.nodeAt slot).cable.contents := by
  cases hatt : (m.nodeAt slot).attached with
  | false => rw [h.left slot hatt]
  | true =>
    have hcable := onCable_getD h.plant hcells slot
    have hnew : (m'.node.getD slot {}).attached = true :=
      (attached_nodeAt_congr h.plant slot).trans hatt
    have hold : (m.node.getD slot {}).attached = true := hatt
    unfold Node.onCable at hcable
    rw [if_pos hnew, if_pos hold] at hcable
    exact List.reverse_inj.mp hcable

end SamePlant

theorem Undriven.circumferenceBits {m : Medium} (hm : m.Undriven) :
    m.circumferenceBits = m.ringCells.length := by
  unfold Medium.circumferenceBits ringCells
  rw [List.length_flatMap]
  congr 1
  refine List.map_congr_left fun n hn => ?_
  unfold Node.onCable
  cases hatt : n.attached with
  | false => rfl
  | true =>
    rw [Node.inRing, hm.bypassed n hn hatt]
    simp only [Bool.not_true, Bool.false_eq_true, if_false, if_true, Nat.add_zero,
      List.length_reverse, DelayLine.length_contents]

theorem Undriven.run {m : Medium} (hm : m.Undriven) {P : Nat → List Cell → Prop}
    (hstart : P 0 m.ringCells)
    (hstep : ∀ m' k, m.SamePlant m' → P k m'.ringCells → P (k + 1) m'.advance.ringCells)
    (calls : List Call) :
    m.SamePlant (calls.foldl call m) ∧ P (calls.count .advance) (calls.foldl call m).ringCells := by
  induction calls using List.reverseRecOn with
  | nil => exact ⟨.refl m, hstart⟩
  | append_singleton calls c ih =>
    obtain ⟨hplant, hcells⟩ := ih
    rw [List.foldl_append, List.foldl_cons, List.foldl_nil, List.count_append]
    cases c with
    | transmit slot cell =>
      have hred := redriven_transmit (calls.foldl call m) slot cell
      refine ⟨hplant.trans hred.samePlant, ?_⟩
      rw [ringCells, call, flatMap_onCable_congr hred.wiring]
      exact hcells
    | advance => exact ⟨hplant.trans (samePlant_advance (hplant.undriven hm)), hstep _ _ hplant hcells⟩

/-! ## The lap -/

theorem LastStores.fed {m : Medium} (h : m.LastStores) (hm : m.Undriven) {cells : List Cell}
    {cell : Cell} (hcells : m.ringCells = cells ++ [cell]) : m.fed = cell := by
  obtain ⟨n, hn, hbits⟩ := h
  obtain ⟨before, n', after, hnode, hatt, hafter, hlast⟩ := exists_lastNode hm.attached
  obtain rfl : n = n' := Option.some.inj (hn.symm.trans hlast)
  have hempty : after.flatMap Node.onCable = [] := by
    rw [List.flatMap_eq_nil_iff]
    intro n hn
    rw [Node.onCable, hafter n hn]
    rfl
  have holdest : m.fed = n.cable.oldest hbits := by
    rw [Medium.fed, hlast, Option.elim_some, dif_pos hbits]
  have hcons := n.cable.contents_concat cell
  have hthrough : n.cable.through cell = n.cable.oldest hbits := dif_pos hbits
  rw [hthrough] at hcons
  cases hcontents : n.cable.contents with
  | nil =>
    have := congrArg List.length hcontents
    rw [DelayLine.length_contents, List.length_nil] at this
    omega
  | cons first rest =>
    rw [hcontents, List.cons_append, List.cons.injEq] at hcons
    have hon : n.onCable = rest.reverse ++ [first] := by
      rw [Node.onCable, if_pos hatt, hcontents, List.reverse_cons]
    rw [ringCells, hnode, List.flatMap_append, List.flatMap_cons, hempty, List.append_nil, hon,
      ← List.append_assoc] at hcells
    rw [holdest, ← hcons.1]
    exact List.singleton_inj.mp (List.append_inj' hcells rfl).2

theorem fed_of_not_lastStores {m : Medium} (h : ¬ m.LastStores) : m.fed = {} := by
  unfold fed
  cases hlast : m.lastNode with
  | none => rfl
  | some n =>
    rw [Option.elim_some, dif_neg fun hbits => h ⟨n, hlast, hbits⟩]

/-- A segment of which the last cable stores something, or that is dead altogether. -/
def Closed (m : Medium) : Prop := m.LastStores ∨ ∀ cell ∈ m.ringCells, cell = {}

theorem Closed.advance {m : Medium} (h : m.Closed) (hm : m.Undriven) {cells : List Cell}
    {cell : Cell} (hcells : m.ringCells = cells ++ [cell]) :
    m.advance.ringCells = cell :: cells := by
  have hfed : m.fed = cell := by
    by_cases hlast : m.LastStores
    · exact hlast.fed hm hcells
    · have hdead := h.resolve_left hlast cell (by rw [hcells]; exact List.mem_concat_self)
      rw [hdead]
      exact fed_of_not_lastStores hlast
  obtain ⟨out, hout⟩ := ringCells_advance hm
  rw [hfed, hcells, ← List.cons_append] at hout
  exact (List.append_inj' hout rfl).1

theorem Closed.lap {m : Medium} (h : m.Closed) (hm : m.Undriven) (calls : List Call)
    (hcount : calls.count .advance = m.ringCells.length) :
    m.SamePlant (calls.foldl call m) ∧ (calls.foldl call m).ringCells = m.ringCells := by
  have hrun := hm.run (P := fun k cells => cells.rotate k = m.ringCells)
    (List.rotate_zero _) (fun m' k hplant hcells => ?_) calls
  · obtain ⟨hplant, hcells⟩ := hrun
    rw [hcount, ← hplant.length_ringCells, List.rotate_length] at hcells
    exact ⟨hplant, hcells⟩
  · have hclosed : m'.Closed := by
      refine h.imp hplant.lastStores fun hdead cell hcell => hdead cell ?_
      rw [← hcells]
      exact List.mem_rotate.mpr hcell
    have hund := hplant.undriven hm
    obtain hnil | ⟨cells, cell, hsplit⟩ := List.eq_nil_or_concat' m'.ringCells
    · obtain ⟨out, hout⟩ := ringCells_advance hund
      have hlen := congrArg List.length hout
      rw [hnil, List.length_append, List.length_singleton, List.length_singleton] at hlen
      have hadv : m'.advance.ringCells = [] := List.length_eq_zero_iff.mp (by omega)
      rw [hadv, List.rotate_nil, ← hcells, hnil, List.rotate_nil]
    · rw [hclosed.advance hund hsplit, Nat.add_comm, ← List.rotate_rotate, List.rotate_cons_succ,
        List.rotate_zero, ← hsplit]
      exact hcells

theorem dead_lap {m : Medium} (hm : m.Undriven) (h : ¬ m.LastStores) (calls : List Call)
    (hcount : calls.count .advance = m.ringCells.length) :
    ∀ cell ∈ (calls.foldl call m).ringCells, cell = {} := by
  have hrun := hm.run (P := fun k cells => ∀ i < k, i < cells.length → cells[i]? = some {})
    (fun i hi => absurd hi (Nat.not_lt_zero i)) (fun m' k hplant hcells => ?_) calls
  · obtain ⟨hplant, hcells⟩ := hrun
    intro cell hcell
    obtain ⟨i, hi, rfl⟩ := List.getElem_of_mem hcell
    have hdead := hcells i (by rw [hcount, ← hplant.length_ringCells]; exact hi) hi
    rw [List.getElem?_eq_getElem hi] at hdead
    exact Option.some.inj hdead
  · -- The dead cells move up by one place behind another one.
    have hfed := fed_of_not_lastStores fun hlast => h (hplant.symm.lastStores hlast)
    obtain ⟨out, hout⟩ := ringCells_advance (hplant.undriven hm)
    have hlen := congrArg List.length hout
    rw [List.length_append, List.length_singleton, List.length_cons] at hlen
    intro i hi hlt
    rw [← @List.getElem?_append_left _ _ [out] i hlt, hout, hfed]
    cases i with
    | zero => rfl
    | succ i => exact hcells i (Nat.lt_of_succ_lt_succ hi) (by omega)

/-- THE LAP: a segment of bypassed nodes circulates what its cables hold exactly when the last
attached slot's cable has a length, or when nothing but dead cells is stored. -/
theorem circulates_iff {m : Medium} (hm : m.Undriven) : m.Circulates ↔ m.Closed := by
  constructor
  · intro h
    by_cases hlast : m.LastStores
    · exact .inl hlast
    · refine .inr fun cell hcell => ?_
      -- A lap of clocks and nothing else: what was there is there again, and is dead.
      have hcount : (List.replicate m.ringCells.length Call.advance).count .advance =
          m.ringCells.length := List.count_replicate_self
      have hsame := h.lap _ (hcount.trans hm.circumferenceBits.symm)
      have hdead := dead_lap hm hlast _ hcount cell
      obtain ⟨hplant, -⟩ := hm.run (P := fun _ _ => True) trivial (fun _ _ _ _ => trivial)
        (List.replicate m.ringCells.length Call.advance)
      refine hdead ?_
      rw [ringCells, flatMap_onCable_of_contents hplant.plant hsame]
      exact hcell
  · intro h
    refine ⟨fun cells cell hcells => h.advance hm hcells, fun calls hcount slot => ?_⟩
    obtain ⟨hplant, hcells⟩ := h.lap hm calls (hcount.trans hm.circumferenceBits)
    exact hplant.contents hcells slot

/-- Two bypassed nodes with a cable of two bits between them, and a cable of the given length behind
the second. -/
def bypassedPair (bits : Nat) : Medium :=
  (((init.attach.2.attach.2.setCableBits 0 2).setCableBits 1 bits).setBypass 0 true).setBypass 1 true

theorem undriven_bypassedPair : (bypassedPair 1).Undriven := ⟨by decide +kernel, by decide +kernel⟩

/-- With one bit of cable behind the last node, the cells go round. -/
theorem circulates_bypassedPair : (bypassedPair 1).Circulates :=
  (circulates_iff undriven_bypassedPair).mpr (.inl ⟨_, rfl, by decide +kernel⟩)

/-- With none, the cell that comes off the first cable is lost. -/
theorem not_circulates_bypassedPair : ¬ (bypassedPair 0).Circulates := by
  intro h
  have hrotates := h.rotates [⟨false, false⟩] ⟨true, true⟩ (by decide +kernel)
  exact absurd hrotates (by decide +kernel)

end Medium

end Apollo.Ring
