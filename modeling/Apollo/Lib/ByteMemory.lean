import Apollo.Lib.Lanes

/-!
# A big-endian byte memory

Addresses wrap around. `storeAt` puts the last `size` bytes of a long word at an address, the
most significant first; `loadAt` reads them back, as the last bytes of a long word whose others
are zero. A byte belongs to the operand at `a` when its distance from `a`, going up, is less
than the operand's size, so nothing below depends on where the operand stands.
-/

namespace Apollo.Lib

/-- A memory of bytes. -/
abbrev ByteMemory (w : Nat) : Type := BitVec w → BitVec 8

namespace ByteMemory

variable {w : Nat}

/-- A memory with an operand stored in it. -/
def storeAt (m : ByteMemory w) (a : BitVec w) (size : Nat) (value : BitVec 32) : ByteMemory w :=
  fun x => if (x - a).toNat < size then byteAt value (4 - size + (x - a).toNat) else m x

/-- The operand at an address. -/
def loadAt (m : ByteMemory w) (a : BitVec w) (size : Nat) : BitVec 32 :=
  ofBytes fun j => if 4 - size ≤ j then m (a + BitVec.ofNat w (j - (4 - size))) else 0

variable {m m' : ByteMemory w} {a b x : BitVec w} {size size' i j : Nat} {value : BitVec 32}

theorem toNat_add_ofNat_sub (a : BitVec w) (h : i < 2 ^ w) :
    (a + BitVec.ofNat w i - a).toNat = i := by
  rw [BitVec.add_comm, BitVec.add_sub_cancel, BitVec.toNat_ofNat, Nat.mod_eq_of_lt h]

theorem toNat_sub_add (a x : BitVec w) (h : i < 2 ^ w) :
    (x - (a + BitVec.ofNat w i)).toNat =
      if i ≤ (x - a).toNat then (x - a).toNat - i else 2 ^ w + (x - a).toNat - i := by
  have hdistance := (x - a).isLt
  rw [← BitVec.sub_sub, BitVec.toNat_sub, BitVec.toNat_ofNat, Nat.mod_eq_of_lt h]
  generalize (x - a).toNat = d at hdistance
  split
  · rw [show 2 ^ w - i + d = 2 ^ w + (d - i) by omega, Nat.add_mod_left,
      Nat.mod_eq_of_lt (by omega)]
  · rw [show 2 ^ w - i + d = 2 ^ w + d - i by omega, Nat.mod_eq_of_lt (by omega)]

theorem storeAt_of_le (h : size ≤ (x - a).toNat) : storeAt m a size value x = m x := by
  rw [storeAt, if_neg (by omega)]

theorem storeAt_add (hi : i < size) (h : size ≤ 2 ^ w) :
    storeAt m a size value (a + BitVec.ofNat w i) = byteAt value (4 - size + i) := by
  rw [storeAt, toNat_add_ofNat_sub a (by omega), if_pos hi]

theorem byteAt_loadAt (hj : j < 4) :
    byteAt (loadAt m a size) j =
      if 4 - size ≤ j then m (a + BitVec.ofNat w (j - (4 - size))) else 0 := by
  rw [loadAt, byteAt_ofBytes _ hj]

theorem loadAt_congr (h : ∀ i < size, m (a + BitVec.ofNat w i) = m' (a + BitVec.ofNat w i)) :
    loadAt m a size = loadAt m' a size := by
  apply eq_of_byteAt
  intro j hj
  rw [byteAt_loadAt hj, byteAt_loadAt hj]
  split
  · by_cases hin : j - (4 - size) < size
    · exact h _ hin
    · omega
  · rfl

/-- Of a long word, the bytes that an operand of a size does not have are zero. -/
def Fits (value : BitVec 32) (size : Nat) : Prop := ∀ j < 4 - size, byteAt value j = 0

/-- LOAD AFTER STORE: an operand is read as it was stored. -/
theorem loadAt_storeAt (hsize : size ≤ 4) (hw : size ≤ 2 ^ w) (hfits : Fits value size) :
    loadAt (storeAt m a size value) a size = value := by
  apply eq_of_byteAt
  intro j hj
  rw [byteAt_loadAt hj]
  split
  · rw [storeAt_add (by omega) hw]
    congr 1
    omega
  · exact (hfits j (by omega)).symm

theorem loadAt_storeAt_of_le
    (h : ∀ i < size, size' ≤ (a + BitVec.ofNat w i - b).toNat) :
    loadAt (storeAt m b size' value) a size = loadAt m a size :=
  loadAt_congr fun i hi => storeAt_of_le (h i hi)

theorem storeAt_split {first : Nat} {part : BitVec 32} (hfirst : first ≤ size) (hsize : size ≤ 4)
    (hw : size < 2 ^ w)
    (hpart : ∀ i < first, byteAt part (4 - first + i) = byteAt value (4 - size + i)) :
    storeAt (storeAt m a first part) (a + BitVec.ofNat w first) (size - first) value =
      storeAt m a size value := by
  funext x
  have hdistance := (x - a).isLt
  unfold storeAt
  rw [toNat_sub_add a x (by omega)]
  generalize (x - a).toNat = d at hdistance
  by_cases hearly : d < first
  · rw [if_neg (show ¬ first ≤ d by omega),
      if_neg (show ¬ 2 ^ w + d - first < size - first by omega), if_pos hearly,
      if_pos (show d < size by omega), hpart d hearly]
  · rw [if_pos (by omega : first ≤ d), if_neg hearly]
    by_cases hin : d < size
    · rw [if_pos (by omega), if_pos hin]
      congr 1
      omega
    · rw [if_neg (by omega), if_neg hin]

end ByteMemory

end Apollo.Lib
