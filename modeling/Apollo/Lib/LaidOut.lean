import Mathlib
import Apollo.Lib.ByteMemory

/-!
# Operands side by side

A memory with a list of operands of one size laid out in it from an address on (`layOut`). Stored one at a
time, upwards from the first or downwards from the last, they make the same memory, as long as they fit in
it.
-/

namespace Apollo.Lib.ByteMemory

variable {w : ℕ}

/-- A memory with operands laid out in it. -/
def layOut (m : ByteMemory w) (a : BitVec w) (size : ℕ) (values : List (BitVec 32)) : ByteMemory w :=
  fun x =>
    match values[(x - a).toNat / size]? with
    | some value => byteAt value (4 - size + (x - a).toNat % size)
    | none => m x

variable {m : ByteMemory w} {a x : BitVec w} {size k i : ℕ} {value : BitVec 32}
  {values : List (BitVec 32)}

theorem layOut_of_le (h : size * values.length ≤ (x - a).toNat) (hsize : 0 < size) :
    layOut m a size values x = m x := by
  have hindex : values.length ≤ (x - a).toNat / size :=
    (Nat.le_div_iff_mul_le hsize).mpr (by rwa [Nat.mul_comm])
  unfold layOut
  rw [List.getElem?_eq_none hindex]

@[simp] theorem layOut_nil : layOut m a size [] = m := by
  funext x
  unfold layOut
  simp

theorem layOut_add (hi : i < size) (hk : values[k]? = some value) (hw : size * values.length ≤ 2 ^ w) :
    layOut m a size values (a + BitVec.ofNat w (size * k + i)) = byteAt value (4 - size + i) := by
  have hlt : k < values.length := (List.getElem?_eq_some_iff.mp hk).1
  have hend : size * (k + 1) ≤ size * values.length := Nat.mul_le_mul_left _ hlt
  rw [Nat.mul_succ] at hend
  unfold layOut
  rw [toNat_add_ofNat_sub a (by omega), Nat.mul_add_div (by omega), Nat.div_eq_of_lt hi, Nat.add_zero, hk,
    Nat.mul_add_mod, Nat.mod_eq_of_lt hi]

theorem loadAt_layOut (hsize : size ≤ 4) (hfits : Fits value size) (hk : values[k]? = some value)
    (hw : size * values.length ≤ 2 ^ w) :
    (layOut m a size values).loadAt (a + BitVec.ofNat w (size * k)) size = value := by
  apply eq_of_byteAt
  intro j hj
  rw [byteAt_loadAt hj]
  split
  · rw [BitVec.add_assoc, ← BitVec.ofNat_add, layOut_add (by omega) hk hw]
    congr 1
    omega
  · exact (hfits j (by omega)).symm

theorem layOut_next_of_lt (hsize : 0 < size) (hw : size * values.length + size ≤ 2 ^ w)
    (hlt : size < 2 ^ w) (h : (x - a).toNat < size) :
    layOut m (a + BitVec.ofNat w size) size values x = m x := by
  have hnext := toNat_sub_add a x hlt
  rw [if_neg (by omega)] at hnext
  exact layOut_of_le (by omega) hsize

/-- FROM THE FIRST: an operand is stored, and the others after it. -/
theorem layOut_cons (hsize : 0 < size) (hw : size * (values.length + 1) ≤ 2 ^ w) (hlt : size < 2 ^ w) :
    layOut m a size (value :: values) =
      layOut (m.storeAt a size value) (a + BitVec.ofNat w size) size values := by
  rw [Nat.mul_succ] at hw
  funext x
  by_cases hhere : (x - a).toNat < size
  · rw [layOut_next_of_lt hsize hw hlt hhere]
    unfold layOut storeAt
    rw [Nat.div_eq_of_lt hhere, List.getElem?_cons_zero, if_pos hhere, Nat.mod_eq_of_lt hhere]
  · have hnext : (x - (a + BitVec.ofNat w size)).toNat = (x - a).toNat - size := by
      rw [toNat_sub_add a x hlt, if_pos (by omega)]
    have hdiv : (x - a).toNat / size = ((x - a).toNat - size) / size + 1 := by
      rw [← Nat.add_div_right _ hsize]
      congr 1
      omega
    have hmod : (x - a).toNat % size = ((x - a).toNat - size) % size := by
      rw [← Nat.add_mod_right ((x - a).toNat - size)]
      congr 1
      omega
    unfold layOut
    rw [hnext, hdiv, hmod, List.getElem?_cons_succ, storeAt_of_le (by omega)]

theorem layOut_storeAt (hsize : 0 < size) (hw : size * (values.length + 1) ≤ 2 ^ w) (hlt : size < 2 ^ w) :
    layOut (m.storeAt a size value) (a + BitVec.ofNat w size) size values =
      (layOut m (a + BitVec.ofNat w size) size values).storeAt a size value := by
  rw [Nat.mul_succ] at hw
  funext x
  by_cases hhere : (x - a).toNat < size
  · rw [layOut_next_of_lt hsize hw hlt hhere]
    unfold storeAt
    rw [if_pos hhere, if_pos hhere]
  · rw [storeAt_of_le (m := layOut m (a + BitVec.ofNat w size) size values) (by omega)]
    unfold layOut
    rw [storeAt_of_le (by omega)]

/-- FROM THE LAST: an operand is stored, and the others before it. -/
theorem layOut_append (hsize : 0 < size) (hlt : size < 2 ^ w) :
    ∀ (values : List (BitVec 32)) (m : ByteMemory w) (a : BitVec w),
      size * (values.length + 1) ≤ 2 ^ w →
      layOut m a size (values ++ [value]) =
        layOut (m.storeAt (a + BitVec.ofNat w (size * values.length)) size value) a size values := by
  intro values
  induction values with
  | nil =>
    intro m a hw
    rw [List.nil_append, layOut_cons hsize hw hlt, layOut_nil, layOut_nil, List.length_nil, Nat.mul_zero]
    simp
  | cons first rest ih =>
    intro m a hw
    have hrest : size * (rest.length + 1) ≤ 2 ^ w :=
      (Nat.mul_le_mul_left _ (Nat.le_succ _)).trans hw
    rw [List.cons_append, layOut_cons hsize (by simpa using hw) hlt, layOut_storeAt hsize
      (by simpa using hw) hlt, ih _ _ hrest, layOut_cons hsize hrest hlt, layOut_storeAt hsize hrest hlt,
      BitVec.add_assoc, ← BitVec.ofNat_add, List.length_cons, Nat.mul_succ, Nat.add_comm size]

end Apollo.Lib.ByteMemory
