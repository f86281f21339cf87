import Mathlib

/-!
# Bits, most significant first

A serial line carries a number as a list of bits with the most significant bit
in front, and a memory of bytes as the bits of its bytes one after the other.
This module is that reading and nothing else: `msbBits` spells a number at a
given width, `ofMsbBits` reads it back, and `bitAt` addresses one bit of a
packed buffer. Nothing here names a protocol.

The two halves of the round trip are `ofMsbBits_msbBits` (a number that fits
its width comes back) and `msbBits_ofMsbBits` (every spelling is the spelling of
its own value). Together they make `msbBits n` a bijection between the numbers
below `2 ^ n` and the lists of length `n`, which is what lets a codec be argued
about on bit lists alone.
-/

namespace Apollo.Lib

/-! ## Numbers -/

/-- The low `n` bits of `v`, most significant first. -/
def msbBits : Nat → Nat → List Bool
  | 0, _ => []
  | n + 1, v => v.testBit n :: msbBits n v

/-- The number a bit list spells, most significant first. -/
def ofMsbBits (bs : List Bool) : Nat :=
  bs.foldl (fun v b => 2 * v + b.toNat) 0

@[simp] theorem length_msbBits (n v : Nat) : (msbBits n v).length = n := by
  induction n with
  | zero => rfl
  | succ n ih => simp only [msbBits, List.length_cons, ih]

theorem foldl_ofMsbBits (bs : List Bool) (v : Nat) :
    bs.foldl (fun v b => 2 * v + b.toNat) v = v * 2 ^ bs.length + ofMsbBits bs := by
  induction bs generalizing v with
  | nil => simp only [List.foldl_nil, List.length_nil, pow_zero, mul_one, ofMsbBits, add_zero]
  | cons b bs ih =>
    have hb := ih (2 * v + b.toNat)
    have h0 := ih (2 * 0 + b.toNat)
    simp only [ofMsbBits, List.foldl_cons, List.length_cons] at hb h0 ⊢
    rw [hb, h0, pow_succ]
    ring

@[simp] theorem ofMsbBits_nil : ofMsbBits [] = 0 := rfl

theorem ofMsbBits_cons (b : Bool) (bs : List Bool) :
    ofMsbBits (b :: bs) = b.toNat * 2 ^ bs.length + ofMsbBits bs :=
  (foldl_ofMsbBits bs (2 * 0 + b.toNat)).trans (by rw [mul_zero, zero_add])

theorem ofMsbBits_append (as bs : List Bool) :
    ofMsbBits (as ++ bs) = ofMsbBits as * 2 ^ bs.length + ofMsbBits bs := by
  unfold ofMsbBits
  rw [List.foldl_append]
  exact foldl_ofMsbBits bs _

theorem ofMsbBits_concat (bs : List Bool) (b : Bool) :
    ofMsbBits (bs ++ [b]) = 2 * ofMsbBits bs + b.toNat := by
  simp only [ofMsbBits_append, List.length_singleton, pow_one, ofMsbBits_cons, List.length_nil,
    pow_zero, mul_one, ofMsbBits_nil, add_zero, mul_comm]

theorem ofMsbBits_lt (bs : List Bool) : ofMsbBits bs < 2 ^ bs.length := by
  induction bs with
  | nil => simp only [ofMsbBits_nil, List.length_nil, pow_zero, zero_lt_one]
  | cons b bs ih =>
    rw [ofMsbBits_cons, List.length_cons, pow_succ]
    cases b <;> simp only [Bool.toNat_true, Bool.toNat_false] <;> omega

theorem ofMsbBits_msbBits (n v : Nat) : ofMsbBits (msbBits n v) = v % 2 ^ n := by
  induction n with
  | zero => simp only [msbBits, ofMsbBits_nil, pow_zero, Nat.mod_one]
  | succ n ih =>
    rw [msbBits, ofMsbBits_cons, length_msbBits, ih, Nat.mod_pow_succ, Nat.toNat_testBit]
    ring

theorem ofMsbBits_msbBits_of_lt {n v : Nat} (h : v < 2 ^ n) :
    ofMsbBits (msbBits n v) = v := by
  rw [ofMsbBits_msbBits, Nat.mod_eq_of_lt h]

theorem msbBits_add_mul {n v : Nat} (hv : v < 2 ^ n) (q : Nat) :
    msbBits n (2 ^ n * q + v) = msbBits n v := by
  have key : ∀ m ≤ n, msbBits m (2 ^ n * q + v) = msbBits m v := by
    intro m hm
    induction m with
    | zero => rfl
    | succ m ih =>
      have hlt : m < n := hm
      rw [msbBits, msbBits, ih (Nat.le_of_succ_le hm), Nat.testBit_two_pow_mul_add q hv,
        if_pos hlt]
  exact key n le_rfl

theorem msbBits_ofMsbBits (bs : List Bool) : msbBits bs.length (ofMsbBits bs) = bs := by
  induction bs with
  | nil => rfl
  | cons b bs ih =>
    have hlt := ofMsbBits_lt bs
    have hbit : (2 ^ bs.length * b.toNat + ofMsbBits bs).testBit bs.length = b := by
      rw [Nat.testBit_two_pow_mul_add _ hlt, if_neg (lt_irrefl _), Nat.sub_self]
      cases b <;> rfl
    rw [List.length_cons, msbBits, ofMsbBits_cons, mul_comm, hbit, msbBits_add_mul hlt, ih]

theorem eq_of_ofMsbBits_eq {as bs : List Bool} (hlen : as.length = bs.length)
    (h : ofMsbBits as = ofMsbBits bs) : as = bs := by
  rw [← msbBits_ofMsbBits as, ← msbBits_ofMsbBits bs, h, hlen]

theorem msbBits_eq_map (n v : Nat) :
    msbBits n v = (List.range n).map fun i => v.testBit (n - 1 - i) := by
  induction n with
  | zero => rfl
  | succ n ih =>
    rw [msbBits, ih, List.range_succ_eq_map, List.map_cons, List.map_map]
    congr 1
    refine List.map_congr_left fun i _ => ?_
    simp only [Function.comp_apply, Nat.add_sub_cancel, Nat.succ_eq_add_one]
    congr 1
    omega

/-! ## Packed buffers -/

/-- Bit `i` of a packed buffer: byte `i / 8`, most significant bit first. A bit
past the end of the buffer reads as zero. -/
def bitAt (bytes : List (BitVec 8)) (i : Nat) : Bool :=
  (bytes.getD (i / 8) 0#8).getLsbD (7 - i % 8)

/-- Set bit `i` of a packed buffer. Past the end there is nothing to set. -/
def orBit (bytes : List (BitVec 8)) (i : Nat) : List (BitVec 8) :=
  bytes.modify (i / 8) (· ||| 1#8 <<< (7 - i % 8))

/-- The first `n` bits of a packed buffer, in the order the line carries them. -/
def packed (bytes : List (BitVec 8)) (n : Nat) : List Bool :=
  (List.range n).map (bitAt bytes)

@[simp] theorem length_orBit (bytes : List (BitVec 8)) (i : Nat) :
    (orBit bytes i).length = bytes.length :=
  List.length_modify ..

@[simp] theorem length_packed (bytes : List (BitVec 8)) (n : Nat) :
    (packed bytes n).length = n := by
  simp only [packed, List.length_map, List.length_range]

theorem packed_succ (bytes : List (BitVec 8)) (n : Nat) :
    packed bytes (n + 1) = packed bytes n ++ [bitAt bytes n] := by
  simp only [packed, List.range_succ, List.map_append, List.map_cons, List.map_nil]

theorem packed_congr {as bs : List (BitVec 8)} {n : Nat}
    (h : ∀ i < n, bitAt as i = bitAt bs i) : packed as n = packed bs n :=
  List.map_congr_left fun i hi => h i (List.mem_range.mp hi)

theorem getD_modify {α : Type} {l : List α} {i : Nat} (hi : i < l.length) (f : α → α) (j : Nat)
    (d : α) : (l.modify i f).getD j d = if i = j then f (l.getD j d) else l.getD j d := by
  rw [List.getD_eq_getElem?_getD, List.getD_eq_getElem?_getD, List.getElem?_modify]
  split
  · next h =>
    subst h
    rw [List.getElem?_eq_getElem hi]
    rfl
  · next h => simp only [id_map']

theorem modify_concat {α : Type} (f : α → α) (l : List α) (i : Nat) (a : α) :
    (l ++ [a]).modify i f = l.modify i f ++ [if l.length = i then f a else a] := by
  induction l generalizing i with
  | nil =>
    cases i with
    | zero => rfl
    | succ i => simp
  | cons b l ih =>
    cases i with
    | zero => rfl
    | succ i => simp only [List.cons_append, List.modify_succ_cons, ih, List.length_cons,
        Nat.add_right_cancel_iff]

theorem bitAt_orBit {bytes : List (BitVec 8)} {i : Nat} (hi : i / 8 < bytes.length) (j : Nat) :
    bitAt (orBit bytes i) j = (bitAt bytes j || decide (j = i)) := by
  unfold bitAt orBit
  rw [getD_modify hi]
  split
  · next hbyte =>
    have hone : ∀ a < 8, ∀ b < 8, (1#8 <<< (7 - a)).getLsbD (7 - b) = decide (b = a) := by decide
    rw [BitVec.getLsbD_or, hone _ (Nat.mod_lt _ (by norm_num)) _ (Nat.mod_lt _ (by norm_num))]
    congr 1
    exact decide_eq_decide.mpr ⟨fun h => by omega, fun h => by omega⟩
  · next hbyte =>
    have hne : j ≠ i := fun h => hbyte (by rw [h])
    rw [decide_eq_false hne, Bool.or_false]

end Apollo.Lib
