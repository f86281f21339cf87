import Mathlib

/-!
# The byte lanes of a big-endian long word

A long word is four bytes, of which the first is the most significant. It is made of its
bytes, and two long words with the same bytes are the same.
-/

namespace Apollo.Lib

/-- A byte of a long word, the most significant first. -/
def byteAt (w : BitVec 32) (j : Nat) : BitVec 8 := w.extractLsb' (8 * (3 - j)) 8

/-- The long word of four bytes. -/
def ofBytes (byte : Nat → BitVec 8) : BitVec 32 := byte 0 ++ byte 1 ++ byte 2 ++ byte 3

theorem byteAt_getLsbD (w : BitVec 32) (j : Nat) {i : Nat} (hi : i < 8) :
    (byteAt w j).getLsbD i = w.getLsbD (8 * (3 - j) + i) := by
  rw [byteAt, BitVec.getLsbD_extractLsb', decide_eq_true hi, Bool.true_and]

theorem ofBytes_getLsbD (byte : Nat → BitVec 8) {i : Nat} (hi : i < 32) :
    (ofBytes byte).getLsbD i = (byte (3 - i / 8)).getLsbD (i % 8) := by
  have happend : (ofBytes byte).getLsbD i =
      if i < 8 then (byte 3).getLsbD i
      else if i < 16 then (byte 2).getLsbD (i - 8)
      else if i < 24 then (byte 1).getLsbD (i - 16)
      else (byte 0).getLsbD (i - 24) := by
    unfold ofBytes
    rw [BitVec.getLsbD_append, BitVec.getLsbD_append, BitVec.getLsbD_append]
    by_cases h₀ : i < 8
    · simp [h₀]
    · by_cases h₁ : i < 16
      · simp [h₀, h₁, show i - 8 < 8 by omega]
      · by_cases h₂ : i < 24
        · simp [h₀, h₁, h₂, show ¬ i - 8 < 8 by omega, show i - 8 - 8 = i - 16 by omega,
            show i - 16 < 8 by omega]
        · simp [h₀, h₁, h₂, show ¬ i - 8 < 8 by omega, show i - 8 - 8 = i - 16 by omega,
            show ¬ i - 16 < 8 by omega, show i - 16 - 8 = i - 24 by omega]
  rw [happend]
  split
  · rw [show i / 8 = 0 by omega, show i % 8 = i by omega]
  · split
    · rw [show i / 8 = 1 by omega, show i % 8 = i - 8 by omega]
    · split
      · rw [show i / 8 = 2 by omega, show i % 8 = i - 16 by omega]
      · rw [show i / 8 = 3 by omega, show i % 8 = i - 24 by omega]

theorem byteAt_ofBytes (byte : Nat → BitVec 8) {j : Nat} (hj : j < 4) :
    byteAt (ofBytes byte) j = byte j := by
  apply BitVec.eq_of_getLsbD_eq
  intro i hi
  rw [byteAt_getLsbD _ _ hi, ofBytes_getLsbD _ (by omega),
    show 3 - (8 * (3 - j) + i) / 8 = j by omega, show (8 * (3 - j) + i) % 8 = i by omega]

theorem eq_of_byteAt {w w' : BitVec 32} (h : ∀ j < 4, byteAt w j = byteAt w' j) : w = w' := by
  apply BitVec.eq_of_getLsbD_eq
  intro i hi
  have hbyte := congrArg (fun b => b.getLsbD (i % 8)) (h (3 - i / 8) (by omega))
  rw [byteAt_getLsbD _ _ (by omega), byteAt_getLsbD _ _ (by omega),
    show 8 * (3 - (3 - i / 8)) + i % 8 = i by omega] at hbyte
  exact hbyte

end Apollo.Lib
