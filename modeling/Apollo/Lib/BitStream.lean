import Apollo.Lib.Sizes
import Mathlib
import Apollo.Lib.ByteMemory

/-!
# The bits of a memory, one after another

A big-endian memory of bytes is a stream of bits in both directions from any address: bit 0 is the most
significant bit of the byte there, and bit -1 the least significant bit of the byte before (`bitPlace`).
The bits of a run are gathered into a word with the first most significant (`gather`) and put into one
each in its place (`scatter`); a word that holds the bytes of a stretch of memory has each bit of the
stream that is in the stretch in a place that is counted from its least significant end (`Window`).
-/

namespace Apollo.Lib

variable {w v n : ℕ}

/-! ## Bits of a word -/

/-- The first bits of a run, gathered into a word. -/
def gather (w : ℕ) (bit : ℕ → Bool) : ℕ → BitVec w
  | 0 => 0
  | n + 1 => (gather w bit n <<< 1) ||| (BitVec.ofBool (bit n)).setWidth w

theorem getLsbD_gather (bit : ℕ → Bool) {j : ℕ} (hj : j < w) :
    (gather w bit n).getLsbD j = (decide (j < n) && bit (n - 1 - j)) := by
  induction n generalizing j with
  | zero => simp [gather]
  | succ n ih =>
    rw [gather, BitVec.getLsbD_or, BitVec.getLsbD_shiftLeft, BitVec.getLsbD_setWidth, decide_eq_true hj]
    cases j with
    | zero =>
      rw [decide_eq_true (by omega : 0 < 1), decide_eq_true (by omega : 0 < n + 1), Nat.add_sub_cancel,
        Nat.sub_zero]
      simp
    | succ j =>
      rw [decide_eq_false (by omega : ¬ j + 1 < 1), Nat.add_sub_cancel, ih (by omega),
        BitVec.getLsbD_of_ge _ (j + 1) (by omega), show n + 1 - 1 - (j + 1) = n - 1 - j by omega]
      simp

theorem gather_congr {bit bit' : ℕ → Bool} (h : ∀ i < n, bit i = bit' i) :
    gather w bit n = gather w bit' n := by
  refine BitVec.eq_of_getLsbD_eq fun j hj => ?_
  rw [getLsbD_gather _ hj, getLsbD_gather _ hj]
  by_cases hin : j < n
  · rw [h _ (by omega)]
  · rw [decide_eq_false hin, Bool.false_and, Bool.false_and]

theorem gather_setWidth (bit : ℕ → Bool) : (gather n bit n).setWidth w = gather w bit n := by
  refine BitVec.eq_of_getLsbD_eq fun j hj => ?_
  rw [BitVec.getLsbD_setWidth, getLsbD_gather _ hj, decide_eq_true hj, Bool.true_and]
  by_cases hin : j < n
  · rw [getLsbD_gather _ hin]
  · rw [BitVec.getLsbD_of_ge _ _ (by omega), decide_eq_false hin, Bool.false_and]

theorem gather_eq_setWidth {bit : ℕ → Bool} {x : BitVec w} (h : ∀ i < n, bit i = x.getLsbD (n - 1 - i)) :
    gather n bit n = x.setWidth n := by
  refine BitVec.eq_of_getLsbD_eq fun j hj => ?_
  rw [getLsbD_gather _ hj, h _ (by omega), BitVec.getLsbD_setWidth, decide_eq_true hj, Bool.true_and,
    Bool.true_and, show n - 1 - (n - 1 - j) = j by omega]

/-- The first bits of a run, put into a word in their places. -/
def scatter (place : ℕ → ℕ) (bit : ℕ → Bool) (x : BitVec w) : ℕ → BitVec w
  | 0 => x
  | n + 1 =>
    if bit n then scatter place bit x n ||| (1#w <<< place n)
    else scatter place bit x n &&& ~~~(1#w <<< place n)

section Scatter

variable {place : ℕ → ℕ} {bit : ℕ → Bool} {x : BitVec w} {j : ℕ}

theorem getLsbD_scatter_succ (hj : j < w) :
    (scatter place bit x (n + 1)).getLsbD j =
      if j = place n then bit n else (scatter place bit x n).getLsbD j := by
  have hone : (1#w <<< place n).getLsbD j = decide (j = place n) := by
    rw [← BitVec.twoPow_eq, BitVec.getLsbD_twoPow]
    by_cases heq : j = place n
    · rw [← heq, decide_eq_true hj, decide_eq_true rfl, Bool.and_self]
    · rw [decide_eq_false heq, decide_eq_false fun h : place n = j => heq h.symm, Bool.and_false]
  rw [scatter]
  by_cases hbit : bit n = true
  · rw [if_pos hbit, BitVec.getLsbD_or, hone, hbit]
    by_cases heq : j = place n
    · rw [if_pos heq, decide_eq_true heq, Bool.or_true]
    · rw [if_neg heq, decide_eq_false heq, Bool.or_false]
  · rw [if_neg hbit, BitVec.getLsbD_and, BitVec.getLsbD_not, hone, decide_eq_true hj, Bool.true_and,
      Bool.eq_false_of_not_eq_true hbit]
    by_cases heq : j = place n
    · rw [if_pos heq, decide_eq_true heq, Bool.not_true, Bool.and_false]
    · rw [if_neg heq, decide_eq_false heq, Bool.not_false, Bool.and_true]

theorem getLsbD_scatter_of_ne (hj : j < w) (h : ∀ i < n, j ≠ place i) :
    (scatter place bit x n).getLsbD j = x.getLsbD j := by
  induction n with
  | zero => rfl
  | succ n ih =>
    rw [getLsbD_scatter_succ hj, if_neg (h n (by omega)), ih fun i hi => h i (by omega)]

theorem scatter_congr {place' : ℕ → ℕ} (h : ∀ i < n, place i = place' i) :
    scatter place bit x n = scatter place' bit x n := by
  induction n with
  | zero => rfl
  | succ n ih => rw [scatter, scatter, ih fun i hi => h i (by omega), h n (by omega)]

theorem getLsbD_scatter {i : ℕ} (hi : i < n) (hplace : place i < w)
    (h : ∀ k < n, i < k → place i ≠ place k) :
    (scatter place bit x n).getLsbD (place i) = bit i := by
  induction n with
  | zero => omega
  | succ n ih =>
    rw [getLsbD_scatter_succ hplace]
    by_cases heq : i = n
    · rw [if_pos (by rw [heq]), heq]
    · rw [if_neg (h n (by omega) (by omega)), ih (by omega) fun k hk => h k (by omega)]

end Scatter

/-! ## Bits of a memory -/

/-- Where a bit of the stream is: the byte, and the bit of the byte. -/
def bitPlace (base : BitVec w) (k : ℤ) : BitVec w × Fin 8 :=
  (base + BitVec.ofInt w (k / 8), ⟨7 - (k % 8).toNat, by omega⟩)

/-- A bit of a memory. -/
def memoryBit (m : ByteMemory w) (place : BitVec w × Fin 8) : Bool := (m place.1).getLsbD place.2

/-- A word that holds `n` bytes of a memory, the first most significant, below whatever else it holds. -/
def Window (m : ByteMemory w) (start : BitVec w) (n : ℕ) (x : BitVec v) : Prop :=
  ∀ q < n, ∀ b < 8, x.getLsbD (8 * (n - 1 - q) + b) = (m (start + BitVec.ofNat w q)).getLsbD b

/-- Where a bit of the stream is in a window from byte `first` of the stream on. -/
def windowPlace (first : ℤ) (n : ℕ) (k : ℤ) : ℕ := 8 * n - 1 - (k - 8 * first).toNat

section Window

variable {m : ByteMemory w} {base : BitVec w} {first k : ℤ} {x : BitVec v}

/-- A bit of the stream that is in a window. -/
structure Inside (first : ℤ) (n : ℕ) (k : ℤ) : Prop where
  low : 8 * first ≤ k
  high : k < 8 * (first + n)

theorem windowPlace_lt (h : Inside first n k) : windowPlace first n k < 8 * n := by
  obtain ⟨hlow, hhigh⟩ := h
  unfold windowPlace
  omega

theorem windowPlace_injective {k' : ℤ} (h : Inside first n k) (h' : Inside first n k')
    (heq : windowPlace first n k = windowPlace first n k') : k = k' := by
  obtain ⟨hlow, hhigh⟩ := h
  obtain ⟨hlow', hhigh'⟩ := h'
  unfold windowPlace at heq
  omega

theorem windowPlace_eq (base : BitVec w) (h : Inside first n k) :
    (k / 8 - first).toNat < n ∧
      windowPlace first n k = 8 * (n - 1 - (k / 8 - first).toNat) + (7 - (k % 8).toNat) ∧
      bitPlace base k = (base + BitVec.ofInt w first + BitVec.ofNat w (k / 8 - first).toNat,
        ⟨7 - (k % 8).toNat, by omega⟩) := by
  obtain ⟨hlow, hhigh⟩ := h
  have hdiv : 8 * (k / 8) + k % 8 = k := Int.mul_ediv_add_emod k 8
  refine ⟨by omega, by unfold windowPlace; omega, ?_⟩
  have hbyte : BitVec.ofInt w (k / 8) =
      BitVec.ofInt w first + BitVec.ofNat w (k / 8 - first).toNat := by
    rw [← BitVec.ofInt_natCast, ← BitVec.ofInt_add]
    congr 1
    omega
  unfold bitPlace
  rw [hbyte, BitVec.add_assoc]

theorem Window.getLsbD (h : Window m (base + BitVec.ofInt w first) n x) (hk : Inside first n k) :
    x.getLsbD (windowPlace first n k) = memoryBit m (bitPlace base k) := by
  obtain ⟨hbyte, hplace, hbit⟩ := windowPlace_eq base hk
  rw [hplace, hbit, h _ hbyte _ (by omega)]
  rfl

/-- A memory with a window written back. -/
def storeWindow (m : ByteMemory w) (start : BitVec w) (n : ℕ) (x : BitVec v) : ByteMemory w :=
  fun a => if (a - start).toNat < n then (x >>> (8 * (n - 1 - (a - start).toNat))).setWidth 8 else m a

theorem memoryBit_storeWindow (hn : n ≤ 2 ^ w) (hk : Inside first n k) :
    memoryBit (storeWindow m (base + BitVec.ofInt w first) n x) (bitPlace base k) =
      x.getLsbD (windowPlace first n k) := by
  obtain ⟨hbyte, hplace, hbit⟩ := windowPlace_eq base hk
  rw [hbit, hplace]
  unfold memoryBit storeWindow
  dsimp only
  rw [ByteMemory.toNat_add_ofNat_sub _ (by omega), if_pos hbyte, BitVec.getLsbD_setWidth,
    BitVec.getLsbD_ushiftRight, decide_eq_true (by omega), Bool.true_and]

theorem storeWindow_append {start : BitVec w} {first : ℕ} (hfirst : first ≤ n) (hn : n < 2 ^ w) :
    storeWindow (storeWindow m start first (x >>> (8 * (n - first)))) (start + BitVec.ofNat w first)
        (n - first) x = storeWindow m start n x := by
  funext a
  have hdistance := (a - start).isLt
  unfold storeWindow
  rw [ByteMemory.toNat_sub_add start a (by omega)]
  generalize (a - start).toNat = d at hdistance
  by_cases hlow : first ≤ d
  · rw [if_pos hlow]
    by_cases hin : d < n
    · rw [if_pos (by omega), if_pos hin, show n - first - 1 - (d - first) = n - 1 - d by omega]
    · rw [if_neg (by omega), if_neg (by omega), if_neg hin]
  · rw [if_neg hlow, if_neg (by omega), if_pos (by omega), if_pos (by omega), ← BitVec.shiftRight_add,
      show 8 * (n - first) + 8 * (first - 1 - d) = 8 * (n - 1 - d) by omega]

/-- THE BITS OF A RUN, PUT INTO A WINDOW AND WRITTEN BACK: they are in memory, and every other bit is as it
was. -/
theorem storeWindow_scatter {offset : ℤ} {width : ℕ} (bit : ℕ → Bool)
    (hn : n ≤ 2 ^ w) (hv : 8 * n ≤ v) (hwindow : Window m (base + BitVec.ofInt w first) n x)
    (hinside : ∀ i < width, Inside first n (offset + i)) :
    let place := fun i : ℕ => windowPlace first n (offset + i)
    let m' := storeWindow m (base + BitVec.ofInt w first) n (scatter place bit x width)
    (∀ i < width, memoryBit m' (bitPlace base (offset + i)) = bit i) ∧
      ∀ p, (∀ i < width, p ≠ bitPlace base (offset + i)) → memoryBit m' p = memoryBit m p := by
  intro place m'
  have hlt : ∀ i < width, place i < v := fun i hi =>
    lt_of_lt_of_le (windowPlace_lt (hinside i hi)) hv
  constructor
  · intro i hi
    rw [memoryBit_storeWindow hn (hinside i hi)]
    refine getLsbD_scatter hi (hlt i hi) fun k hk hik heq => ?_
    have := windowPlace_injective (hinside i hi) (hinside k hk) heq
    omega
  · rintro ⟨a, b⟩ hne
    change (m' a).getLsbD b = (m a).getLsbD b
    change (if (a - (base + BitVec.ofInt w first)).toNat < n then _ else m a).getLsbD b = _
    split
    · next hbyte =>
      have ha : a = base + BitVec.ofInt w first +
          BitVec.ofNat w (a - (base + BitVec.ofInt w first)).toNat := by
        rw [BitVec.ofNat_toNat, BitVec.setWidth_eq, BitVec.add_comm, BitVec.sub_add_cancel]
      generalize (a - (base + BitVec.ofInt w first)).toNat = q at hbyte ha
      rw [BitVec.getLsbD_setWidth, BitVec.getLsbD_ushiftRight, decide_eq_true b.isLt, Bool.true_and,
        getLsbD_scatter_of_ne (by omega) ?_, hwindow q hbyte b b.isLt, ← ha]
      intro i hi heq
      obtain ⟨hin, hplace, hbit⟩ := windowPlace_eq base (hinside i hi)
      change _ = windowPlace first n (offset + i) at heq
      rw [hplace] at heq
      have hb := b.isLt
      have hq : q = ((offset + i) / 8 - first).toNat := by omega
      have hr : b.val = 7 - ((offset + i) % 8).toNat := by omega
      refine hne i hi ?_
      rw [hbit, ha, hq]
      exact Prod.ext rfl (Fin.ext hr)
    · rfl

end Window

end Apollo.Lib
