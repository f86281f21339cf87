import Mathlib

/-!
# Rounding

A rational is rounded to an integer in one of four modes, and to a multiple of a unit by way of that.
A machine works on signs and magnitudes instead: it keeps the quotient of two natural numbers and adds
one to it or not (`Direction.quotient`), by the direction in which the mode and the sign send a
magnitude and by what the remainder is against half of the divisor. `Rounding.toInt_div` says that the
two are one.
-/

namespace Apollo.Lib

/-- A magnitude with its sign. -/
def signed {α : Type} [Neg α] (negative : Bool) (x : α) : α := if negative then -x else x

/-- The four modes of rounding. -/
inductive Rounding
  | nearest
  | zero
  | minusInfinity
  | plusInfinity
deriving DecidableEq

/-- Where a mode sends a magnitude: to the nearest, toward zero, or away from it. -/
inductive Direction
  | nearest
  | down
  | up
deriving DecidableEq

namespace Rounding

/-- The integer that a rational is rounded to; of two that are equally near, the even one. -/
def toInt (mode : Rounding) (x : ℚ) : ℤ :=
  match mode with
  | nearest =>
    if Int.fract x < 1 / 2 then ⌊x⌋
    else if 1 / 2 < Int.fract x then ⌊x⌋ + 1
    else if Even ⌊x⌋ then ⌊x⌋ else ⌊x⌋ + 1
  | zero => if 0 ≤ x then ⌊x⌋ else ⌈x⌉
  | minusInfinity => ⌊x⌋
  | plusInfinity => ⌈x⌉

/-- The multiple of `unit` that a rational is rounded to. -/
def toGrid (mode : Rounding) (unit x : ℚ) : ℚ := unit * mode.toInt (x / unit)

/-- Where the mode sends the magnitude of a number of this sign. -/
def direction (mode : Rounding) (negative : Bool) : Direction :=
  match mode with
  | nearest => .nearest
  | zero => .down
  | minusInfinity => if negative then .up else .down
  | plusInfinity => if negative then .down else .up

end Rounding

namespace Direction

/-- Whether the quotient `q` goes up when `r` of the divisor `d` is left. -/
def raises (direction : Direction) (q r d : ℕ) : Bool :=
  match direction with
  | nearest => decide (d < 2 * r) || (decide (2 * r = d) && decide (q % 2 = 1))
  | down => false
  | up => decide (r ≠ 0)

/-- The quotient of two natural numbers, rounded. -/
def quotient (direction : Direction) (n d : ℕ) : ℕ :=
  n / d + if direction.raises (n / d) (n % d) d then 1 else 0

/-! ## Bounds -/

theorem raises_zero (direction : Direction) (q : ℕ) {d : ℕ} (hd : 0 < d) :
    direction.raises q 0 d = false := by
  cases direction with
  | nearest =>
    unfold raises
    rw [decide_eq_false (by omega), decide_eq_false (by omega)]
    rfl
  | down => rfl
  | up => rfl

theorem quotient_of_dvd (direction : Direction) {n d : ℕ} (hd : 0 < d) (h : d ∣ n) :
    direction.quotient n d = n / d := by
  unfold quotient
  rw [Nat.mod_eq_zero_of_dvd h, raises_zero direction _ hd]
  rfl

theorem quotient_mul (direction : Direction) (k : ℕ) {d : ℕ} (hd : 0 < d) :
    direction.quotient (k * d) d = k := by
  rw [quotient_of_dvd direction hd (dvd_mul_left d k), Nat.mul_div_cancel k hd]

theorem div_le_quotient (direction : Direction) (n d : ℕ) : n / d ≤ direction.quotient n d :=
  Nat.le_add_right _ _

theorem le_quotient (direction : Direction) {k n d : ℕ} (hd : 0 < d) (h : k * d ≤ n) :
    k ≤ direction.quotient n d :=
  ((Nat.le_div_iff_mul_le hd).mpr h).trans (direction.div_le_quotient n d)

theorem quotient_le (direction : Direction) {k n d : ℕ} (hd : 0 < d) (h : n ≤ k * d) :
    direction.quotient n d ≤ k := by
  rcases h.lt_or_eq with hlt | rfl
  · have hdiv : n / d < k := (Nat.div_lt_iff_lt_mul hd).mpr hlt
    unfold quotient
    split_ifs <;> omega
  · rw [quotient_mul direction k hd]

theorem quotient_eq_iff (direction : Direction) {n d : ℕ} (hd : 0 < d) :
    ((direction.quotient n d : ℕ) : ℚ) = (n : ℚ) / d ↔ d ∣ n := by
  have hpos : (0 : ℚ) < d := by exact_mod_cast hd
  constructor
  · intro h
    rw [eq_div_iff hpos.ne'] at h
    exact ⟨direction.quotient n d, by rw [mul_comm]; exact_mod_cast h.symm⟩
  · intro h
    rw [quotient_of_dvd direction hd h, Nat.cast_div h hpos.ne']

theorem raises_mul_mul (direction : Direction) {c : ℕ} (hc : 0 < c) (q r d : ℕ) :
    direction.raises q (c * r) (c * d) = direction.raises q r d := by
  cases direction with
  | nearest =>
    have hlt : c * d < 2 * (c * r) ↔ d < 2 * r := by
      rw [show 2 * (c * r) = c * (2 * r) by ring]
      exact Nat.mul_lt_mul_left hc
    have heq : 2 * (c * r) = c * d ↔ 2 * r = d := by
      rw [show 2 * (c * r) = c * (2 * r) by ring]
      exact Nat.mul_right_inj hc.ne'
    simp only [raises, hlt, heq]
  | down => rfl
  | up =>
    have hne : c * r ≠ 0 ↔ r ≠ 0 := by
      rw [Ne, Nat.mul_eq_zero, not_or]
      exact and_iff_right hc.ne'
    simp only [raises, hne]

theorem quotient_mul_mul (direction : Direction) {c : ℕ} (hc : 0 < c) (n d : ℕ) :
    direction.quotient (c * n) (c * d) = direction.quotient n d := by
  unfold quotient
  rw [Nat.mul_div_mul_left n d hc, Nat.mul_mod_mul_left, direction.raises_mul_mul hc]

theorem quotient_congr (direction : Direction) {n d n' d' : ℕ} (hd : 0 < d) (hd' : 0 < d')
    (h : n * d' = n' * d) : direction.quotient n d = direction.quotient n' d' := by
  rw [← direction.quotient_mul_mul hd' n d, ← direction.quotient_mul_mul hd n' d', mul_comm d' n, h,
    mul_comm n' d, mul_comm d' d]

theorem quotient_carry (direction : Direction) {n d c : ℕ} (hd : 0 < d) (hlt : n < 10 * c * d)
    (h : direction.quotient n d = 10 * c) : direction.quotient n (10 * d) = c := by
  have hdiv : n / d < 10 * c := (Nat.div_lt_iff_lt_mul hd).mpr hlt
  have hsplit := Nat.div_add_mod n d
  have hrest := Nat.mod_lt n hd
  unfold quotient at h ⊢
  generalize n / d = q at hdiv hsplit h
  generalize n % d = r at hsplit hrest h
  have hraised : direction.raises q r d = true := by
    by_contra hkept
    rw [if_neg hkept] at h
    omega
  rw [if_pos hraised] at h
  obtain ⟨k, rfl⟩ : ∃ k, c = k + 1 := ⟨c - 1, by omega⟩
  obtain rfl : q = 10 * k + 9 := by omega
  have hn : n = 10 * d * k + (9 * d + r) := by
    rw [← hsplit]
    ring
  have hless : 9 * d + r < 10 * d := by omega
  have hquotient : n / (10 * d) = k := by
    rw [hn, Nat.mul_add_div (by omega), Nat.div_eq_of_lt hless, add_zero]
  have hremainder : n % (10 * d) = 9 * d + r := by
    rw [hn, Nat.mul_add_mod, Nat.mod_eq_of_lt hless]
  rw [hquotient, hremainder]
  cases direction with
  | nearest =>
    unfold raises
    rw [decide_eq_true (by omega), Bool.true_or, if_pos rfl]
  | down => cases hraised
  | up =>
    have hsome : 9 * d + r ≠ 0 := by omega
    exact congrArg (k + ·) (if_pos (decide_eq_true hsome))

/-! ## Guard and sticky -/

/-- The two bits that stand for a remainder: whether it is at least half of the divisor, and whether
anything is below that. -/
structure Encodes (guard sticky : Bool) (r d : ℕ) : Prop where
  guard : guard = decide (d ≤ 2 * r)
  sticky : sticky = decide (2 * r ≠ 0 ∧ 2 * r ≠ d)

/-- The decision of a machine that has kept the two bits. -/
def raisesBits (direction : Direction) (odd guard sticky : Bool) : Bool :=
  match direction with
  | nearest => if guard && !sticky then odd else guard
  | down => false
  | up => guard || sticky

theorem Encodes.inexact {guard sticky : Bool} {r d : ℕ} (hd : 0 < d) (h : Encodes guard sticky r d) :
    (guard || sticky) = decide (r ≠ 0) := by
  rw [h.guard, h.sticky, ← Bool.decide_or]
  exact decide_eq_decide.mpr (by omega)

theorem Encodes.raises {guard sticky : Bool} {r d : ℕ} (hd : 0 < d) (h : Encodes guard sticky r d)
    (direction : Direction) (q : ℕ) :
    direction.raisesBits (decide (q % 2 = 1)) guard sticky = direction.raises q r d := by
  cases direction with
  | nearest =>
    unfold raisesBits Direction.raises
    rw [h.guard, h.sticky]
    by_cases htie : 2 * r = d
    · have hnone : ¬ (2 * r ≠ 0 ∧ 2 * r ≠ d) := fun hboth => hboth.2 htie
      rw [decide_eq_true (by omega : d ≤ 2 * r), decide_eq_false hnone,
        decide_eq_false (by omega : ¬ d < 2 * r), decide_eq_true htie]
      rfl
    · by_cases hmore : d < 2 * r
      · have hboth : 2 * r ≠ 0 ∧ 2 * r ≠ d := ⟨by omega, htie⟩
        rw [decide_eq_true hmore.le, decide_eq_true hboth, decide_eq_true hmore]
        rfl
      · rw [decide_eq_false (by omega : ¬ d ≤ 2 * r), decide_eq_false hmore, decide_eq_false htie]
        rfl
  | down => rfl
  | up => exact h.inexact hd

end Direction

/-! ## Signs and magnitudes -/

namespace Rounding

/-- The mode that does on the other side of zero what this one does on its own. -/
def opposite : Rounding → Rounding
  | nearest => nearest
  | zero => zero
  | minusInfinity => plusInfinity
  | plusInfinity => minusInfinity

theorem toInt_nearest (x : ℚ) :
    nearest.toInt x =
      if Int.fract x < 1 / 2 then ⌊x⌋
      else if 1 / 2 < Int.fract x then ⌊x⌋ + 1
      else if Even ⌊x⌋ then ⌊x⌋ else ⌊x⌋ + 1 := rfl

theorem toInt_zero (x : ℚ) : zero.toInt x = if 0 ≤ x then ⌊x⌋ else ⌈x⌉ := rfl

theorem toInt_intCast (mode : Rounding) (k : ℤ) : mode.toInt k = k := by
  cases mode with
  | nearest => rw [toInt_nearest, Int.fract_intCast, if_pos (by norm_num), Int.floor_intCast]
  | zero => rw [toInt_zero, Int.floor_intCast, Int.ceil_intCast, ite_self]
  | minusInfinity => exact Int.floor_intCast k
  | plusInfinity => exact Int.ceil_intCast k

theorem nearest_neg (x : ℚ) : nearest.toInt (-x) = -nearest.toInt x := by
  by_cases hwhole : Int.fract x = 0
  · obtain ⟨k, rfl⟩ := Int.fract_eq_zero_iff.mp hwhole
    rw [← Int.cast_neg, toInt_intCast, toInt_intCast]
  · have hfract : Int.fract (-x) = 1 - Int.fract x := Int.fract_neg hwhole
    have hfloor : ⌊-x⌋ = -⌊x⌋ - 1 := by
      have hsum : ((⌊-x⌋ : ℤ) : ℚ) = ((-⌊x⌋ - 1 : ℤ) : ℚ) := by
        have hx := Int.floor_add_fract x
        have hnx := Int.floor_add_fract (-x)
        push_cast
        linarith
      exact_mod_cast hsum
    have heven : Even (-⌊x⌋ - 1) ↔ ¬ Even ⌊x⌋ := by
      rw [Int.even_sub_one, even_neg]
    rw [toInt_nearest, toInt_nearest, hfract, hfloor]
    rcases lt_trichotomy (Int.fract x) (1 / 2) with hlt | heq | hgt
    · rw [if_pos hlt, if_neg (by linarith), if_pos (by linarith)]
      ring
    · have hmirror : ¬ (1 - 1 / 2 : ℚ) < 1 / 2 := by norm_num
      have hmirror' : ¬ (1 / 2 : ℚ) < 1 - 1 / 2 := by norm_num
      rw [heq, if_neg hmirror, if_neg hmirror', if_neg (lt_irrefl _), if_neg (lt_irrefl _)]
      by_cases hpar : Even ⌊x⌋
      · rw [if_pos hpar, if_neg (fun h => heven.mp h hpar)]
        ring
      · rw [if_neg hpar, if_pos (heven.mpr hpar)]
        ring
    · rw [if_pos (by linarith), if_neg hgt.not_gt, if_pos hgt]
      ring

theorem toInt_neg (mode : Rounding) (x : ℚ) : mode.toInt (-x) = -mode.opposite.toInt x := by
  cases mode with
  | nearest => exact nearest_neg x
  | zero =>
    change zero.toInt (-x) = -zero.toInt x
    rw [toInt_zero, toInt_zero]
    rcases lt_trichotomy x 0 with hlt | rfl | hgt
    · rw [if_pos (by linarith), if_neg (by linarith), Int.floor_neg]
    · rfl
    · rw [if_neg (by linarith), if_pos hgt.le, Int.ceil_neg]
  | minusInfinity => exact Int.floor_neg
  | plusInfinity => exact Int.ceil_neg

theorem toInt_natDiv (mode : Rounding) (n : ℕ) {d : ℕ} (hd : 0 < d) :
    mode.toInt ((n : ℚ) / d) = (mode.direction false).quotient n d := by
  have hpos : (0 : ℚ) < d := by exact_mod_cast hd
  have hfloor : ⌊(n : ℚ) / d⌋ = (n / d : ℕ) := by
    rw [Rat.floor_natCast_div_natCast]
    rfl
  have hsplit : (n : ℚ) / d = (n / d : ℕ) + ((n % d : ℕ) : ℚ) / d := by
    rw [div_eq_iff hpos.ne', add_mul, div_mul_cancel₀ _ hpos.ne']
    exact_mod_cast (Nat.div_add_mod' n d).symm
  have hfract : Int.fract ((n : ℚ) / d) = ((n % d : ℕ) : ℚ) / d := by
    unfold Int.fract
    rw [hfloor, Int.cast_natCast]
    linarith
  have hceil : ⌈(n : ℚ) / d⌉ = (n / d : ℕ) + if n % d = 0 then 0 else 1 := by
    have hlt : ((n % d : ℕ) : ℚ) / d < 1 :=
      (div_lt_one hpos).mpr (by exact_mod_cast Nat.mod_lt n hd)
    rw [Int.ceil_eq_iff, hsplit]
    split_ifs with hzero
    · rw [hzero, Nat.cast_zero, zero_div, add_zero, add_zero, Int.cast_natCast]
      constructor <;> linarith
    · have hgt : (0 : ℚ) < ((n % d : ℕ) : ℚ) / d :=
        div_pos (by exact_mod_cast Nat.pos_of_ne_zero hzero) hpos
      rw [Int.cast_add, Int.cast_one, Int.cast_natCast]
      constructor <;> linarith
  have hhalf : (1 / 2 : ℚ) < ((n % d : ℕ) : ℚ) / d ↔ d < 2 * (n % d) := by
    rw [lt_div_iff₀ hpos, ← @Nat.cast_lt ℚ]
    push_cast
    constructor <;> intro h <;> linarith
  have hless : ((n % d : ℕ) : ℚ) / d < 1 / 2 ↔ 2 * (n % d) < d := by
    rw [div_lt_iff₀ hpos, ← @Nat.cast_lt ℚ]
    push_cast
    constructor <;> intro h <;> linarith
  unfold Direction.quotient
  cases mode with
  | nearest =>
    unfold direction Direction.raises
    rw [toInt_nearest, hfract, hfloor]
    simp only [hhalf, hless]
    rcases lt_trichotomy (2 * (n % d)) d with hlt | heq | hgt
    · rw [if_pos hlt, decide_eq_false hlt.not_gt, decide_eq_false hlt.ne]
      simp
    · rw [if_neg heq.not_lt, if_neg heq.symm.not_lt, decide_eq_false heq.symm.not_lt,
        decide_eq_true heq]
      by_cases hpar : Even (n / d)
      · rw [if_pos (by exact_mod_cast hpar), decide_eq_false (by rw [Nat.even_iff] at hpar; omega)]
        simp
      · rw [if_neg (by exact_mod_cast hpar), decide_eq_true (Nat.not_even_iff.mp hpar)]
        simp
    · rw [if_neg hgt.not_gt, if_pos hgt, decide_eq_true hgt]
      simp
  | zero =>
    rw [toInt_zero, if_pos (by positivity), hfloor]
    rfl
  | minusInfinity => exact hfloor
  | plusInfinity =>
    refine hceil.trans ?_
    unfold direction Direction.raises
    by_cases hzero : n % d = 0 <;> simp [hzero]

/-- ROUNDING A QUOTIENT OF EITHER SIGN is rounding its magnitude, in the direction that the mode has
there. -/
theorem toInt_div (mode : Rounding) (negative : Bool) (n : ℕ) {d : ℕ} (hd : 0 < d) :
    mode.toInt (signed negative ((n : ℚ) / d)) =
      signed negative (((mode.direction negative).quotient n d : ℕ) : ℤ) := by
  cases negative with
  | false => exact mode.toInt_natDiv n hd
  | true =>
    have hdirection : mode.opposite.direction false = mode.direction true := by cases mode <;> rfl
    change mode.toInt (-((n : ℚ) / d)) = -_
    rw [toInt_neg, toInt_natDiv _ n hd, hdirection]

theorem toGrid_signed (mode : Rounding) (negative : Bool) {unit y : ℚ} {n d : ℕ} (hd : 0 < d)
    (h : y / unit = (n : ℚ) / d) :
    mode.toGrid unit (signed negative y) =
      signed negative (unit * ((mode.direction negative).quotient n d : ℕ)) := by
  have hdiv : signed negative y / unit = signed negative ((n : ℚ) / d) := by
    rw [← h]
    cases negative
    · rfl
    · exact neg_div unit y
  unfold toGrid
  rw [hdiv, mode.toInt_div negative n hd]
  cases negative
  · exact congrArg (unit * ·) (Int.cast_natCast _)
  · refine (congrArg (unit * ·) ?_).trans (mul_neg _ _)
    exact (Int.cast_neg _).trans (congrArg Neg.neg (Int.cast_natCast _))

end Rounding

end Apollo.Lib
