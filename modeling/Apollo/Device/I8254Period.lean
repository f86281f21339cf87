import Apollo.Device.I8254Count

/-!
# The periodic modes of the 8254

Mode 2 divides the clock by its count, and mode 3 makes a square wave of it. Both EXACTLY: a cycle has
as many pulses as the count says, in binary or in decimal, with an even count or an odd one, and so
does the next, for any number of pulses (`out_periodic`).

The counting element is followed through its values. `pitWord` and `wordValue` translate between
values and words of either number system, and from `counter_countDown` on nothing depends on which of
the two it is. `Rate` and `Square` say what stands in a counter at pulse `j` of a cycle, and one pulse
takes each to the next `j`.
-/

namespace Apollo.Device

/-! ## What sixteen bits stand for -/

/-- The counts of a number system. -/
def radix (bcd : Bool) : Nat := if bcd then 10000 else 65536

/-- The word that stands for a value. -/
def pitWord (bcd : Bool) (v : Nat) : BitVec 16 :=
  if bcd then decimalToBcd v else BitVec.ofNat 16 v

/-- The value that a word stands for. -/
def wordValue (bcd : Bool) (word : BitVec 16) : Nat :=
  if bcd then bcdToDecimal word else word.toNat

/-- Four decimal digits. -/
def ValidDigits (word : BitVec 16) : Prop :=
  word.toNat / 4096 % 16 ≤ 9 ∧ word.toNat / 256 % 16 ≤ 9 ∧ word.toNat / 16 % 16 ≤ 9 ∧
    word.toNat % 16 ≤ 9

/-- A count of the periodic modes: anything but 1, in valid digits if it is decimal. -/
structure LegalCount (bcd : Bool) (word : BitVec 16) : Prop where
  digits : bcd = true → ValidDigits word
  ne_one : wordValue bcd word ≠ 1

/-- The pulses that a count stands for: 0 is the largest. -/
def period (bcd : Bool) (word : BitVec 16) : Nat :=
  if wordValue bcd word = 0 then radix bcd else wordValue bcd word

theorem toNat_nibble (word : BitVec 16) (n : Nat) :
    (word >>> n &&& 0xF).toNat = word.toNat / 2 ^ n % 16 := by
  rw [BitVec.toNat_and, BitVec.toNat_ushiftRight, Nat.shiftRight_eq_div_pow]
  exact Nat.and_two_pow_sub_one_eq_mod _ 4

theorem bcdToDecimal_eq (word : BitVec 16) : bcdToDecimal word =
    word.toNat / 4096 % 16 * 1000 + word.toNat / 256 % 16 * 100 + word.toNat / 16 % 16 * 10 +
      word.toNat % 16 := by
  have hlow : (word &&& 0xF).toNat = word.toNat % 16 := by
    rw [BitVec.toNat_and]
    exact Nat.and_two_pow_sub_one_eq_mod _ 4
  rw [bcdToDecimal, toNat_nibble, toNat_nibble, toNat_nibble, hlow]
  norm_num only

theorem or_digits {a b c d : Nat} (hb : b < 16) (hc : c < 16) (hd : d < 16) :
    a <<< 12 ||| b <<< 8 ||| c <<< 4 ||| d = a * 4096 + b * 256 + c * 16 + d := by
  have h₁ : c <<< 4 ||| d = c * 16 + d := by
    rw [← Nat.shiftLeft_add_eq_or_of_lt (by simpa using hd), Nat.shiftLeft_eq]
  have h₂ : b <<< 8 ||| (c * 16 + d) = b * 256 + (c * 16 + d) := by
    rw [← Nat.shiftLeft_add_eq_or_of_lt (by omega), Nat.shiftLeft_eq]
  have h₃ : a <<< 12 ||| (b * 256 + (c * 16 + d)) = a * 4096 + (b * 256 + (c * 16 + d)) := by
    rw [← Nat.shiftLeft_add_eq_or_of_lt (by omega), Nat.shiftLeft_eq]
  rw [Nat.or_assoc, Nat.or_assoc, h₁, h₂, h₃]
  omega

theorem toNat_decimalToBcd (v : Nat) : (decimalToBcd v).toNat =
    v / 1000 % 10 * 4096 + v / 100 % 10 * 256 + v / 10 % 10 * 16 + v % 10 := by
  rw [decimalToBcd, or_digits (by omega) (by omega) (by omega), BitVec.toNat_ofNat]
  omega

theorem hex_digits {a b c d n : Nat} (hb : b < 16) (hc : c < 16) (hd : d < 16) (ha : a < 16)
    (hn : n = a * 4096 + b * 256 + c * 16 + d) :
    n / 4096 % 16 = a ∧ n / 256 % 16 = b ∧ n / 16 % 16 = c ∧ n % 16 = d := by
  subst hn
  refine ⟨?_, ?_, ?_, ?_⟩ <;> omega

theorem decimal_digits {a b c d n : Nat} (hb : b < 10) (hc : c < 10) (hd : d < 10) (ha : a < 10)
    (hn : n = a * 1000 + b * 100 + c * 10 + d) :
    n / 1000 % 10 = a ∧ n / 100 % 10 = b ∧ n / 10 % 10 = c ∧ n % 10 = d := by
  subst hn
  refine ⟨?_, ?_, ?_, ?_⟩ <;> omega

theorem radix_pos (bcd : Bool) : 0 < radix bcd := by cases bcd <;> decide

theorem wordValue_pitWord {bcd : Bool} {v : Nat} (hv : v < radix bcd) :
    wordValue bcd (pitWord bcd v) = v := by
  cases bcd with
  | false =>
    change (BitVec.ofNat 16 v).toNat = v
    rw [BitVec.toNat_ofNat]
    exact Nat.mod_eq_of_lt hv
  | true =>
    change bcdToDecimal (decimalToBcd v) = v
    have hlt : v < 10000 := hv
    obtain ⟨h₃, h₂, h₁, h₀⟩ := hex_digits (by omega) (by omega) (by omega) (by omega)
      (toNat_decimalToBcd v)
    rw [bcdToDecimal_eq, h₃, h₂, h₁, h₀]
    have hten : v / 100 = v / 10 / 10 := by rw [Nat.div_div_eq_div_mul]
    have hhundred : v / 1000 = v / 10 / 10 / 10 := by
      rw [Nat.div_div_eq_div_mul, Nat.div_div_eq_div_mul]
    rw [hten, hhundred]
    omega

theorem pitWord_wordValue {bcd : Bool} {word : BitVec 16} (h : bcd = true → ValidDigits word) :
    pitWord bcd (wordValue bcd word) = word := by
  cases bcd with
  | false => exact BitVec.ofNat_toNat .. |>.trans (BitVec.setWidth_eq _)
  | true =>
    obtain ⟨h₃, h₂, h₁, h₀⟩ := h rfl
    have hlt := word.isLt
    apply BitVec.eq_of_toNat_eq
    change (decimalToBcd (bcdToDecimal word)).toNat = _
    obtain ⟨d₃, d₂, d₁, d₀⟩ := decimal_digits (by omega) (by omega) (by omega) (by omega)
      (bcdToDecimal_eq word)
    rw [toNat_decimalToBcd, d₃, d₂, d₁, d₀]
    have hbyte : word.toNat / 256 = word.toNat / 16 / 16 := by rw [Nat.div_div_eq_div_mul]
    have htop : word.toNat / 4096 = word.toNat / 16 / 16 / 16 := by
      rw [Nat.div_div_eq_div_mul, Nat.div_div_eq_div_mul]
    rw [hbyte, htop]
    omega

theorem wordValue_lt {bcd : Bool} {word : BitVec 16} (h : bcd = true → ValidDigits word) :
    wordValue bcd word < radix bcd := by
  cases bcd with
  | false => exact word.isLt
  | true =>
    obtain ⟨h₃, h₂, h₁, h₀⟩ := h rfl
    change bcdToDecimal word < 10000
    rw [bcdToDecimal_eq]
    omega

theorem pitWord_eq_iff {bcd : Bool} {v u : Nat} (hv : v < radix bcd) (hu : u < radix bcd) :
    pitWord bcd v = pitWord bcd u ↔ v = u := by
  constructor
  · intro h
    rw [← wordValue_pitWord hv, ← wordValue_pitWord hu, h]
  · rintro rfl
    rfl

theorem pitWord_zero (bcd : Bool) : pitWord bcd 0 = 0 := by cases bcd <;> rfl

theorem pitWord_one (bcd : Bool) : pitWord bcd 1 = 1 := by cases bcd <;> rfl

theorem pitWord_odd (bcd : Bool) (v : Nat) : (pitWord bcd v &&& 1 != 0) = decide (v % 2 = 1) := by
  have hone : ∀ word : BitVec 16, (word &&& 1 != 0) = decide (word.toNat % 2 = 1) := by
    intro word
    have hbit : (word &&& 1).toNat = word.toNat % 2 := by
      rw [BitVec.toNat_and]
      exact Nat.and_two_pow_sub_one_eq_mod _ 1
    rw [Bool.eq_iff_iff, bne_iff_ne, decide_eq_true_eq, Ne, ← BitVec.toNat_inj, hbit]
    change ¬ word.toNat % 2 = 0 ↔ _
    omega
  rw [hone]
  cases bcd with
  | false =>
    change decide ((BitVec.ofNat 16 v).toNat % 2 = 1) = _
    rw [BitVec.toNat_ofNat, Nat.mod_mod_of_dvd _ (by decide)]
  | true =>
    change decide ((decimalToBcd v).toNat % 2 = 1) = _
    rw [toNat_decimalToBcd]
    congr 1
    rw [eq_iff_iff]
    omega

theorem radix_cases (bcd : Bool) : radix bcd = 10000 ∨ radix bcd = 65536 := by
  cases bcd
  · exact .inr rfl
  · exact .inl rfl

section LegalCount

variable {bcd : Bool} {word : BitVec 16} (h : LegalCount bcd word)
include h

theorem LegalCount.two_le : 2 ≤ period bcd word := by
  have hone := h.ne_one
  unfold period
  rcases radix_cases bcd with hradix | hradix <;> split <;> omega

theorem LegalCount.le_radix : period bcd word ≤ radix bcd := by
  have hlt := wordValue_lt h.digits
  unfold period
  split <;> omega

theorem LegalCount.word_eq : word = pitWord bcd (period bcd word % radix bcd) := by
  have hlt := wordValue_lt h.digits
  have hmod : period bcd word % radix bcd = wordValue bcd word := by
    unfold period
    split
    · next hzero => rw [Nat.mod_self, hzero]
    · exact Nat.mod_eq_of_lt hlt
  rw [hmod, pitWord_wordValue h.digits]

end LegalCount

/-! ### Steps of a count -/

section Steps

variable {R N j n : Nat} (hR : R = 10000 ∨ R = 65536) (hN : N ≤ R)
include hR hN

theorem step_mod (hn : j + n ≤ N) : ((N - j) % R + R - n) % R = (N - (j + n)) % R := by
  rcases hR with rfl | rfl <;> omega

theorem mod_eq_one_iff (hj : j < N) : (N - j) % R = 1 ↔ j + 1 = N := by
  rcases hR with rfl | rfl <;> omega

theorem mod_eq_zero_iff (hj : 0 < j) (hjN : j ≤ N) : (N - j) % R = 0 ↔ j = N := by
  rcases hR with rfl | rfl <;> omega

end Steps

namespace PitCounter

/-- COUNTING DOWN, in either system: modulo its radix. -/
theorem counter_countDown {c : PitCounter} {v n : Nat} (hc : c.counter = pitWord c.countsBcd v)
    (hv : v < radix c.countsBcd) (hn : n ≤ v + radix c.countsBcd) :
    (c.countDown n).counter =
      pitWord c.countsBcd ((v + radix c.countsBcd - n) % radix c.countsBcd) := by
  unfold countDown
  dsimp only
  cases hbcd : c.countsBcd with
  | false =>
    rw [hbcd] at hc hv hn
    rw [Bool.not_false, if_pos rfl, hc]
    apply BitVec.eq_of_toNat_eq
    change (BitVec.ofNat 16 v - BitVec.ofNat 16 n).toNat =
      (BitVec.ofNat 16 ((v + 65536 - n) % 65536)).toNat
    have hv' : v < 65536 := hv
    have hn' : n ≤ v + 65536 := hn
    rw [BitVec.toNat_sub, BitVec.toNat_ofNat, BitVec.toNat_ofNat, BitVec.toNat_ofNat]
    omega
  | true =>
    rw [hbcd] at hc hv
    have hval : bcdToDecimal c.counter = v := by
      rw [hc]
      exact wordValue_pitWord hv
    rw [Bool.not_true, if_neg Bool.false_ne_true, hval]
    rfl

/-! ## A counter that cycles -/

/-- A counter programmed with the control word `w` that counts from `word`, and nothing to interrupt
it. -/
structure Cycling (w : BitVec 8) (word : BitVec 16) (c : PitCounter) : Prop where
  control : c.control = w
  latch : c.latch = word
  gate : c.gate = true
  trigger : c.trigger = false
  loadPending : c.loadPending = false
  counting : c.counting = true

theorem sampled_eq {c : PitCounter} (h : c.trigger = false) : c.sampled = c := by
  cases c
  cases h
  rfl

section Cycling

variable {w : BitVec 8} {word : BitVec 16} {c : PitCounter}

theorem Cycling.bcd (h : Cycling w word c) : c.countsBcd = pitBcd w := by
  rw [countsBcd, h.control]

theorem Cycling.mode (h : Cycling w word c) : c.mode = pitMode w := by
  rw [PitCounter.mode, h.control]

theorem Cycling.countDown (h : Cycling w word c) (n : Nat) : Cycling w word (c.countDown n) :=
  ⟨h.control, h.latch, h.gate, h.trigger, h.loadPending, h.counting⟩

theorem Cycling.drive (h : Cycling w word c) (out : Bool) : Cycling w word (c.drive out) :=
  ⟨h.control, h.latch, h.gate, h.trigger, h.loadPending, h.counting⟩

theorem Cycling.loadSquare (h : Cycling w word c) : Cycling w word c.loadSquare := by
  have htransfer : Cycling w word c.transfer := ⟨h.control, h.latch, h.gate, h.trigger, rfl, rfl⟩
  unfold PitCounter.loadSquare
  split
  · exact htransfer.countDown 1
  · exact htransfer

/-- What the processor does without writing, and a gate held high, disturb no count. -/
def Op.holds : Op → Bool
  | .control _ | .write _ | .gate false => false
  | _ => true

theorem op_eq_of_holds (hgate : c.gate = true) {o : Op} (ho : o.holds = true) (hclock : o ≠ .clock) :
    ∃ status count next statusLatch countLatch,
      c.op o = { c with
        statusLatched := status
        countLatched := count
        readMsbNext := next
        statusLatch
        countLatch } := by
  cases o with
  | control value => cases ho
  | write value => cases ho
  | clock => exact absurd rfl hclock
  | read =>
    obtain ⟨status, count, next, hread⟩ := c.read_eq
    exact ⟨status, count, next, c.statusLatch, c.countLatch, hread⟩
  | latchCount =>
    simp only [PitCounter.op, latchCount]
    split
    · exact ⟨_, _, _, _, _, rfl⟩
    · exact ⟨_, _, _, _, _, rfl⟩
  | latchStatus =>
    simp only [PitCounter.op, latchStatus]
    split
    · exact ⟨_, _, _, _, _, rfl⟩
    · exact ⟨_, _, _, _, _, rfl⟩
  | gate high =>
    cases high with
    | false => cases ho
    | true =>
      refine ⟨c.statusLatched, c.countLatched, c.readMsbNext, c.statusLatch, c.countLatch, ?_⟩
      simp only [PitCounter.op, setGate, hgate, Bool.not_true, Bool.and_false, Bool.false_and,
        Bool.false_eq_true, if_false]

end Cycling

/-! ### Mode 2 -/

/-- Pulse `j` of a cycle of mode 2. -/
structure Rate (w : BitVec 8) (word : BitVec 16) (j : Nat) (c : PitCounter) : Prop extends
    Cycling w word c where
  counter : c.counter = pitWord (pitBcd w) ((period (pitBcd w) word - j) % radix (pitBcd w))
  out : c.out = decide (j + 1 ≠ period (pitBcd w) word)

/-- Pulse `j` of a cycle of mode 3: the high half has the pulse more that an odd count has, and the
counting element goes down by two. -/
structure Square (w : BitVec 8) (word : BitVec 16) (j : Nat) (c : PitCounter) : Prop extends
    Cycling w word c where
  counter : c.counter = pitWord (pitBcd w)
    ((2 * (period (pitBcd w) word / 2) -
      2 * (if j < (period (pitBcd w) word + 1) / 2 then j else j - (period (pitBcd w) word + 1) / 2))
        % radix (pitBcd w))
  out : c.out = decide (j < (period (pitBcd w) word + 1) / 2)

section Pulse

variable {w : BitVec 8} {word : BitVec 16} {j : Nat} {c : PitCounter}
  (hlegal : LegalCount (pitBcd w) word)
include hlegal

theorem Rate.start (h : Cycling w word c.transfer) : Rate w word 0 (c.transfer.drive true) := by
  refine ⟨h.drive true, ?_, ?_⟩
  · rw [Nat.sub_zero, ← hlegal.word_eq]
    exact h.latch
  · have := hlegal.two_le
    exact (decide_eq_true (by omega)).symm

/-- ONE PULSE of mode 2. -/
theorem Rate.clock (hmode : pitMode w = 2) (h : Rate w word j c)
    (hj : j < period (pitBcd w) word) :
    Rate w word ((j + 1) % period (pitBcd w) word) c.clock := by
  have hR := radix_cases (pitBcd w)
  have hN := hlegal.le_radix
  have htwo := hlegal.two_le
  have hclock : c.clock = c.clockMode2 false := by
    rw [clock_mode2 (h.mode.trans hmode), sampled_eq h.trigger, h.trigger, Bool.false_and]
  have hone : c.counter = 1 ↔ j + 1 = period (pitBcd w) word := by
    rw [h.counter, ← pitWord_one (pitBcd w),
      pitWord_eq_iff (Nat.mod_lt _ (radix_pos _)) (by rcases hR with hR | hR <;> omega),
      mod_eq_one_iff hR hN hj]
  unfold clockMode2 at hclock
  rw [hclock, h.loadPending, h.counting, h.gate, Bool.false_or, if_neg Bool.false_ne_true,
    Bool.not_true, Bool.or_false, if_neg Bool.false_ne_true]
  by_cases hlast : j + 1 = period (pitBcd w) word
  · rw [if_pos (hone.mpr hlast), hlast, Nat.mod_self]
    exact .start hlegal ⟨h.control, h.latch, h.gate, h.trigger, rfl, rfl⟩
  · have hdown : (c.countDown 1).counter = pitWord (pitBcd w)
        ((period (pitBcd w) word - (j + 1)) % radix (pitBcd w)) := by
      rw [← h.bcd, counter_countDown (h.bcd.symm ▸ h.counter) (Nat.mod_lt _ (radix_pos _))
        (by rw [h.bcd]; omega), h.bcd, step_mod hR hN (by omega)]
    have hnext : (c.countDown 1).counter = 1 ↔ j + 1 + 1 = period (pitBcd w) word := by
      rw [hdown, ← pitWord_one (pitBcd w),
        pitWord_eq_iff (Nat.mod_lt _ (radix_pos _)) (by rcases hR with hR | hR <;> omega),
        mod_eq_one_iff hR hN (by omega)]
    rw [if_neg (fun heq => hlast (hone.mp heq)), Nat.mod_eq_of_lt (by omega)]
    by_cases hlow : j + 1 + 1 = period (pitBcd w) word
    · rw [if_pos (hnext.mpr hlow)]
      exact ⟨(h.toCycling.countDown 1).drive false, hdown, (decide_eq_false (by omega)).symm⟩
    · rw [if_neg (fun heq => hlow (hnext.mp heq))]
      refine ⟨h.toCycling.countDown 1, hdown, ?_⟩
      change c.out = _
      rw [h.out, decide_eq_true hlast, decide_eq_true hlow]

theorem Cycling.odd (h : Cycling w word c) :
    c.squareCountIsOdd = decide (period (pitBcd w) word % 2 = 1) := by
  unfold squareCountIsOdd
  rw [h.latch, hlegal.word_eq, pitWord_odd]
  congr 1
  rw [← hlegal.word_eq, eq_iff_iff]
  rcases radix_cases (pitBcd w) with hR | hR <;> rw [hR] <;> omega

theorem Cycling.counter_loadSquare (h : Cycling w word c) :
    c.loadSquare.counter = pitWord (pitBcd w)
      (2 * (period (pitBcd w) word / 2) % radix (pitBcd w)) := by
  have hR := radix_cases (pitBcd w)
  have hN := hlegal.le_radix
  have htwo := hlegal.two_le
  have hword : c.transfer.counter = pitWord (pitBcd w) (period (pitBcd w) word % radix (pitBcd w)) := by
    rw [← hlegal.word_eq]
    exact h.latch
  have hbcd : c.transfer.countsBcd = pitBcd w := h.bcd
  unfold PitCounter.loadSquare
  rw [h.odd hlegal]
  by_cases hodd : period (pitBcd w) word % 2 = 1
  · rw [decide_eq_true hodd, if_pos rfl, ← hbcd,
      counter_countDown (hbcd.symm ▸ hword) (Nat.mod_lt _ (radix_pos _)) (by rw [hbcd]; omega), hbcd]
    congr 1
    rcases hR with hR | hR <;> rw [hR] at hN ⊢ <;> omega
  · rw [decide_eq_false hodd, if_neg Bool.false_ne_true, hword]
    congr 2
    omega

theorem Square.start (h : Cycling w word c) (high : Bool) :
    Square w word (if high then 0 else (period (pitBcd w) word + 1) / 2)
      (c.loadSquare.drive high) := by
  have htwo := hlegal.two_le
  refine ⟨h.loadSquare.drive high, ?_, ?_⟩
  · change c.loadSquare.counter = _
    rw [h.counter_loadSquare hlegal]
    cases high with
    | false => rw [if_neg Bool.false_ne_true, if_neg (Nat.lt_irrefl _), Nat.sub_self]; rfl
    | true => rw [if_pos rfl, if_pos (by omega)]; rfl
  · cases high with
    | false => exact (decide_eq_false (Nat.lt_irrefl _)).symm
    | true => exact (decide_eq_true (by rw [if_pos rfl]; omega)).symm

/-- ONE PULSE of mode 3. -/
theorem Square.clock (hmode : pitMode w = 3) (h : Square w word j c)
    (hj : j < period (pitBcd w) word) :
    Square w word ((j + 1) % period (pitBcd w) word) c.clock := by
  have hR := radix_cases (pitBcd w)
  have hN := hlegal.le_radix
  have htwo := hlegal.two_le
  have hpos := radix_pos (pitBcd w)
  have hcounter := h.counter
  generalize hi : (if j < (period (pitBcd w) word + 1) / 2 then j
    else j - (period (pitBcd w) word + 1) / 2) = i at hcounter
  have hclock : c.clock = c.clockMode3 false := by
    rw [clock_mode3 (h.mode.trans hmode), sampled_eq h.trigger, h.trigger, Bool.false_and]
  have hlen : i ≤ period (pitBcd w) word / 2 := by
    rw [← hi]
    split <;> omega
  -- The pulse more of an odd count's high half.
  have hcond : (c.squareCountIsOdd && c.out && c.counter == 0) = decide
      (period (pitBcd w) word % 2 = 1 ∧ j < (period (pitBcd w) word + 1) / 2 ∧
        i = period (pitBcd w) word / 2) := by
    rw [h.odd hlegal, h.out, Bool.eq_iff_iff]
    simp only [Bool.and_eq_true, decide_eq_true_eq, beq_iff_eq, and_assoc]
    refine and_congr_right fun hodd => and_congr_right fun _ => ?_
    rw [hcounter, ← pitWord_zero (pitBcd w), pitWord_eq_iff (Nat.mod_lt _ hpos) hpos]
    rcases hR with hR | hR <;> rw [hR] at hN ⊢ <;> omega
  have hdown : i + 1 ≤ period (pitBcd w) word / 2 → (c.countDown 2).counter = pitWord (pitBcd w)
      ((2 * (period (pitBcd w) word / 2) - 2 * (i + 1)) % radix (pitBcd w)) := by
    intro hmore
    rw [← h.bcd, counter_countDown (h.bcd.symm ▸ hcounter) (Nat.mod_lt _ (radix_pos _))
        (by rw [h.bcd]; omega),
      h.bcd, step_mod hR (by omega) (by omega), Nat.mul_succ]
  have hdownzero : i + 1 ≤ period (pitBcd w) word / 2 →
      ((c.countDown 2).counter = 0 ↔ i + 1 = period (pitBcd w) word / 2) := by
    intro hmore
    rw [hdown hmore, ← pitWord_zero (pitBcd w), pitWord_eq_iff (Nat.mod_lt _ hpos) hpos,
      mod_eq_zero_iff hR (by omega) (by omega) (by omega)]
    omega
  have hcycle := h.toCycling.countDown 2
  unfold clockMode3 at hclock
  rw [hclock, h.loadPending, h.counting, h.gate, Bool.false_or, if_neg Bool.false_ne_true,
    Bool.not_true, Bool.or_false, if_neg Bool.false_ne_true, hcond]
  by_cases hend : period (pitBcd w) word % 2 = 1 ∧ j < (period (pitBcd w) word + 1) / 2 ∧
      i = period (pitBcd w) word / 2
  · rw [if_pos (decide_eq_true hend)]
    have hnext : j + 1 = (period (pitBcd w) word + 1) / 2 := by
      rw [if_pos hend.2.1] at hi
      omega
    rw [Nat.mod_eq_of_lt (by omega), hnext]
    exact .start hlegal h.toCycling false
  · rw [decide_eq_false hend, if_neg Bool.false_ne_true]
    have hmore : i + 1 ≤ period (pitBcd w) word / 2 := by
      by_contra hno
      refine hend ⟨?_, ?_, by omega⟩
      · split at hi <;> omega
      · split at hi <;> omega
    -- The halves are counted alike, and what ends one depends on the parity.
    have hstay : (j + 1 < (period (pitBcd w) word + 1) / 2 ∨
        ((period (pitBcd w) word + 1) / 2 ≤ j ∧ j + 1 < period (pitBcd w) word)) →
        Square w word ((j + 1) % period (pitBcd w) word) (c.countDown 2) := by
      intro hwhere
      rw [Nat.mod_eq_of_lt (by omega)]
      refine ⟨hcycle, ?_, ?_⟩
      · rw [hdown hmore]
        congr 3
        split at hi <;> split <;> omega
      · change c.out = _
        rw [h.out]
        congr 1
        rw [eq_iff_iff]
        omega
    by_cases hexpired : i + 1 = period (pitBcd w) word / 2
    · rw [if_pos ((hdownzero hmore).mpr hexpired)]
      have hodd : (c.countDown 2).squareCountIsOdd = decide (period (pitBcd w) word % 2 = 1) :=
        hcycle.odd hlegal
      have hout : (c.countDown 2).out = decide (j < (period (pitBcd w) word + 1) / 2) := h.out
      unfold squareExpired
      rw [hodd, hout]
      by_cases hhigh : j < (period (pitBcd w) word + 1) / 2
      · rw [if_pos hhigh] at hi
        rw [decide_eq_true hhigh, Bool.not_true, if_neg Bool.false_ne_true]
        by_cases hparity : period (pitBcd w) word % 2 = 1
        · rw [decide_eq_true hparity, Bool.not_true, if_neg Bool.false_ne_true]
          exact hstay (.inl (by omega))
        · rw [decide_eq_false hparity, Bool.not_false, if_pos rfl, Nat.mod_eq_of_lt (by omega),
            show j + 1 = (period (pitBcd w) word + 1) / 2 by omega]
          exact .start hlegal hcycle false
      · rw [if_neg hhigh] at hi
        rw [decide_eq_false hhigh, Bool.not_false, if_pos rfl, ite_self,
          show j + 1 = period (pitBcd w) word by omega, Nat.mod_self]
        exact .start hlegal hcycle true
    · rw [if_neg (fun heq => hexpired ((hdownzero hmore).mp heq))]
      refine hstay ?_
      split at hi <;> omega

end Pulse

/-! ## Runs -/

section Run

variable {w : BitVec 8} {word : BitVec 16} {c : PitCounter}

/-- A whole count waits for the next pulse. -/
structure Armed (w : BitVec 8) (word : BitVec 16) (c : PitCounter) : Prop where
  control : c.control = w
  latch : c.latch = word
  gate : c.gate = true
  loadPending : c.loadPending = true

/-- A counter that is programmed, but not with a whole count yet. -/
structure Waiting (w : BitVec 8) (c : PitCounter) : Prop where
  control : c.control = w
  gate : c.gate = true
  loadPending : c.loadPending = false
  counting : c.counting = false
  countWritten : c.countWritten = false

/-- A cycle of `N` pulses: what every pulse and every other operation does to its phase, a run does
to it. -/
theorem run_phase {P : Nat → PitCounter → Prop} {N j : Nat} (hN : 0 < N)
    (hquiet : ∀ j c o, P j c → o.holds = true → o ≠ .clock → P j (c.op o))
    (hclock : ∀ j c, j < N → P j c → P ((j + 1) % N) c.clock) (hj : j < N) (h : P j c)
    (ops : List Op) (hops : ∀ o ∈ ops, o.holds = true) :
    P ((j + ops.count .clock) % N) (c.run ops) := by
  induction ops generalizing c j with
  | nil =>
    rw [List.count_nil, Nat.add_zero, Nat.mod_eq_of_lt hj]
    exact h
  | cons o ops ih =>
    have hrest := fun o' ho' => hops o' (List.mem_cons_of_mem o ho')
    by_cases ho : o = .clock
    · subst ho
      have hnext := ih (Nat.mod_lt _ hN) (hclock j c hj h) hrest
      rw [Nat.mod_add_mod] at hnext
      rw [List.count_cons_self, Nat.add_comm (List.count _ _), ← Nat.add_assoc]
      exact hnext
    · rw [List.count_cons_of_ne ho]
      exact ih hj (hquiet j c o h (hops o List.mem_cons_self) ho) hrest

theorem Armed.run {P : Nat → PitCounter → Prop} {N : Nat} (hN : 0 < N)
    (hquiet : ∀ j c o, P j c → o.holds = true → o ≠ .clock → P j (c.op o))
    (hclock : ∀ j c, j < N → P j c → P ((j + 1) % N) c.clock)
    (hload : ∀ c, Armed w word c → P 0 c.clock) (h : Armed w word c) (ops : List Op)
    (hops : ∀ o ∈ ops, o.holds = true) (hpulse : 0 < ops.count .clock) :
    P ((ops.count .clock - 1) % N) (c.run ops) := by
  induction ops generalizing c with
  | nil => cases hpulse
  | cons o ops ih =>
    have hrest := fun o' ho' => hops o' (List.mem_cons_of_mem o ho')
    by_cases ho : o = .clock
    · subst ho
      have hrun := run_phase hN hquiet hclock hN (hload c h) ops hrest
      rw [Nat.zero_add] at hrun
      rw [List.count_cons_self, Nat.add_sub_cancel]
      exact hrun
    · rw [List.count_cons_of_ne ho] at hpulse ⊢
      obtain ⟨_, _, _, _, _, heq⟩ := op_eq_of_holds h.gate (hops o List.mem_cons_self) ho
      refine ih ?_ hrest hpulse
      rw [heq]
      exact ⟨h.control, h.latch, h.gate, h.loadPending⟩

theorem Armed.cycling (h : Armed w word c) : Cycling w word c.sampled.transfer :=
  ⟨h.control, h.latch, h.gate, rfl, rfl, rfl⟩

/-- THE LOAD PULSE of mode 2. -/
theorem Armed.rate (h : Armed w word c) (hmode : pitMode w = 2)
    (hlegal : LegalCount (pitBcd w) word) : Rate w word 0 c.clock := by
  have hm : c.mode = 2 := by rw [mode, h.control, hmode]
  have hpending : c.sampled.loadPending = true := h.loadPending
  rw [clock_mode2 hm, clockMode2, hpending, Bool.true_or, if_pos rfl]
  exact .start hlegal h.cycling

theorem Armed.square (h : Armed w word c) (hmode : pitMode w = 3)
    (hlegal : LegalCount (pitBcd w) word) : Square w word 0 c.clock := by
  have hm : c.mode = 3 := by rw [mode, h.control, hmode]
  have hpending : c.sampled.loadPending = true := h.loadPending
  have htwice : c.sampled.transfer.loadSquare = c.sampled.loadSquare := rfl
  rw [clock_mode3 hm, clockMode3, hpending, Bool.true_or, if_pos rfl, ← htwice]
  exact .start hlegal h.cycling true

/-! ### Programming -/

/-- Operations that neither program the counter nor take its gate down. -/
def Op.keepsProgram : Op → Bool
  | .control _ | .gate false => false
  | _ => true

theorem countWritten_of_op {c : PitCounter} {o : Op} (ho : o.isControl = false)
    (h : (c.op o).countWritten = false) : c.countWritten = false := by
  cases o with
  | control value => cases ho
  | write value =>
    obtain ⟨latch, writeMsbNext, heq | heq | heq⟩ := c.write_cases value
    · rw [PitCounter.op, heq, (wholeCountWritten_spec _).2.2.2.2] at h
      cases h
    · rw [PitCounter.op, heq, (firstByteWritten_spec _).2.2.2.2] at h
      exact h
    · rw [PitCounter.op, heq] at h
      exact h
  | clock => exact (sameProgram_clock c).countWritten.symm.trans h
  | read =>
    obtain ⟨_, _, _, heq⟩ := c.read_eq
    rw [PitCounter.op, heq] at h
    exact h
  | latchCount =>
    rw [PitCounter.op, latchCount] at h
    split at h <;> exact h
  | latchStatus =>
    rw [PitCounter.op, latchStatus] at h
    split at h <;> exact h
  | gate high => exact h

theorem Waiting.op (h : Waiting w c) (hmode : pitMode w = 2 ∨ pitMode w = 3) {o : Op}
    (ho : o.keepsProgram = true) (hwritten : (c.op o).countWritten = false) :
    Waiting w (c.op o) := by
  have hm : c.mode = 2 ∨ c.mode = 3 := by rwa [mode, h.control]
  have hquiet : o.holds = true → o ≠ .clock → Waiting w (c.op o) := by
    intro hholds hclock
    obtain ⟨_, _, _, _, _, heq⟩ := op_eq_of_holds h.gate hholds hclock
    rw [heq]
    exact ⟨h.control, h.gate, h.loadPending, h.counting, h.countWritten⟩
  cases o with
  | control value => cases ho
  | write value =>
    obtain ⟨latch, writeMsbNext, heq | heq | heq⟩ := c.write_cases value
    · rw [PitCounter.op, heq, (wholeCountWritten_spec _).2.2.2.2] at hwritten
      cases hwritten
    · rw [PitCounter.op, heq, firstByteWritten, if_neg]
      · exact ⟨h.control, h.gate, h.loadPending, h.counting, h.countWritten⟩
      · change ¬ c.mode = 0
        omega
    · rw [PitCounter.op, heq]
      exact h
  | clock =>
    have hsampled : Waiting w c.sampled :=
      ⟨h.control, h.gate, h.loadPending, h.counting, h.countWritten⟩
    have hstays : c.clock = c.sampled := by
      rcases hm with hm | hm
      · rw [clock_mode2 hm, clockMode2, hsampled.loadPending, h.countWritten, Bool.and_false,
          Bool.or_false, if_neg Bool.false_ne_true, hsampled.counting, Bool.not_false, Bool.true_or,
          if_pos rfl]
      · rw [clock_mode3 hm, clockMode3, hsampled.loadPending, h.countWritten, Bool.and_false,
          Bool.or_false, if_neg Bool.false_ne_true, hsampled.counting, Bool.not_false, Bool.true_or,
          if_pos rfl]
    rw [PitCounter.op, hstays]
    exact hsampled
  | read | latchCount | latchStatus => exact hquiet rfl (fun h => by cases h)
  | gate high =>
    cases high with
    | false => cases ho
    | true => exact hquiet rfl (fun h => by cases h)

theorem wholeCountWritten_loadPending {c : PitCounter} (hmode : c.mode = 2 ∨ c.mode = 3)
    (hcounting : c.counting = false) : c.wholeCountWritten.loadPending = true := by
  unfold mode at hmode
  rcases hmode with h | h <;>
    simp only [wholeCountWritten, mode, h, hcounting, Bool.not_false, if_true]

/-- A run programs a counter with the control word `w` and the whole count `word`, and does not take
its gate down. -/
def Programs (w : BitVec 8) (word : BitVec 16) (ops : List Op) : Prop :=
  ∃ front last, ops = .control w :: (front ++ [.write last]) ∧
    (∀ o ∈ front, o.keepsProgram = true) ∧
    countOf (pitAccess w) (bytesOf front) = none ∧
    countOf (pitAccess w) (bytesOf front ++ [last]) = some word

theorem waiting_run (hgate : c.gate = true) (hmode : pitMode w = 2 ∨ pitMode w = 3) {ops : List Op}
    (hops : ∀ o ∈ ops, o.keepsProgram = true)
    (hcount : (c.run (.control w :: ops)).countWritten = false) :
    Waiting w (c.run (.control w :: ops)) := by
  induction ops using List.reverseRecOn with
  | nil => exact ⟨rfl, hgate, rfl, rfl, rfl⟩
  | append_singleton ops o ih =>
    have ho := hops o List.mem_concat_self
    have hcontrol : o.isControl = false := by
      cases o <;> first | rfl | cases ho
    rw [← List.cons_append, run_append, run_cons, run_nil] at hcount ⊢
    have hbefore := countWritten_of_op hcontrol hcount
    exact (ih (fun o ho => hops o (List.mem_append_left _ ho)) hbefore).op hmode ho hcount

theorem Programs.armed {ops : List Op} (h : Programs w word ops) (hgate : c.gate = true)
    (hmode : pitMode w = 2 ∨ pitMode w = 3) : Armed w word (c.run ops) := by
  obtain ⟨front, last, rfl, hfront, hnone, hsome⟩ := h
  have hcontrol : ∀ o ∈ front, o.isControl = false := by
    intro o ho
    have := hfront o ho
    cases o <;> first | rfl | cases this
  have hassembled := assembled_run c w front hcontrol
  have hwaiting : Waiting w (c.run (.control w :: front)) := by
    refine waiting_run hgate hmode hfront ?_
    rw [hassembled.written, hnone]
    rfl
  have hlast := hassembled.write last
  rw [← List.cons_append, run_append, run_cons, run_nil, PitCounter.op]
  generalize c.run (.control w :: front) = c' at hwaiting hlast
  have hwritten := hlast.written
  rw [hsome, Option.isSome_some] at hwritten
  -- The last byte has made the count whole.
  have hmsb : (c'.write last).writeMsbNext = false := by
    by_contra hmsb
    rw [Bool.not_eq_false] at hmsb
    obtain ⟨hboth, hodd⟩ := hlast.half.mp hmsb
    rw [List.length_append, List.length_singleton] at hodd
    rw [hboth] at hnone hsome
    rw [countOf, lastPair_concat_even (by omega)] at hsome
    rw [countOf, hsome] at hnone
    cases hnone
  have hlatch := hlast.whole hmsb
  rw [hsome, Option.getD_some] at hlatch
  have hm : c'.mode = 2 ∨ c'.mode = 3 := by rwa [mode, hwaiting.control]
  obtain ⟨latch, writeMsbNext, heq | heq | heq⟩ := c'.write_cases last
  · obtain ⟨hcontrol', -, -, hgate', -⟩ :=
      wholeCountWritten_spec { c' with latch, writeMsbNext }
    refine ⟨?_, hlatch, ?_, ?_⟩
    · rw [heq, hcontrol']
      exact hwaiting.control
    · rw [heq, hgate']
      exact hwaiting.gate
    · rw [heq]
      exact wholeCountWritten_loadPending hm hwaiting.counting
  · rw [heq, (firstByteWritten_spec _).2.2.2.2] at hwritten
    exact absurd (hwaiting.countWritten.symm.trans hwritten) Bool.false_ne_true
  · rw [heq] at hwritten
    exact absurd (hwaiting.countWritten.symm.trans hwritten) Bool.false_ne_true

end Run

end PitCounter

namespace I8254

open PitCounter

/-- EXACT TIME: from its load pulse on, a counter of a periodic mode that is left alone drives OUT
low on the last of every `N` pulses in mode 2, and in mode 3 high for the first half of them, rounded
up, and low for the rest. -/
theorem out_periodic {p : I8254} {index : Fin 3} {w : BitVec 8} {word : BitVec 16}
    {before after : List Event} (hgate : (p.counter.get index).gate = true)
    (hprograms : Programs w word (before.flatMap (opsOn index)))
    (hlegal : LegalCount (pitBcd w) word)
    (hheld : ∀ o ∈ after.flatMap (opsOn index), o.holds = true)
    (hpulse : 0 < (after.flatMap (opsOn index)).count .clock) :
    (pitMode w = 2 → ((p.run (before ++ after)).out index = false ↔
      ((after.flatMap (opsOn index)).count .clock - 1) % period (pitBcd w) word =
        period (pitBcd w) word - 1)) ∧
    (pitMode w = 3 → ((p.run (before ++ after)).out index = true ↔
      ((after.flatMap (opsOn index)).count .clock - 1) % period (pitBcd w) word <
        (period (pitBcd w) word + 1) / 2)) := by
  have htwo := hlegal.two_le
  have hpos : 0 < period (pitBcd w) word := by omega
  have hrun : (p.run (before ++ after)).out index =
      (((p.counter.get index).run (before.flatMap (opsOn index))).run
        (after.flatMap (opsOn index))).out := by
    rw [out, get_run, List.flatMap_append, run_append]
  rw [hrun]
  constructor
  · intro hmode
    have hrate := (hprograms.armed hgate (.inl hmode)).run hpos
      (P := Rate w word) (fun j c o h ho hne => ?_) (fun j c hj h => h.clock hlegal hmode hj)
      (fun c h => h.rate hmode hlegal) _ hheld hpulse
    · have hlt := Nat.mod_lt ((after.flatMap (opsOn index)).count .clock - 1) hpos
      rw [hrate.out, decide_eq_false_iff_not]
      omega
    · obtain ⟨_, _, _, _, _, heq⟩ := op_eq_of_holds h.gate ho hne
      rw [heq]
      exact ⟨⟨h.control, h.latch, h.gate, h.trigger, h.loadPending, h.counting⟩, h.counter, h.out⟩
  · intro hmode
    have hsquare := (hprograms.armed hgate (.inr hmode)).run hpos
      (P := Square w word) (fun j c o h ho hne => ?_) (fun j c hj h => h.clock hlegal hmode hj)
      (fun c h => h.square hmode hlegal) _ hheld hpulse
    · rw [hsquare.out, decide_eq_true_eq]
    · obtain ⟨_, _, _, _, _, heq⟩ := op_eq_of_holds h.gate ho hne
      rw [heq]
      exact ⟨⟨h.control, h.latch, h.gate, h.trigger, h.loadPending, h.counting⟩, h.counter, h.out⟩

/-- A count of 3 in mode 3: at the fifth pulse, the fourth behind the load, OUT is high. -/
theorem out_periodic_three :
    (reset.run ([.write .control 0x16, .write (.counter 0) 3] ++ List.replicate 5 .clock)).out 0 =
      true ↔ (5 - 1) % 3 < (3 + 1) / 2 :=
  (@out_periodic reset 0 0x16 3 _ _ rfl
    ⟨[], 3, rfl, (fun _ h => nomatch h), rfl, rfl⟩ ⟨(fun h => nomatch h), by decide⟩
    (by decide) (by decide)).2 rfl

end I8254

end Apollo.Device
