import Apollo.Lib.Marks
import Apollo.Lib.Transducer
import Apollo.Ring.Station

/-!
# What a station hears

A station sees the line through a window of nine bits. `Station.Hears s h` says that `h`
are the bits that have arrived so far, and then what stands in the window is decided by
the end of `h` alone: `Station.Hears.atSymbol`. So the receive path can be followed over bit
lists, as `Receiver.follow` does, and no character shows up in it except where one ends
(`endingChar`).

Stuffed data ends no character (`noChar_stuff`), and a
character shows up with its last bit and not before (`quiet_symbolBits`).
-/

namespace Apollo.Ring

open Apollo.Lib

theorem stuffAfterOnes_pos : 0 < stuffAfterOnes := by decide

/-! ## Characters at the end of a history -/

/-- The two bits that tell the characters apart. -/
def Oob.typeBits : Oob → List Bool
  | .separator => [false, false]
  | .frameStart => [false, true]
  | .freeToken => [true, false]
  | .claimedToken => [true, true]

/-- The bits of a character that can only be its type. -/
def typeBitCount : Nat := 2

@[simp] theorem length_typeBits (c : Oob) : c.typeBits.length = typeBitCount := by
  cases c <;> rfl

theorem symbolBits_eq (c : Oob) : symbolBits c.symbol = markOpening stuffAfterOnes ++ c.typeBits := by
  cases c <;> rfl

/-- A character ends here. -/
abbrev CharAt (h : List Bool) : Prop := MarkAt stuffAfterOnes typeBitCount h

/-- No character is under way. -/
abbrev Quiet (h : List Bool) : Prop := Settled stuffAfterOnes typeBitCount h

theorem charAt_iff (h : List Bool) : CharAt h ↔ ∃ c : Oob, symbolBits c.symbol <:+ h := by
  constructor
  · rintro ⟨p, ys, hlen, rfl⟩
    obtain ⟨c, rfl⟩ : ∃ c : Oob, ys = c.typeBits := by
      rcases ys with _ | ⟨a, _ | ⟨b, _ | ⟨d, ys⟩⟩⟩
      · cases hlen
      · cases hlen
      · cases a <;> cases b
        · exact ⟨.separator, rfl⟩
        · exact ⟨.frameStart, rfl⟩
        · exact ⟨.freeToken, rfl⟩
        · exact ⟨.claimedToken, rfl⟩
      · cases hlen
    exact ⟨c, p, by rw [symbolBits_eq, List.append_assoc]⟩
  · rintro ⟨c, p, rfl⟩
    rw [symbolBits_eq]
    exact markAt_mark p (length_typeBits c)

/-- The character that ends a history of bits, if one does. -/
def endingChar (h : List Bool) : Option Oob :=
  [Oob.separator, .frameStart, .freeToken, .claimedToken].find? fun c => symbolBits c.symbol <:+ h

theorem endingChar_eq_some_iff (h : List Bool) (c : Oob) :
    endingChar h = some c ↔ symbolBits c.symbol <:+ h := by
  constructor
  · intro hc
    unfold endingChar at hc
    have hp := List.find?_some hc
    exact of_decide_eq_true hp
  · intro hc
    unfold endingChar
    cases hfind : List.find? _ _ with
    | none =>
      have hmem : c ∈ [Oob.separator, .frameStart, .freeToken, .claimedToken] := by
        cases c <;> decide
      exact absurd hc (of_decide_eq_false (by simpa using List.find?_eq_none.mp hfind c hmem))
    | some d =>
      have hp := List.find?_some hfind
      have hd : symbolBits d.symbol <:+ h := of_decide_eq_true hp
      have heq : symbolBits d.symbol = symbolBits c.symbol :=
        (List.suffix_of_suffix_length_le hd hc (by simp only [length_symbolBits, le_refl])).eq_of_length
          (by simp only [length_symbolBits])
      rw [symbolBits_eq, symbolBits_eq, List.append_cancel_left_eq] at heq
      cases c <;> cases d <;> first | rfl | cases heq

theorem endingChar_eq_none_iff (h : List Bool) : endingChar h = none ↔ ¬ CharAt h := by
  rw [charAt_iff]
  constructor
  · rintro hnone ⟨c, hc⟩
    rw [(endingChar_eq_some_iff h c).mpr hc] at hnone
    cases hnone
  · intro hno
    cases hfind : endingChar h with
    | none => rfl
    | some c => exact absurd ⟨c, (endingChar_eq_some_iff h c).mp hfind⟩ hno

theorem endingChar_symbolBits (h : List Bool) (c : Oob) :
    endingChar (h ++ symbolBits c.symbol) = some c :=
  (endingChar_eq_some_iff _ c).mpr (List.suffix_append h _)

/-! ## Settled lines -/

/-- A list of bits that ends no character wherever it is cut, behind a history. -/
def NoChar (h bits : List Bool) : Prop := ∀ q, q ≠ [] → q <+: bits → ¬ CharAt (h ++ q)

theorem NoChar.head {h bits : List Bool} {b : Bool} (hno : NoChar h (b :: bits)) :
    endingChar (h ++ [b]) = none :=
  (endingChar_eq_none_iff _).mpr
    (hno [b] (List.cons_ne_nil _ _) (List.cons_prefix_cons.mpr ⟨rfl, List.nil_prefix⟩))

theorem NoChar.tail {h bits : List Bool} {b : Bool} (hno : NoChar h (b :: bits)) :
    NoChar (h ++ [b]) bits := by
  intro q hne hq
  rw [List.append_assoc]
  exact hno (b :: q) (List.cons_ne_nil _ _) (List.cons_prefix_cons.mpr ⟨rfl, hq⟩)

theorem quiet_nil : Quiet [] := by
  rintro i - ⟨p, ys, -, heq⟩
  have := congrArg List.length heq
  simp only [List.length_nil, List.length_append, length_markOpening] at this
  omega

theorem quiet_symbolBits (h : List Bool) (c : Oob) : Quiet (h ++ symbolBits c.symbol) := by
  rw [symbolBits_eq]
  exact settled_mark (by decide) h (length_typeBits c)

section Settled

variable {h : List Bool} (hquiet : Quiet h)
include hquiet

theorem noChar_symbolBits (c : Oob) : NoChar h (symbolBits c.symbol).dropLast := by
  intro q hne hq
  have hlen := hq.length_le
  rw [List.length_dropLast, length_symbolBits] at hlen
  have hmark : q <+: markOpening stuffAfterOnes ++ c.typeBits := by
    rw [← symbolBits_eq]
    exact hq.trans (List.dropLast_prefix _)
  refine hquiet.not_markAt_partial hne hmark ?_
  simp only [oobBits] at hlen
  simp only [stuffAfterOnes, typeBitCount]
  omega

theorem noChar_of_runs {bits : List Bool}
    (hruns : ∀ q, q ≠ [] → q <+: bits → onesRun (onesRun 0 h) q ≠ stuffAfterOnes + 1) :
    NoChar h bits ∧ Quiet (h ++ bits) := by
  refine ⟨fun q hne hq => ?_, hquiet.append hruns⟩
  exact hquiet.not_markAt hne fun q' hne' hq' => hruns q' hne' (hq'.trans hq)

/-- Stuffed data ends no character, wherever it is cut, if the run the sender counts from
is the one that stands on the line. -/
theorem noChar_prefix_stuff {run : Nat} (hrun : onesRun 0 h = run) (hlt : run < stuffAfterOnes)
    {bits p : List Bool} (hp : p <+: stuff stuffAfterOnes run bits) :
    NoChar h p ∧ Quiet (h ++ p) := by
  refine noChar_of_runs hquiet fun q _ hq => ?_
  rw [hrun]
  exact onesRun_stuff_ne stuffAfterOnes_pos hlt (hq.trans hp)

theorem noChar_stuff {run : Nat} (hrun : onesRun 0 h = run) (hlt : run < stuffAfterOnes)
    (bits : List Bool) :
    NoChar h (stuff stuffAfterOnes run bits) ∧ Quiet (h ++ stuff stuffAfterOnes run bits) :=
  noChar_prefix_stuff hquiet hrun hlt List.prefix_rfl

theorem noChar_zeros (n : Nat) :
    NoChar h (List.replicate n false) ∧ Quiet (h ++ List.replicate n false) := by
  refine noChar_of_runs hquiet fun q hne hq => ?_
  obtain ⟨m, rfl⟩ : ∃ m, q = List.replicate m false :=
    ⟨q.length, List.eq_replicate_of_mem fun b hb => List.eq_of_mem_replicate (hq.mem hb)⟩
  cases m with
  | zero => exact absurd rfl hne
  | succ m =>
    rw [List.replicate_succ', onesRun_concat]
    exact Nat.noConfusion

end Settled

/-! ## The window -/

/-- The bits that have arrived at a station. -/
structure Station.Hears (s : Station) (h : List Bool) : Prop where
  bitsSeen : s.bitsSeen = min oobBits h.length
  window : s.window = lineSymbol (h.drop (h.length - oobBits))

theorem shift_lineSymbol {bits : List Bool} (hlen : bits.length ≤ oobBits) (b : Bool) :
    (lineSymbol bits <<< 1 ||| (if b then 1 else 0)) &&& 0x1FF =
      lineSymbol ((bits ++ [b]).drop (bits.length + 1 - oobBits)) := by
  have key : ∀ v < 512, ∀ b : Bool,
      ((BitVec.ofNat 16 v) <<< 1 ||| (if b then 1 else 0)) &&& 0x1FF =
        BitVec.ofNat 16 ((2 * v + b.toNat) % 512) := by decide +kernel
  have hlt := ofMsbBits_lt bits
  have hmono := Nat.pow_le_pow_right (by decide : 0 < 2) hlen
  have hv : ofMsbBits bits < 512 := hlt.trans_le hmono
  unfold lineSymbol
  rw [key _ hv b]
  congr 1
  rcases Nat.lt_or_eq_of_le hlen with hshort | hfull
  · have hpow := Nat.pow_le_pow_right (by decide : 0 < 2) (Nat.le_of_lt_succ hshort)
    have hsmall : ofMsbBits bits < 256 := hlt.trans_le hpow
    have hdrop : bits.length + 1 - oobBits = 0 := by omega
    have hbit := b.toNat_le
    rw [hdrop, List.drop_zero, ofMsbBits_concat]
    omega
  · rcases bits with _ | ⟨a, bits⟩
    · cases hfull
    · have hdrop : (a :: bits).length + 1 - oobBits = 1 := by omega
      have htail : bits.length = 8 := Nat.succ.inj hfull
      have hrest := ofMsbBits_lt bits
      rw [htail] at hrest
      have hbit := b.toNat_le
      rw [hdrop, List.cons_append, List.drop_one, List.tail_cons, ofMsbBits_concat, ofMsbBits_cons,
        htail]
      omega

theorem Station.Hears.shiftWindow {s : Station} {h : List Bool} (hs : s.Hears h) (b : Bool) :
    (s.shiftWindow b).Hears (h ++ [b]) where
  bitsSeen := by
    have hseen := hs.bitsSeen
    simp only [Station.shiftWindow, List.length_append, List.length_singleton]
    split <;> omega
  window := by
    simp only [Station.shiftWindow, hs.window]
    rw [shift_lineSymbol (by rw [List.length_drop]; omega)]
    congr 1
    rw [List.length_drop, List.length_append, List.length_singleton]
    by_cases hlong : oobBits ≤ h.length
    · rw [← List.drop_append_of_le_length (by omega), List.drop_drop]
      congr 1
      omega
    · have hnone : h.length - oobBits = 0 := by omega
      rw [hnone, List.drop_zero, Nat.sub_zero]

theorem Station.Hears.atSymbol {s : Station} {h : List Bool} (hs : s.Hears h) :
    s.atSymbol = (endingChar h).map Oob.symbol := by
  have hseen := hs.bitsSeen
  unfold Station.atSymbol
  by_cases hlong : oobBits ≤ h.length
  · have hlast : (h.drop (h.length - oobBits)).length = oobBits := by
      rw [List.length_drop]
      omega
    rw [if_neg (by omega), hs.window]
    have hiff : ∀ c : Oob, lineSymbol (h.drop (h.length - oobBits)) = c.symbol ↔
        endingChar h = some c := by
      intro c
      rw [lineSymbol_eq_iff hlast, endingChar_eq_some_iff, List.suffix_iff_eq_drop,
        length_symbolBits]
      exact eq_comm
    cases hc : endingChar h with
    | none =>
      rw [if_pos, Option.map_none]
      rw [Bool.not_eq_true', Bool.eq_false_iff]
      intro hwf
      obtain ⟨c, hsym⟩ := (oobWellFormed_iff _).mp hwf
      rw [(hiff c).mp hsym] at hc
      cases hc
    | some c =>
      have hsym := (hiff c).mpr hc
      rw [hsym, if_neg, Option.map_some]
      rw [(oobWellFormed_iff _).mpr ⟨c, rfl⟩]
      exact Bool.false_ne_true
  · rw [if_pos (by omega), (endingChar_eq_none_iff h).mpr, Option.map_none]
    rintro ⟨p, ys, hlen, rfl⟩
    simp only [List.length_append, length_markOpening, hlen] at hlong
    exact hlong (by simp only [oobBits, stuffAfterOnes, typeBitCount]; omega)

end Apollo.Ring
