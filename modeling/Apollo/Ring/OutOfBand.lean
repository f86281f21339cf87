import Apollo.Ring.FrameLine
import Apollo.Ring.StationReceive

/-!
# Where a character shows on a written line

`ap_ring_mac.h` rests the whole protocol on one fact: stuffed data carries no run of six ones,
so a zero, six ones and two type bits are an out-of-band character and nothing else. A line is
written here by any sequence of `ap_ring_write_data_bits` and `ap_ring_write_oob` calls, and the
fact is looked at from its three users: the nine-bit window itself, a station that hears the line
(`ap_ring_station_at_symbol`) and a reader that looks one character ahead (`ap_ring_peek_oob`).

The fact fails in one place. `ap_ring_write_oob` clears the run behind a character, and a frame
start ends in `01`: five ones of data behind it complete six on the line, in front of the zero
that is stuffed. `unmistakable_iff` says that this is the ONLY place. The claimed token's own two
ones do no harm, since no zero stands between them and the ones of the data.
-/

namespace Apollo.Ring

open Apollo.Lib

/-! ## Calls and the line they write -/

/-- A call on a writer: data, or one of the four well-formed characters (`oobWellFormed_iff`). -/
inductive WriteCall
  | data (value : BitVec 32) (bits : Nat)
  | oob (c : Oob)
deriving DecidableEq

/-- The call. -/
def BitWriter.write (w : BitWriter) : WriteCall → BitWriter
  | .data value bits => w.writeDataBits value bits
  | .oob c => w.writeOob c.symbol

/-- What a line is made of: data bits, before any zero is stuffed, and characters. -/
inductive Piece
  | bit (b : Bool)
  | char (c : Oob)
deriving DecidableEq

def WriteCall.pieces : WriteCall → List Piece
  | .data value bits => (msbBits bits value.toNat).map .bit
  | .oob c => [.char c]

/-- The pieces of a sequence of calls, in order. -/
def piecesOf (calls : List WriteCall) : List Piece := calls.flatMap WriteCall.pieces

/-- The line of a list of pieces, given the run the sender counts from. -/
def piecesLine : Nat → List Piece → List Bool
  | _, [] => []
  | run, .bit b :: pieces =>
    stuff stuffAfterOnes run [b] ++ piecesLine (runAfter stuffAfterOnes run [b]) pieces
  | _, .char c :: pieces => symbolBits c.symbol ++ piecesLine 0 pieces

/-- The run the sender counts from behind them. -/
def piecesRun : Nat → List Piece → Nat
  | run, [] => run
  | run, .bit b :: pieces => piecesRun (runAfter stuffAfterOnes run [b]) pieces
  | _, .char _ :: pieces => piecesRun 0 pieces

theorem piecesLine_append (run : Nat) (as bs : List Piece) :
    piecesLine run (as ++ bs) = piecesLine run as ++ piecesLine (piecesRun run as) bs := by
  induction as generalizing run with
  | nil => rfl
  | cons piece as ih =>
    cases piece with
    | bit b => rw [List.cons_append, piecesLine, piecesLine, piecesRun, ih, List.append_assoc]
    | char c => rw [List.cons_append, piecesLine, piecesLine, piecesRun, ih, List.append_assoc]

theorem piecesRun_append (run : Nat) (as bs : List Piece) :
    piecesRun run (as ++ bs) = piecesRun (piecesRun run as) bs := by
  induction as generalizing run with
  | nil => rfl
  | cons piece as ih => cases piece <;> exact ih _

theorem piecesRun_lt {run : Nat} (hrun : run < stuffAfterOnes) (pieces : List Piece) :
    piecesRun run pieces < stuffAfterOnes := by
  induction pieces generalizing run with
  | nil => exact hrun
  | cons piece pieces ih =>
    cases piece with
    | bit b => exact ih (runAfter_lt stuffAfterOnes_pos hrun [b])
    | char c => exact ih stuffAfterOnes_pos

theorem piecesLine_bits (run : Nat) (bits : List Bool) :
    piecesLine run (bits.map .bit) = stuff stuffAfterOnes run bits ∧
      piecesRun run (bits.map .bit) = runAfter stuffAfterOnes run bits := by
  induction bits generalizing run with
  | nil => exact ⟨rfl, rfl⟩
  | cons b bits ih =>
    rw [List.map_cons, piecesLine, piecesRun, (ih _).1, (ih _).2, ← stuff_append, ← runAfter_append]
    exact ⟨rfl, rfl⟩

theorem BitWriter.wrote_writes (calls : List WriteCall) {w : BitWriter} {run : Nat} (hw : w.Clean)
    (hrun : w.overflow = false → w.onesRun = run)
    (hfit : w.overflow = false → w.bitCount ≤ 8 * w.capacity) :
    w.Wrote (calls.foldl BitWriter.write w) (piecesLine run (piecesOf calls))
      (piecesRun run (piecesOf calls)) := by
  induction calls generalizing w run with
  | nil => exact .refl hrun hfit
  | cons call calls ih =>
    have hcall : w.Wrote (w.write call) (piecesLine run call.pieces) (piecesRun run call.pieces) := by
      cases call with
      | data value bits =>
        obtain ⟨hline, hafter⟩ := piecesLine_bits run (msbBits bits value.toNat)
        rw [WriteCall.pieces, hline, hafter]
        exact wrote_writeDataBits hw hrun hfit value bits
      | oob c =>
        rw [WriteCall.pieces, piecesLine, piecesLine, List.append_nil]
        exact wrote_writeOob hw hfit c.symbol
    have hrest := ih (hcall.clean hw) hcall.run (hcall.inside hw)
    rw [piecesOf, List.flatMap_cons, piecesLine_append, piecesRun_append]
    exact hcall.trans hw hrest

theorem line_writes {calls : List WriteCall} {bytes : List Byte}
    (hfits : (calls.foldl BitWriter.write (.init bytes)).overflow = false) :
    (calls.foldl BitWriter.write (.init bytes)).line = piecesLine 0 (piecesOf calls) := by
  have hzero : (BitWriter.init bytes).onesRun = 0 := rfl
  have hwrote := BitWriter.wrote_writes calls (BitWriter.clean_init bytes) (fun _ => hzero)
    (fun _ => Nat.zero_le _)
  rw [hwrote.line (BitWriter.clean_init bytes) hfits, BitWriter.line_init, List.nil_append]

/-! ## The fact -/

/-- Nine bits `0 111111 xx` end `n` bits into a line. -/
def Window (line : List Bool) (n : Nat) : Prop :=
  ∃ before x y after,
    line = before ++ [false, true, true, true, true, true, true, x, y] ++ after ∧
      n = before.length + oobBits

/-- A character that was written ends `n` bits into the line. -/
def EndsAt (pieces : List Piece) (c : Oob) (n : Nat) : Prop :=
  ∃ before after, pieces = before ++ .char c :: after ∧ n = (piecesLine 0 before).length + oobBits

/-- On the line of a writer, nothing but a written character is taken for one. -/
structure Unmistakable (pieces : List Piece) (w : BitWriter) : Prop where
  /-- The window occurs where a character was placed and nowhere else. -/
  window : ∀ n, Window w.line n ↔ ∃ c, EndsAt pieces c n
  /-- A station that had heard nothing, and has now heard `n` bits of the line in any run of
  calls, stands at a symbol when a character's last bit has just arrived, and at that one. -/
  atSymbol : ∀ (s : Station) level calls n symbol, s.Listening [] level → n ≤ w.bitCount →
    Station.arrivals calls = encodeLine level (w.line.take n) →
      ((calls.foldl Station.call s).atSymbol = some symbol ↔
        ∃ c : Oob, symbol = c.symbol ∧ EndsAt pieces c n)
  /-- A reader between two data bits, or between data and a character, sees a character ahead when
  one stands next, and that one. -/
  peekOob : ∀ (r : BitReader) before after symbol, pieces = before ++ after →
    r.bytes = w.bytes → r.bitCount = w.bitCount → r.bitPos = (piecesLine 0 before).length →
      (r.peekOob = some symbol ↔ ∃ (c : Oob) (rest : List Piece), symbol = c.symbol ∧
        after = .char c :: rest)

/-- A frame start with five ones of data directly behind it, and these bits behind them. -/
def Held (pieces after : List Piece) : Prop :=
  ∃ before, pieces = before ++ .char .frameStart ::
    (List.replicate stuffAfterOnes (.bit true) ++ after)

/-- The one way to be misread: five ones directly behind a frame start, and anything written
behind those. -/
def Misread (pieces : List Piece) : Prop := ∃ piece after, Held pieces (piece :: after)

/-! ## The line between characters -/

/-- The state of the line behind pieces that hold no such run: no character is under way, and the
ones standing on the line are the sender's count, or too many to open a character, or one more
than the sender's count right behind a frame start. -/
structure Clear (pieces : List Piece) : Prop where
  quiet : Quiet (piecesLine 0 pieces)
  run : onesRun 0 (piecesLine 0 pieces) = piecesRun 0 pieces ∨
    stuffAfterOnes + 1 < onesRun 0 (piecesLine 0 pieces) ∨
    ∃ before, pieces = before ++ .char .frameStart ::
        List.replicate (piecesRun 0 pieces) (.bit true) ∧
      onesRun 0 (piecesLine 0 pieces) = piecesRun 0 pieces + 1

theorem piecesLine_bit (pieces : List Piece) (b : Bool) :
    piecesLine 0 (pieces ++ [.bit b]) =
      piecesLine 0 pieces ++ stuff stuffAfterOnes (piecesRun 0 pieces) [b] := by
  rw [piecesLine_append, piecesLine, piecesLine, List.append_nil]

theorem piecesLine_char (pieces : List Piece) (c : Oob) :
    piecesLine 0 (pieces ++ [.char c]) = piecesLine 0 pieces ++ symbolBits c.symbol := by
  rw [piecesLine_append, piecesLine, piecesLine, List.append_nil]

theorem onesRun_symbolBits (r : Nat) (c : Oob) : onesRun r (symbolBits c.symbol) =
    match c with
    | .separator => 0
    | .frameStart => 1
    | .freeToken => 0
    | .claimedToken => 8 := by
  cases c <;> rfl

theorem Clear.char (pieces : List Piece) (c : Oob) : Clear (pieces ++ [.char c]) := by
  have hrun : piecesRun 0 (pieces ++ [.char c]) = 0 := by
    rw [piecesRun_append]
    rfl
  refine ⟨?_, ?_⟩
  · rw [piecesLine_char]
    exact quiet_symbolBits _ c
  · rw [hrun, piecesLine_char, onesRun_append, onesRun_symbolBits]
    cases c with
    | separator => exact .inl rfl
    | frameStart => exact .inr (.inr ⟨pieces, rfl, rfl⟩)
    | freeToken => exact .inl rfl
    | claimedToken => exact .inr (.inl (by decide))

theorem Clear.bit {pieces : List Piece} (h : Clear pieces) {b : Bool}
    (hheld : ¬ Held (pieces ++ [.bit b]) []) : Clear (pieces ++ [.bit b]) := by
  have hlt := piecesRun_lt stuffAfterOnes_pos pieces
  have hafter : piecesRun 0 (pieces ++ [.bit b]) =
      runAfter stuffAfterOnes (piecesRun 0 pieces) [b] := piecesRun_append 0 pieces [.bit b]
  -- What has to be known of the bit: its runs do not make six, and the three cases go on.
  suffices hstep : (∀ q, q ≠ [] → q <+: stuff stuffAfterOnes (piecesRun 0 pieces) [b] →
      onesRun (onesRun 0 (piecesLine 0 pieces)) q ≠ stuffAfterOnes + 1) ∧ _ from
    ⟨by
      rw [piecesLine_bit]
      exact h.quiet.append hstep.1, hstep.2⟩
  rw [piecesLine_bit, onesRun_append, hafter]
  cases b with
  | false =>
    refine ⟨fun q hne hq => ?_, .inl rfl⟩
    rcases List.prefix_cons_iff.mp hq with rfl | ⟨t, rfl, ht⟩
    · exact absurd rfl hne
    · rw [List.prefix_nil.mp ht]
      exact Nat.zero_ne_add_one _
  | true =>
    by_cases hdue : stuffAfterOnes ≤ piecesRun 0 pieces + 1
    · -- The fifth one: a zero follows, and the count starts again.
      have hnot : onesRun 0 (piecesLine 0 pieces) + 1 ≠ stuffAfterOnes + 1 := by
        rcases h.run with heq | hmany | ⟨before, hpieces, hone⟩
        · omega
        · omega
        · have hfour : piecesRun 0 pieces + 1 = stuffAfterOnes := by omega
          refine absurd ⟨before, ?_⟩ hheld
          rw [List.append_nil, ← hfour, List.replicate_succ', ← List.cons_append,
            ← List.append_assoc, ← hpieces]
      simp only [stuff, runAfter, if_pos hdue]
      refine ⟨fun q hne hq => ?_, .inl rfl⟩
      rcases List.prefix_cons_iff.mp hq with rfl | ⟨t, rfl, ht⟩
      · exact absurd rfl hne
      · rcases List.prefix_cons_iff.mp ht with rfl | ⟨u, rfl, hu⟩
        · exact hnot
        · rw [List.prefix_nil.mp hu]
          exact Nat.zero_ne_add_one _
    · simp only [stuff, runAfter, if_neg hdue]
      refine ⟨fun q hne hq => ?_, ?_⟩
      · rcases List.prefix_cons_iff.mp hq with rfl | ⟨t, rfl, ht⟩
        · exact absurd rfl hne
        · rw [List.prefix_nil.mp ht]
          change onesRun 0 (piecesLine 0 pieces) + 1 ≠ stuffAfterOnes + 1
          rcases h.run with heq | hmany | ⟨before, -, hone⟩ <;> omega
      · change onesRun 0 (piecesLine 0 pieces) + 1 = piecesRun 0 pieces + 1 ∨
          stuffAfterOnes + 1 < onesRun 0 (piecesLine 0 pieces) + 1 ∨
          ∃ before, pieces ++ [.bit true] = before ++ .char .frameStart ::
              List.replicate (piecesRun 0 pieces + 1) (.bit true) ∧
            onesRun 0 (piecesLine 0 pieces) + 1 = piecesRun 0 pieces + 1 + 1
        rcases h.run with heq | hmany | ⟨before, hpieces, hone⟩
        · exact .inl (congrArg (· + 1) heq)
        · exact .inr (.inl (Nat.lt_succ_of_lt hmany))
        · refine .inr (.inr ⟨before, ?_, congrArg (· + 1) hone⟩)
          rw [List.replicate_succ', ← List.cons_append, ← List.append_assoc, ← hpieces]

theorem clear_of_not_held (pieces : List Piece) (h : ∀ after, ¬ Held pieces after) :
    Clear pieces := by
  induction pieces using List.reverseRecOn with
  | nil => exact ⟨quiet_nil, .inl rfl⟩
  | append_singleton pieces piece ih =>
    have hbefore : ∀ after, ¬ Held pieces after := by
      rintro after ⟨before, rfl⟩
      refine h (after ++ [piece]) ⟨before, ?_⟩
      simp only [List.append_assoc, List.cons_append]
    cases piece with
    | bit b => exact (ih hbefore).bit (h [])
    | char c => exact .char pieces c

/-! ## Where characters end -/

theorem EndsAt.le {pieces : List Piece} {c : Oob} {n : Nat} (h : EndsAt pieces c n) :
    n ≤ (piecesLine 0 pieces).length := by
  obtain ⟨before, after, rfl, rfl⟩ := h
  rw [piecesLine_append, piecesLine, List.length_append, List.length_append, length_symbolBits]
  omega

theorem EndsAt.append {pieces : List Piece} {c : Oob} {n : Nat} (h : EndsAt pieces c n)
    (more : List Piece) : EndsAt (pieces ++ more) c n := by
  obtain ⟨before, after, rfl, hn⟩ := h
  exact ⟨before, after ++ more, by rw [List.append_assoc, List.cons_append], hn⟩

theorem EndsAt.suffix {pieces : List Piece} {c : Oob} {n : Nat} (h : EndsAt pieces c n) :
    symbolBits c.symbol <:+ (piecesLine 0 pieces).take n := by
  obtain ⟨before, after, rfl, rfl⟩ := h
  refine ⟨piecesLine 0 before, ?_⟩
  rw [piecesLine_append, piecesLine, ← List.append_assoc, List.take_left']
  rw [List.length_append, length_symbolBits]

theorem Clear.not_charAt_bit {pieces : List Piece} (h : Clear pieces) {b : Bool} {q : List Bool}
    (hne : q ≠ []) (hq : q <+: stuff stuffAfterOnes (piecesRun 0 pieces) [b]) :
    ¬ CharAt (piecesLine 0 pieces ++ q) := by
  intro hmark
  have hpos := List.length_pos_iff.mpr hne
  have htwo : (stuff stuffAfterOnes (piecesRun 0 pieces) [b]).length ≤ typeBitCount := by
    cases b with
    | false => exact Nat.le_succ 1
    | true =>
      simp only [stuff]
      split
      · exact Nat.le_refl 2
      · exact Nat.le_succ 1
  have hshort := hq.length_le.trans htwo
  rcases hmark.of_append with ⟨hle, hl⟩ | ⟨q', ys, hne', rfl, hys, -⟩
  · exact h.quiet _ (by omega) hl
  · have hpos' := List.length_pos_iff.mpr hne'
    rw [List.length_append] at hshort
    omega

/-- NOTHING ELSE IS A CHARACTER: where a character shows on a line that is not misread, that
character was written. -/
theorem endsAt_of_suffix {pieces : List Piece} (h : ¬ Misread pieces) {c : Oob} {n : Nat}
    (hn : n ≤ (piecesLine 0 pieces).length)
    (hc : symbolBits c.symbol <:+ (piecesLine 0 pieces).take n) : EndsAt pieces c n := by
  induction pieces using List.reverseRecOn generalizing n with
  | nil =>
    have hlen := hc.length_le
    rw [length_symbolBits, piecesLine, List.take_nil, List.length_nil] at hlen
    exact absurd hlen (by decide)
  | append_singleton pieces piece ih =>
    have hheld : ∀ after, ¬ Held pieces after := by
      rintro after ⟨before, rfl⟩
      obtain ⟨first, rest, heq⟩ : ∃ first rest, after ++ [piece] = first :: rest :=
        List.exists_cons_of_ne_nil (List.append_ne_nil_of_right_ne_nil _ (List.cons_ne_nil _ _))
      refine h ⟨first, rest, before, ?_⟩
      rw [← heq]
      simp only [List.append_assoc, List.cons_append]
    have hbefore : ¬ Misread pieces := fun ⟨first, rest, hmis⟩ => hheld _ hmis
    have hclear := clear_of_not_held pieces hheld
    by_cases hold : n ≤ (piecesLine 0 pieces).length
    · rw [piecesLine_append, List.take_append_of_le_length hold] at hc
      exact (ih hbefore hold hc).append [piece]
    · -- The character ends inside what the last piece put on the line.
      rw [piecesLine_append, List.take_append, List.take_of_length_le (by omega)] at hc
      rw [piecesLine_append, List.length_append] at hn
      have hmark := (charAt_iff _).mpr ⟨c, hc⟩
      have hne : List.take (n - (piecesLine 0 pieces).length)
          (piecesLine (piecesRun 0 pieces) [piece]) ≠ [] := by
        intro hnil
        have := congrArg List.length hnil
        rw [List.length_take, List.length_nil] at this
        omega
      cases piece with
      | bit b =>
        refine absurd hmark (hclear.not_charAt_bit (b := b) hne ?_)
        rw [piecesLine, piecesLine, List.append_nil]
        exact List.take_prefix _ _
      | char d =>
        rw [piecesLine, piecesLine, List.append_nil] at hc hmark hne hn
        rw [length_symbolBits] at hn
        by_cases hlast : n = (piecesLine 0 pieces).length + oobBits
        · have hfull : n - (piecesLine 0 pieces).length = oobBits := by omega
          rw [hfull, List.take_of_length_le (Nat.le_of_eq (length_symbolBits _))] at hc
          have hd := endingChar_symbolBits (piecesLine 0 pieces) d
          rw [(endingChar_eq_some_iff _ c).mpr hc] at hd
          cases hd
          exact ⟨pieces, [], rfl, hlast⟩
        · refine absurd hmark (noChar_symbolBits hclear.quiet d _ hne ?_)
          refine List.prefix_of_prefix_length_le (List.take_prefix _ _) (List.dropLast_prefix _) ?_
          rw [List.length_take, List.length_dropLast, length_symbolBits]
          omega

theorem piecesLine_cons_ne_nil (run : Nat) (piece : Piece) (pieces : List Piece) :
    piecesLine run (piece :: pieces) ≠ [] := by
  have hpos : 0 < (piecesLine run (piece :: pieces)).length := by
    cases piece with
    | bit b =>
      have := length_le_length_stuff stuffAfterOnes run [b]
      rw [piecesLine, List.length_append]
      exact Nat.lt_of_lt_of_le this (Nat.le_add_right _ _)
    | char c =>
      rw [piecesLine, List.length_append, length_symbolBits]
      exact Nat.lt_of_lt_of_le (by decide : 0 < oobBits) (Nat.le_add_right _ _)
  exact List.length_pos_iff.mp hpos

/-- THE ONE FALSE CHARACTER: behind a frame start that is followed by five ones and anything else,
nine bits end that no call wrote as a character. -/
theorem Misread.suffix {pieces : List Piece} (h : Misread pieces) :
    ∃ (n : Nat) (c : Oob), n ≤ (piecesLine 0 pieces).length ∧
      symbolBits c.symbol <:+ (piecesLine 0 pieces).take n ∧ ∀ d, ¬ EndsAt pieces d n := by
  obtain ⟨piece, after, before, rfl⟩ := h
  obtain ⟨x, rest, hrest⟩ := List.exists_cons_of_ne_nil (piecesLine_cons_ne_nil 0 piece after)
  -- The type bits `01` of the frame start, the five ones and the stuffed zero.
  have hline : piecesLine 0 (before ++ .char .frameStart ::
      (List.replicate stuffAfterOnes (.bit true) ++ piece :: after)) =
      (piecesLine 0 before ++ markOpening stuffAfterOnes ++
        (markOpening stuffAfterOnes ++ [false, x])) ++ rest := by
    have hones : piecesLine 0 (List.replicate stuffAfterOnes (.bit true) ++ piece :: after) =
        true :: true :: true :: true :: true :: false :: piecesLine 0 (piece :: after) := rfl
    rw [piecesLine_append, piecesLine, hones, hrest, symbolBits_eq]
    simp only [List.append_assoc]
    rfl
  have hlen : (piecesLine 0 before ++ markOpening stuffAfterOnes ++
      (markOpening stuffAfterOnes ++ [false, x])).length = (piecesLine 0 before).length + 16 := by
    simp only [List.length_append, length_markOpening]
    rfl
  obtain ⟨c, hc⟩ := (charAt_iff _).mp (markAt_mark (k := stuffAfterOnes) (n := typeBitCount)
    (piecesLine 0 before ++ markOpening stuffAfterOnes) (rfl : [false, x].length = typeBitCount))
  refine ⟨(piecesLine 0 before).length + 16, c, ?_, ?_, ?_⟩
  · rw [hline, List.length_append, hlen]
    exact Nat.le_add_right _ _
  · rw [hline, List.take_left' hlen]
    exact hc
  · rintro d ⟨before', after', hsplit, hn⟩
    have hnine : oobBits = 9 := rfl
    rcases List.append_eq_append_iff.mp hsplit with ⟨more, rfl, hmore⟩ | ⟨more, rfl, -⟩
    · rw [piecesLine_append, List.length_append] at hn
      cases more with
      | nil =>
        rw [piecesLine, List.length_nil] at hn
        omega
      | cons first more =>
        rw [List.cons_append, List.cons.injEq] at hmore
        rw [← hmore.1, piecesLine, List.length_append, length_symbolBits] at hn
        omega
    · rw [piecesLine_append, List.length_append] at hn
      omega

/-! ## Its users -/

theorem window_iff (line : List Bool) (n : Nat) :
    Window line n ↔ n ≤ line.length ∧ ∃ c : Oob, symbolBits c.symbol <:+ line.take n := by
  rw [← charAt_iff]
  constructor
  · rintro ⟨before, x, y, after, rfl, rfl⟩
    have hlen : (before ++ [false, true, true, true, true, true, true, x, y]).length =
        before.length + oobBits := List.length_append
    refine ⟨?_, ?_⟩
    · rw [List.length_append, hlen]
      exact Nat.le_add_right _ _
    · rw [List.take_left' hlen]
      exact markAt_mark (k := stuffAfterOnes) before (rfl : [x, y].length = 2)
  · rintro ⟨hn, before, ys, hys, htake⟩
    rcases ys with _ | ⟨x, _ | ⟨y, _ | ⟨z, ys⟩⟩⟩
    · cases hys
    · cases hys
    · refine ⟨before, x, y, line.drop n, ?_, ?_⟩
      · conv_lhs => rw [← List.take_append_drop n line, htake]
        rw [List.append_assoc before]
        rfl
      · have := congrArg List.length htake
        rw [List.length_take_of_le hn, List.length_append, List.length_append,
          length_markOpening] at this
        exact this
    · cases hys

theorem not_ones_prefix_piecesLine {run : Nat} (hrun : run < stuffAfterOnes) (pieces : List Piece) :
    ¬ List.replicate (stuffAfterOnes + 1 - run) true <+: piecesLine run pieces := by
  induction pieces generalizing run with
  | nil =>
    intro h
    have := h.length_le
    rw [List.length_replicate, piecesLine, List.length_nil] at this
    omega
  | cons piece pieces ih =>
    obtain ⟨k, hk⟩ : ∃ k, stuffAfterOnes + 1 - run = k + 1 := ⟨stuffAfterOnes - run, by omega⟩
    intro h
    rw [hk, List.replicate_succ] at h
    cases piece with
    | bit b =>
      cases b with
      | false => cases (List.cons_prefix_cons.mp h).1
      | true =>
        rw [piecesLine] at h
        simp only [stuff, runAfter] at h
        by_cases hdue : stuffAfterOnes ≤ run + 1
        · obtain ⟨j, hj⟩ : ∃ j, k = j + 1 := ⟨stuffAfterOnes - run - 1, by omega⟩
          rw [if_pos hdue, hj, List.replicate_succ] at h
          cases (List.cons_prefix_cons.mp (List.cons_prefix_cons.mp h).2).1
        · rw [if_neg hdue, if_neg hdue] at h
          refine ih (Nat.lt_of_not_le hdue) ?_
          rw [show stuffAfterOnes + 1 - (run + 1) = k by omega]
          exact (List.cons_prefix_cons.mp h).2
    | char c =>
      rw [piecesLine, symbolBits_eq] at h
      cases (List.cons_prefix_cons.mp h).1

theorem symbolBits_prefix_piecesLine {run : Nat} {pieces : List Piece} {c : Oob} {t : List Bool}
    (h : piecesLine run pieces = symbolBits c.symbol ++ t) :
    ∃ rest, pieces = .char c :: rest := by
  cases pieces with
  | nil =>
    have := congrArg List.length h
    rw [List.length_append, length_symbolBits] at this
    exact absurd this (by simp only [piecesLine, List.length_nil, oobBits]; omega)
  | cons piece pieces =>
    cases piece with
    | bit b =>
      have hmark := (symbolBits_mark c).trans (List.prefix_append _ t)
      rw [← h] at hmark
      cases b with
      | false =>
        exact absurd (List.cons_prefix_cons.mp hmark).2
          (not_ones_prefix_piecesLine stuffAfterOnes_pos pieces)
      | true =>
        rw [piecesLine] at hmark
        simp only [stuff] at hmark
        split at hmark <;> cases (List.cons_prefix_cons.mp hmark).1
    | char d =>
      have hsame := (List.append_inj h (by rw [length_symbolBits, length_symbolBits])).1
      have hd := endingChar_symbolBits [] d
      rw [List.nil_append, hsame] at hd
      rw [(endingChar_eq_some_iff _ c).mpr List.suffix_rfl] at hd
      cases hd
      exact ⟨pieces, rfl⟩

section Users

variable {calls : List WriteCall} {bytes : List Byte}
  (hfits : (calls.foldl BitWriter.write (.init bytes)).overflow = false)
include hfits

theorem Misread.not_unmistakable (h : Misread (piecesOf calls)) :
    ¬ Unmistakable (piecesOf calls) (calls.foldl BitWriter.write (.init bytes)) := by
  intro hall
  obtain ⟨n, c, hn, hc, hnone⟩ := h.suffix
  have hwindow := hall.window n
  rw [line_writes hfits, window_iff] at hwindow
  obtain ⟨d, hd⟩ := hwindow.mp ⟨hn, c, hc⟩
  exact hnone d hd

/-- ONLY THERE: the line of a fresh writer that did not overflow is unmistakable exactly when no
frame start is followed directly by five ones of data with anything behind them. -/
theorem unmistakable_iff :
    Unmistakable (piecesOf calls) (calls.foldl BitWriter.write (.init bytes)) ↔
      ¬ Misread (piecesOf calls) := by
  have hline := line_writes hfits
  have hcount : (calls.foldl BitWriter.write (.init bytes)).bitCount =
      (piecesLine 0 (piecesOf calls)).length := by
    rw [← hline, BitWriter.line, length_packed]
  constructor
  · exact fun h hmis => hmis.not_unmistakable hfits h
  · intro h
    refine ⟨fun n => ?_, fun s level calls' n symbol hs hn harrive => ?_,
      fun r before after symbol hsplit hbytes hbits hpos => ?_⟩
    · rw [hline, window_iff]
      constructor
      · rintro ⟨hn, c, hc⟩
        exact ⟨c, endsAt_of_suffix h hn hc⟩
      · rintro ⟨c, hc⟩
        exact ⟨hc.le, c, hc.suffix⟩
    · obtain ⟨hheard, -⟩ := hs.run harrive
      rw [List.nil_append, hline] at hheard
      rw [hcount] at hn
      rw [hheard.hears.atSymbol, Option.map_eq_some_iff]
      constructor
      · rintro ⟨c, hc, rfl⟩
        exact ⟨c, rfl, endsAt_of_suffix h hn ((endingChar_eq_some_iff _ c).mp hc)⟩
      · rintro ⟨c, rfl, hc⟩
        exact ⟨c, (endingChar_eq_some_iff _ c).mpr hc.suffix, rfl⟩
    · have hrest : r.rest = piecesLine (piecesRun 0 before) after := by
        have hall : packed r.bytes r.bitCount = piecesLine 0 (piecesOf calls) := by
          rw [hbytes, hbits, ← hline, BitWriter.line]
        rw [BitReader.rest, hall, hpos, hsplit, piecesLine_append, List.drop_left]
      rw [BitReader.peekOob_eq_some_iff, hrest]
      constructor
      · rintro ⟨c, t, rfl, ht⟩
        obtain ⟨rest, hafter⟩ := symbolBits_prefix_piecesLine ht
        exact ⟨c, rest, rfl, hafter⟩
      · rintro ⟨c, rest, rfl, rfl⟩
        exact ⟨c, piecesLine 0 rest, rfl, rfl⟩

end Users

/-- A claimed token with six ones behind it and a separator behind those: the ones that the token
leaves standing are not counted, and nothing is misread. -/
theorem unmistakable_claimedToken :
    Unmistakable (piecesOf [.oob .claimedToken, .data 0x3F 6, .oob .separator])
      ([.oob .claimedToken, .data 0x3F 6, .oob .separator].foldl BitWriter.write
        (.init [0, 0, 0, 0])) := by
  refine (unmistakable_iff (by decide +kernel)).mpr ?_
  rintro ⟨piece, after, before, heq⟩
  have hmem : Piece.char .frameStart ∈
      piecesOf [.oob .claimedToken, .data 0x3F 6, .oob .separator] := by
    rw [heq]
    exact List.mem_append_right _ List.mem_cons_self
  exact absurd hmem (by decide)

/-- A frame start and six ones of data: its second type bit and five of the ones are six, with the
type bit in front of them the leading zero. -/
theorem not_unmistakable_frameStart :
    ¬ Unmistakable (piecesOf [.oob .frameStart, .data 0x3F 6])
      ([.oob .frameStart, .data 0x3F 6].foldl BitWriter.write (.init [0, 0])) :=
  Misread.not_unmistakable (by decide) ⟨.bit true, [], [], rfl⟩

end Apollo.Ring
