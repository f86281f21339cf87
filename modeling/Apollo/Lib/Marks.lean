import Apollo.Lib.BitStuffing

/-!
# Marks in a stuffed line

A line code whose data never carries more than `k` successive ones marks a place by
breaking that rule: a MARK is a zero, `k + 1` ones and `n` type bits. A receiver that
looks at the line through a window sees a mark when its last bit has arrived, so what
matters is where in a history of bits a mark ends.

`MarkAt k n l` is that place, and `Settled k n l` that no mark is under way. The three
lemmas a receiver's proof needs are `Settled.not_markAt` (data keeps a line settled and
ends no mark), `Settled.not_markAt_partial` (nor does the part of a mark before its
last bit) and `settled_mark` (behind a mark the line is settled again).
-/

namespace Apollo.Lib

/-- What a mark opens with: a zero, and one 1 more than data may carry. -/
def markOpening (k : Nat) : List Bool := false :: List.replicate (k + 1) true

/-- A mark's opening stands `n` bits before the end of the line. -/
def MarkAt (k n : Nat) (l : List Bool) : Prop :=
  ∃ p ys, ys.length = n ∧ l = p ++ markOpening k ++ ys

/-- No opening stands in front of the last `n` bits, so none of the next `n` bits can
end a mark. -/
def Settled (k n : Nat) (l : List Bool) : Prop := ∀ i < n, ¬ MarkAt k i l

@[simp] theorem length_markOpening (k : Nat) : (markOpening k).length = k + 2 := by
  rw [markOpening, List.length_cons, List.length_replicate]

theorem onesRun_replicate (r m : Nat) : onesRun r (List.replicate m true) = r + m := by
  induction m generalizing r with
  | zero => rfl
  | succ m ih =>
    rw [List.replicate_succ, onesRun_cons, if_pos rfl, ih]
    omega

theorem onesRun_markOpening (k r : Nat) (p : List Bool) :
    onesRun r (p ++ markOpening k) = k + 1 := by
  rw [onesRun_append, markOpening, onesRun_cons, if_neg Bool.false_ne_true, onesRun_replicate,
    Nat.zero_add]

theorem onesRun_eq_or_lt (r : Nat) (l : List Bool) :
    onesRun r l = r + l.length ∨ onesRun r l < l.length := by
  induction l using List.reverseRecOn with
  | nil => exact .inl rfl
  | append_singleton l b ih =>
    rw [onesRun_concat, List.length_append, List.length_singleton]
    cases b with
    | false => exact .inr (by simp)
    | true =>
      simp only [if_true]
      omega

theorem MarkAt.of_append {k n : Nat} {l q : List Bool} (h : MarkAt k n (l ++ q)) :
    (q.length ≤ n ∧ MarkAt k (n - q.length) l) ∨
      ∃ q' ys, q' ≠ [] ∧ q = q' ++ ys ∧ ys.length = n ∧ onesRun (onesRun 0 l) q' = k + 1 := by
  obtain ⟨p, ys, hlen, heq⟩ := h
  rcases List.append_eq_append_iff.mp heq with ⟨q', hopen, hq⟩ | ⟨zs, hl, hys⟩
  · by_cases hnil : q' = []
    · subst hnil
      rw [List.append_nil] at hopen
      rw [List.nil_append] at hq
      subst hq
      refine .inl ⟨Nat.le_of_eq hlen, p, [], ?_, ?_⟩
      · rw [hlen, Nat.sub_self, List.length_nil]
      · rw [hopen, List.append_nil]
    · refine .inr ⟨q', ys, hnil, hq, hlen, ?_⟩
      rw [← onesRun_append, ← hopen, onesRun_markOpening]
  · have hsplit := congrArg List.length hys
    rw [List.length_append, hlen] at hsplit
    exact .inl ⟨by omega, p, zs, by omega, hl⟩

section Data

variable {k n : Nat} {l q : List Bool}

theorem Settled.not_markAt (h : Settled k n l) (hne : q ≠ [])
    (hq : ∀ q', q' ≠ [] → q' <+: q → onesRun (onesRun 0 l) q' ≠ k + 1) :
    ¬ MarkAt k n (l ++ q) := by
  intro hmark
  have hpos := List.length_pos_iff.mpr hne
  rcases hmark.of_append with ⟨hle, hl⟩ | ⟨q', ys, hne', rfl, -, hrun⟩
  · exact h _ (by omega) hl
  · exact hq q' hne' (List.prefix_append _ _) hrun

theorem Settled.append (h : Settled k n l)
    (hq : ∀ q', q' ≠ [] → q' <+: q → onesRun (onesRun 0 l) q' ≠ k + 1) :
    Settled k n (l ++ q) := by
  intro i hi hmark
  rcases hmark.of_append with ⟨hle, hl⟩ | ⟨q', ys, hne', rfl, -, hrun⟩
  · exact h _ (by omega) hl
  · exact hq q' hne' (List.prefix_append _ _) hrun

theorem Settled.not_markAt_partial (h : Settled k n l) {ys : List Bool} (hne : q ≠ [])
    (hq : q <+: markOpening k ++ ys) (hpart : q.length < k + 2 + n) :
    ¬ MarkAt k n (l ++ q) := by
  intro hmark
  have hpos := List.length_pos_iff.mpr hne
  rcases hmark.of_append with ⟨hle, hl⟩ | ⟨q', zs, hne', rfl, hzs, hrun⟩
  · exact h _ (by omega) hl
  · rw [List.length_append, hzs] at hpart
    have hopen : q' <+: markOpening k := by
      refine List.prefix_of_prefix_length_le ((List.prefix_append _ _).trans hq)
        (List.prefix_append _ _) ?_
      rw [length_markOpening]
      omega
    rcases List.prefix_cons_iff.mp hopen with rfl | ⟨ones, rfl, hones⟩
    · exact hne' rfl
    · have hall := List.eq_replicate_of_mem fun b hb => List.eq_of_mem_replicate (hones.mem hb)
      rw [hall, onesRun_cons, if_neg Bool.false_ne_true, onesRun_replicate] at hrun
      rw [List.length_cons] at hpart
      omega

end Data

theorem markAt_mark {k n : Nat} (l : List Bool) {ys : List Bool} (hlen : ys.length = n) :
    MarkAt k n (l ++ (markOpening k ++ ys)) :=
  ⟨l, ys, hlen, (List.append_assoc ..).symm⟩

theorem settled_mark {k n : Nat} (hn : n ≤ k + 1) (l : List Bool) {ys : List Bool}
    (hlen : ys.length = n) : Settled k n (l ++ (markOpening k ++ ys)) := by
  intro i hi hmark
  rw [← List.append_assoc] at hmark
  rcases hmark.of_append with ⟨hle, -⟩ | ⟨q, zs, hne, hys, -, hrun⟩
  · omega
  · have hpos := List.length_pos_iff.mpr hne
    have hsplit := congrArg List.length hys
    rw [List.length_append] at hsplit
    rw [onesRun_markOpening] at hrun
    rcases onesRun_eq_or_lt (k + 1) q with heq | hlt
    · omega
    · omega

theorem onesRun_stuff_ne {k r : Nat} (hk : 0 < k) (hr : r < k) {bs q : List Bool}
    (hq : q <+: stuff k r bs) : onesRun r q ≠ k + 1 := by
  have := onesRun_prefix_stuff hk hr hq
  omega

end Apollo.Lib
