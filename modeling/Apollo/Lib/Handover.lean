import Mathlib

/-!
# Handover through a register

A sender hands frames to a receiver through a register of one element. It owes what it has not shown
of the frame it is at, shows the next element when the register is free, and posts another frame
when it owes nothing. What the receiver sees when an element is shown is of another type, and each
element says what is to be seen.
-/

namespace Apollo.Lib

variable {α β γ : Type}

/-- The record of a handover: the frames posted, what was shown of them and what was taken. -/
structure Handover (α β γ : Type) where
  posted : List (List α)
  shown : List β
  taken : List γ

namespace Handover

/-- No frame yet. -/
def start : Handover α β γ := ⟨[], [], []⟩

variable {meets : α → β → Prop} {value : β → γ} {history : Handover α β γ}
  {register : Option γ} {owed : List α}

/-- NOTHING IS LOST, REPEATED OR MIXED: the frames in the order they were posted are what was shown
and what is owed, each element seen as it says, and what was shown was taken but for the register. -/
structure Whole (meets : α → β → Prop) (value : β → γ) (history : Handover α β γ)
    (register : Option γ) (owed : List α) : Prop where
  inOrder : ∃ due, history.posted.flatten = due ++ owed ∧ List.Forall₂ meets due history.shown
  taken : history.taken ++ register.toList = history.shown.map value

theorem Whole.init : Whole meets value (start : Handover α β γ) none [] :=
  ⟨⟨[], rfl, .nil⟩, rfl⟩

theorem Whole.post (h : Whole meets value history register []) (frame : List α) :
    Whole meets value { history with posted := history.posted ++ [frame] } register frame := by
  obtain ⟨due, hposted, hmeets⟩ := h.inOrder
  refine ⟨⟨due, ?_, hmeets⟩, h.taken⟩
  rw [List.flatten_concat, hposted, List.append_nil]

theorem Whole.show {next : α} {seen : β} (h : Whole meets value history none (next :: owed))
    (hseen : meets next seen) :
    Whole meets value { history with shown := history.shown ++ [seen] } (some (value seen))
      owed := by
  obtain ⟨due, hposted, hmeets⟩ := h.inOrder
  refine ⟨⟨due ++ [next], ?_, ?_⟩, ?_⟩
  · rw [hposted, List.append_cons]
  · exact List.rel_append hmeets (.cons hseen .nil)
  · have htaken := h.taken
    rw [Option.toList_none, List.append_nil] at htaken
    rw [List.map_append, ← htaken]
    rfl

theorem Whole.take {element : γ} (h : Whole meets value history (some element) owed) :
    Whole meets value { history with taken := history.taken ++ [element] } none owed := by
  refine ⟨h.inOrder, ?_⟩
  rw [Option.toList_none, List.append_nil]
  exact h.taken

end Handover

end Apollo.Lib
