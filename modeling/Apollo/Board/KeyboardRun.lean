import Mathlib
import Apollo.Board.Keyboard

/-!
# Runs of the keyboard

Every run carries its messages: what was let in is what was handed over and what is queued, and
the presses and releases of a key that reach the host alternate. The runs are those whose instants
end before the time base does.
-/

namespace Apollo.Board

open Device Lib

/-- The transitions alternate, beginning with the expected one. -/
def Alternates : Bool → List Bool → Prop
  | _, [] => True
  | expected, transition :: rest => transition = expected ∧ Alternates (!expected) rest

/-- The presses and releases of a key among the messages; a press is `true`. -/
def transitions (key : Nat) (messages : List Message) : List Bool :=
  messages.filterMap fun message =>
    match message with
    | .press key' => if key' = key then some true else none
    | .release key' => if key' = key then some false else none
    | _ => none

/-- The messages whose bytes are all among the first so many of the line. -/
def delivered : Nat → List Message → List Message
  | _, [] => []
  | count, message :: rest =>
    if message.bytes.length ≤ count then
      message :: delivered (count - message.bytes.length) rest
    else []

theorem delivered_prefix (count : Nat) (messages : List Message) :
    ∃ rest, messages = delivered count messages ++ rest := by
  induction messages generalizing count with
  | nil => exact ⟨[], rfl⟩
  | cons message messages ih =>
    rw [delivered]
    split
    · obtain ⟨rest, hrest⟩ := ih (count - message.bytes.length)
      exact ⟨rest, congrArg (message :: ·) hrest⟩
    · exact ⟨_, rfl⟩

theorem Alternates.left {expected : Bool} {transitions more : List Bool}
    (h : Alternates expected (transitions ++ more)) : Alternates expected transitions := by
  induction transitions generalizing expected with
  | nil => trivial
  | cons transition rest ih => exact ⟨h.1, ih h.2⟩

theorem Alternates.next {expected transition : Bool} {transitions : List Bool}
    (h : Alternates expected (transitions ++ [transition])) :
    Alternates expected (transitions ++ [transition] ++ [!transition]) := by
  induction transitions generalizing expected with
  | nil => exact ⟨h.1, by rw [h.1], trivial⟩
  | cons first rest ih => exact ⟨h.1, ih h.2⟩

theorem transitions_append (key : Nat) (messages more : List Message) :
    transitions key (messages ++ more) = transitions key messages ++ transitions key more :=
  List.filterMap_append

/-- A message that is neither a press nor a release. -/
def Message.Plain : Message → Prop
  | .press _ | .release _ => False
  | _ => True

theorem transitions_plain {messages : List Message} (h : ∀ message ∈ messages, message.Plain)
    (key : Nat) : transitions key messages = [] := by
  refine List.filterMap_eq_nil_iff.mpr fun message hmessage => ?_
  have hplain := h message hmessage
  cases message <;> first | rfl | exact hplain.elim

/-- The matrix has each key as the messages left it. -/
structure Scanned (down : Fin keyCount → Bool) (accepted : List Message) : Prop where
  next : ∀ key, Alternates true (transitions key.val accepted ++ [!down key])
  none : ∀ key, keyCount ≤ key → transitions key accepted = []

variable {down : Fin keyCount → Bool} {accepted : List Message}

theorem Scanned.plain (h : Scanned down accepted) {messages : List Message}
    (hplain : ∀ message ∈ messages, message.Plain) : Scanned down (accepted ++ messages) := by
  have hsame : ∀ key, transitions key (accepted ++ messages) = transitions key accepted := by
    intro key
    rw [transitions_append, transitions_plain hplain, List.append_nil]
  exact ⟨fun key => by rw [hsame]; exact h.next key, fun key hkey => by rw [hsame]; exact h.none key hkey⟩

theorem Scanned.transition (h : Scanned down accepted) (key : Fin keyCount) (message : Message)
    (hmessage : ∀ key', transitions key' [message] = if key' = key.val then [!down key] else []) :
    Scanned (Function.update down key (!down key)) (accepted ++ [message]) := by
  refine ⟨fun key' => ?_, fun key' hkey' => ?_⟩
  · rw [transitions_append, hmessage]
    by_cases hsame : key' = key
    · subst hsame
      rw [if_pos rfl, Function.update_self]
      exact (h.next key').next
    · rw [if_neg fun heq => hsame (Fin.ext heq), List.append_nil, Function.update_of_ne hsame]
      exact h.next key'
  · have hkey := key.isLt
    rw [transitions_append, h.none key' hkey', hmessage, if_neg (by omega)]
    rfl

/-! ## The invariant -/

/-- The line and the matrix are as the messages have them. -/
structure Sound (line : Line) : Prop where
  wired : Wired line.kbd (line.accepted.flatMap Message.bytes) line.handed
  scanned : Scanned line.kbd.down line.accepted

theorem sound_reset : Sound ⟨Keyboard.reset, [], []⟩ where
  wired :=
    { inOrder := rfl
      keys := rfl
      replies := rfl
      keysLimited := Nat.zero_le _
      repliesLimited := Nat.zero_le _
      inTime := by decide
      paced := List.Pairwise.nil
      notEarly := fun a ha => absurd ha List.not_mem_nil
      past := fun a ha => absurd ha List.not_mem_nil
      next := fun _ a ha => absurd ha List.not_mem_nil }
  scanned := ⟨fun key => ⟨rfl, trivial⟩, fun key _ => rfl⟩

variable {line : Line}

theorem Sound.refused (h : Sound line) (message : Message) :
    Sound (line.letIn (false, line.kbd) message) := by
  rw [Line.letIn]
  dsimp only
  rw [if_neg Bool.false_ne_true, List.append_nil]
  exact h

theorem Sound.letIn (h : Sound line) {result : Bool × Keyboard} (message : Message)
    {down : Fin keyCount → Bool}
    (hletIn : LetIn line.kbd (line.accepted.flatMap Message.bytes) line.handed message.bytes down
      result) (hscanned : Scanned down (line.accepted ++ [message])) :
    Sound (line.letIn result message) := by
  cases hletIn with
  | refused => exact h.refused message
  | taken kbd' hdown hwired =>
    refine ⟨?_, hdown ▸ hscanned⟩
    change Wired kbd' ((line.accepted ++ [message]).flatMap Message.bytes) line.handed
    rw [List.flatMap_append, List.flatMap_singleton]
    exact hwired

theorem Sound.letIn_plain (h : Sound line) {result : Bool × Keyboard} {message : Message}
    (hplain : message.Plain)
    (hletIn : LetIn line.kbd (line.accepted.flatMap Message.bytes) line.handed message.bytes
      line.kbd.down result) : Sound (line.letIn result message) :=
  h.letIn message hletIn (h.scanned.plain fun _ hmessage => List.mem_singleton.mp hmessage ▸ hplain)

theorem Sound.press (h : Sound line) (key : Nat) : Sound (line.run (.press key)) := by
  obtain hrefused | ⟨hkey, hdown, hletIn⟩ := letIn_keyPress h.wired key
  · rw [Line.run, hrefused]
    exact h.refused _
  · refine h.letIn (.press key) hletIn ?_
    have hmessage := h.scanned.transition ⟨key, hkey⟩ (.press key) fun key' => by
      rw [hdown]
      by_cases hsame : key' = key
      · rw [if_pos hsame, hsame]
        simp [transitions]
      · simp [transitions, hsame, Ne.symm hsame]
    rwa [hdown] at hmessage

theorem Sound.release (h : Sound line) (key : Nat) : Sound (line.run (.release key)) := by
  obtain hrefused | ⟨hkey, hdown, hletIn⟩ := letIn_keyRelease h.wired key
  · rw [Line.run, hrefused]
    exact h.refused _
  · refine h.letIn (.release key) hletIn ?_
    have hmessage := h.scanned.transition ⟨key, hkey⟩ (.release key) fun key' => by
      rw [hdown]
      by_cases hsame : key' = key
      · rw [if_pos hsame, hsame]
        simp [transitions]
      · simp [transitions, hsame, Ne.symm hsame]
    rwa [hdown] at hmessage

theorem Sound.type (h : Sound line) (ascii : BitVec 8) : Sound (line.run (.type ascii)) := by
  rw [Line.run, keyType]
  cases hencode : encode ascii with
  | none => exact h.refused _
  | some found => exact h.letIn_plain trivial (letIn_deliverWhole h.wired _)

theorem Sound.advance (h : Sound line) {now : Time} {host : List (BitVec 8)}
    (hinTime : now.toNat + txCharacter.toNat < 2 ^ 64) :
    Sound (line.run (.advance now host)) := by
  obtain ⟨hrepeat, hnow, hdown⟩ := wired_repeatKey h.wired hinTime
  obtain ⟨hfirst, hfirstNow, hfirstDown⟩ := wired_drainKeyboard hrepeat hnow
  obtain ⟨hanswer, hanswerNow, hanswerDown⟩ := wired_answerHost host hfirst
  obtain ⟨hsecond, -, hsecondDown⟩ := wired_drainKeyboard hanswer
    (by rw [hanswerNow, hfirstNow]; exact hnow)
  refine ⟨?_, ?_⟩
  · have haccepted : ∀ repeated replies,
        (line.accepted ++ repeated ++ replies).flatMap Message.bytes =
          line.accepted.flatMap Message.bytes ++ repeated.flatMap Message.bytes ++
            replies.flatMap Message.bytes := by
      intro repeated replies
      rw [List.flatMap_append, List.flatMap_append]
    rw [List.append_assoc line.handed] at hsecond
    exact haccepted _ _ ▸ hsecond
  · have hsame := hsecondDown.trans (hanswerDown.trans (hfirstDown.trans hdown))
    refine Eq.mpr (congrArg (Scanned · _) hsame) ?_
    refine (h.scanned.plain fun message hmessage => ?_).plain fun message hmessage => ?_
    · obtain ⟨code, -, rfl⟩ := List.mem_map.mp hmessage
      trivial
    · obtain ⟨answer, -, rfl⟩ := List.mem_map.mp hmessage
      trivial

theorem Sound.run (h : Sound line) {operation : Operation} (hinTime : operation.InTime) :
    Sound (line.run operation) := by
  cases operation with
  | press key => exact h.press key
  | release key => exact h.release key
  | type ascii => exact h.type ascii
  | mouseMove dx dy left middle right =>
    exact h.letIn_plain trivial (letIn_deliverWhole h.wired _)
  | mouseMoveAbsolute x y left middle right =>
    exact h.letIn_plain trivial (letIn_deliverWhole h.wired _)
  | advance now host => exact h.advance hinTime

theorem sound_runs {operations : List Operation} (h : ∀ operation ∈ operations, operation.InTime) :
    Sound (Line.runs operations) := by
  have hfold : ∀ (operations : List Operation) (line : Line),
      (∀ operation ∈ operations, operation.InTime) → Sound line →
        Sound (operations.foldl Line.run line) := by
    intro operations
    induction operations with
    | nil => exact fun line _ hline => hline
    | cons operation rest ih =>
      intro line hall hline
      exact ih _ (fun operation' hmem => hall operation' (List.mem_cons_of_mem _ hmem))
        (hline.run (hall operation (List.mem_cons_self ..)))
  exact hfold operations _ h sound_reset

/-! ## The line carries its messages -/

/-- What the line promises in a state of a run. -/
structure Carries (line : Line) : Prop where
  /-- What was let in is what was handed over and what is queued, in this order. -/
  inOrder : line.accepted.flatMap Message.bytes =
    line.handed.map Handed.byte ++ line.kbd.queue.toList.map Prod.fst
  /-- The characters end a character time apart or more. -/
  paced : line.handed.Pairwise fun a b => a.due.toNat + txCharacter.toNat ≤ b.due.toNat
  /-- No byte is handed over before its character ends. -/
  notEarly : ∀ a ∈ line.handed, a.due ≤ a.instant
  counted : line.kbd.queue.count = line.kbd.keyBuffered + line.kbd.replyBuffered
  limited : line.kbd.keyBuffered ≤ keyLimit
  /-- The presses and releases of a key that were handed over alternate, beginning with a press. -/
  alternates : ∀ key, Alternates true (transitions key (delivered line.handed.length line.accepted))
  /-- What is refused leaves the keyboard as it was. -/
  pressRefused : ∀ key, (keyPress line.kbd key).1 = false → (keyPress line.kbd key).2 = line.kbd
  releaseRefused : ∀ key,
    (keyRelease line.kbd key).1 = false → (keyRelease line.kbd key).2 = line.kbd
  typeRefused : ∀ ascii, (keyType line.kbd ascii).1 = false → (keyType line.kbd ascii).2 = line.kbd
  packetRefused : ∀ bytes,
    (deliverWhole line.kbd bytes).1 = false → (deliverWhole line.kbd bytes).2 = line.kbd
  /-- A reply is taken whole unless it fills the queue's room for replies. -/
  replies : ∀ bytes, (line.kbd.queueReply bytes).1 = bytes.length ∨
    (line.kbd.queueReply bytes).2.replyBuffered = replyLimit

theorem LetIn.unchanged {kbd : Keyboard} {sent bytes : List (BitVec 8)} {handed : List Handed}
    {down : Fin keyCount → Bool} {result : Bool × Keyboard}
    (h : LetIn kbd sent handed bytes down result) (hrefused : result.1 = false) :
    result.2 = kbd := by
  cases h with
  | refused => rfl
  | taken kbd' hdown hwired => exact absurd hrefused Bool.noConfusion

/-- **THE LINE CARRIES WHOLE MESSAGES IN ORDER**, in every run whose instants end before the time
base does. -/
theorem carries_runs (operations : List Operation)
    (h : ∀ operation ∈ operations, operation.InTime) : Carries (Line.runs operations) := by
  obtain ⟨hwired, hscanned⟩ := sound_runs h
  refine
    { inOrder := hwired.inOrder
      paced := hwired.paced
      notEarly := hwired.notEarly
      counted := hwired.count
      limited := hwired.keysLimited
      alternates := fun key => ?_
      pressRefused := fun key hrefused => ?_
      releaseRefused := fun key hrefused => ?_
      typeRefused := fun ascii hrefused => ?_
      packetRefused := fun bytes => (letIn_deliverWhole hwired bytes).unchanged
      replies := fun bytes => ?_ }
  · obtain ⟨rest, hrest⟩ := delivered_prefix (Line.runs operations).handed.length
      (Line.runs operations).accepted
    have hall : Alternates true (transitions key (Line.runs operations).accepted) := by
      obtain hkey | hkey := lt_or_ge key keyCount
      · exact (hscanned.next ⟨key, hkey⟩).left
      · rw [hscanned.none key hkey]
        trivial
    rw [hrest, transitions_append] at hall
    exact hall.left
  · obtain hsame | ⟨_, _, hletIn⟩ := letIn_keyPress hwired key
    · rw [hsame]
    · exact hletIn.unchanged hrefused
  · obtain hsame | ⟨_, _, hletIn⟩ := letIn_keyRelease hwired key
    · rw [hsame]
    · exact hletIn.unchanged hrefused
  · rw [keyType] at hrefused ⊢
    cases hencode : encode ascii with
    | none => rfl
    | some found =>
      rw [hencode] at hrefused
      exact (letIn_deliverWhole hwired _).unchanged hrefused
  · have hlimit := hwired.repliesLimited
    rw [Keyboard.queueReply]
    dsimp only
    split
    · exact .inl rfl
    · exact .inr (Nat.add_sub_of_le hlimit)

/-- A key is struck and a character typed, and the host asks for an echo. -/
theorem carries_struck : Carries (Line.runs [.press 0x4B, .release 0x4B, .type 0x41,
    .advance 400000000000 [0xFF]]) :=
  carries_runs _ (by decide)

/-- The press and release codes of a key among the bytes of the line; a press is `true`. -/
def codes (key : Nat) (bytes : List (BitVec 8)) : List Bool :=
  bytes.filterMap fun byte =>
    if byte = BitVec.ofNat 8 key then some true
    else if byte = BitVec.ofNat 8 key ||| 0x80 then some false
    else none

/-- Without the exceptions it is not so: a host that asks three times at once for the
identification has the third cut short, a repeat in the compatibility set is the code of the press
once more, and at the end of the time base two characters end closer than a character time. -/
theorem not_carries :
    (¬∀ operations answer, .reply answer ∈ (Line.runs operations).accepted →
      answer.taken = answer.bytes.length) ∧
    (¬∀ operations key, Alternates true
      (codes key ((Line.runs operations).handed.map Handed.byte))) ∧
    ¬∀ operations, (Line.runs operations).handed.Pairwise
      fun a b => a.due.toNat + txCharacter.toNat ≤ b.due.toNat := by
  refine ⟨fun h => ?_, fun h => ?_, fun h => ?_⟩
  · have hcut := h [.advance 0 [0xFF, 0x12, 0x21, 0xFF, 0x12, 0x21, 0xFF, 0x12, 0x21]]
      ⟨0x21 :: identification ++ [0xFF, 0], 12⟩ (by decide)
    exact absurd hcut (by decide)
  · have hrepeated := h [.press 1, .advance repeatDelay []] 1
    rw [show codes 1 ((Line.runs [.press 1, .advance repeatDelay []]).handed.map Handed.byte) =
      [true, true] by decide] at hrepeated
    exact absurd hrepeated.2.1 Bool.noConfusion
  · have hpaced := h [.advance (-1 - txCharacter) [], .press 1, .advance (-1) []]
    exact absurd hpaced (by decide)

end Apollo.Board
