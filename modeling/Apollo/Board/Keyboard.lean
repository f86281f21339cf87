import Mathlib
import Apollo.Device.Keyboard

/-!
# The keyboard on the board

What `src/core/board/ap_board.c` does with the keyboard: key transitions, typed characters and
pointer packets are let in whole or not at all, and an advance repeats a held key, hands over the
bytes whose characters are over, and lets the keyboard answer what the host has sent.
-/

namespace Apollo.Board

open Device

/-- `deliver_key`. -/
def deliverKey (kbd : Keyboard) (code : BitVec 8) : Bool × Keyboard := kbd.buffer code

/-- `keyboard_room`; no more than the limit is ever buffered. -/
def keyboardRoom (kbd : Keyboard) : Nat := keyLimit - kbd.keyBuffered

/-- Bytes delivered one after the other, as long as they are taken. -/
def deliverAll (kbd : Keyboard) : List (BitVec 8) → Bool × Keyboard
  | [] => (true, kbd)
  | code :: rest =>
    match deliverKey kbd code with
    | (false, kbd) => (false, kbd)
    | (true, kbd) => deliverAll kbd rest

/-- `ap_board_key_press`. -/
def keyPress (kbd : Keyboard) (key : Nat) : Bool × Keyboard :=
  if keyboardRoom kbd < 1 then (false, kbd)
  else
    match kbd.press key with
    | none => (false, kbd)
    | some (code, kbd) => deliverKey kbd code

/-- `ap_board_key_release`. -/
def keyRelease (kbd : Keyboard) (key : Nat) : Bool × Keyboard :=
  if keyboardRoom kbd < 1 then (false, kbd)
  else
    match kbd.release key with
    | none => (false, kbd)
    | some (code, kbd) => deliverKey kbd code

/-- The bytes of a code: the keypad's have a prefix. -/
def typedBytes (code : BitVec 16) : List (BitVec 8) :=
  if code &&& 0xFE00 = 0xFE00 then [0xFE, code.setWidth 8] else [code.setWidth 8]

/-- Bytes delivered if there is room for all of them. -/
def deliverWhole (kbd : Keyboard) (bytes : List (BitVec 8)) : Bool × Keyboard :=
  if keyboardRoom kbd < bytes.length then (false, kbd) else deliverAll kbd bytes

/-- `ap_board_key_type`. -/
def keyType (kbd : Keyboard) (ascii : BitVec 8) : Bool × Keyboard :=
  match encode ascii with
  | none => (false, kbd)
  | some (code, _) => deliverWhole kbd (typedBytes code)

/-- `ap_board_mouse_move`. -/
def mouseMove (kbd : Keyboard) (dx dy : Int) (left middle right : Bool) : Bool × Keyboard :=
  deliverWhole kbd (kbd.mousePacket dx dy left middle right)

/-- `ap_board_mouse_move_absolute`. -/
def mouseMoveAbsolute (kbd : Keyboard) (x y : BitVec 32) (left middle right : Bool) :
    Bool × Keyboard :=
  deliverWhole kbd (kbd.mousePacketAbsolute x y left middle right)

/-- A byte handed over, with the end of its character and the instant it was handed over. -/
structure Handed where
  byte : BitVec 8
  due : Time
  instant : Time

/-- The loop of `drain_keyboard`; each round takes a byte out of the queue. -/
def drainRounds (now : Time) : Nat → Keyboard → List Handed × Keyboard
  | 0, kbd => ([], kbd)
  | rounds + 1, kbd =>
    match kbd.transmit now with
    | none => ([], kbd)
    | some (byte, kbd') =>
      let (rest, kbd'') := drainRounds now rounds kbd'
      (⟨byte, kbd.txAt, now⟩ :: rest, kbd'')

/-- `drain_keyboard`. -/
def drainKeyboard (kbd : Keyboard) (now : Time) : List Handed × Keyboard :=
  drainRounds now kbd.queue.count kbd

/-- What the keyboard answered a byte of the host, and how much of it was taken. -/
structure Reply where
  bytes : List (BitVec 8)
  taken : Nat
deriving DecidableEq

/-- The loop of `ap_board_advance` over the bytes the host has sent. -/
def answerHost (kbd : Keyboard) : List (BitVec 8) → List Reply × Keyboard
  | [] => ([], kbd)
  | byte :: rest =>
    let (reply, kbd) := kbd.receive byte replyMax
    let (taken, kbd) := kbd.queueReply reply
    let (replies, kbd) := answerHost kbd rest
    (⟨reply, taken⟩ :: replies, kbd)

/-- The repeat of `ap_board_advance`: the code that was taken, if one was due. -/
def repeatKey (kbd : Keyboard) (now : Time) : Option (BitVec 8) × Keyboard :=
  match kbd.advance now with
  | (none, kbd) => (none, kbd)
  | (some key, kbd) =>
    let code := if kbd.keystateMode then 0x7F else BitVec.ofNat 8 key
    match deliverKey kbd code with
    | (true, kbd) => (some code, kbd)
    | (false, kbd) => (none, kbd)

/-- What an advance lets in and hands over. -/
structure Advanced where
  repeated : Option (BitVec 8)
  replies : List Reply
  handed : List Handed
  kbd : Keyboard

/-- The keyboard's part of `ap_board_advance`, with the bytes the host has sent. -/
def advanceKeyboard (kbd : Keyboard) (now : Time) (host : List (BitVec 8)) : Advanced :=
  let (repeated, kbd) := repeatKey kbd now
  let (first, kbd) := drainKeyboard kbd now
  let (replies, kbd) := answerHost kbd host
  let (second, kbd) := drainKeyboard kbd now
  ⟨repeated, replies, first ++ second, kbd⟩

end Apollo.Board

/-!
## The keyboard's line

A run of the keyboard on the board, with two records kept beside it: the messages that were let in,
in their order, and the bytes that were handed over. What was let in is what was handed over and
what is still in the queue, in this order; the characters are a character time apart; and a press
or a release is let in only where the last one let the other way.

A reply is let in only as far as there is room for it, so a host that commands faster than the
line carries can cut one short. A repeat in the compatibility set has the code of the press. And
the end of a character is an instant of 64 bits, which wraps at the end of the time base.
-/

namespace Apollo.Board

open Device Lib

/-- What is let onto the line. -/
inductive Message
  | press (key : Nat)
  | release (key : Nat)
  | typed (code : BitVec 16)
  | packet (bytes : List (BitVec 8))
  | repeated (code : BitVec 8)
  | reply (answer : Reply)
deriving DecidableEq

/-- The bytes of a message: all of them, but of a reply those that were taken. -/
def Message.bytes : Message → List (BitVec 8)
  | .press key => [BitVec.ofNat 8 key]
  | .release key => [BitVec.ofNat 8 key ||| 0x80]
  | .typed code => typedBytes code
  | .packet bytes => bytes
  | .repeated code => [code]
  | .reply answer => answer.bytes.take answer.taken

/-- What can happen to the keyboard. -/
inductive Operation
  | press (key : Nat)
  | release (key : Nat)
  | type (ascii : BitVec 8)
  | mouseMove (dx dy : Int) (left middle right : Bool)
  | mouseMoveAbsolute (x y : BitVec 32) (left middle right : Bool)
  | advance (now : Time) (host : List (BitVec 8))

/-- The keyboard, the messages that were let in, and the bytes that were handed over. -/
structure Line where
  kbd : Keyboard
  accepted : List Message
  handed : List Handed

/-- A message that was let in, or refused. -/
def Line.letIn (line : Line) (result : Bool × Keyboard) (message : Message) : Line :=
  { line with
    kbd := result.2
    accepted := line.accepted ++ if result.1 then [message] else [] }

/-- An operation. -/
def Line.run (line : Line) : Operation → Line
  | .press key => line.letIn (keyPress line.kbd key) (.press key)
  | .release key => line.letIn (keyRelease line.kbd key) (.release key)
  | .type ascii => line.letIn (keyType line.kbd ascii) (.typed ((encode ascii).elim 0 Prod.fst))
  | .mouseMove dx dy left middle right =>
    line.letIn (mouseMove line.kbd dx dy left middle right)
      (.packet (line.kbd.mousePacket dx dy left middle right))
  | .mouseMoveAbsolute x y left middle right =>
    line.letIn (mouseMoveAbsolute line.kbd x y left middle right)
      (.packet (line.kbd.mousePacketAbsolute x y left middle right))
  | .advance now host =>
    let advanced := advanceKeyboard line.kbd now host
    { kbd := advanced.kbd
      accepted := line.accepted ++ advanced.repeated.toList.map .repeated ++
        advanced.replies.map .reply
      handed := line.handed ++ advanced.handed }

/-- A run from power-on. -/
def Line.runs (operations : List Operation) : Line :=
  operations.foldl Line.run ⟨Keyboard.reset, [], []⟩

/-- An advance is a character time or more before the end of the time base. -/
def Operation.InTime : Operation → Prop
  | .advance now _ => now.toNat + txCharacter.toNat < 2 ^ 64
  | _ => True

instance : DecidablePred Operation.InTime
  | .advance now _ => inferInstanceAs (Decidable (now.toNat + txCharacter.toNat < 2 ^ 64))
  | .press _ | .release _ | .type _ | .mouseMove .. | .mouseMoveAbsolute .. =>
    inferInstanceAs (Decidable True)

/-! ## The bytes on the line -/

/-- What was let in is what was handed over and what is queued, each kind within its limit, the
characters a character time apart. -/
structure Wired (kbd : Keyboard) (sent : List (BitVec 8)) (handed : List Handed) : Prop where
  inOrder : sent = handed.map Handed.byte ++ kbd.queue.toList.map Prod.fst
  keys : kbd.keyBuffered = kbd.queue.toList.countP (!·.2)
  replies : kbd.replyBuffered = kbd.queue.toList.countP (·.2)
  keysLimited : kbd.keyBuffered ≤ keyLimit
  repliesLimited : kbd.replyBuffered ≤ replyLimit
  inTime : kbd.now.toNat + txCharacter.toNat < 2 ^ 64
  paced : handed.Pairwise fun a b => a.due.toNat + txCharacter.toNat ≤ b.due.toNat
  notEarly : ∀ a ∈ handed, a.due ≤ a.instant
  past : ∀ a ∈ handed, a.due ≤ kbd.now
  next : kbd.queue.count ≠ 0 → ∀ a ∈ handed, a.due.toNat + txCharacter.toNat ≤ kbd.txAt.toNat

variable {kbd kbd' : Keyboard} {sent : List (BitVec 8)} {handed : List Handed}

theorem Wired.count (h : Wired kbd sent handed) :
    kbd.queue.count = kbd.keyBuffered + kbd.replyBuffered := by
  have hsplit := List.length_eq_countP_add_countP (·.2) (l := kbd.queue.toList)
  rw [CircularQueue.length_toList] at hsplit
  rw [hsplit, h.keys, h.replies, Nat.add_comm]
  congr 1
  exact List.countP_congr fun entry _ => by simp

theorem Wired.congr (h : Wired kbd sent handed) (hqueue : kbd'.queue = kbd.queue)
    (hkeys : kbd'.keyBuffered = kbd.keyBuffered) (hreplies : kbd'.replyBuffered = kbd.replyBuffered)
    (htxAt : kbd'.txAt = kbd.txAt) (hnow : kbd.now ≤ kbd'.now)
    (hinTime : kbd'.now.toNat + txCharacter.toNat < 2 ^ 64) : Wired kbd' sent handed where
  inOrder := hqueue ▸ h.inOrder
  keys := by rw [hkeys, hqueue, h.keys]
  replies := by rw [hreplies, hqueue, h.replies]
  keysLimited := hkeys ▸ h.keysLimited
  repliesLimited := hreplies ▸ h.repliesLimited
  inTime := hinTime
  paced := h.paced
  notEarly := h.notEarly
  past a ha := BitVec.le_trans (h.past a ha) hnow
  next := by rw [hqueue, htxAt]; exact h.next

theorem Wired.next_push (h : Wired kbd sent handed) {txAt : Time}
    (htxAt : txAt = if kbd.queue.count = 0 then kbd.now + txCharacter else kbd.txAt) :
    ∀ a ∈ handed, a.due.toNat + txCharacter.toNat ≤ txAt.toNat := by
  intro a ha
  have hpast := BitVec.le_def.mp (h.past a ha)
  have hinTime := h.inTime
  subst htxAt
  split
  · rw [BitVec.toNat_add_of_lt hinTime]
    omega
  · rename_i hcount
    exact h.next hcount a ha

theorem Wired.buffer (h : Wired kbd sent handed) (hroom : kbd.keyBuffered < keyLimit)
    (code : BitVec 8) : Wired (kbd.buffer code).2 (sent ++ [code]) handed := by
  have hreplies := h.repliesLimited
  have hpush : (kbd.queue.push (code, false)).toList = kbd.queue.toList ++ [(code, false)] :=
    CircularQueue.toList_push (by rw [h.count]; exact Nat.add_lt_add_of_lt_of_le hroom hreplies)
  rw [Keyboard.buffer, if_neg (by rw [Keyboard.bufferFull, decide_eq_true_iff]; omega)]
  exact
    { inOrder := by
        rw [hpush, h.inOrder, List.map_append, List.append_assoc]
        rfl
      keys := by rw [hpush, List.countP_append, ← h.keys]; rfl
      replies := by rw [hpush, List.countP_append, ← h.replies]; rfl
      keysLimited := hroom
      repliesLimited := hreplies
      inTime := h.inTime
      paced := h.paced
      notEarly := h.notEarly
      past := h.past
      next := fun _ => h.next_push rfl }

theorem Wired.queueReply (h : Wired kbd sent handed) (bytes : List (BitVec 8)) :
    Wired (kbd.queueReply bytes).2 (sent ++ bytes.take (kbd.queueReply bytes).1) handed := by
  have hlimit := h.repliesLimited
  have hkeys := h.keysLimited
  have hcount := h.count
  obtain ⟨take, htake⟩ : ∃ take, take =
      if bytes.length < replyLimit - kbd.replyBuffered then bytes.length
      else replyLimit - kbd.replyBuffered := ⟨_, rfl⟩
  have hroom : take ≤ replyLimit - kbd.replyBuffered := by split at htake <;> omega
  have hlength : (bytes.take take).length = take := by
    rw [List.length_take]
    split at htake <;> omega
  have hlist := CircularQueue.toList_foldl_push (fun byte => (byte, true)) (bytes.take take)
    kbd.queue (by rw [hlength, hcount, show (80 : Nat) = keyLimit + replyLimit from rfl]; omega)
  have hsame : kbd.queueReply bytes = (take,
      { kbd with
        txAt := if 0 < take ∧ kbd.queue.count = 0 then kbd.now + txCharacter else kbd.txAt
        queue := (bytes.take take).foldl (fun queue byte => queue.push (byte, true)) kbd.queue
        replyBuffered := kbd.replyBuffered + take }) := by
    rw [Keyboard.queueReply, htake]
  rw [hsame]
  exact
    { inOrder := by
        rw [hlist, h.inOrder, List.map_append, List.append_assoc, List.map_map]
        congr 2
        exact (List.map_id _).symm
      keys := by
        have hnone : (bytes.take take).countP ((fun entry => !entry.2) ∘ fun byte => (byte, true))
            = 0 := List.countP_eq_zero.mpr fun _ _ => Bool.false_ne_true
        rw [hlist, List.countP_append, ← h.keys, List.countP_map, hnone, Nat.add_zero]
      replies := by
        rw [hlist, List.countP_append, ← h.replies, List.countP_map]
        exact congrArg _ ((List.countP_eq_length.mpr fun _ _ => rfl).trans hlength).symm
      keysLimited := hkeys
      repliesLimited := by change kbd.replyBuffered + take ≤ replyLimit; omega
      inTime := h.inTime
      paced := h.paced
      notEarly := h.notEarly
      past := h.past
      next := fun hcount' => by
        by_cases htake0 : 0 < take
        · simp only [htake0, true_and]
          exact h.next_push rfl
        · obtain rfl := Nat.eq_zero_of_not_pos htake0
          simp only [lt_irrefl, false_and, if_false]
          exact h.next (by simpa using hcount') }

theorem Wired.transmit (h : Wired kbd sent handed) {now : Time} (hnow : now ≤ kbd.now)
    {byte : BitVec 8} (htransmit : kbd.transmit now = some (byte, kbd')) :
    Wired kbd' sent (handed ++ [⟨byte, kbd.txAt, now⟩]) ∧ kbd'.now = kbd.now := by
  obtain ⟨hwait, heq⟩ := Option.ite_none_left_eq_some.mp htransmit
  rw [not_or] at hwait
  obtain ⟨hcount, hdue⟩ := hwait
  have hdue' : kbd.txAt ≤ now := BitVec.not_lt.mp hdue
  have htoNat := BitVec.le_def.mp hdue'
  have hnow' := BitVec.le_def.mp hnow
  have hinTime := h.inTime
  have hnext := h.next hcount
  have hlist := CircularQueue.toList_eq_front_cons hcount
  cases hfront : kbd.queue.front with
  | mk code fromReply =>
    rw [hfront] at heq hlist
    obtain ⟨rfl, rfl⟩ := Prod.mk.inj (Option.some.inj heq)
    refine ⟨?_, rfl⟩
    exact
      { inOrder := by
          rw [h.inOrder, hlist, List.map_append, List.append_assoc]
          rfl
        keys := by
          change (if fromReply then kbd.keyBuffered else kbd.keyBuffered - 1) = _
          rw [h.keys, hlist]
          cases fromReply <;> simp
        replies := by
          change (if fromReply then kbd.replyBuffered - 1 else kbd.replyBuffered) = _
          rw [h.replies, hlist]
          cases fromReply <;> simp
        keysLimited := by
          change (if fromReply then kbd.keyBuffered else kbd.keyBuffered - 1) ≤ _
          have := h.keysLimited
          split <;> omega
        repliesLimited := by
          change (if fromReply then kbd.replyBuffered - 1 else kbd.replyBuffered) ≤ _
          have := h.repliesLimited
          split <;> omega
        inTime := hinTime
        paced := by
          refine List.pairwise_append.mpr ⟨h.paced, List.pairwise_singleton .., fun a ha b hb => ?_⟩
          rw [List.mem_singleton.mp hb]
          exact hnext a ha
        notEarly := by
          intro a ha
          obtain hold | hnew := List.mem_append.mp ha
          · exact h.notEarly a hold
          · rw [List.mem_singleton.mp hnew]
            exact hdue'
        past := by
          intro a ha
          obtain hold | hnew := List.mem_append.mp ha
          · exact h.past a hold
          · rw [List.mem_singleton.mp hnew]
            exact BitVec.le_trans hdue' hnow
        next := by
          intro _ a ha
          change _ ≤ (kbd.txAt + txCharacter).toNat
          rw [BitVec.toNat_add_of_lt (by omega)]
          obtain hold | hnew := List.mem_append.mp ha
          · exact Nat.le_add_right_of_le (hnext a hold)
          · rw [List.mem_singleton.mp hnew] }

/-! ## The functions of the board -/

/-- A keyboard that differs in its modes and its command channel at most. -/
structure SameLine (kbd kbd' : Keyboard) : Prop where
  queue : kbd'.queue = kbd.queue
  keys : kbd'.keyBuffered = kbd.keyBuffered
  replies : kbd'.replyBuffered = kbd.replyBuffered
  txAt : kbd'.txAt = kbd.txAt
  now : kbd'.now = kbd.now
  down : kbd'.down = kbd.down

theorem Wired.same (h : Wired kbd sent handed) (hsame : SameLine kbd kbd') :
    Wired kbd' sent handed :=
  h.congr hsame.queue hsame.keys hsame.replies hsame.txAt (hsame.now ▸ BitVec.le_refl _)
    (hsame.now ▸ h.inTime)

theorem sameLine_command (kbd : Keyboard) (byte : BitVec 8) : SameLine kbd (kbd.command byte).2 := by
  rw [Keyboard.command]
  dsimp only
  split_ifs <;> exact ⟨rfl, rfl, rfl, rfl, rfl, rfl⟩

theorem sameLine_receive (kbd : Keyboard) (byte : BitVec 8) (capacity : Nat) :
    SameLine kbd (kbd.receive byte capacity).2 := by
  rw [Keyboard.receive]
  split_ifs
  · exact ⟨rfl, rfl, rfl, rfl, rfl, rfl⟩
  · exact ⟨rfl, rfl, rfl, rfl, rfl, rfl⟩
  · exact ⟨rfl, rfl, rfl, rfl, rfl, rfl⟩
  · exact sameLine_command kbd byte

theorem buffer_taken (hroom : kbd.keyBuffered < keyLimit) (code : BitVec 8) :
    (kbd.buffer code).1 = true ∧ (kbd.buffer code).2.keyBuffered = kbd.keyBuffered + 1 := by
  rw [Keyboard.buffer, if_neg (by rw [Keyboard.bufferFull, decide_eq_true_iff]; omega)]
  exact ⟨rfl, rfl⟩

@[simp] theorem buffer_down (kbd : Keyboard) (code : BitVec 8) :
    (kbd.buffer code).2.down = kbd.down := by
  rw [Keyboard.buffer]
  split <;> rfl

@[simp] theorem buffer_now (kbd : Keyboard) (code : BitVec 8) :
    (kbd.buffer code).2.now = kbd.now := by
  rw [Keyboard.buffer]
  split <;> rfl

theorem buffer_refused {code : BitVec 8} (h : (kbd.buffer code).1 = false) :
    (kbd.buffer code).2 = kbd := by
  by_cases hfull : kbd.bufferFull = true
  · rw [Keyboard.buffer, if_pos hfull]
  · rw [Keyboard.buffer, if_neg hfull] at h
    exact absurd h Bool.noConfusion

/-- What becomes of something that is let in or refused: it is refused and nothing has changed, or
its bytes are on the line. -/
inductive LetIn (kbd : Keyboard) (sent : List (BitVec 8)) (handed : List Handed)
    (bytes : List (BitVec 8)) (down : Fin keyCount → Bool) : Bool × Keyboard → Prop
  | refused : LetIn kbd sent handed bytes down (false, kbd)
  | taken (kbd' : Keyboard) (hdown : kbd'.down = down) (hwired : Wired kbd' (sent ++ bytes) handed) :
      LetIn kbd sent handed bytes down (true, kbd')

theorem letIn_buffer (h : Wired kbd sent handed) (hroom : kbd.keyBuffered < keyLimit)
    (code : BitVec 8) {before : Keyboard} {down : Fin keyCount → Bool} (hdown : kbd.down = down) :
    LetIn before sent handed [code] down (deliverKey kbd code) := by
  have htaken := (buffer_taken hroom code).1
  have hpair : deliverKey kbd code = (true, (kbd.buffer code).2) := Prod.ext htaken rfl
  rw [hpair]
  exact .taken _ ((buffer_down kbd code).trans hdown) (h.buffer hroom code)

theorem deliverAll_taken (bytes : List (BitVec 8)) (h : Wired kbd sent handed)
    (hroom : kbd.keyBuffered + bytes.length ≤ keyLimit) {before : Keyboard} :
    LetIn before sent handed bytes kbd.down (deliverAll kbd bytes) := by
  induction bytes generalizing kbd sent with
  | nil => exact .taken kbd rfl ((List.append_nil sent).symm ▸ h)
  | cons code rest ih =>
    rw [List.length_cons] at hroom
    have hlt : kbd.keyBuffered < keyLimit := by omega
    obtain ⟨htaken, hcount⟩ := buffer_taken hlt code
    have hpair : deliverKey kbd code = (true, (kbd.buffer code).2) := Prod.ext htaken rfl
    rw [deliverAll, hpair]
    change LetIn before sent handed (code :: rest) kbd.down (deliverAll (kbd.buffer code).2 rest)
    have hrest := ih (h.buffer hlt code) (by rw [hcount]; omega)
    rw [buffer_down] at hrest
    cases hall : deliverAll (kbd.buffer code).2 rest with
    | mk ok kbd' =>
      rw [hall] at hrest
      cases hrest with
      | refused => exact .refused
      | taken _ hdown hwired =>
        rw [List.append_assoc] at hwired
        exact .taken _ hdown hwired

theorem letIn_deliverWhole (h : Wired kbd sent handed) (bytes : List (BitVec 8)) :
    LetIn kbd sent handed bytes kbd.down (deliverWhole kbd bytes) := by
  rw [deliverWhole]
  split
  · exact .refused
  · rename_i hroom
    have hlimit := h.keysLimited
    rw [keyboardRoom] at hroom
    exact deliverAll_taken bytes h (by omega)

theorem letIn_keyPress (h : Wired kbd sent handed) (key : Nat) :
    keyPress kbd key = (false, kbd) ∨ ∃ hkey : key < keyCount, kbd.down ⟨key, hkey⟩ = false ∧
      LetIn kbd sent handed [BitVec.ofNat 8 key] (Function.update kbd.down ⟨key, hkey⟩ true)
        (keyPress kbd key) := by
  rw [keyPress]
  split
  · exact .inl rfl
  · rename_i hroom
    rw [keyboardRoom] at hroom
    rw [Keyboard.press]
    by_cases hkey : key < keyCount
    · rw [dif_pos hkey]
      cases hdown : kbd.down ⟨key, hkey⟩ with
      | true => exact .inl rfl
      | false =>
        refine .inr ⟨hkey, hdown, ?_⟩
        rw [if_neg Bool.false_ne_true]
        refine letIn_buffer ?_ ?_ _ rfl
        · exact h.congr rfl rfl rfl rfl (BitVec.le_refl _) h.inTime
        · change kbd.keyBuffered < keyLimit
          omega
    · rw [dif_neg hkey]
      exact .inl rfl

theorem letIn_keyRelease (h : Wired kbd sent handed) (key : Nat) :
    keyRelease kbd key = (false, kbd) ∨ ∃ hkey : key < keyCount, kbd.down ⟨key, hkey⟩ = true ∧
      LetIn kbd sent handed [BitVec.ofNat 8 key ||| 0x80]
        (Function.update kbd.down ⟨key, hkey⟩ false) (keyRelease kbd key) := by
  rw [keyRelease]
  split
  · exact .inl rfl
  · rename_i hroom
    rw [keyboardRoom] at hroom
    rw [Keyboard.release]
    by_cases hkey : key < keyCount
    · rw [dif_pos hkey]
      cases hdown : kbd.down ⟨key, hkey⟩ with
      | true =>
        refine .inr ⟨hkey, hdown, ?_⟩
        rw [if_pos rfl]
        refine letIn_buffer ?_ ?_ _ rfl
        · exact h.congr rfl rfl rfl rfl (BitVec.le_refl _) h.inTime
        · change kbd.keyBuffered < keyLimit
          omega
      | false => exact .inl rfl
    · rw [dif_neg hkey]
      exact .inl rfl

theorem wired_drainRounds {now : Time} (rounds : Nat) (h : Wired kbd sent handed)
    (hnow : now ≤ kbd.now) :
    Wired (drainRounds now rounds kbd).2 sent (handed ++ (drainRounds now rounds kbd).1) ∧
      (drainRounds now rounds kbd).2.now = kbd.now ∧
      (drainRounds now rounds kbd).2.down = kbd.down := by
  induction rounds generalizing kbd handed with
  | zero => exact ⟨(List.append_nil handed).symm ▸ h, rfl, rfl⟩
  | succ rounds ih =>
    rw [drainRounds]
    cases htransmit : kbd.transmit now with
    | none => exact ⟨(List.append_nil handed).symm ▸ h, rfl, rfl⟩
    | some result =>
      obtain ⟨byte, kbd'⟩ := result
      obtain ⟨hwired, hnow'⟩ := h.transmit hnow htransmit
      have hdown : kbd'.down = kbd.down := by
        obtain ⟨-, heq⟩ := Option.ite_none_left_eq_some.mp htransmit
        cases heq
        rfl
      obtain ⟨hrest, hrestNow, hrestDown⟩ := ih hwired (hnow' ▸ hnow)
      rw [List.append_assoc] at hrest
      exact ⟨hrest, hrestNow.trans hnow', hrestDown.trans hdown⟩

theorem wired_drainKeyboard {now : Time} (h : Wired kbd sent handed) (hnow : now ≤ kbd.now) :
    Wired (drainKeyboard kbd now).2 sent (handed ++ (drainKeyboard kbd now).1) ∧
      (drainKeyboard kbd now).2.now = kbd.now ∧ (drainKeyboard kbd now).2.down = kbd.down :=
  wired_drainRounds _ h hnow

theorem wired_answerHost (host : List (BitVec 8)) (h : Wired kbd sent handed) :
    Wired (answerHost kbd host).2
      (sent ++ ((answerHost kbd host).1.map Message.reply).flatMap Message.bytes) handed ∧
      (answerHost kbd host).2.now = kbd.now ∧ (answerHost kbd host).2.down = kbd.down := by
  induction host generalizing kbd sent with
  | nil => exact ⟨(List.append_nil sent).symm ▸ h, rfl, rfl⟩
  | cons byte rest ih =>
    have hsame := sameLine_receive kbd byte replyMax
    have hreply := (h.same hsame).queueReply (kbd.receive byte replyMax).1
    obtain ⟨hrest, hnow, hdown⟩ := ih hreply
    rw [List.append_assoc] at hrest
    exact ⟨hrest, hnow.trans hsame.now, hdown.trans hsame.down⟩

theorem wired_repeatKey (h : Wired kbd sent handed) {now : Time}
    (hinTime : now.toNat + txCharacter.toNat < 2 ^ 64) :
    Wired (repeatKey kbd now).2
      (sent ++ ((repeatKey kbd now).1.toList.map Message.repeated).flatMap Message.bytes) handed ∧
      now ≤ (repeatKey kbd now).2.now ∧ (repeatKey kbd now).2.down = kbd.down := by
  obtain ⟨due, kbd', hadvance⟩ : ∃ due kbd', kbd.advance now = (due, kbd') := ⟨_, _, rfl⟩
  have hcarried : Wired kbd' sent handed ∧ now ≤ kbd'.now ∧ kbd'.down = kbd.down := by
    have hlater : ∀ kbd', kbd'.now = (if kbd.now < now then now else kbd.now) →
        kbd'.queue = kbd.queue → kbd'.keyBuffered = kbd.keyBuffered →
        kbd'.replyBuffered = kbd.replyBuffered → kbd'.txAt = kbd.txAt → kbd'.down = kbd.down →
        Wired kbd' sent handed ∧ now ≤ kbd'.now ∧ kbd'.down = kbd.down := by
      intro kbd' hnow hqueue hkeys hreplies htxAt hdown
      have hold := h.inTime
      refine ⟨h.congr hqueue hkeys hreplies htxAt ?_ ?_, ?_, hdown⟩ <;> rw [hnow] <;> split
      · exact BitVec.le_of_lt ‹_›
      · exact BitVec.le_refl _
      · exact hinTime
      · exact hold
      · exact BitVec.le_refl _
      · exact BitVec.not_lt.mp ‹_›
    rw [Keyboard.advance] at hadvance
    split_ifs at hadvance with hlt hidle hidle <;> cases hadvance <;>
      exact hlater _ (by simp [hlt]) rfl rfl rfl rfl rfl
  obtain ⟨hwired, hnow, hdown⟩ := hcarried
  rw [repeatKey, hadvance]
  cases due with
  | none => exact ⟨(List.append_nil sent).symm ▸ hwired, hnow, hdown⟩
  | some key =>
    obtain ⟨code, hcode⟩ : ∃ code, code =
        if kbd'.keystateMode then 0x7F else BitVec.ofNat 8 key := ⟨_, rfl⟩
    simp only [← hcode]
    cases htaken : deliverKey kbd' code with
    | mk ok kbd'' =>
      obtain rfl : kbd'' = (kbd'.buffer code).2 := (congrArg Prod.snd htaken).symm
      cases ok with
      | true =>
        have hroom : kbd'.keyBuffered < keyLimit := by
          by_contra hfull
          have hrefused : (kbd'.buffer code).1 = false := by
            rw [Keyboard.buffer, if_pos (by rw [Keyboard.bufferFull, decide_eq_true_iff]; omega)]
          exact absurd (hrefused.symm.trans (congrArg Prod.fst htaken)) Bool.noConfusion
        refine ⟨hwired.buffer hroom code, ?_, ?_⟩
        · rw [buffer_now]
          exact hnow
        · rw [buffer_down]
          exact hdown
      | false =>
        rw [buffer_refused (congrArg Prod.fst htaken)]
        exact ⟨(List.append_nil sent).symm ▸ hwired, hnow, hdown⟩

end Apollo.Board
