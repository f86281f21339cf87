import Mathlib
import Apollo.Device.Etherlink
import Apollo.Device.Adapter
import Apollo.Lib.Handover

/-!
# The command register

The PCBs of both directions through the one byte each way of `src/core/device/ap_3c505.c`.
`ap_3c505_pump` takes a byte of the host when no response is under way and shows the next byte of the
response when the register is free. That a response is under way is told from two of the three
fields of the sender; between the last byte of the body and the total length it is told from the
third. EVERY RESPONSE COMES WHOLE in the runs where no command that has a response is completed
there.
-/

namespace Apollo.Device

open Lib

/-! ## The status flags -/

/-- `ap_3c505_sf_t`. -/
inductive StatusFlags
  | undefined
  | accepted
  | rejected
  | endOfPcb
deriving DecidableEq

namespace StatusFlags

/-- The flags of the two low bits of a control register. -/
def ofBits (low high : Bool) : StatusFlags :=
  match high, low with
  | false, false => undefined
  | false, true => accepted
  | true, false => rejected
  | true, true => endOfPcb

/-- The two low bits of a control register. -/
def bits : StatusFlags → BitVec 8
  | undefined => 0
  | accepted => 1
  | rejected => 2
  | endOfPcb => 3

theorem ofBits_bits (register : BitVec 8) (state : StatusFlags) :
    ofBits ((register &&& ~~~0x03 ||| state.bits).getLsbD 0)
      ((register &&& ~~~0x03 ||| state.bits).getLsbD 1) = state := by
  cases state <;> simp [bits, ofBits]

end StatusFlags

namespace Etherlink

/-- `ap_3c505_host_flags`. -/
def hostFlags (card : Etherlink) : StatusFlags :=
  .ofBits (card.hcr.getLsbD 0) (card.hcr.getLsbD 1)

/-- `ap_3c505_adapter_flags`. -/
def adapterFlags (card : Etherlink) : StatusFlags :=
  .ofBits (card.acr.getLsbD 0) (card.acr.getLsbD 1)

/-- `ap_3c505_set_host_flags`. -/
def setHostFlags (card : Etherlink) (state : StatusFlags) : Etherlink :=
  { card with hcr := card.hcr &&& ~~~0x03 ||| state.bits }

/-- `ap_3c505_set_adapter_flags`. -/
def setAdapterFlags (card : Etherlink) (state : StatusFlags) : Etherlink :=
  { card with acr := card.acr &&& ~~~0x03 ||| state.bits }

/-- `ap_3c505_adapter_write_control`. -/
def adapterWriteControl (card : Etherlink) (value : BitVec 8) : Etherlink :=
  { card with acr := value, fifo := if value.getLsbD 6 then [] else card.fifo }

/-- `ap_3c505_adapter_post_command`. -/
def adapterPostCommand (card : Etherlink) (response : BitVec 8) : Etherlink :=
  { card with toHost := response, toHostFull := true }

/-- The byte that waits for the host. -/
def waiting (card : Etherlink) : Option (BitVec 8) :=
  if card.toHostFull then some card.toHost else none

theorem adapterFlags_set (card : Etherlink) (state : StatusFlags) :
    (card.setAdapterFlags state).adapterFlags = state := StatusFlags.ofBits_bits _ _

theorem waiting_read (card : Etherlink) {offset : Nat} (hoffset : offset ≠ 0) :
    (card.read offset).2.waiting = card.waiting := by
  unfold read
  split
  · exact absurd rfl hoffset
  · rfl
  · split
    · rfl
    · split <;> rfl
  · rfl
  · rfl

theorem waiting_writeControl (card : Etherlink) {value : BitVec 8} (hvalue : value &&& 0xC0 ≠ 0xC0) :
    (card.writeControl value).waiting = card.waiting := by
  unfold writeControl
  dsimp only
  rw [if_neg hvalue]
  split_ifs <;> rfl

theorem waiting_write (card : Etherlink) {offset : Nat} {value : BitVec 8}
    (hreset : offset = 6 → value &&& 0xC0 ≠ 0xC0) :
    (card.write offset value).waiting = card.waiting := by
  unfold write
  split
  · rfl
  · rfl
  · split <;> rfl
  · exact waiting_writeControl card (hreset rfl)
  · rfl

end Etherlink

/-! ## The pump -/

/-- `ap_3c505_adapter_post_pcb`. -/
def adapterPostPcb (adapter : Adapter) (pcb : Pcb) : Adapter :=
  { adapter with pending := pcbTxStart pcb, pendingTotal := false }

/-- The flags that answer a command. -/
def PcbResult.verdict : PcbResult → StatusFlags
  | rejected => .rejected
  | _ => .accepted

/-- The card and the adapter. -/
structure Mailbox where
  card : Etherlink
  adapter : Adapter

namespace Mailbox

/-- What is made of a transfer that is complete: a PCB that is not recovered is rejected. -/
def executeRecovered (adapter : Adapter) (recovered : Option Pcb) : PcbResult × Adapter :=
  match recovered with
  | some pcb => execute adapter pcb
  | none => (.rejected, adapter)

/-- The response is posted, if there is one. -/
def respond (adapter : Adapter) (result : PcbResult) : Adapter :=
  match result with
  | .acceptedResponse out => adapterPostPcb adapter out
  | _ => adapter

/-- A byte of the host is taken, and what it completes: the PCB that is recovered and the result. -/
def takeCommand (mailbox : Mailbox) : Option (Option Pcb × PcbResult) × Mailbox :=
  let card := { mailbox.card with toAdapterFull := false }
  let incoming := pcbRxByte mailbox.adapter.incoming mailbox.card.toAdapter
  if card.hostFlags = .endOfPcb then
    let recovered := pcbRxEnd incoming
    let (result, adapter) :=
      executeRecovered { mailbox.adapter with incoming := pcbRxReset } recovered
    (some (recovered, result), ⟨card.setAdapterFlags result.verdict, respond adapter result⟩)
  else (none, ⟨card, { mailbox.adapter with incoming }⟩)

/-- A byte of the host is there to be taken, and the outgoing PCB seems idle. -/
def takes (mailbox : Mailbox) : Bool :=
  !mailbox.adapter.pending.active && !mailbox.adapter.pendingTotal && mailbox.card.toAdapterFull

/-- `ap_3c505_pump`. -/
def pump (mailbox : Mailbox) : Bool × Mailbox :=
  if mailbox.card.adapterInitialising then
    if mailbox.card.hcr &&& 0xC0 = 0xC0 then (false, mailbox)
    else
      (true, { mailbox with
        card := { mailbox.card with adapterInitialising := false }.setAdapterFlags .undefined })
  else if mailbox.takes then (true, mailbox.takeCommand.2)
  else if mailbox.card.toHostFull then (false, mailbox)
  else if mailbox.adapter.pendingTotal then
    (true,
      { card := (mailbox.card.setAdapterFlags .endOfPcb).adapterPostCommand
          mailbox.adapter.pending.pcb.totalLength
        adapter := { mailbox.adapter with pendingTotal := false } })
  else
    match pcbTxNext mailbox.adapter.pending with
    | (some byte, pending) =>
      (true, ⟨mailbox.card.adapterPostCommand byte, { mailbox.adapter with pending }⟩)
    | (none, pending) =>
      if _h : 0 < mailbox.adapter.pending.sent then
        pump { mailbox with
          adapter := { mailbox.adapter with
            pendingTotal := true, pending := { pending with sent := 0 } } }
      else (false, { mailbox with adapter := { mailbox.adapter with pending } })
termination_by mailbox.adapter.pending.sent

/-- The pump asks for no DMA and withdraws none. -/
theorem pump_sameDma (mailbox : Mailbox) : mailbox.card.SameDma mailbox.pump.2.card := by
  fun_induction pump mailbox with
  | case3 mailbox _ htakes =>
    unfold takeCommand
    dsimp only
    split <;> exact ⟨rfl, rfl, rfl, rfl⟩
  | case7 mailbox _ _ _ _ _ _ _ ih => exact ih
  | _ => exact ⟨rfl, rfl, rfl, rfl⟩

end Mailbox

/-! ## What is due -/

/-- What the host is to see of a PCB: its bytes and the total length, which is the last. -/
def Pcb.due (pcb : Pcb) : List (BitVec 8 × Bool) :=
  pcb.bytes.map (fun byte => (byte, false)) ++ [(pcb.totalLength, true)]

theorem Pcb.drop_due {pcb : Pcb} {sent : Nat} (hsent : sent < pcb.bytes.length) :
    pcb.due.drop sent = (pcb.bytes[sent], false) :: pcb.due.drop (sent + 1) := by
  have hbytes : (pcb.bytes.map fun byte => (byte, false)).length = pcb.bytes.length :=
    List.length_map _
  rw [due, List.drop_append_of_le_length (by omega), List.drop_append_of_le_length (by omega),
    ← List.map_drop, ← List.map_drop, List.drop_eq_getElem_cons hsent]
  rfl

theorem Pcb.drop_due_bytes (pcb : Pcb) :
    pcb.due.drop pcb.bytes.length = [(pcb.totalLength, true)] := by
  rw [due, List.drop_left' (List.length_map _)]

namespace Adapter

/-- No response is pending: nothing of one is still to be shown. -/
def idle (adapter : Adapter) : Bool :=
  !adapter.pendingTotal && !adapter.pending.active && decide (adapter.pending.sent = 0)

/-- What is still to be shown of the response under way. -/
def due (adapter : Adapter) : List (BitVec 8 × Bool) :=
  if adapter.pendingTotal then [(adapter.pending.pcb.totalLength, true)]
  else if adapter.idle then []
  else adapter.pending.pcb.due.drop adapter.pending.sent

/-- The states of the sender: in the body, behind it, at the total length, or idle. -/
structure Orderly (adapter : Adapter) : Prop where
  body : adapter.pending.active = true →
    adapter.pendingTotal = false ∧ adapter.pending.sent < adapter.pending.pcb.bytes.length
  behind : adapter.pending.active = false → adapter.pendingTotal = false →
    adapter.pending.sent = 0 ∨ adapter.pending.sent = adapter.pending.pcb.bytes.length
  total : adapter.pendingTotal = true → adapter.pending.sent = 0

variable {adapter : Adapter}

theorem idle_iff : adapter.idle = true ↔ adapter.pendingTotal = false ∧
    adapter.pending.active = false ∧ adapter.pending.sent = 0 := by
  simp only [idle, Bool.and_eq_true, Bool.not_eq_true', decide_eq_true_eq, and_assoc]

theorem due_of_idle (hidle : adapter.idle = true) : adapter.due = [] := by
  rw [due, if_neg (by rw [(idle_iff.mp hidle).1]; decide), if_pos hidle]

theorem due_of_not_idle (htotal : adapter.pendingTotal = false) (hidle : adapter.idle = false) :
    adapter.due = adapter.pending.pcb.due.drop adapter.pending.sent := by
  rw [due, if_neg (by rw [htotal]; decide), if_neg (by rw [hidle]; decide)]

theorem orderly_of_idle (hidle : adapter.idle = true) : adapter.Orderly := by
  obtain ⟨htotal, hactive, hsent⟩ := idle_iff.mp hidle
  exact ⟨fun h => absurd (hactive ▸ h) (by decide), fun _ _ => .inl hsent, fun _ => hsent⟩

theorem due_congr {other : Adapter} (hpending : other.pending = adapter.pending)
    (htotal : other.pendingTotal = adapter.pendingTotal) : other.due = adapter.due := by
  rw [due, due, idle, idle, hpending, htotal]

theorem Orderly.congr {other : Adapter} (h : adapter.Orderly)
    (hpending : other.pending = adapter.pending)
    (htotal : other.pendingTotal = adapter.pendingTotal) : other.Orderly :=
  ⟨by rw [hpending, htotal]; exact h.body, by rw [hpending, htotal]; exact h.behind,
    by rw [hpending, htotal]; exact h.total⟩

theorem idle_post (adapter : Adapter) (pcb : Pcb) : (adapterPostPcb adapter pcb).idle = false := by
  simp [idle, adapterPostPcb, pcbTxStart]

theorem due_post (adapter : Adapter) (pcb : Pcb) : (adapterPostPcb adapter pcb).due = pcb.due :=
  due_of_not_idle rfl (idle_post adapter pcb)

theorem orderly_post (adapter : Adapter) (pcb : Pcb) : (adapterPostPcb adapter pcb).Orderly :=
  ⟨fun _ => ⟨rfl, Nat.succ_pos _⟩, (nomatch ·), (nomatch ·)⟩

end Adapter

namespace Mailbox

open Adapter

/-- The byte that is due next is put into the register, the flags at 11 for the total length. -/
structure Shows (before after : Mailbox) (next : BitVec 8 × Bool) : Prop where
  free : before.card.toHostFull = false
  due : before.adapter.due = next :: after.adapter.due
  waiting : after.card.toHostFull = true ∧ after.card.toHost = next.1
  flags : next.2 = true → after.card.adapterFlags = .endOfPcb
  orderly : after.adapter.Orderly
  incoming : after.adapter.incoming = before.adapter.incoming

variable {mailbox : Mailbox}

theorem pump_total (hready : mailbox.card.adapterInitialising = false)
    (hfree : mailbox.card.toHostFull = false) (horder : mailbox.adapter.Orderly)
    (htotal : mailbox.adapter.pendingTotal = true) :
    mailbox.Shows mailbox.pump.2 (mailbox.adapter.pending.pcb.totalLength, true) := by
  have htakes : mailbox.takes = false := by
    rw [takes, htotal, Bool.not_true, Bool.and_false, Bool.false_and]
  have hactive : mailbox.adapter.pending.active = false := by
    cases hactive : mailbox.adapter.pending.active with
    | false => rfl
    | true => exact nomatch htotal.symm.trans (horder.body hactive).1
  have hidle : ({ mailbox.adapter with pendingTotal := false } : Adapter).idle = true :=
    idle_iff.mpr ⟨rfl, hactive, horder.total htotal⟩
  rw [pump, if_neg (by rw [hready]; decide), if_neg (by rw [htakes]; decide),
    if_neg (by rw [hfree]; decide), if_pos htotal]
  refine ⟨hfree, ?_, ⟨rfl, rfl⟩, fun _ => Etherlink.adapterFlags_set .., orderly_of_idle hidle, rfl⟩
  rw [due_of_idle hidle, due, if_pos htotal]

theorem pump_body (hready : mailbox.card.adapterInitialising = false)
    (hfree : mailbox.card.toHostFull = false) (horder : mailbox.adapter.Orderly)
    (hactive : mailbox.adapter.pending.active = true) :
    ∃ byte, mailbox.Shows mailbox.pump.2 (byte, false) := by
  obtain ⟨htotal, hsent⟩ := horder.body hactive
  have htakes : mailbox.takes = false := by
    rw [takes, hactive, Bool.not_true, Bool.false_and, Bool.false_and]
  have hidle : mailbox.adapter.idle = false := by
    rw [idle, hactive, Bool.not_true, Bool.and_false, Bool.false_and]
  refine ⟨mailbox.adapter.pending.pcb.bytes[mailbox.adapter.pending.sent], ?_⟩
  rw [pump, if_neg (by rw [hready]; decide), if_neg (by rw [htakes]; decide),
    if_neg (by rw [hfree]; decide), if_neg (by rw [htotal]; decide), pcbTxNext_of_lt hactive hsent]
  refine ⟨hfree, ?_, ⟨rfl, rfl⟩, (nomatch ·), ⟨?_, ?_, ?_⟩, rfl⟩
  · rw [due_of_not_idle htotal hidle, Pcb.drop_due hsent]
    have hlater : ({ mailbox.adapter with
        pending :=
          { mailbox.adapter.pending with
            sent := mailbox.adapter.pending.sent + 1
            active := decide (mailbox.adapter.pending.sent + 1 <
              mailbox.adapter.pending.pcb.bytes.length) } } : Adapter).idle = false := by
      simp [idle]
    exact congrArg _ (due_of_not_idle (by exact htotal) hlater).symm
  · intro hmore
    exact ⟨htotal, of_decide_eq_true hmore⟩
  · intro hdone _
    have hlast : ¬ mailbox.adapter.pending.sent + 1 < mailbox.adapter.pending.pcb.bytes.length :=
      of_decide_eq_false hdone
    exact .inr (by dsimp only; omega)
  · intro h
    exact nomatch htotal.symm.trans h

theorem pump_behind (hready : mailbox.card.adapterInitialising = false)
    (htakes : mailbox.takes = false) (hfree : mailbox.card.toHostFull = false)
    (htotal : mailbox.adapter.pendingTotal = false)
    (hactive : mailbox.adapter.pending.active = false) (hsent : 0 < mailbox.adapter.pending.sent) :
    mailbox.pump = pump { mailbox with
      adapter := { mailbox.adapter with
        pendingTotal := true, pending := { mailbox.adapter.pending with sent := 0 } } } := by
  rw [pump, if_neg (by rw [hready]; decide), if_neg (by rw [htakes]; decide),
    if_neg (by rw [hfree]; decide), if_neg (by rw [htotal]; decide), pcbTxNext_of_done hactive]
  exact dif_pos hsent

theorem pump_idle (hready : mailbox.card.adapterInitialising = false)
    (htakes : mailbox.takes = false) (hfree : mailbox.card.toHostFull = false)
    (hidle : mailbox.adapter.idle = true) : mailbox.pump = (false, mailbox) := by
  obtain ⟨htotal, hactive, hsent⟩ := idle_iff.mp hidle
  rw [pump, if_neg (by rw [hready]; decide), if_neg (by rw [htakes]; decide),
    if_neg (by rw [hfree]; decide), if_neg (by rw [htotal]; decide), pcbTxNext_of_done hactive]
  exact dif_neg (by omega)

/-- WHAT A PUMP DOES that takes no byte of the host: nothing to what is due and what waits, or it
shows the next that is due. -/
theorem pump_cases (horder : mailbox.adapter.Orderly)
    (htakes : (!mailbox.card.adapterInitialising && mailbox.takes) = false) :
    (mailbox.pump.2.card.toHostFull = mailbox.card.toHostFull ∧
        mailbox.pump.2.card.toHost = mailbox.card.toHost ∧
        mailbox.pump.2.adapter = mailbox.adapter) ∨
      ∃ next, mailbox.Shows mailbox.pump.2 next := by
  cases hready : mailbox.card.adapterInitialising with
  | true =>
    left
    rw [pump, if_pos hready]
    split <;> exact ⟨rfl, rfl, rfl⟩
  | false =>
    rw [hready, Bool.not_false, Bool.true_and] at htakes
    cases hfree : mailbox.card.toHostFull with
    | true =>
      left
      rw [pump, if_neg (by rw [hready]; decide), if_neg (by rw [htakes]; decide), if_pos hfree]
      exact ⟨hfree, rfl, rfl⟩
    | false =>
      cases htotal : mailbox.adapter.pendingTotal with
      | true => exact .inr ⟨_, pump_total hready hfree horder htotal⟩
      | false =>
        cases hactive : mailbox.adapter.pending.active with
        | true =>
          obtain ⟨byte, hshows⟩ := pump_body hready hfree horder hactive
          exact .inr ⟨_, hshows⟩
        | false =>
          obtain hsent | hsent := horder.behind hactive htotal
          · left
            rw [pump_idle hready htakes hfree (idle_iff.mpr ⟨htotal, hactive, hsent⟩)]
            exact ⟨hfree, rfl, rfl⟩
          · have hpos : 0 < mailbox.adapter.pending.sent := by
              rw [hsent]
              exact Nat.succ_pos _
            have hidle : mailbox.adapter.idle = false := by
              rw [Bool.eq_false_iff, Ne, idle_iff]
              rintro ⟨-, -, hzero⟩
              omega
            right
            rw [pump_behind hready htakes hfree htotal hactive hpos]
            have hshows := @pump_total { mailbox with
              adapter := { mailbox.adapter with
                pendingTotal := true, pending := { mailbox.adapter.pending with sent := 0 } } }
              hready hfree
              ⟨fun h => (nomatch hactive.symm.trans h), fun _ h => (nomatch h), fun _ => rfl⟩ rfl
            refine ⟨_, { hshows with due := ?_ }⟩
            rw [due_of_not_idle htotal hidle, hsent, Pcb.drop_due_bytes]
            exact hshows.due

end Mailbox

/-!
## Runs of the mailbox

The host at the card's registers, the pump, and the adapter's own responses, in any order, with the
record of what was posted, shown and taken, and of every transfer of the host that was complete. A
response is posted outside the pump when none is pending. ONE STEP KEEPS THE RECORD WHOLE unless it
is a pump behind the body of a response that completes a command with a response of its own; A RUN
OF THE OTHERS does.
-/

/-! ## The record -/

/-- A transfer of the host that is complete: the bytes taken since the last one, the PCB executed,
the result, and the adapter's flags then. -/
structure Transfer where
  stream : List (BitVec 8)
  executed : Option Pcb
  result : PcbResult
  answer : StatusFlags

/-- The mailbox and the record: what the responses are, what the host saw and took of them; what the
adapter took, what of it since the last transfer was complete, and the transfers. -/
structure Session where
  mailbox : Mailbox
  handover : Handover (BitVec 8 × Bool) (BitVec 8 × StatusFlags) (BitVec 8)
  heard : List (BitVec 8)
  fed : List (BitVec 8)
  transfers : List Transfer

/-- What happens at the card. -/
inductive Event
  | read (offset : Nat)
  | write (offset : Nat) (value : BitVec 8)
  | setHostFlags (state : StatusFlags)
  | setAdapterFlags (state : StatusFlags)
  | adapterControl (value : BitVec 8)
  | pump
  | post (pcb : Pcb)
  | deliver (frame : List (BitVec 8))
  | transmit (byte : BitVec 8) (wire : List (BitVec 8) → Bool)
  | receive

namespace Session

/-- Before anything has happened. -/
def start (mailbox : Mailbox) : Session := ⟨mailbox, .start, [], [], []⟩

/-- Another card. -/
def withCard (session : Session) (card : Etherlink) : Session :=
  { session with mailbox := { session.mailbox with card } }

/-- Another adapter. -/
def withAdapter (session : Session) (adapter : Adapter) : Session :=
  { session with mailbox := { session.mailbox with adapter } }

/-- A PCB that is posted is recorded. -/
def recordPost (session : Session) (pcb : Pcb) : Session :=
  { session with
    handover := { session.handover with posted := session.handover.posted ++ [pcb.due] } }

/-- `ap_3c505_adapter_post_pcb`. -/
def post (session : Session) (pcb : Pcb) : Session :=
  (session.withAdapter (adapterPostPcb session.mailbox.adapter pcb)).recordPost pcb

/-- The adapter's answer to a frame or to a byte of one: a response is posted. -/
def answerWith (session : Session) (answer : Option Pcb × Adapter) : Session :=
  match answer.1 with
  | none => session.withAdapter answer.2
  | some pcb => (session.withAdapter answer.2).post pcb

/-- A byte that waits is taken by a read of the command register. -/
def readCommand (session : Session) : Session :=
  let (value, card) := session.mailbox.card.read 0
  let taken := session.mailbox.card.toHostFull
  { session.withCard card with
    handover :=
      { session.handover with
        taken := if taken then session.handover.taken ++ [value] else session.handover.taken } }

/-- The pump takes a byte of the host. -/
def accepts (session : Session) : Bool :=
  !session.mailbox.card.adapterInitialising && session.mailbox.takes

/-- The bytes since the last transfer was complete, with the one that the pump would take. -/
def stream (session : Session) : List (BitVec 8) :=
  session.fed ++ [session.mailbox.card.toAdapter]

/-- The record of a transfer that is complete. -/
def recordTransfer (session : Session) (executed : Option Pcb) (result : PcbResult)
    (answer : StatusFlags) : Session :=
  let session :=
    { session with fed := [], transfers := session.transfers ++
        [⟨session.fed, executed, result, answer⟩] }
  match result with
  | .acceptedResponse out => session.recordPost out
  | _ => session

/-- The record of a byte of the host that is taken. -/
def recordTaken (session : Session) : Session :=
  let byte := session.mailbox.card.toAdapter
  let (completed, mailbox) := session.mailbox.takeCommand
  let session :=
    { session with mailbox, heard := session.heard ++ [byte], fed := session.fed ++ [byte] }
  match completed with
  | none => session
  | some (executed, result) =>
    session.recordTransfer executed result mailbox.card.adapterFlags

/-- The record of a byte that the register has been given. -/
def recordShown (session : Session) (mailbox : Mailbox) : Session :=
  { session with
    mailbox
    handover :=
      { session.handover with
        shown :=
          if !session.mailbox.card.toHostFull && mailbox.card.toHostFull then
            session.handover.shown ++ [(mailbox.card.toHost, mailbox.card.adapterFlags)]
          else session.handover.shown } }

/-- A pump, and its record. -/
def pump (session : Session) : Session :=
  if session.accepts then { session.recordTaken with mailbox := session.mailbox.pump.2 }
  else session.recordShown session.mailbox.pump.2

/-- One event. -/
def step (session : Session) : Event → Session
  | .read 0 => session.readCommand
  | .read offset => session.withCard (session.mailbox.card.read offset).2
  | .write offset value => session.withCard (session.mailbox.card.write offset value)
  | .setHostFlags state => session.withCard (session.mailbox.card.setHostFlags state)
  | .setAdapterFlags state => session.withCard (session.mailbox.card.setAdapterFlags state)
  | .adapterControl value => session.withCard (session.mailbox.card.adapterWriteControl value)
  | .pump => session.pump
  | .post pcb => session.post pcb
  | .deliver frame => session.answerWith (deliverFrame session.mailbox.adapter frame)
  | .transmit byte wire => session.answerWith (transmitByte session.mailbox.adapter byte wire)
  | .receive => session.withAdapter (receiveByte session.mailbox.adapter).2

/-- The events one after another. -/
def run (session : Session) (events : List Event) : Session := events.foldl step session

/-! ## The runs -/

/-- The events of the claimed interleavings: the card is not reset, and a response is posted outside
the pump when none is pending. -/
def Regular (session : Session) : Event → Prop
  | .write offset value => offset = 6 → value &&& 0xC0 ≠ 0xC0
  | .post _ => session.mailbox.adapter.idle = true
  | .deliver frame => (deliverFrame session.mailbox.adapter frame).1.isSome = true →
      session.mailbox.adapter.idle = true
  | .transmit byte wire => (transmitByte session.mailbox.adapter byte wire).1.isSome = true →
      session.mailbox.adapter.idle = true
  | _ => True

/-- The pump would take the byte that completes a transfer of the host. -/
def Completes (session : Session) : Prop :=
  session.accepts = true ∧ session.mailbox.card.hostFlags = .endOfPcb

/-- The pump would complete a command with a response while the total length of another is due. -/
def Overwrites (session : Session) : Prop :=
  session.Completes ∧ session.mailbox.adapter.idle = false ∧
    ∃ (before : List (BitVec 8)) (pcb : Pcb), session.stream = before ++ pcb.framed ∧ pcb.Answered

/-- The pump would complete a transfer that the receiver's ring or counter does not hold. -/
def Overruns (session : Session) : Prop :=
  session.Completes ∧ (EndsOverlaid session.stream ∨ 2 ^ 32 ≤ session.stream.length)

/-- The event is regular, and a pump neither overwrites a response nor overruns the receiver. -/
def Sound (session : Session) (event : Event) : Prop :=
  session.Regular event ∧ (event = .pump → ¬ session.Overwrites ∧ ¬ session.Overruns)

/-- A condition on every event of a run, where it happens. -/
def Each (condition : Session → Event → Prop) (session : Session) : List Event → Prop
  | [] => True
  | event :: events => condition session event ∧ (session.step event).Each condition events

instance : DecidableRel Regular := fun session event => by
  cases event <;> unfold Regular <;> infer_instance

instance decidableEach (condition : Session → Event → Prop) [DecidableRel condition] :
    (session : Session) → (events : List Event) → Decidable (session.Each condition events)
  | _, [] => isTrue trivial
  | session, event :: events =>
    @instDecidableAnd _ _ inferInstance (decidableEach condition (session.step event) events)

end Session

/-! ## What holds of every run -/

/-- What the host is to see, seen: the byte, and the flags at 11 with the total length. -/
def Seen (due : BitVec 8 × Bool) (seen : BitVec 8 × StatusFlags) : Prop :=
  seen.1 = due.1 ∧ (due.2 = true → seen.2 = .endOfPcb)

/-- A transfer was executed as the PCB it ends with, if it ends with one, and answered by the flags
of the result. -/
structure Transfer.Served (transfer : Transfer) : Prop where
  executed : ∀ pcb, transfer.executed = some pcb ↔
    ∃ before, transfer.stream = before ++ pcb.framed
  unrecovered : transfer.executed = none → transfer.answer = .rejected
  answer : transfer.answer = transfer.result.verdict
  answered : transfer.answer = .accepted ∨ transfer.answer = .rejected

/-- EVERY RESPONSE COMES WHOLE AND EVERY COMMAND IS EXECUTED ONCE. -/
structure Session.Whole (session : Session) : Prop where
  responses : Handover.Whole Seen Prod.fst session.handover session.mailbox.card.waiting
    session.mailbox.adapter.due
  commands : session.heard = (session.transfers.map Transfer.stream).flatten ++ session.fed
  served : ∀ transfer ∈ session.transfers, transfer.Served

/-- The record is whole, and the fields of the two directions are what it says. -/
structure Session.Invariant (session : Session) : Prop where
  whole : session.Whole
  orderly : session.mailbox.adapter.Orderly
  incoming : session.mailbox.adapter.incoming = received session.fed

namespace Session

variable {session : Session}

theorem Invariant.withCard (h : session.Invariant) {card : Etherlink}
    (hwaiting : card.waiting = session.mailbox.card.waiting) :
    (session.withCard card).Invariant := by
  refine ⟨⟨?_, h.whole.commands, h.whole.served⟩, h.orderly, h.incoming⟩
  have hresponses := h.whole.responses
  rw [← hwaiting] at hresponses
  exact hresponses

theorem Invariant.withAdapter (h : session.Invariant) {adapter : Adapter}
    (htransport : adapter.transport = session.mailbox.adapter.transport) :
    (session.withAdapter adapter).Invariant := by
  have hpending : adapter.pending = _ := congrArg (·.2.1) htransport
  have htotal : adapter.pendingTotal = _ := congrArg (·.2.2) htransport
  refine ⟨⟨?_, h.whole.commands, h.whole.served⟩, h.orderly.congr hpending htotal, ?_⟩
  · have hresponses := h.whole.responses
    rw [← Adapter.due_congr hpending htotal] at hresponses
    exact hresponses
  · exact (congrArg Prod.fst htransport).trans h.incoming

theorem Invariant.post (h : session.Invariant) (hidle : session.mailbox.adapter.idle = true)
    (pcb : Pcb) : (session.post pcb).Invariant := by
  refine ⟨⟨?_, h.whole.commands, h.whole.served⟩, Adapter.orderly_post .., h.incoming⟩
  have hresponses := h.whole.responses
  rw [Adapter.due_of_idle hidle] at hresponses
  show Handover.Whole Seen Prod.fst _ _ (adapterPostPcb session.mailbox.adapter pcb).due
  rw [Adapter.due_post]
  exact hresponses.post pcb.due

theorem Invariant.answerWith (h : session.Invariant) {answer : Option Pcb × Adapter}
    (htransport : answer.2.transport = session.mailbox.adapter.transport)
    (hidle : answer.1.isSome = true → session.mailbox.adapter.idle = true) :
    (session.answerWith answer).Invariant := by
  obtain ⟨response, adapter⟩ := answer
  have hadapter := h.withAdapter htransport
  cases response with
  | none => exact hadapter
  | some pcb =>
    refine hadapter.post ?_ pcb
    have hsame := htransport
    rw [Adapter.transport, Adapter.transport, Prod.mk.injEq, Prod.mk.injEq] at hsame
    show Adapter.idle adapter = true
    rw [Adapter.idle, hsame.2.1, hsame.2.2]
    exact hidle rfl

theorem Invariant.readCommand (h : session.Invariant) : session.readCommand.Invariant := by
  refine ⟨⟨?_, h.whole.commands, h.whole.served⟩, h.orderly, h.incoming⟩
  have hresponses := h.whole.responses
  cases hfull : session.mailbox.card.toHostFull with
  | false =>
    rw [Etherlink.waiting, hfull] at hresponses
    simp only [Session.readCommand, hfull]
    exact hresponses
  | true =>
    rw [Etherlink.waiting, hfull, if_pos rfl] at hresponses
    simp only [Session.readCommand, hfull]
    exact hresponses.take

theorem Invariant.shown (h : session.Invariant) (haccepts : session.accepts = false) :
    (session.recordShown session.mailbox.pump.2).Invariant := by
  have hresponses := h.whole.responses
  obtain ⟨hfull, hbyte, hadapter⟩ | ⟨next, hshows⟩ := Mailbox.pump_cases h.orderly haccepts
  · refine ⟨⟨?_, h.whole.commands, h.whole.served⟩, ?_, ?_⟩
    · simp only [recordShown, Bool.not_and_self, Bool.false_eq_true, if_false, hadapter,
        Etherlink.waiting, hfull, hbyte]
      exact hresponses
    · exact hadapter ▸ h.orderly
    · exact (congrArg Adapter.incoming hadapter).trans h.incoming
  · refine ⟨⟨?_, h.whole.commands, h.whole.served⟩, hshows.orderly, hshows.incoming.trans h.incoming⟩
    rw [Etherlink.waiting, hshows.free, hshows.due] at hresponses
    simp only [recordShown, hshows.free, hshows.waiting, Etherlink.waiting, Bool.not_false,
      Bool.true_and, if_true]
    exact hresponses.show ⟨rfl, hshows.flags⟩

theorem Invariant.taken_of_open (h : session.Invariant)
    (hflags : session.mailbox.card.hostFlags ≠ .endOfPcb) : session.recordTaken.Invariant := by
  have htake : session.mailbox.takeCommand =
      (none,
        ⟨{ session.mailbox.card with toAdapterFull := false },
          { session.mailbox.adapter with
            incoming :=
              pcbRxByte session.mailbox.adapter.incoming session.mailbox.card.toAdapter }⟩) :=
    if_neg hflags
  rw [recordTaken, htake]
  dsimp only
  refine ⟨⟨h.whole.responses, ?_, h.whole.served⟩, h.orderly.congr rfl rfl, ?_⟩
  · show session.heard ++ [_] = _ ++ (session.fed ++ [_])
    rw [h.whole.commands, List.append_assoc]
  · show pcbRxByte session.mailbox.adapter.incoming _ = received (session.fed ++ [_])
    rw [received, List.foldl_concat, h.incoming, received]

/-- The result of the transfer that the next byte completes, and the adapter then. -/
def executed (session : Session) : PcbResult × Adapter :=
  Mailbox.executeRecovered { session.mailbox.adapter with incoming := pcbRxReset }
    (pcbRxEnd (received session.stream))

theorem transport_executeRecovered (adapter : Adapter) (recovered : Option Pcb) :
    (Mailbox.executeRecovered adapter recovered).2.transport = adapter.transport := by
  cases recovered with
  | none => rfl
  | some pcb => exact transport_execute adapter pcb

theorem takeCommand_of_end (hincoming : session.mailbox.adapter.incoming = received session.fed)
    (hflags : session.mailbox.card.hostFlags = .endOfPcb) :
    session.mailbox.takeCommand =
      (some (pcbRxEnd (received session.stream), session.executed.1),
        ⟨{ session.mailbox.card with toAdapterFull := false }.setAdapterFlags
            session.executed.1.verdict,
          Mailbox.respond session.executed.2 session.executed.1⟩) := by
  have hstream : pcbRxByte session.mailbox.adapter.incoming session.mailbox.card.toAdapter =
      received session.stream := by
    rw [stream, received, List.foldl_concat, hincoming, received]
  unfold Mailbox.takeCommand
  dsimp only
  rw [hstream]
  exact if_pos hflags

theorem served_of_completes (hoverruns : ¬ session.Overruns) (hcompletes : session.Completes) :
    Transfer.Served ⟨session.stream, pcbRxEnd (received session.stream), session.executed.1,
      session.executed.1.verdict⟩ := by
  have hheld : ¬ EndsOverlaid session.stream ∧ session.stream.length < 2 ^ 32 := by
    refine ⟨fun hends => hoverruns ⟨hcompletes, .inl hends⟩, ?_⟩
    by_contra hlong
    exact hoverruns ⟨hcompletes, .inr (Nat.not_lt.mp hlong)⟩
  refine ⟨pcbRxEnd_iff hheld.1 hheld.2, ?_, rfl, ?_⟩
  · intro hnone
    show session.executed.1.verdict = _
    rw [executed]
    dsimp only at hnone
    rw [hnone]
    rfl
  · show session.executed.1.verdict = _ ∨ session.executed.1.verdict = _
    cases session.executed.1 with
    | rejected => exact .inr rfl
    | accepted => exact .inl rfl
    | acceptedResponse out => exact .inl rfl

theorem idle_of_responds (hsound : ¬ session.Overwrites ∧ ¬ session.Overruns)
    (hcompletes : session.Completes) {out : Pcb}
    (hresult : session.executed.1 = .acceptedResponse out) :
    session.mailbox.adapter.idle = true := by
  have hserved := served_of_completes hsound.2 hcompletes
  by_contra hpending
  rw [executed] at hresult
  cases hrecovered : pcbRxEnd (received session.stream) with
  | none =>
    rw [hrecovered] at hresult
    exact nomatch hresult
  | some pcb =>
    rw [hrecovered] at hresult
    obtain ⟨before, hstream⟩ := (hserved.executed pcb).mp hrecovered
    exact hsound.1 ⟨hcompletes, Bool.eq_false_iff.mpr hpending, before, pcb, hstream,
      answered_of_execute hresult⟩

theorem Invariant.taken_of_end (h : session.Invariant)
    (hsound : ¬ session.Overwrites ∧ ¬ session.Overruns) (hcompletes : session.Completes) :
    session.recordTaken.Invariant := by
  have hserved := served_of_completes hsound.2 hcompletes
  have htransport : session.executed.2.transport =
      (pcbRxReset, session.mailbox.adapter.pending, session.mailbox.adapter.pendingTotal) :=
    transport_executeRecovered ..
  have hidle := @idle_of_responds session hsound hcompletes
  have hcommands : session.heard ++ [session.mailbox.card.toAdapter] =
      ((session.transfers ++ [(⟨session.stream, pcbRxEnd (received session.stream),
        session.executed.1, session.executed.1.verdict⟩ : Transfer)]).map
          Transfer.stream).flatten ++ [] := by
    rw [List.map_append, List.map_singleton, List.flatten_append, List.flatten_singleton,
      List.append_nil, h.whole.commands, List.append_assoc]
    rfl
  have hall : ∀ transfer ∈ session.transfers ++ [(⟨session.stream,
      pcbRxEnd (received session.stream), session.executed.1, session.executed.1.verdict⟩ :
        Transfer)], transfer.Served := by
    intro transfer hmem
    obtain hold | hnew := List.mem_append.mp hmem
    · exact h.whole.served transfer hold
    · rw [List.mem_singleton.mp hnew]
      exact hserved
  have hresponses := h.whole.responses
  rw [recordTaken, takeCommand_of_end h.incoming hcompletes.2]
  simp only [Etherlink.adapterFlags_set]
  unfold recordTransfer
  generalize session.executed = executed at htransport hidle hcommands hall ⊢
  obtain ⟨result, adapter⟩ := executed
  dsimp only at htransport hidle hcommands hall ⊢
  have hincoming : adapter.incoming = received [] := congrArg Prod.fst htransport
  have hpending : adapter.pending = session.mailbox.adapter.pending := congrArg (·.2.1) htransport
  have htotal : adapter.pendingTotal = session.mailbox.adapter.pendingTotal :=
    congrArg (·.2.2) htransport
  have hdue := Adapter.due_congr hpending htotal
  have horderly := h.orderly.congr hpending htotal
  cases result with
  | rejected =>
    exact ⟨⟨hdue ▸ hresponses, hcommands, hall⟩, horderly, hincoming⟩
  | accepted =>
    exact ⟨⟨hdue ▸ hresponses, hcommands, hall⟩, horderly, hincoming⟩
  | acceptedResponse out =>
    refine ⟨⟨?_, hcommands, hall⟩, Adapter.orderly_post .., hincoming⟩
    rw [Adapter.due_of_idle (hidle rfl)] at hresponses
    show Handover.Whole Seen Prod.fst _ _ (adapterPostPcb adapter out).due
    rw [Adapter.due_post]
    exact hresponses.post out.due

theorem Invariant.pump (h : session.Invariant) (hsound : ¬ session.Overwrites ∧ ¬ session.Overruns) :
    session.pump.Invariant := by
  unfold Session.pump
  cases haccepts : session.accepts with
  | false => exact h.shown haccepts
  | true =>
    have hpump : session.mailbox.pump.2 = session.recordTaken.mailbox := by
      rw [accepts, Bool.and_eq_true, Bool.not_eq_true'] at haccepts
      rw [Mailbox.pump, if_neg (by rw [haccepts.1]; decide), if_pos haccepts.2]
      unfold recordTaken recordTransfer
      dsimp only
      split
      · rfl
      · split <;> rfl
    rw [if_pos rfl, hpump]
    by_cases hflags : session.mailbox.card.hostFlags = .endOfPcb
    · exact h.taken_of_end hsound ⟨haccepts, hflags⟩
    · exact h.taken_of_open hflags

/-- ONE STEP keeps the record whole. -/
theorem Invariant.step (h : session.Invariant) {event : Event} (hsound : session.Sound event) :
    (session.step event).Invariant := by
  obtain ⟨hregular, hpump⟩ := hsound
  cases event with
  | read offset =>
    cases offset with
    | zero => exact h.readCommand
    | succ offset => exact h.withCard (Etherlink.waiting_read _ (Nat.succ_ne_zero offset))
  | write offset value => exact h.withCard (Etherlink.waiting_write _ hregular)
  | setHostFlags state => exact h.withCard rfl
  | setAdapterFlags state => exact h.withCard rfl
  | adapterControl value => exact h.withCard rfl
  | pump => exact h.pump (hpump rfl)
  | post pcb => exact h.post hregular pcb
  | deliver frame => exact h.answerWith (transport_deliverFrame _ frame) hregular
  | transmit byte wire => exact h.answerWith (transport_transmitByte _ byte wire) hregular
  | receive => exact h.withAdapter (transport_receiveByte _)

theorem Invariant.run (h : session.Invariant) {events : List Event}
    (hsound : session.Each Sound events) : (session.run events).Invariant := by
  induction events generalizing session with
  | nil => exact h
  | cons event events ih => exact ih (h.step hsound.1) hsound.2

/-- Nothing is under way in either direction. -/
structure Fresh (mailbox : Mailbox) : Prop where
  free : mailbox.card.toHostFull = false
  idle : mailbox.adapter.idle = true
  reset : mailbox.adapter.incoming = pcbRxReset

theorem Invariant.start {mailbox : Mailbox} (hfresh : Fresh mailbox) :
    (Session.start mailbox).Invariant := by
  refine ⟨⟨?_, rfl, fun _ hmem => absurd hmem List.not_mem_nil⟩, Adapter.orderly_of_idle hfresh.idle,
    hfresh.reset⟩
  show Handover.Whole Seen Prod.fst .start mailbox.card.waiting mailbox.adapter.due
  rw [Adapter.due_of_idle hfresh.idle, Etherlink.waiting, hfresh.free]
  exact Handover.Whole.init

/-- EVERY RUN OF SOUND STEPS IS WHOLE. -/
theorem whole_run {mailbox : Mailbox} (hfresh : Fresh mailbox) {events : List Event}
    (hsound : (Session.start mailbox).Each Sound events) :
    ((Session.start mailbox).run events).Whole :=
  ((Invariant.start hfresh).run hsound).whole

/-- The card and the adapter when they are powered on. -/
def powerOn : Mailbox :=
  ⟨{ hcr := 0, acr := 0, auxDma := 0, toAdapter := 0, toAdapterFull := false, toHost := 0
     toHostFull := false, fifo := [], dmaDone := false, dmaSincePause := 0, dmaPauseOwed := false
     testJumper := false, sixteenBit := true, adapterInitialising := false },
    adapterInit (Vector.replicate 6 0)⟩

/-- A step that is sound as far as can be seen at the state: where the pump completes a transfer, no
response is under way and the transfer is shorter than a largest PCB. -/
def Brief (session : Session) (event : Event) : Prop :=
  session.Regular event ∧
    match event with
    | .pump => session.Completes →
        session.mailbox.adapter.idle = true ∧ session.stream.length < 65
    | _ => True

instance : DecidableRel Brief := fun session event => by
  cases event <;> unfold Brief Completes <;> infer_instance

theorem Brief.sound {event : Event} (h : session.Brief event) : session.Sound event := by
  refine ⟨h.1, ?_⟩
  rintro rfl
  refine ⟨fun hover => ?_, fun hover => ?_⟩
  · exact absurd ((h.2 hover.1).1.symm.trans hover.2.1) (by decide)
  · have hshort := (h.2 hover.1).2
    obtain ⟨before, command, data, -, -, -, hcounted⟩ | hlong := hover.2
    · have hle := Nat.mod_le session.stream.length (2 ^ 32)
      omega
    · omega

theorem Each.imp {condition condition' : Session → Event → Prop} {events : List Event}
    (himp : ∀ {session event}, condition session event → condition' session event)
    (h : session.Each condition events) : session.Each condition' events := by
  induction events generalizing session with
  | nil => trivial
  | cons event events ih => exact ⟨himp h.1, ih h.2⟩

/-- A response posted, shown and read with its total length, and then a command of the host, which is
executed and answered. -/
def exchange : List Event :=
  [.post (respondStatus 0x31 0), .pump, .read 0, .pump, .read 0, .pump, .read 0, .pump, .read 0,
    .pump, .read 0, .write 0 0x01, .pump, .write 0 0x00, .pump, .write 6 0x03, .write 0 0x02, .pump,
    .pump]

theorem whole_exchange :
    ((start powerOn).run exchange).Whole ∧
      (((start powerOn).run exchange).handover.shown.take 5).map Prod.fst = [0x31, 2, 0, 0, 4] ∧
      ((start powerOn).run exchange).heard = [0x01, 0x00, 0x02] ∧
      ((start powerOn).run exchange).transfers.map (·.executed) = [some ⟨0x01, [], by decide⟩] :=
  ⟨whole_run ⟨rfl, rfl, rfl⟩ (Each.imp Brief.sound (by decide +kernel)),
    by decide +kernel, by decide +kernel, by decide +kernel⟩

theorem Whole.length (h : session.Whole) : session.handover.posted.flatten.length =
    session.handover.shown.length + session.mailbox.adapter.due.length := by
  obtain ⟨due, hposted, hmeets⟩ := h.responses.inOrder
  rw [hposted, List.length_append, hmeets.length_eq]

/-- A command is completed behind the body of a response: its own response takes the place of the
total length. -/
theorem overwritten_total :
    let events : List Event :=
      [.write 0 0x01, .pump, .write 0 0x00, .pump, .post (respondStatus 0x38 0), .pump, .read 0,
        .pump, .read 0, .pump, .read 0, .pump, .read 0, .write 6 0x03, .write 0 0x02, .pump]
    Fresh powerOn ∧ (start powerOn).Each Regular events ∧ ¬ ((start powerOn).run events).Whole := by
  refine ⟨⟨rfl, rfl, rfl⟩, by decide +kernel, fun h => ?_⟩
  exact absurd h.length (by decide +kernel)

end Session

end Apollo.Device
