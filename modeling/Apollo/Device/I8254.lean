import Apollo.Lib.Sizes
import Mathlib

/-!
# The 8254 interval timer

`src/core/device/ap_i8254.c`: three counters of sixteen bits, each with a control word, a count
register that is written a byte at a time, a counting element that is loaded from it, and a GATE and
an OUT pin. A clock pulse loads or decrements, and what ends a cycle is the mode's business.

The counting element counts in binary or in four decimal digits. `radix` and `value` say what its
sixteen bits stand for: a count takes the value down modulo the radix.
-/

namespace Apollo.Device

/-! ## Two number systems -/

/-- `bcd_to_decimal`. -/
def bcdToDecimal (word : BitVec 16) : Nat :=
  (word >>> 12 &&& 0xF).toNat * 1000 + (word >>> 8 &&& 0xF).toNat * 100 +
    (word >>> 4 &&& 0xF).toNat * 10 + (word &&& 0xF).toNat

/-- `decimal_to_bcd`. -/
def decimalToBcd (value : Nat) : BitVec 16 :=
  BitVec.ofNat 16 ((value / 1000 % 10) <<< 12 ||| (value / 100 % 10) <<< 8 |||
    (value / 10 % 10) <<< 4 ||| value % 10)

/-- `ap_i8254_rw_t`. -/
inductive PitAccess
  | latch
  | lsb
  | msb
  | lsbThenMsb
deriving DecidableEq, Repr

/-- `ap_i8254_counter_t`. -/
structure PitCounter where
  control : BitVec 8 := 0
  counter : BitVec 16 := 0
  latch : BitVec 16 := 0
  gate : Bool := false
  out : Bool := false
  nullCount : Bool := false
  counting : Bool := false
  loadPending : Bool := false
  trigger : Bool := false
  countWritten : Bool := false
  expired : Bool := false
  countLatch : BitVec 16 := 0
  countLatched : Bool := false
  statusLatch : BitVec 8 := 0
  statusLatched : Bool := false
  writeMsbNext : Bool := false
  readMsbNext : Bool := false
deriving DecidableEq, Repr

/-- The mode of a control word: modes 6 and 7 are 2 and 3. -/
def pitMode (control : BitVec 8) : Nat :=
  let m := ((control &&& 0x0E) >>> 1).toNat
  if m = 6 then 2 else if m = 7 then 3 else m

/-- The access field of a control word. -/
def pitAccess (control : BitVec 8) : PitAccess :=
  match ((control &&& 0x30) >>> 4).toNat with
  | 0 => .latch
  | 1 => .lsb
  | 2 => .msb
  | _ => .lsbThenMsb

/-- Whether a control word counts in decimal. -/
def pitBcd (control : BitVec 8) : Bool := control &&& 0x01 != 0

namespace PitCounter

/-- `ap_i8254_mode`. -/
def mode (c : PitCounter) : Nat := pitMode c.control

/-- `rw_of`. -/
def rwOf (c : PitCounter) : PitAccess := pitAccess c.control

/-- `counts_bcd`. -/
def countsBcd (c : PitCounter) : Bool := pitBcd c.control

/-! ## Counting -/

/-- `count_down`. -/
def countDown (c : PitCounter) (n : Nat) : PitCounter :=
  { c with
    counter :=
      if !c.countsBcd then c.counter - BitVec.ofNat 16 n
      else decimalToBcd ((bcdToDecimal c.counter + 10000 - n) % 10000) }

/-- `transfer`: the count register is loaded into the counting element. -/
def transfer (c : PitCounter) : PitCounter :=
  { c with
    counter := c.latch
    nullCount := false
    loadPending := false
    counting := true
    expired := false }

/-- `square_count_is_odd`. -/
def squareCountIsOdd (c : PitCounter) : Bool := c.latch &&& 1 != 0

/-- `load_square`. -/
def loadSquare (c : PitCounter) : PitCounter :=
  if c.squareCountIsOdd then c.transfer.countDown 1 else c.transfer

/-- The OUT pin driven to a level. -/
def drive (c : PitCounter) (out : Bool) : PitCounter := { c with out }

/-- The trigger flip-flop, reset when it is sampled. -/
def sampled (c : PitCounter) : PitCounter := { c with trigger := false }

/-- One count, and what OUT becomes when the initial count expires. -/
def countToExpiry (c : PitCounter) (out : Bool) : PitCounter :=
  let c := c.countDown 1
  if c.counter = 0 ∧ !c.expired then { c with expired := true, out } else c

/-- Mode 0, interrupt on terminal count. -/
def clockMode0 (c : PitCounter) : PitCounter :=
  if c.loadPending then c.transfer
  else if !c.counting || !c.gate then c
  else c.countToExpiry true

/-- Mode 1, hardware retriggerable one-shot. -/
def clockMode1 (c : PitCounter) (triggered : Bool) : PitCounter :=
  if triggered then c.transfer.drive false
  else if !c.counting then c
  else c.countToExpiry true

/-- Mode 2, rate generator. -/
def clockMode2 (c : PitCounter) (triggered : Bool) : PitCounter :=
  if c.loadPending || triggered then c.transfer.drive true
  else if !c.counting || !c.gate then c
  else if c.counter = 1 then c.transfer.drive true
  else if (c.countDown 1).counter = 1 then (c.countDown 1).drive false
  else c.countDown 1

/-- The end of a count of mode 3: with an even count OUT changes, and with an odd one its low half
ends. The high half of an odd count has one pulse more. -/
def squareExpired (c : PitCounter) : PitCounter :=
  if !c.squareCountIsOdd then c.loadSquare.drive !c.out
  else if !c.out then c.loadSquare.drive true
  else c

/-- Mode 3, square wave. -/
def clockMode3 (c : PitCounter) (triggered : Bool) : PitCounter :=
  if c.loadPending || triggered then c.loadSquare.drive true
  else if !c.counting || !c.gate then c
  else if c.squareCountIsOdd && c.out && c.counter == 0 then c.loadSquare.drive false
  else if (c.countDown 2).counter = 0 then (c.countDown 2).squareExpired
  else c.countDown 2

/-- Mode 4, software triggered strobe. -/
def clockMode4 (c : PitCounter) : PitCounter :=
  let c := c.drive true
  if c.loadPending then c.transfer
  else if !c.counting || !c.gate then c
  else c.countToExpiry false

/-- Mode 5, hardware triggered strobe. -/
def clockMode5 (c : PitCounter) (triggered : Bool) : PitCounter :=
  let c := c.drive true
  if triggered then c.transfer
  else if !c.counting then c
  else c.countToExpiry false

/-- `ap_i8254_clock_counter`: one whole CLK pulse. -/
def clock (c : PitCounter) : PitCounter :=
  let triggered := c.trigger && c.countWritten
  match c.mode with
  | 0 => c.sampled.clockMode0
  | 1 => c.sampled.clockMode1 triggered
  | 2 => c.sampled.clockMode2 triggered
  | 3 => c.sampled.clockMode3 triggered
  | 4 => c.sampled.clockMode4
  | _ => c.sampled.clockMode5 triggered

/-! ## The processor's side -/

/-- `status_of`. -/
def statusOf (c : PitCounter) : BitVec 8 :=
  c.control &&& 0x3F ||| (if c.out then 0x80 else 0) ||| (if c.nullCount then 0x40 else 0)

/-- `latch_count`: a latch that has not been read is kept. -/
def latchCount (c : PitCounter) : PitCounter :=
  if c.countLatched then c else { c with countLatch := c.counter, countLatched := true }

/-- `latch_status`. -/
def latchStatus (c : PitCounter) : PitCounter :=
  if c.statusLatched then c else { c with statusLatch := c.statusOf, statusLatched := true }

/-- `write_control`, when the word programs this counter. -/
def writeControl (c : PitCounter) (value : BitVec 8) : PitCounter :=
  { c with
    control := value
    nullCount := true
    counting := false
    loadPending := false
    trigger := false
    countWritten := false
    expired := false
    latch := 0
    writeMsbNext := false
    readMsbNext := false
    countLatched := false
    statusLatched := false
    out := pitMode value != 0 }

/-- The low byte of the count register. -/
def latchLow (c : PitCounter) (value : BitVec 8) : PitCounter :=
  { c with latch := c.latch &&& 0xFF00 ||| value.setWidth 16 }

/-- The high byte of the count register. -/
def latchHigh (c : PitCounter) (value : BitVec 8) : PitCounter :=
  { c with latch := c.latch &&& 0x00FF ||| value.setWidth 16 <<< 8 }

/-- Which byte of a two-byte count comes next. -/
def expectMsb (c : PitCounter) (writeMsbNext : Bool) : PitCounter := { c with writeMsbNext }

/-- `first_byte_written`: mode 0 stops. -/
def firstByteWritten (c : PitCounter) : PitCounter :=
  if c.mode = 0 then { c with counting := false, out := false } else c

/-- `count_written`. -/
def wholeCountWritten (c : PitCounter) : PitCounter :=
  let c := { c with nullCount := true, countWritten := true }
  match c.mode with
  | 0 => { c with out := false, loadPending := true }
  | 4 => { c with loadPending := true }
  | 2 | 3 => if !c.counting then { c with loadPending := true } else c
  | _ => c

/-- `ap_i8254_write`, of a counter. -/
def write (c : PitCounter) (value : BitVec 8) : PitCounter :=
  match c.rwOf with
  | .lsb => (c.latchLow value).wholeCountWritten
  | .msb => (c.latchHigh value).wholeCountWritten
  | .lsbThenMsb =>
    if !c.writeMsbNext then ((c.latchLow value).expectMsb true).firstByteWritten
    else ((c.latchHigh value).expectMsb false).wholeCountWritten
  | .latch => c

/-- `ap_i8254_read`, of a counter. -/
def read (c : PitCounter) : BitVec 8 × PitCounter :=
  if c.statusLatched then (c.statusLatch, { c with statusLatched := false })
  else
    let value := if c.countLatched then c.countLatch else c.counter
    match c.rwOf with
    | .lsb => (value.setWidth 8, { c with countLatched := false })
    | .msb => ((value >>> 8).setWidth 8, { c with countLatched := false })
    | .lsbThenMsb =>
      if !c.readMsbNext then (value.setWidth 8, { c with readMsbNext := true })
      else ((value >>> 8).setWidth 8, { c with readMsbNext := false, countLatched := false })
    | .latch => (0, c)

/-- `ap_i8254_set_gate`. -/
def setGate (c : PitCounter) (high : Bool) : PitCounter :=
  { c with
    gate := high
    out := if c.gate && !high && (c.mode == 2 || c.mode == 3) then true else c.out
    trigger :=
      if !c.gate && high && (c.mode == 1 || c.mode == 2 || c.mode == 3 || c.mode == 5) then true
      else c.trigger }

/-! ## One counter's life -/

/-- What can be done to a counter. -/
inductive Op
  | control (value : BitVec 8)
  | write (value : BitVec 8)
  | read
  | latchCount
  | latchStatus
  | gate (high : Bool)
  | clock
deriving DecidableEq

def op (c : PitCounter) : Op → PitCounter
  | .control value => c.writeControl value
  | .write value => c.write value
  | .read => c.read.2
  | .latchCount => c.latchCount
  | .latchStatus => c.latchStatus
  | .gate high => c.setGate high
  | .clock => c.clock

def run (c : PitCounter) (ops : List Op) : PitCounter := ops.foldl op c

@[simp] theorem run_nil (c : PitCounter) : c.run [] = c := rfl

@[simp] theorem run_cons (c : PitCounter) (o : Op) (ops : List Op) :
    c.run (o :: ops) = (c.op o).run ops := rfl

theorem run_append (c : PitCounter) (as bs : List Op) :
    c.run (as ++ bs) = (c.run as).run bs := List.foldl_append

end PitCounter

/-! ## The part -/

/-- `ap_i8254_t`. -/
structure I8254 where
  counter : Vector PitCounter 3
deriving DecidableEq

/-- `ap_i8254_reg_t`. -/
inductive PitRegister
  | counter (index : Fin 3)
  | control
deriving DecidableEq

namespace I8254

open PitCounter

/-- `ap_i8254_reset`: the GATE pins are pulled high. -/
def reset : I8254 := { counter := Vector.replicate 3 { gate := true } }

/-- Something done to one counter. -/
def on (p : I8254) (index : Fin 3) (f : PitCounter → PitCounter) : I8254 :=
  { counter := p.counter.set index (f (p.counter.get index)) index.isLt }

/-- The counter a control word selects; the value `11` is the read-back command. -/
def selected (value : BitVec 8) : Option (Fin 3) :=
  match ((value &&& 0xC0) >>> 6).toNat with
  | 0 => some 0
  | 1 => some 1
  | 2 => some 2
  | _ => none

/-- What the read-back command latches of a counter that it selects: both selectors are active
low. -/
def readBack (value : BitVec 8) (c : PitCounter) : PitCounter :=
  let c := if value &&& 0x20 = 0 then c.latchCount else c
  if value &&& 0x10 = 0 then c.latchStatus else c

/-- `write_control`. -/
def writeControl (p : I8254) (value : BitVec 8) : I8254 :=
  match selected value with
  | none =>
    { counter := p.counter.mapFinIdx fun i c _ =>
        if value &&& (0x02 <<< i) = 0 then c else readBack value c }
  | some index =>
    if value &&& 0x30 = 0 then p.on index latchCount
    else p.on index fun c => c.writeControl value

/-- `ap_i8254_write`. -/
def write (p : I8254) (reg : PitRegister) (value : BitVec 8) : I8254 :=
  match reg with
  | .control => p.writeControl value
  | .counter index => p.on index fun c => c.write value

/-- `ap_i8254_read`: the control word is not readable. -/
def read (p : I8254) (reg : PitRegister) : BitVec 8 × I8254 :=
  match reg with
  | .control => (0, p)
  | .counter index => ((p.counter.get index).read.1, p.on index fun c => c.read.2)

/-- `ap_i8254_set_gate`. -/
def setGate (p : I8254) (index : Fin 3) (high : Bool) : I8254 :=
  p.on index fun c => c.setGate high

/-- `ap_i8254_clock_counter`. -/
def clockCounter (p : I8254) (index : Fin 3) : I8254 := p.on index PitCounter.clock

/-- `ap_i8254_clock`. -/
def clock (p : I8254) : I8254 := { counter := p.counter.map PitCounter.clock }

/-- `ap_i8254_out`. -/
def out (p : I8254) (index : Fin 3) : Bool := (p.counter.get index).out

/-- A call on the part. -/
inductive Event
  | write (reg : PitRegister) (value : BitVec 8)
  | read (reg : PitRegister)
  | gate (index : Fin 3) (high : Bool)
  | clockCounter (index : Fin 3)
  | clock
deriving DecidableEq

def event (p : I8254) : Event → I8254
  | .write reg value => p.write reg value
  | .read reg => (p.read reg).2
  | .gate index high => p.setGate index high
  | .clockCounter index => p.clockCounter index
  | .clock => p.clock

def run (p : I8254) (events : List Event) : I8254 := events.foldl event p

/-! ## The part, counter by counter -/

/-- What a call is to one counter. -/
def opsOn (index : Fin 3) : Event → List Op
  | .write .control value =>
    match selected value with
    | none =>
      if value &&& (0x02 <<< index.val) = 0 then []
      else
        (if value &&& 0x20 = 0 then [.latchCount] else []) ++
          (if value &&& 0x10 = 0 then [.latchStatus] else [])
    | some selected =>
      if selected ≠ index then []
      else if value &&& 0x30 = 0 then [.latchCount]
      else [.control value]
  | .write (.counter i) value => if i = index then [.write value] else []
  | .read .control => []
  | .read (.counter i) => if i = index then [.read] else []
  | .gate i high => if i = index then [.gate high] else []
  | .clockCounter i => if i = index then [.clock] else []
  | .clock => [.clock]

theorem get_on (p : I8254) (i index : Fin 3) (f : PitCounter → PitCounter) :
    (p.on i f).counter.get index =
      if i = index then f (p.counter.get index) else p.counter.get index := by
  change (p.counter.set i.val _ i.isLt)[index.val] = _
  rw [Vector.getElem_set]
  by_cases h : i = index
  · subst h
    rw [if_pos rfl, if_pos rfl]
  · rw [if_neg (fun hval => h (Fin.ext hval)), if_neg h]
    rfl

theorem get_on_run (p : I8254) (i index : Fin 3) (o : Op) :
    (p.on i fun c => c.op o).counter.get index =
      (p.counter.get index).run (if i = index then [o] else []) := by
  rw [get_on]
  split <;> rfl

theorem get_event (p : I8254) (e : Event) (index : Fin 3) :
    (p.event e).counter.get index = (p.counter.get index).run (opsOn index e) := by
  cases e with
  | write reg value =>
    cases reg with
    | counter i => exact p.get_on_run i index (.write value)
    | control =>
      simp only [event, write, writeControl, opsOn]
      cases selected value with
      | none =>
        change (p.counter.mapFinIdx _)[index.val] = _
        rw [Vector.getElem_mapFinIdx]
        split
        · rfl
        · unfold readBack
          split <;> split <;> rfl
      | some i =>
        dsimp only
        by_cases hi : i = index
        · subst hi
          rw [if_neg (not_not_intro rfl)]
          split
          · rw [get_on, if_pos rfl]
            rfl
          · rw [get_on, if_pos rfl]
            rfl
        · rw [if_pos hi]
          split
          · rw [get_on, if_neg hi]
            rfl
          · rw [get_on, if_neg hi]
            rfl
  | read reg =>
    cases reg with
    | counter i => exact p.get_on_run i index .read
    | control => rfl
  | gate i high => exact p.get_on_run i index (.gate high)
  | clockCounter i => exact p.get_on_run i index .clock
  | clock =>
    change (p.counter.map PitCounter.clock)[index.val] = _
    rw [Vector.getElem_map]
    rfl

/-- THREE COUNTERS: a run of the part is a run of each of its counters, and they do not meet. -/
theorem get_run (p : I8254) (events : List Event) (index : Fin 3) :
    (p.run events).counter.get index =
      (p.counter.get index).run (events.flatMap (opsOn index)) := by
  induction events generalizing p with
  | nil => rfl
  | cons e events ih =>
    rw [List.flatMap_cons, PitCounter.run_append, ← get_event]
    exact ih (p.event e)

end I8254

end Apollo.Device
