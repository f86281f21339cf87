import Apollo.Lib.Sizes
import Apollo.Lib.Slots
import Mathlib

/-!
# The MC6840 timer module

`src/core/device/ap_mc6840.c`: three timers of sixteen bits that count pulses down, behind eight
addresses. What a timer does on its own is a function of the timer (`PtmTimer`); the part adds
the software reset in control register 1, the two buffers that all timers share, and the record
of the last status read by which a timer read clears a flag (`Ptm`).

A timer that counts is an ordinary counter or two nested ones (`countDown`), behind a prescaler
in the third timer; at the end of the count there is a time-out (`timeOut`), and `clock` says
whether there was.
-/

namespace Apollo.Device

/-- `ap_mc6840_mode_t`. -/
inductive PtmMode
  | continuous
  | singleShot
  | periodMeasurement
  | pulseWidthMeasurement
deriving DecidableEq

/-- `ap_mc6840_rs_t`, with the timer of `timer_of_rs`. -/
inductive PtmRs
  | control1Or3
  | control2OrStatus
  | timerMsb (i : Fin 3)
  | timerLsb (i : Fin 3)
deriving DecidableEq

/-! ## A timer -/

/-- `ap_mc6840_timer_t`. -/
structure PtmTimer where
  latch : BitVec 16
  counter : BitVec 16
  control : BitVec 8
  interruptFlag : Bool
  output : Bool
  gate : Bool
  lsbCounter : BitVec 8
  singleShotFired : Bool
  prescaleCount : BitVec 8
  measuring : Bool
  timedOut : Bool
deriving DecidableEq

namespace PtmTimer

/-- `ap_mc6840_mode`. -/
def mode (timer : PtmTimer) : PtmMode :=
  if timer.control.getLsbD 3 then
    if timer.control.getLsbD 4 then .pulseWidthMeasurement else .periodMeasurement
  else if timer.control.getLsbD 5 then .singleShot
  else .continuous

/-- One of the two measurement modes. -/
def measurement (timer : PtmTimer) : Bool :=
  timer.mode = .periodMeasurement || timer.mode = .pulseWidthMeasurement

/-- `dual_8bit`. -/
def dual8bit (timer : PtmTimer) : Bool := timer.control.getLsbD 2

/-- `ap_mc6840_uses_internal_clock`. -/
def usesInternalClock (timer : PtmTimer) : Bool := timer.control.getLsbD 1

/-- The output of a timer is not masked. -/
def outputEnable (timer : PtmTimer) : Bool := timer.control.getLsbD 7

/-- `ap_mc6840_output`. -/
def pin (timer : PtmTimer) : Bool :=
  if !timer.outputEnable then false
  else if timer.mode = .singleShot then !timer.singleShotFired
  else timer.output

/-- The counter and its low half from the latch. -/
def recycle (timer : PtmTimer) : PtmTimer :=
  { timer with counter := timer.latch, lsbCounter := timer.latch.setWidth 8 }

/-- `reload`. -/
def reload (timer : PtmTimer) : PtmTimer :=
  { timer.recycle with
    prescaleCount := 0
    singleShotFired := false
    output := false
    timedOut := false }

/-- The gate edge that ends a measurement: it asks for an interrupt if it came before the
time-out and the shorter ones are the ones that do. -/
def endMeasurement (timer : PtmTimer) : PtmTimer :=
  { timer with
    interruptFlag := timer.interruptFlag || (!timer.timedOut && !timer.control.getLsbD 5)
    measuring := false }

/-- `ap_mc6840_set_gate`. -/
def setGate (timer : PtmTimer) (high : Bool) : PtmTimer :=
  let wasHigh := timer.gate
  let timer := { timer with gate := high }
  if timer.measurement && !wasHigh && high then
    if timer.mode = .pulseWidthMeasurement && timer.measuring then timer.endMeasurement else timer
  else if wasHigh && !high then
    if timer.measurement then
      let timer :=
        if timer.mode = .periodMeasurement && timer.measuring then timer.endMeasurement else timer
      if !timer.interruptFlag && !timer.measuring then
        { timer.reload with measuring := true, timedOut := false }
      else timer
    else
      let timer := timer.reload
      if !timer.control.getLsbD 3 then { timer with interruptFlag := false } else timer
  else timer

/-- One count, and whether it was the last one. In dual 8-bit operation the low half counts, and
the high half whenever the low one has run out. -/
def countDown (timer : PtmTimer) : Bool × PtmTimer :=
  if timer.dual8bit then
    let lsbLatch : BitVec 8 := timer.latch.setWidth 8
    if timer.lsbCounter ≠ 0 then (false, { timer with lsbCounter := timer.lsbCounter - 1 })
    else
      let msb : BitVec 8 := timer.counter.extractLsb' 8 8
      if msb ≠ 0 then
        (false, { timer with counter := (msb - 1) ++ lsbLatch, lsbCounter := lsbLatch })
      else (true, timer)
  else if timer.counter ≠ 0 then (false, { timer with counter := timer.counter - 1 })
  else (true, timer)

/-- A time-out. -/
def timeOut (timer : PtmTimer) : PtmTimer :=
  if timer.measurement then
    { timer.recycle with
      timedOut := true
      interruptFlag := timer.interruptFlag || timer.control.getLsbD 5
      output := !timer.output }
  else if timer.mode = .singleShot then
    { timer.recycle with interruptFlag := true, output := false, singleShotFired := true }
  else { timer.recycle with interruptFlag := true, output := !timer.output }

/-- A count, with the time-out if it was the last one. -/
def count (timer : PtmTimer) : Bool × PtmTimer :=
  match timer.countDown with
  | (false, timer) => (false, timer)
  | (true, timer) => (true, timer.timeOut)

/-- What `ap_mc6840_clock_pin` does to a timer that counts, and whether it timed out. -/
def clock (prescaled : Bool) (timer : PtmTimer) : Bool × PtmTimer :=
  let timer :=
    if prescaled then { timer with prescaleCount := (timer.prescaleCount + 1) &&& 7 } else timer
  if prescaled && timer.prescaleCount ≠ 0 then (false, timer) else timer.count

end PtmTimer

/-! ## The part -/

/-- `ap_mc6840_t`. -/
structure Ptm where
  timer : Vector PtmTimer 3
  msbBuffer : BitVec 8
  lsbBuffer : BitVec 8
  control2 : BitVec 8
  statusSnapshot : BitVec 8
  statusWasRead : Bool
deriving DecidableEq

namespace Ptm

/-- `ap_mc6840_reset`. -/
def reset : Ptm where
  timer := .replicate 3
    { latch := 0xFFFF, counter := 0xFFFF, control := 0, interruptFlag := false, output := false
      gate := false, lsbCounter := 0, singleShotFired := false, prescaleCount := 0
      measuring := false, timedOut := false }
  msbBuffer := 0
  lsbBuffer := 0
  control2 := 0
  statusSnapshot := 0
  statusWasRead := false

/-- The part with one timer replaced. -/
def setTimer (ptm : Ptm) (i : Fin 3) (timer : PtmTimer) : Ptm :=
  { ptm with timer := Lib.put ptm.timer i timer }

/-- `timers_preset`. -/
def timersPreset (ptm : Ptm) : Bool := (ptm.timer.get 0).control.getLsbD 0

/-- `counting`. -/
def counting (ptm : Ptm) (i : Fin 3) : Bool :=
  let timer := ptm.timer.get i
  if ptm.timersPreset then false
  else if timer.gate then false
  else if timer.measurement then !timer.interruptFlag && timer.measuring
  else true

/-- The third timer counts every eighth pulse if its control register asks for it. -/
def prescaled (ptm : Ptm) (i : Fin 3) : Bool := i = 2 && (ptm.timer.get i).control.getLsbD 0

/-- `ap_mc6840_clock_pin`. -/
def clockPin (ptm : Ptm) (i : Fin 3) : Ptm :=
  if !ptm.counting i then ptm
  else ptm.setTimer i ((ptm.timer.get i).clock (ptm.prescaled i)).2

/-- A pulse of a timer that counts is a time-out. -/
def timesOut (ptm : Ptm) (i : Fin 3) : Bool :=
  ptm.counting i && ((ptm.timer.get i).clock (ptm.prescaled i)).1

/-- `clock_from`. -/
def clockFrom (ptm : Ptm) (i : Fin 3) (internal : Bool) : Ptm :=
  if (ptm.timer.get i).usesInternalClock ≠ internal then ptm else ptm.clockPin i

/-- `ap_mc6840_set_gate`. -/
def setGate (ptm : Ptm) (i : Fin 3) (high : Bool) : Ptm :=
  ptm.setTimer i ((ptm.timer.get i).setGate high)

/-- `ap_mc6840_irq`. -/
def irq (ptm : Ptm) : Bool :=
  ptm.timer.any fun timer => timer.interruptFlag && timer.control.getLsbD 6

/-- `status_of`. -/
def statusOf (ptm : Ptm) : BitVec 8 :=
  (if (ptm.timer.get 0).interruptFlag then 1 else 0) |||
    (if (ptm.timer.get 1).interruptFlag then 2 else 0) |||
    (if (ptm.timer.get 2).interruptFlag then 4 else 0) |||
    (if ptm.irq then 0x80 else 0)

/-- A software reset that comes clears every flag. -/
def enterPreset (wasPreset : Bool) (ptm : Ptm) : Ptm :=
  if !wasPreset && ptm.timersPreset then
    { ptm with timer := ptm.timer.map fun timer => { timer with interruptFlag := false } }
  else ptm

/-- One that goes presets every timer. -/
def leavePreset (wasPreset : Bool) (ptm : Ptm) : Ptm :=
  if wasPreset && !ptm.timersPreset then { ptm with timer := ptm.timer.map PtmTimer.reload }
  else ptm

/-- A write to control register 1 or 3. -/
def writeControl (ptm : Ptm) (value : BitVec 8) : Ptm :=
  let target : Fin 3 := if ptm.control2.getLsbD 0 then 0 else 2
  let wasPreset := ptm.timersPreset
  leavePreset wasPreset
    (enterPreset wasPreset (ptm.setTimer target { ptm.timer.get target with control := value }))

/-- A write to the latch of a timer. -/
def writeLatch (ptm : Ptm) (i : Fin 3) (value : BitVec 8) : Ptm :=
  let timer := { ptm.timer.get i with latch := ptm.msbBuffer ++ value }
  let timer := if !timer.control.getLsbD 4 then timer.reload else timer
  ptm.setTimer i
    (if timer.control &&& 0x18 = 0 then { timer with interruptFlag := false } else timer)

/-- `ap_mc6840_write`. -/
def write (ptm : Ptm) (rs : PtmRs) (value : BitVec 8) : Ptm :=
  match rs with
  | .control1Or3 => ptm.writeControl value
  | .control2OrStatus =>
    { ptm.setTimer 1 { ptm.timer.get 1 with control := value } with control2 := value }
  | .timerMsb _ => { ptm with msbBuffer := value }
  | .timerLsb i => ptm.writeLatch i value

/-- A read of a counter: the low half goes to the buffer, and the flag is cleared if the last
status read saw it. -/
def readCounter (ptm : Ptm) (i : Fin 3) : BitVec 8 × Ptm :=
  let counter := (ptm.timer.get i).counter
  let ptm := { ptm with lsbBuffer := counter.setWidth 8 }
  if ptm.statusWasRead && ptm.statusSnapshot.getLsbD i then
    (counter.extractLsb' 8 8,
      { ptm.setTimer i { ptm.timer.get i with interruptFlag := false } with statusWasRead := false })
  else (counter.extractLsb' 8 8, ptm)

/-- `ap_mc6840_read`. -/
def read (ptm : Ptm) (rs : PtmRs) : BitVec 8 × Ptm :=
  match rs with
  | .control1Or3 => (0, ptm)
  | .control2OrStatus =>
    (ptm.statusOf, { ptm with statusSnapshot := ptm.statusOf, statusWasRead := true })
  | .timerMsb i => ptm.readCounter i
  | .timerLsb _ => (ptm.lsbBuffer, ptm)

/-- A counter as software reads it: its high half, and then its low half. -/
def readBack (ptm : Ptm) (i : Fin 3) : BitVec 16 :=
  (ptm.read (.timerMsb i)).1 ++ ((ptm.read (.timerMsb i)).2.read (.timerLsb i)).1

end Ptm

/-! ## Runs -/

/-- What can be done to the part. -/
inductive PtmOp
  | write (rs : PtmRs) (value : BitVec 8)
  | read (rs : PtmRs)
  | setGate (i : Fin 3) (high : Bool)
  | clockPin (i : Fin 3)
  | clockExternal (i : Fin 3)
  | clockInternal (i : Fin 3)
deriving DecidableEq

namespace Ptm

/-- One operation. -/
def step (ptm : Ptm) : PtmOp → Ptm
  | .write rs value => ptm.write rs value
  | .read rs => (ptm.read rs).2
  | .setGate i high => ptm.setGate i high
  | .clockPin i => ptm.clockPin i
  | .clockExternal i => ptm.clockFrom i false
  | .clockInternal i => ptm.clockFrom i true

/-- Operations in turn. -/
def run (ptm : Ptm) (ops : List PtmOp) : Ptm := ops.foldl step ptm

/-- Whether an operation is a pulse of a timer. -/
def pulses (ptm : Ptm) (i : Fin 3) : PtmOp → Bool
  | .clockPin j => j = i
  | .clockExternal j => j = i && !(ptm.timer.get i).usesInternalClock
  | .clockInternal j => j = i && (ptm.timer.get i).usesInternalClock
  | _ => false

/-- How often something happens in a run. -/
def tally (happens : Ptm → PtmOp → Bool) : Ptm → List PtmOp → Nat
  | _, [] => 0
  | ptm, op :: ops => (if happens ptm op then 1 else 0) + tally happens (ptm.step op) ops

end Ptm

end Apollo.Device
