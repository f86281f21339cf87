import Apollo.Time.Clock

/-!
# The MC146818 calendar

`src/core/device/ap_mc146818.c`: the date and the time are kept as numbers (`RtcTime`), and the ten
bytes of the clock are made from them when they are read, in binary or in decimal and with 24 hours
or 12, as register B says. `updateCycle` is one second: the carries from the second to the year, the
two changes of daylight saving time, and the flags of register C.

Which update cycles the passing of time brings (`ap_mc146818_advance`) is left out, and the periodic
interrupt with it.
-/

namespace Apollo.Device

/-- `ap_mc146818_time_t`. -/
structure RtcTime where
  year : Nat
  month : Nat
  day : Nat
  dayOfWeek : Nat
  hour : Nat
  minute : Nat
  second : Nat
deriving DecidableEq

/-- `ap_mc146818_t`. -/
structure Rtc where
  ram : Vector (BitVec 8) 64
  now : RtcTime
  updatedTo : Time
  steppedTo : Time
  secondClock : Clock
  dstShifted : Bool
deriving DecidableEq

/-- `++` of an `unsigned`. -/
def increment (n : Nat) : Nat := (n + 1) % 2 ^ 32

/-- `month_days`. -/
def monthDays : List Nat := [0, 31, 28, 31, 30, 31, 30, 31, 31, 30, 31, 30, 31]

/-- `leap_year`. -/
def leapYear (year : Nat) : Bool :=
  if year % 400 = 0 then true else if year % 100 = 0 then false else year % 4 = 0

/-- `days_in_month`. -/
def daysInMonth (year month : Nat) : Nat :=
  if month = 2 ∧ leapYear year = true then 29
  else if month < 1 ∨ 12 < month then 31
  else monthDays.getD month 0

/-! ## Bytes -/

/-- `to_format`, in binary or in decimal. -/
def toFormat (binary : Bool) (value : Nat) : BitVec 8 :=
  if binary then BitVec.ofNat 8 value else BitVec.ofNat 8 (value / 10 * 16 ||| value % 10)

/-- `from_format`. -/
def fromFormat (binary : Bool) (value : BitVec 8) : Nat :=
  if binary then value.toNat else (value >>> 4 &&& 0x0F).toNat * 10 + (value &&& 0x0F).toNat

/-- `hours_byte`, with 24 hours or with 12 and the high bit for the second twelve. -/
def hoursByte (binary twentyFour : Bool) (hour : Nat) : BitVec 8 :=
  if twentyFour then toFormat binary hour
  else
    let twelve := if hour % 12 = 0 then 12 else hour % 12
    if 12 ≤ hour then toFormat binary twelve ||| 0x80 else toFormat binary twelve

/-- `hours_from_byte`. -/
def hoursFromByte (binary twentyFour : Bool) (value : BitVec 8) : Nat :=
  if twentyFour then fromFormat binary value
  else
    let twelve := fromFormat binary (value &&& 0x7F)
    let twelve := if twelve = 12 then 0 else twelve
    if value.getLsbD 7 then twelve + 12 else twelve

/-- `alarm_byte_matches`. -/
def alarmByteMatches (alarm now : BitVec 8) : Bool :=
  if alarm &&& 0xC0 = 0xC0 then true else alarm = now

namespace Rtc

/-- `ram[AP_MC146818_REGISTER_A]`. -/
def registerA (rtc : Rtc) : BitVec 8 := rtc.ram.get 0x0A

/-- `ram[AP_MC146818_REGISTER_B]`. -/
def registerB (rtc : Rtc) : BitVec 8 := rtc.ram.get 0x0B

/-- `ram[AP_MC146818_REGISTER_C]`. -/
def registerC (rtc : Rtc) : BitVec 8 := rtc.ram.get 0x0C

/-- `ap_mc146818_reset`. -/
def reset (start : RtcTime) : Rtc where
  ram := (Vector.replicate 64 0).set 0x0D 0x80
  now := start
  updatedTo := 0
  steppedTo := 0
  secondClock := { hz := 1, period := timeBaseHz }
  dstShifted := false

/-- `binary_mode`. -/
def binaryMode (rtc : Rtc) : Bool := rtc.registerB.getLsbD 2

/-- `twentyfour_hour`. -/
def twentyfourHour (rtc : Rtc) : Bool := rtc.registerB.getLsbD 1

/-- The daylight saving bit of register B. -/
def daylightSaving (rtc : Rtc) : Bool := rtc.registerB.getLsbD 0

/-! ## The update cycle -/

end Rtc

namespace RtcTime

/-- A second, and the carry to the minute. -/
def addSecond (t : RtcTime) : RtcTime :=
  let t := { t with second := increment t.second }
  if 60 ≤ t.second then { t with second := 0, minute := increment t.minute } else t

/-- The carry from the minute to the hour. -/
def carryMinute (t : RtcTime) : RtcTime :=
  if 60 ≤ t.minute then { t with minute := 0, hour := increment t.hour } else t

/-- The carry from the hour to the day, and to the day of the week. -/
def carryHour (t : RtcTime) : RtcTime :=
  if 24 ≤ t.hour then
    { t with hour := 0, day := increment t.day, dayOfWeek := t.dayOfWeek % 7 + 1 }
  else t

/-- The carry from the day to the month. -/
def carryDay (t : RtcTime) : RtcTime :=
  if daysInMonth t.year t.month < t.day then { t with day := 1, month := increment t.month } else t

/-- The carry from the month to the year. -/
def carryMonth (t : RtcTime) : RtcTime :=
  if 12 < t.month then { t with month := 1, year := increment t.year } else t

/-- The carries of an update cycle. -/
def carry (t : RtcTime) : RtcTime :=
  t.addSecond.carryMinute.carryHour.carryDay.carryMonth

end RtcTime

/-- Two o'clock of the last Sunday of a month. -/
def RtcTime.changeHour (t : RtcTime) : Bool :=
  t.hour = 2 && t.minute = 0 && t.second = 0 && t.dayOfWeek = 1 &&
    daysInMonth t.year t.month < t.day + 7

namespace Rtc

/-- The two special updates: in April the hour is skipped and in October it is repeated, but once.
Any hour but the first and the second ends the guard. -/
def specialUpdate (rtc : Rtc) : Rtc :=
  let t := rtc.now
  if rtc.daylightSaving && t.changeHour then
    if t.month = 4 && !rtc.dstShifted then
      { rtc with now := { t with hour := 3 }, dstShifted := true }
    else if t.month = 10 && !rtc.dstShifted then
      { rtc with now := { t with hour := 1 }, dstShifted := true }
    else rtc
  else if t.hour ≠ 1 && t.hour ≠ 2 then { rtc with dstShifted := false }
  else rtc

/-- `alarm_matches`. -/
def alarmMatches (rtc : Rtc) : Bool :=
  alarmByteMatches (rtc.ram.get 0x01) (toFormat rtc.binaryMode rtc.now.second) &&
    alarmByteMatches (rtc.ram.get 0x03) (toFormat rtc.binaryMode rtc.now.minute) &&
    alarmByteMatches (rtc.ram.get 0x05) (hoursByte rtc.binaryMode rtc.twentyfourHour rtc.now.hour)

/-- Flags of register C are set. -/
def raise (rtc : Rtc) (flags : BitVec 8) : Rtc :=
  { rtc with ram := rtc.ram.set 0x0C (rtc.registerC ||| flags) }

/-- `update_cycle`. -/
def updateCycle (rtc : Rtc) : Rtc :=
  let rtc := { rtc with now := rtc.now.carry }
  let rtc := rtc.specialUpdate.raise 0x10
  if rtc.alarmMatches then rtc.raise 0x20 else rtc

/-- So many update cycles. -/
def updateCycles (rtc : Rtc) (n : Nat) : Rtc := updateCycle^[n] rtc

/-! ## Reads and writes -/

/-- `ap_mc146818_irq`. -/
def irq (rtc : Rtc) : Bool :=
  (rtc.registerC.getLsbD 6 && rtc.registerB.getLsbD 6) ||
    (rtc.registerC.getLsbD 5 && rtc.registerB.getLsbD 5) ||
    (rtc.registerC.getLsbD 4 && rtc.registerB.getLsbD 4)

/-- `ap_mc146818_divider_running`. -/
def dividerRunning (rtc : Rtc) : Bool :=
  rtc.registerA &&& 0x70 ≠ 0x60 && rtc.registerA &&& 0x70 ≠ 0x70

/-- `uip_window`, with the slow crystal's cycle for divider code 010. -/
def uipWindow (rtc : Rtc) : Time :=
  (244 + if rtc.registerA &&& 0x70 = 0x20 then 1984 else 248) * (timeBaseHz / 1000000)

/-- `ap_mc146818_update_in_progress`. -/
def updateInProgress (rtc : Rtc) : Bool :=
  if rtc.secondClock.period = 0 then false
  else if !rtc.dividerRunning then false
  else if rtc.registerB.getLsbD 7 then false
  else
    let next := rtc.updatedTo + rtc.secondClock.period
    if next < rtc.uipWindow then false else next - rtc.uipWindow ≤ rtc.steppedTo

/-- The index of a byte, of the low six bits of an address. -/
def index (address : BitVec 8) : Fin 64 := (address.extractLsb' 0 6).toFin

/-- `ap_mc146818_read`. -/
def read (rtc : Rtc) (address : BitVec 8) : BitVec 8 × Rtc :=
  match (index address).val with
  | 0x00 => (toFormat rtc.binaryMode rtc.now.second, rtc)
  | 0x02 => (toFormat rtc.binaryMode rtc.now.minute, rtc)
  | 0x04 => (hoursByte rtc.binaryMode rtc.twentyfourHour rtc.now.hour, rtc)
  | 0x06 => (toFormat rtc.binaryMode rtc.now.dayOfWeek, rtc)
  | 0x07 => (toFormat rtc.binaryMode rtc.now.day, rtc)
  | 0x08 => (toFormat rtc.binaryMode rtc.now.month, rtc)
  | 0x09 => (toFormat rtc.binaryMode (rtc.now.year % 100), rtc)
  | 0x0A =>
    (rtc.registerA &&& ~~~0x80 ||| if rtc.updateInProgress then 0x80 else 0, rtc)
  | 0x0C =>
    (rtc.registerC &&& 0x70 ||| if rtc.irq then 0x80 else 0, { rtc with ram := rtc.ram.set 0x0C 0 })
  | 0x0D => (rtc.ram.get 0x0D &&& 0x80, rtc)
  | _ => (rtc.ram.get (index address), rtc)

/-- `ap_mc146818_write`. -/
def write (rtc : Rtc) (address value : BitVec 8) : Rtc :=
  let binary := rtc.binaryMode
  match (index address).val with
  | 0x00 => { rtc with now := { rtc.now with second := fromFormat binary value } }
  | 0x02 => { rtc with now := { rtc.now with minute := fromFormat binary value } }
  | 0x04 =>
    { rtc with now := { rtc.now with hour := hoursFromByte binary rtc.twentyfourHour value } }
  | 0x06 => { rtc with now := { rtc.now with dayOfWeek := fromFormat binary value } }
  | 0x07 => { rtc with now := { rtc.now with day := fromFormat binary value } }
  | 0x08 => { rtc with now := { rtc.now with month := fromFormat binary value } }
  | 0x09 =>
    -- the century stays
    { rtc with now := { rtc.now with
        year := (rtc.now.year / 100 * 100 + fromFormat binary value) % 2 ^ 32 } }
  | 0x0A => { rtc with ram := rtc.ram.set 0x0A (value &&& ~~~0x80) }
  | 0x0B =>
    -- `SET` going high clears the update-ended interrupt enable
    let value :=
      if value.getLsbD 7 && !rtc.registerB.getLsbD 7 then value &&& ~~~0x10 else value
    { rtc with ram := rtc.ram.set 0x0B value }
  | 0x0C => rtc
  | 0x0D => rtc
  | _ => { rtc with ram := rtc.ram.set (index address) value }

end Rtc

end Apollo.Device
