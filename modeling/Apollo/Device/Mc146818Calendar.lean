import Apollo.Device.Mc146818Run

/-!
# The calendar and its bytes

What the ten bytes of the clock and the three of the alarm are to the processor, over the calendar
that the update cycles keep: a byte of a field that is written is the byte that is read
(`read_write`), and the alarm flag goes up at the seconds whose bytes match (`alarm_updateCycles`).

`Rtc.calendar` is all of it.
-/

namespace Apollo.Device

open Apollo.Lib

/-! ## Bytes -/

/-- A byte of a number, in binary or in decimal, with its bounds. -/
def Numeral (binary : Bool) (low high : Nat) (value : BitVec 8) : Prop :=
  (binary = true ∨ ((value >>> 4).toNat ≤ 9 ∧ (value &&& 0x0F).toNat ≤ 9)) ∧
    low ≤ fromFormat binary value ∧ fromFormat binary value ≤ high

instance (binary : Bool) (low high : Nat) (value : BitVec 8) :
    Decidable (Numeral binary low high value) :=
  inferInstanceAs (Decidable (_ ∧ _))

/-- A byte of an hour; of twelve hours, the high bit is for the second twelve. -/
def HourByte (binary : Bool) (value : BitVec 8) : Bool → Prop
  | true => Numeral binary 0 23 value
  | false => Numeral binary 1 12 (value &&& 0x7F)

instance (binary : Bool) (value : BitVec 8) : (twentyFour : Bool) →
    Decidable (HourByte binary value twentyFour)
  | true => inferInstanceAs (Decidable (Numeral binary 0 23 value))
  | false => inferInstanceAs (Decidable (Numeral binary 1 12 (value &&& 0x7F)))

theorem toFormat_fromFormat {binary : Bool} {low high : Nat} {value : BitVec 8}
    (h : Numeral binary low high value) : toFormat binary (fromFormat binary value) = value := by
  obtain ⟨hdigits, -⟩ := h
  revert binary value
  decide

/-- MIDNIGHT AND NOON are both twelve, but not the same byte. -/
theorem hoursByte_hoursFromByte {binary twentyFour : Bool} {value : BitVec 8}
    (h : HourByte binary value twentyFour) :
    hoursByte binary twentyFour (hoursFromByte binary twentyFour value) = value := by
  revert binary twentyFour value
  decide

/-- The byte of an alarm that stands for every byte, or for one. -/
def AlarmByte (alarm now : BitVec 8) : Prop :=
  (alarm.getLsbD 7 = true ∧ alarm.getLsbD 6 = true) ∨ alarm = now

theorem alarmByteMatches_iff (alarm now : BitVec 8) :
    alarmByteMatches alarm now = true ↔ AlarmByte alarm now := by
  have hbits : ∀ a : BitVec 8, a &&& 0xC0 = 0xC0 ↔ a.getLsbD 7 = true ∧ a.getLsbD 6 = true := by
    decide
  unfold alarmByteMatches AlarmByte
  rw [← hbits]
  split
  · exact ⟨fun _ => .inl ‹_›, fun _ => rfl⟩
  · rw [decide_eq_true_eq]
    exact ⟨.inr, fun h => h.resolve_left ‹_›⟩

namespace RtcTime

/-- Before the last year there is a day left. -/
theorem Valid.room {offset : Nat} {t : RtcTime} (h : t.Valid offset)
    (hyear : t.year + 1 < 2 ^ 32) : t.seconds + 86400 ≤ yearsEnd := by
  have hlast := h.dated.in_year.2
  have hnext := yearStart_mono (show t.year + 2 ≤ 2 ^ 32 by omega)
  have hmonths : 28 ≤ daysBeforeMonth (t.year + 1) 13 := by
    rw [daysBeforeMonth_succ]
    exact Nat.le_add_left_of_le (monthLength_pos _ (by decide))
  have hhour := h.hour
  have hminute := h.minute
  have hsecond := h.second
  rw [yearStart, dayNumber, daysBeforeYear_succ, daysBeforeMonth_one] at hnext
  unfold yearsEnd seconds
  omega

theorem ne_of_late {t : RtcTime} (h : 2 ≤ t.day) : 86400 ≠ t.seconds + 1 := by
  unfold seconds dayNumber
  omega

end RtcTime

namespace Rtc

variable {offset : Nat} {rtc : Rtc}

/-! ## The alarm -/

/-- The bytes of the time are those of the alarm, where it has one. -/
def AtAlarm (rtc : Rtc) : Prop :=
  AlarmByte (rtc.read 0x01).1 (rtc.read 0x00).1 ∧ AlarmByte (rtc.read 0x03).1 (rtc.read 0x02).1 ∧
    AlarmByte (rtc.read 0x05).1 (rtc.read 0x04).1

theorem alarmMatches_iff (rtc : Rtc) : rtc.alarmMatches = true ↔ rtc.AtAlarm := by
  unfold alarmMatches
  rw [Bool.and_eq_true, Bool.and_eq_true, alarmByteMatches_iff, alarmByteMatches_iff,
    alarmByteMatches_iff, and_assoc]
  rfl

theorem get_set_eq (ram : Vector (BitVec 8) 64) (value : BitVec 8) {i : Fin 64} {j : Nat} (hj : j < 64)
    (h : i.val = j) : (ram.set j value hj).get i = value := by
  subst h
  rw [Vector.get_eq_getElem, Vector.getElem_set_self]

theorem registerC_raise (rtc : Rtc) (flags : BitVec 8) :
    (rtc.raise flags).registerC = rtc.registerC ||| flags := by
  exact get_set_eq _ _ (by decide) rfl

theorem alarmMatches_raise (rtc : Rtc) (flags : BitVec 8) :
    (rtc.raise flags).alarmMatches = rtc.alarmMatches := by
  unfold alarmMatches raise binaryMode twentyfourHour registerB
  rw [get_set_ne _ _ _ (by decide), get_set_ne _ _ _ (by decide), get_set_ne _ _ _ (by decide),
    get_set_ne _ _ _ (by decide)]

theorem registerC_updateCycle (rtc : Rtc) :
    rtc.updateCycle.registerC.getLsbD 5 = true ↔
      rtc.registerC.getLsbD 5 = true ∨ rtc.updateCycle.AtAlarm := by
  have hram := specialUpdate_ram { rtc with now := rtc.now.carry }
  rw [← alarmMatches_iff]
  unfold updateCycle
  dsimp only
  generalize specialUpdate _ = special at *
  have hbefore : (special.raise 0x10).registerC.getLsbD 5 = rtc.registerC.getLsbD 5 := by
    rw [registerC_raise, BitVec.getLsbD_or, registerC, hram]
    exact Bool.or_false _
  split
  · next hmatch =>
    rw [alarmMatches_raise, hmatch, registerC_raise, BitVec.getLsbD_or]
    exact ⟨fun _ => .inr rfl, fun _ => Bool.or_true _⟩
  · next hmatch =>
    rw [hbefore]
    exact ⟨.inl, fun h => h.resolve_right hmatch⟩

/-- THE ALARM FLAG goes up at the seconds that match, and stays up. -/
theorem alarm_updateCycles (rtc : Rtc) (n : Nat) :
    (rtc.updateCycles n).registerC.getLsbD 5 = true ↔
      rtc.registerC.getLsbD 5 = true ∨ ∃ k < n, (rtc.updateCycles (k + 1)).AtAlarm := by
  induction n with
  | zero => exact ⟨.inl, fun h => h.resolve_right fun ⟨_, hk, _⟩ => absurd hk (Nat.not_lt_zero _)⟩
  | succ n ih =>
    rw [updateCycles_succ, registerC_updateCycle, ih, ← updateCycles_succ, or_assoc]
    refine or_congr_right ⟨?_, ?_⟩
    · rintro (⟨k, hk, hat⟩ | hat)
      · exact ⟨k, by omega, hat⟩
      · exact ⟨n, by omega, hat⟩
    · rintro ⟨k, hk, hat⟩
      rcases Nat.lt_succ_iff_lt_or_eq.1 hk with hlt | rfl
      · exact .inl ⟨k, hlt, hat⟩
      · exact .inr hat

/-! ## Fields -/

/-- A byte that a field can be set to. The year is an `unsigned`, of which a byte sets the last two
digits. -/
def Settable (rtc : Rtc) (address value : BitVec 8) : Prop :=
  match (index address).val with
  | 0x00 | 0x02 => Numeral rtc.binaryMode 0 59 value
  | 0x04 => HourByte rtc.binaryMode value rtc.twentyfourHour
  | 0x06 => Numeral rtc.binaryMode 1 7 value
  | 0x07 => Numeral rtc.binaryMode 1 31 value
  | 0x08 => Numeral rtc.binaryMode 1 12 value
  | 0x09 =>
    Numeral rtc.binaryMode 0 99 value ∧
      rtc.now.year / 100 * 100 + fromFormat rtc.binaryMode value < 2 ^ 32
  | 0x01 | 0x03 | 0x05 => True
  | _ => False

/-- A BYTE THAT IS WRITTEN is the byte that is read. -/
theorem read_write {address value : BitVec 8} (h : rtc.Settable address value) :
    ((rtc.write address value).read address).1 = value := by
  unfold Settable at h
  split at h
  case h_3 hindex =>
    unfold read write
    simp only [hindex]
    exact hoursByte_hoursFromByte h
  case h_7 hindex =>
    obtain ⟨hnumeral, hfits⟩ := h
    have hdigits := hnumeral.2.2
    unfold read write
    simp only [hindex, Nat.mod_eq_of_lt hfits]
    rw [show ∀ century, (century * 100 + fromFormat rtc.binaryMode value) % 100 =
      fromFormat rtc.binaryMode value by omega]
    exact toFormat_fromFormat hnumeral
  case h_8 hindex | h_9 hindex | h_10 hindex =>
    unfold read write
    simp only [hindex]
    exact get_set_eq _ _ _ hindex
  case h_11 => exact h.elim
  all_goals
    rename_i hindex
    unfold read write
    simp only [hindex]
    exact toFormat_fromFormat h

/-! ## The calendar -/

open Classical in
/-- A run with daylight saving time: the changes of a year are made once, when the clock comes to
them, and nothing else moves it. -/
structure DaylightRun (offset : Nat) (rtc : Rtc) (n : Nat) : Prop where
  valid : (rtc.updateCycles n).now.Valid offset
  total : (rtc.updateCycles n).now.seconds +
      3600 * cyclesOf (fun rtc => ∃ y, PutBack offset y rtc) rtc n =
    rtc.now.seconds + n + 3600 * cyclesOf (fun rtc => ∃ y, PutForward offset y rtc) rtc n
  forward : ∀ y, cyclesOf (PutForward offset y) rtc n =
    if rtc.now.seconds < (RtcTime.changes offset).spring y ∧
      (RtcTime.changes offset).spring y ≤ (rtc.updateCycles n).now.seconds then 1 else 0
  back : ∀ y, cyclesOf (PutBack offset y) rtc n =
    if rtc.now.seconds < (RtcTime.changes offset).fall y ∧
      Changes.PastFall (RtcTime.changes offset) y (rtc.updateCycles n).shown then 1 else 0

theorem daylightRun (h : rtc.now.Valid offset) (hon : rtc.daylightSaving = true)
    (hsettled : rtc.Settled) {n : Nat}
    (hend : ∀ k < n, (rtc.updateCycles k).now.seconds + 1 < RtcTime.yearsEnd) :
    DaylightRun offset rtc n := by
  classical
  have hrun := fun k (hk : k ≤ n) => updateCycles_run h hon hsettled (n := k)
    fun j hj => hend j (by omega)
  have hstep : ∀ k < n, (rtc.updateCycles k).updateCycle.shown =
      (RtcTime.changes offset).next (rtc.updateCycles k).shown := by
    intro k hk
    rw [← updateCycles_succ, (hrun (k + 1) hk).2.2, Changes.run_succ, (hrun k hk.le).2.2]
  have hforward : ∀ k < n, ∀ y, PutForward offset y (rtc.updateCycles k) ↔
      (RtcTime.changes offset).Forward y ((RtcTime.changes offset).run rtc.shown k) := by
    intro k hk y
    rw [putForward_iff (hstep k hk), (hrun k hk.le).2.2]
  have hback : ∀ k < n, ∀ y, PutBack offset y (rtc.updateCycles k) ↔
      (RtcTime.changes offset).Back y ((RtcTime.changes offset).run rtc.shown k) := by
    intro k hk y
    rw [putBack_iff (hstep k hk), (hrun k hk.le).2.2]
  obtain ⟨hvalid, -, hshown⟩ := hrun n le_rfl
  refine ⟨hvalid, ?_, fun y => ?_, fun y => ?_⟩
  · have hbacks : cyclesOf (fun rtc => ∃ y, PutBack offset y rtc) rtc n =
        (RtcTime.changes offset).times (fun s => ∃ y, (RtcTime.changes offset).Back y s)
          rtc.shown n :=
      cyclesOf_eq fun k hk => exists_congr (hback k hk)
    have hforwards : cyclesOf (fun rtc => ∃ y, PutForward offset y rtc) rtc n =
        (RtcTime.changes offset).times (fun s => ∃ y, (RtcTime.changes offset).Forward y s)
          rtc.shown n :=
      cyclesOf_eq fun k hk => exists_congr (hforward k hk)
    have htotal := Changes.total (c := RtcTime.changes offset) rtc.shown n
    rw [← hshown, ← hbacks, ← hforwards] at htotal
    exact htotal
  · have honce := Changes.forward_once (c := RtcTime.changes offset) hsettled.again y n
    rw [← cyclesOf_eq fun k hk => hforward k hk y, ← hshown] at honce
    exact honce.trans (if_congr Iff.rfl rfl rfl)
  · have honce := Changes.back_once (c := RtcTime.changes offset) hsettled.again y n
    rw [← cyclesOf_eq fun k hk => hback k hk y, ← hshown] at honce
    exact honce.trans (if_congr Iff.rfl rfl rfl)

/-- An update cycle moves the clock by an hour and a second at the most. -/
theorem ends_late (h : rtc.now.Valid offset) (hon : rtc.daylightSaving = true)
    (hsettled : rtc.Settled) {n : Nat} (hfar : rtc.now.seconds + 3601 * n < RtcTime.yearsEnd) :
    ∀ k < n, (rtc.updateCycles k).now.seconds + 1 < RtcTime.yearsEnd := by
  intro k
  induction k using Nat.strong_induction_on with
  | _ k ih =>
    intro hk
    have htotal := (daylightRun h hon hsettled fun j hj => ih j hj (by omega)).total
    have hforwards : cyclesOf (fun rtc => ∃ y, PutForward offset y rtc) rtc k ≤ k := by
      classical
      exact Nat.count_le _
    omega

/-- THE CALENDAR IS THE GREGORIAN CALENDAR, as long as the year is an `unsigned`. -/
theorem calendar (h : rtc.now.Valid offset) :
    (rtc.daylightSaving = false → ∀ n, rtc.now.seconds + n < RtcTime.yearsEnd →
      (rtc.updateCycles n).now.Valid offset ∧
        (rtc.updateCycles n).now.seconds = rtc.now.seconds + n) ∧
    (rtc.daylightSaving = true → rtc.Settled → ∀ n,
      (∀ k < n, (rtc.updateCycles k).now.seconds + 1 < RtcTime.yearsEnd) →
        DaylightRun offset rtc n) ∧
    (∀ n, (rtc.updateCycles n).registerC.getLsbD 5 = true ↔
      rtc.registerC.getLsbD 5 = true ∨ ∃ k < n, (rtc.updateCycles (k + 1)).AtAlarm) ∧
    ∀ address value, rtc.Settable address value →
      ((rtc.write address value).read address).1 = value :=
  ⟨fun hoff _ hend => updateCycles_standard h hoff hend,
    fun hon hsettled _ hend => daylightRun h hon hsettled hend,
    alarm_updateCycles rtc, fun _ _ => read_write⟩

/-- The clock at one second to two on the last Sunday of April 1999, with daylight saving time. -/
def springEve : Rtc := (reset ⟨1999, 4, 25, 1, 1, 59, 59⟩).write 0x0B 0x03

theorem springEve_valid : springEve.now.Valid 5 := by
  have hyears : daysBeforeYear springEve.now.year = 730120 := daysBeforeYear_of (by decide)
  refine ⟨⟨by decide, by decide, by decide, by decide⟩, by decide, by decide, by decide, ?_⟩
  rw [dayNumber, hyears]
  decide

/-- One update cycle puts it forward, and seven more are seven seconds. -/
theorem calendar_springEve :
    DaylightRun 5 springEve 8 ∧ (springEve.updateCycles 8).now = ⟨1999, 4, 25, 1, 3, 0, 7⟩ := by
  have hsettled : springEve.Settled := fun hup => nomatch hup
  have hfar : springEve.now.seconds + 3601 * 8 < RtcTime.yearsEnd :=
    (Nat.add_lt_add_left (by decide) _).trans_le (springEve_valid.room (by decide))
  exact ⟨(calendar springEve_valid).2.1 (by decide) hsettled 8
    (ends_late springEve_valid (by decide) hsettled hfar), by decide +kernel⟩

/-- THE YEAR 4294967295 is followed by the year 0. -/
theorem calendar_wraps : ∃ offset,
    let rtc := reset ⟨4294967295, 12, 31, 1, 23, 59, 59⟩
    rtc.now.Valid offset ∧ rtc.daylightSaving = false ∧
      (rtc.updateCycles 1).now = ⟨0, 1, 1, 2, 0, 0, 0⟩ ∧
      (rtc.updateCycles 1).now.seconds ≠ rtc.now.seconds + 1 := by
  obtain ⟨offset, hweek⟩ := RtcTime.exists_offset ⟨4294967295, 12, 31, 1, 23, 59, 59⟩ (by decide)
    (by decide)
  have hdated : Dated 4294967295 12 31 := ⟨by decide, by decide, by decide, by decide⟩
  have hnow : ((reset ⟨4294967295, 12, 31, 1, 23, 59, 59⟩).updateCycles 1).now =
      ⟨0, 1, 1, 2, 0, 0, 0⟩ := by decide
  refine ⟨offset, ⟨hdated, by decide, by decide, by decide, hweek⟩, by decide, hnow, ?_⟩
  have hfirst : RtcTime.seconds ⟨0, 1, 1, 2, 0, 0, 0⟩ = 86400 := by decide
  rw [hnow, hfirst]
  exact RtcTime.ne_of_late (by decide)

end Rtc

end Apollo.Device
