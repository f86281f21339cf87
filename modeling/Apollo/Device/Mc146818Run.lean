import Apollo.Device.Mc146818
import Apollo.Lib.Daylight
import Apollo.Lib.Gregorian

/-!
# The calendar keeps the Gregorian calendar

The seconds of a date and a time are counted from the beginning of the calendar
(`RtcTime.seconds`), and no two valid times are the same second. `Valid` has an offset of the days
of the week: any day of the week may be set for a date, and from then on it goes round.

Each carry of an update cycle leaves the seconds as they are, so that the cycle is one second
(`carry_valid`); and with daylight saving time it is one tick of a clock that is put forward and
back once a year (`updateCycle_next`). The year is an `unsigned`, so all of this ends with year
2^32 - 1 (`yearsEnd`).
-/

namespace Apollo.Device

open Apollo.Lib

/-! ## Dates and seconds -/

theorem leapYear_iff (y : Nat) : leapYear y = true ↔ IsLeapYear y := by
  unfold leapYear IsLeapYear
  split_ifs <;> simp <;> omega

theorem daysInMonth_eq {y m : Nat} (hm : 1 ≤ m) (hm' : m ≤ 12) :
    daysInMonth y m = monthLength y m := by
  unfold daysInMonth monthLength
  simp only [leapYear_iff]
  by_cases hleap : IsLeapYear y
  · simp only [hleap, if_true, and_true]
    interval_cases m <;> rfl
  · simp only [hleap, if_false, and_false]
    interval_cases m <;> rfl

namespace RtcTime

/-- The second that a date and a time are. -/
def seconds (t : RtcTime) : Nat :=
  dayNumber t.year t.month t.day * 86400 + t.hour * 3600 + t.minute * 60 + t.second

/-- A date, a time, and the day of the week that an offset gives to the date. -/
structure Valid (offset : Nat) (t : RtcTime) : Prop where
  dated : Dated t.year t.month t.day
  hour : t.hour < 24
  minute : t.minute < 60
  second : t.second < 60
  dayOfWeek : t.dayOfWeek = (dayNumber t.year t.month t.day + offset) % 7 + 1

theorem exists_offset (t : RtcTime) (h : 1 ≤ t.dayOfWeek) (h' : t.dayOfWeek ≤ 7) :
    ∃ offset, t.dayOfWeek = (dayNumber t.year t.month t.day + offset) % 7 + 1 := by
  refine ⟨t.dayOfWeek + 6 + 6 * dayNumber t.year t.month t.day, ?_⟩
  omega

variable {offset : Nat} {t t' : RtcTime}

/-- NO TWO VALID TIMES are the same second. -/
theorem Valid.injective (h : t.Valid offset) (h' : t'.Valid offset)
    (heq : t.seconds = t'.seconds) : t = t' := by
  have hhour := h.hour
  have hminute := h.minute
  have hsecond := h.second
  have hhour' := h'.hour
  have hminute' := h'.minute
  have hsecond' := h'.second
  unfold seconds at heq
  obtain ⟨hyear, hmonth, hday⟩ := h.dated.injective h'.dated (by omega)
  have hweek := h.dayOfWeek
  have hweek' := h'.dayOfWeek
  obtain ⟨year, month, day, dayOfWeek, hour, minute, second⟩ := t
  obtain ⟨year', month', day', dayOfWeek', hour', minute', second'⟩ := t'
  dsimp only at *
  subst hyear hmonth hday
  rw [mk.injEq]
  omega

/-! ## Carries -/

/-- The first second of a year. -/
def yearStart (y : Nat) : Nat := dayNumber y 1 1 * 86400

/-- The second at which the years end. -/
def yearsEnd : Nat := yearStart (2 ^ 32)

theorem increment_eq {n : Nat} (h : n < 2 ^ 32 - 1) : increment n = n + 1 :=
  Nat.mod_eq_of_lt (by omega)

/-- The day of the week is the one of the date. -/
def OnDay (offset : Nat) (t : RtcTime) : Prop :=
  t.dayOfWeek = (dayNumber t.year t.month t.day + offset) % 7 + 1

theorem addSecond_seconds (h : t.Valid offset) :
    t.addSecond.seconds = t.seconds + 1 ∧ t.addSecond.second < 60 ∧ t.addSecond.minute ≤ 60 ∧
      t.addSecond.hour = t.hour ∧ t.addSecond.year = t.year ∧ t.addSecond.month = t.month ∧
      t.addSecond.day = t.day ∧ t.addSecond.OnDay offset := by
  have hminute := h.minute
  have hsecond := h.second
  have hweek := h.dayOfWeek
  unfold addSecond
  rw [increment_eq (show t.second < 2 ^ 32 - 1 by omega)]
  dsimp only
  split
  · rw [increment_eq (show t.minute < 2 ^ 32 - 1 by omega)]
    refine ⟨?_, by show (0 : Nat) < 60; decide, by show t.minute + 1 ≤ 60; omega, rfl, rfl, rfl,
      rfl, hweek⟩
    show dayNumber t.year t.month t.day * 86400 + t.hour * 3600 + (t.minute + 1) * 60 + 0 = _
    unfold seconds
    omega
  · refine ⟨?_, by show t.second + 1 < 60; omega, by show t.minute ≤ 60; omega, rfl, rfl, rfl,
      rfl, hweek⟩
    show dayNumber t.year t.month t.day * 86400 + t.hour * 3600 + t.minute * 60 + (t.second + 1) = _
    unfold seconds
    omega

/-- One time is on the other's day. -/
structure SameDay (t t' : RtcTime) : Prop where
  year : t'.year = t.year
  month : t'.month = t.month
  day : t'.day = t.day
  dayOfWeek : t'.dayOfWeek = t.dayOfWeek

/-- One time is at the other's time of day. -/
structure SameHour (t t' : RtcTime) : Prop where
  hour : t'.hour = t.hour
  minute : t'.minute = t.minute
  second : t'.second = t.second

theorem SameDay.onDay (h : SameDay t t') (hday : t.OnDay offset) : t'.OnDay offset := by
  unfold OnDay at *
  rw [h.dayOfWeek, h.year, h.month, h.day, hday]

theorem carryMinute_seconds (h : t.minute ≤ 60) (hhour : t.hour < 24) :
    t.carryMinute.seconds = t.seconds ∧ t.carryMinute.minute < 60 ∧ t.carryMinute.hour ≤ 24 ∧
      t.carryMinute.second = t.second ∧ SameDay t t.carryMinute := by
  unfold carryMinute
  split
  · rw [increment_eq (show t.hour < 2 ^ 32 - 1 by omega)]
    refine ⟨?_, by show (0 : Nat) < 60; decide, by show t.hour + 1 ≤ 24; omega, rfl,
      ⟨rfl, rfl, rfl, rfl⟩⟩
    show dayNumber t.year t.month t.day * 86400 + (t.hour + 1) * 3600 + 0 * 60 + t.second = _
    unfold seconds
    omega
  · exact ⟨rfl, by omega, by omega, rfl, ⟨rfl, rfl, rfl, rfl⟩⟩

theorem carryHour_seconds (h : t.hour ≤ 24) (hdated : Dated t.year t.month t.day)
    (hday : t.OnDay offset) :
    t.carryHour.seconds = t.seconds ∧ t.carryHour.hour < 24 ∧ t.carryHour.minute = t.minute ∧
      t.carryHour.second = t.second ∧ t.carryHour.year = t.year ∧ t.carryHour.month = t.month ∧
      1 ≤ t.carryHour.day ∧ t.carryHour.day ≤ monthLength t.year t.month + 1 ∧
      t.carryHour.OnDay offset := by
  have hfirst := hdated.first
  have hlast := hdated.last
  have hlong := monthLength_le t.year t.month
  unfold carryHour
  split
  · rw [increment_eq (show t.day < 2 ^ 32 - 1 by omega)]
    refine ⟨?_, by show (0 : Nat) < 24; decide, rfl, rfl, rfl, rfl, by show 1 ≤ t.day + 1; omega,
      by show t.day + 1 ≤ _; omega, ?_⟩
    · show (dayNumber t.year t.month t.day + 1) * 86400 + 0 * 3600 + t.minute * 60 + t.second = _
      unfold seconds
      omega
    · show t.dayOfWeek % 7 + 1 = (dayNumber t.year t.month t.day + 1 + offset) % 7 + 1
      unfold OnDay at hday
      omega
  · exact ⟨rfl, by omega, rfl, rfl, rfl, rfl, hfirst, by omega, hday⟩

theorem carryDay_seconds (hmonth : 1 ≤ t.month) (hmonth' : t.month ≤ 12) (hfirst : 1 ≤ t.day)
    (hlast : t.day ≤ monthLength t.year t.month + 1) (hday : t.OnDay offset) :
    t.carryDay.seconds = t.seconds ∧ SameHour t t.carryDay ∧ t.carryDay.year = t.year ∧
      (Dated t.year t.carryDay.month t.carryDay.day ∨
        (t.carryDay.month = 13 ∧ t.carryDay.day = 1)) ∧
      t.carryDay.OnDay offset := by
  have hlong := monthLength_le t.year t.month
  unfold carryDay
  rw [daysInMonth_eq hmonth hmonth']
  split
  · rw [increment_eq (show t.month < 2 ^ 32 - 1 by omega)]
    have hnext : dayNumber t.year (t.month + 1) 1 = dayNumber t.year t.month t.day := by
      rw [dayNumber_nextMonth, show t.day = monthLength t.year t.month + 1 by omega]
      rfl
    refine ⟨?_, ⟨rfl, rfl, rfl⟩, rfl, ?_, ?_⟩
    · show dayNumber t.year (t.month + 1) 1 * 86400 + _ + _ + _ = _
      rw [hnext]
      rfl
    · rcases Nat.eq_or_lt_of_le hmonth' with heq | hlt
      · exact .inr ⟨show t.month + 1 = 13 by omega, rfl⟩
      · have hshort := monthLength_pos t.year (show t.month + 1 ≠ 0 by omega)
        exact .inl ⟨by show 1 ≤ t.month + 1; omega, hlt, le_refl 1,
          by show 1 ≤ monthLength t.year (t.month + 1); omega⟩
    · show t.dayOfWeek = (dayNumber t.year (t.month + 1) 1 + offset) % 7 + 1
      rw [hnext, hday]
  · exact ⟨rfl, ⟨rfl, rfl, rfl⟩, rfl, .inl ⟨hmonth, hmonth', hfirst, by omega⟩, hday⟩

theorem yearStart_mono {y y' : Nat} (h : y ≤ y') : yearStart y ≤ yearStart y' := by
  have := daysBeforeYear_mono h
  unfold yearStart dayNumber
  rw [daysBeforeMonth_one, daysBeforeMonth_one]
  omega

theorem carryMonth_seconds
    (h : Dated t.year t.month t.day ∨ (t.month = 13 ∧ t.day = 1)) (hday : t.OnDay offset)
    (hend : t.seconds < yearsEnd) :
    t.carryMonth.seconds = t.seconds ∧ SameHour t t.carryMonth ∧
      Dated t.carryMonth.year t.carryMonth.month t.carryMonth.day ∧ t.carryMonth.OnDay offset := by
  unfold carryMonth
  rcases h with hdated | ⟨hmonth, hfirst⟩
  · have hmonth := hdated.december
    rw [if_neg (by omega)]
    exact ⟨rfl, ⟨rfl, rfl, rfl⟩, hdated, hday⟩
  · have hnext : dayNumber (t.year + 1) 1 1 = dayNumber t.year t.month t.day := by
      rw [dayNumber_nextYear, hmonth, hfirst, dayNumber_nextMonth]
    have hyear : t.year < 2 ^ 32 - 1 := by
      by_contra hlate
      have hstart := yearStart_mono (show 2 ^ 32 ≤ t.year + 1 by omega)
      have hbefore : yearStart (t.year + 1) ≤ t.seconds := by
        unfold yearStart seconds
        rw [hnext]
        omega
      unfold yearsEnd at hend
      omega
    rw [if_pos (by omega), increment_eq hyear]
    refine ⟨?_, ⟨rfl, rfl, rfl⟩, ?_, ?_⟩
    · show dayNumber (t.year + 1) 1 t.day * 86400 + _ + _ + _ = _
      rw [hfirst, hnext]
      rfl
    · show Dated (t.year + 1) 1 t.day
      rw [hfirst]
      exact ⟨le_refl 1, by decide, le_refl 1,
        le_trans (by decide) (monthLength_pos (t.year + 1) one_ne_zero)⟩
    · show t.dayOfWeek = (dayNumber (t.year + 1) 1 t.day + offset) % 7 + 1
      rw [hfirst, hnext, hday]

/-- AN UPDATE CYCLE IS A SECOND of the calendar. -/
theorem carry_valid (h : t.Valid offset) (hend : t.seconds + 1 < yearsEnd) :
    t.carry.Valid offset ∧ t.carry.seconds = t.seconds + 1 := by
  obtain ⟨hsec, hs60, hm60, hhour, hyear, hmonth, hday, hon⟩ := addSecond_seconds h
  unfold carry
  generalize t.addSecond = t₁ at *
  obtain ⟨hsec₂, hm60₂, hh24₂, hsecond₂, hsame₂⟩ :=
    carryMinute_seconds hm60 (by rw [hhour]; exact h.hour)
  have hdated₂ : Dated t₁.carryMinute.year t₁.carryMinute.month t₁.carryMinute.day := by
    rw [hsame₂.year, hsame₂.month, hsame₂.day, hyear, hmonth, hday]
    exact h.dated
  obtain ⟨hsec₃, hh24₃, hminute₃, hsecond₃, hyear₃, hmonth₃, hfirst₃, hlast₃, hon₃⟩ :=
    carryHour_seconds hh24₂ hdated₂ (hsame₂.onDay hon)
  generalize t₁.carryMinute = t₂ at *
  generalize t₂.carryHour = t₃ at *
  rw [← hyear₃, ← hmonth₃] at hlast₃
  obtain ⟨hsec₄, hsame₄, hyear₄, hdated₄, hon₄⟩ :=
    carryDay_seconds (by rw [hmonth₃]; exact hdated₂.january)
      (by rw [hmonth₃]; exact hdated₂.december) hfirst₃ hlast₃ hon₃
  rw [← hyear₄] at hdated₄
  obtain ⟨hsec₅, hsame₅, hdated₅, hon₅⟩ := carryMonth_seconds hdated₄ hon₄ (by omega)
  refine ⟨⟨hdated₅, ?_, ?_, ?_, hon₅⟩, by omega⟩
  · rw [hsame₅.hour, hsame₄.hour]
    exact hh24₃
  · rw [hsame₅.minute, hsame₄.minute, hminute₃]
    exact hm60₂
  · rw [hsame₅.second, hsame₄.second, hsecond₃, hsecond₂]
    exact hs60

/-! ## The changes of daylight saving time -/

theorem lastSunday_lt_next (offset y : Nat) :
    lastSunday offset y 4 < lastSunday offset y 10 ∧
      lastSunday offset y 10 < lastSunday offset (y + 1) 4 := by
  obtain ⟨d, hd, heq, -⟩ := lastSunday_dated offset y (m := 4) (by decide) (by decide)
  obtain ⟨d', hd', heq', -⟩ := lastSunday_dated offset y (m := 10) (by decide) (by decide)
  obtain ⟨d'', hd'', heq'', -⟩ := lastSunday_dated offset (y + 1) (m := 4) (by decide) (by decide)
  have hmonths := daysBeforeMonth_mono y (show 4 + 1 ≤ 10 by decide)
  rw [heq, heq', heq'']
  constructor
  · have hlow := hd.in_month.2
    have hhigh := hd'.in_month.1
    omega
  · exact hd'.in_year.2.trans_lt hd''.in_year.1

/-- Two o'clock of the last Sundays of April and October. -/
def changes (offset : Nat) : Changes where
  shift := 3600
  spring y := lastSunday offset y 4 * 86400 + 7200
  fall y := lastSunday offset y 10 * 86400 + 7200
  positive := by decide
  fallAfter y := by
    have := (lastSunday_lt_next offset y).1
    omega
  springAfter y := by
    have := (lastSunday_lt_next offset y).2
    omega

theorem seconds_eq_change (h : t.Valid offset) {y m : Nat} (hm : 1 ≤ m) (hm' : m ≤ 12) :
    t.seconds = lastSunday offset y m * 86400 + 7200 ↔
      t.changeHour = true ∧ t.month = m ∧ t.year = y := by
  have hhour := h.hour
  have hminute := h.minute
  have hsecond := h.second
  have hsunday := dayNumber_eq_lastSunday h.dated offset
  have hlength := daysInMonth_eq (y := t.year) h.dated.january h.dated.december
  have hweek := h.dayOfWeek
  have hchange : t.changeHour = true ↔
      t.seconds = lastSunday offset t.year t.month * 86400 + 7200 := by
    unfold changeHour
    simp only [Bool.and_eq_true, decide_eq_true_eq, hlength]
    unfold seconds
    omega
  rw [hchange]
  constructor
  · intro heq
    obtain ⟨d, hd, hlast, -⟩ := lastSunday_dated offset y hm hm'
    have hday : dayNumber t.year t.month t.day = dayNumber y m d := by
      unfold seconds at heq
      omega
    obtain ⟨hyear, hmonth, -⟩ := h.dated.injective hd hday
    rw [hyear, hmonth]
    exact ⟨heq, rfl, rfl⟩
  · rintro ⟨heq, rfl, rfl⟩
    exact heq

theorem Valid.hour_eq (h : t.Valid offset) : t.hour = t.seconds / 3600 % 24 := by
  have hhour := h.hour
  have hminute := h.minute
  have hsecond := h.second
  unfold seconds
  omega

theorem Valid.atHour (h : t.Valid offset) {hour : Nat} (hlt : hour < 24) :
    Valid offset { t with hour := hour } := ⟨h.dated, hlt, h.minute, h.second, h.dayOfWeek⟩

theorem seconds_atHour (t : RtcTime) (hour : Nat) :
    seconds { t with hour := hour } + t.hour * 3600 = t.seconds + hour * 3600 := by
  unfold seconds
  dsimp only
  omega

end RtcTime

namespace Rtc

variable {offset : Nat} {rtc : Rtc}

/-- What the clock shows, to daylight saving time. -/
def shown (rtc : Rtc) : ShownTime := ⟨rtc.now.seconds, rtc.dstShifted && rtc.now.hour = 1⟩

/-- The guard is up in the hours after a change only. -/
def GuardUp (rtc : Rtc) : Prop := rtc.dstShifted = true → 1 ≤ rtc.now.hour ∧ rtc.now.hour ≤ 3

theorem updateCycle_now (rtc : Rtc) :
    rtc.updateCycle.now = (specialUpdate { rtc with now := rtc.now.carry }).now ∧
      rtc.updateCycle.dstShifted =
        (specialUpdate { rtc with now := rtc.now.carry }).dstShifted := by
  unfold updateCycle
  dsimp only
  split
  · exact ⟨rfl, rfl⟩
  · exact ⟨rfl, rfl⟩

theorem specialUpdate_change (hon : rtc.daylightSaving = true) (hhour : rtc.now.changeHour = true)
    (hfresh : rtc.dstShifted = false) :
    (rtc.now.month = 4 →
      rtc.specialUpdate = { rtc with now := { rtc.now with hour := 3 }, dstShifted := true }) ∧
    (rtc.now.month = 10 →
      rtc.specialUpdate = { rtc with now := { rtc.now with hour := 1 }, dstShifted := true }) := by
  unfold specialUpdate
  dsimp only
  rw [hon, hhour, hfresh]
  constructor
  · intro hmonth
    rw [hmonth]
    rfl
  · intro hmonth
    rw [hmonth]
    rfl

theorem specialUpdate_none
    (h : rtc.daylightSaving = true → rtc.now.changeHour = true → rtc.dstShifted = false →
      rtc.now.month ≠ 4 ∧ rtc.now.month ≠ 10) :
    rtc.specialUpdate.now = rtc.now ∧
      rtc.specialUpdate.dstShifted =
        (rtc.dstShifted && (rtc.now.hour = 1 || rtc.now.hour = 2)) := by
  unfold specialUpdate
  dsimp only
  by_cases hchange : (rtc.daylightSaving && rtc.now.changeHour) = true
  · obtain ⟨hon, hhour⟩ := Bool.and_eq_true_iff.1 hchange
    have htwo : rtc.now.hour = 2 := by
      unfold RtcTime.changeHour at hhour
      simp only [Bool.and_eq_true, decide_eq_true_eq] at hhour
      exact hhour.1.1.1.1
    rw [if_pos hchange, htwo]
    cases hfresh : rtc.dstShifted with
    | true =>
      rw [Bool.not_true, Bool.and_false, Bool.and_false, if_neg Bool.false_ne_true,
        if_neg Bool.false_ne_true, hfresh]
      exact ⟨rfl, rfl⟩
    | false =>
      obtain ⟨hapril, hoctober⟩ := h hon hhour hfresh
      rw [decide_eq_false hapril, decide_eq_false hoctober, Bool.false_and,
        if_neg Bool.false_ne_true, if_neg Bool.false_ne_true, hfresh]
      exact ⟨rfl, rfl⟩
  · rw [if_neg hchange]
    by_cases hout : rtc.now.hour ≠ 1 ∧ rtc.now.hour ≠ 2
    · rw [decide_eq_true hout.1, decide_eq_true hout.2, Bool.and_true, if_pos rfl,
        decide_eq_false hout.1, decide_eq_false hout.2, Bool.or_false, Bool.and_false]
      exact ⟨rfl, rfl⟩
    · have hin : (rtc.now.hour = 1 || rtc.now.hour = 2) = true := by
        simp only [Bool.or_eq_true, decide_eq_true_eq]
        omega
      rw [if_neg (by simpa only [Bool.and_eq_true, decide_eq_true_eq] using hout), hin,
        Bool.and_true]
      exact ⟨rfl, rfl⟩

theorem updateCycle_change (hon : rtc.daylightSaving = true)
    (hhour : rtc.now.carry.changeHour = true) (hfresh : rtc.dstShifted = false) :
    (rtc.now.carry.month = 4 →
      rtc.updateCycle.now = { rtc.now.carry with hour := 3 } ∧
        rtc.updateCycle.dstShifted = true) ∧
    (rtc.now.carry.month = 10 →
      rtc.updateCycle.now = { rtc.now.carry with hour := 1 } ∧
        rtc.updateCycle.dstShifted = true) := by
  obtain ⟨hnow, hshifted⟩ := updateCycle_now rtc
  rw [hnow, hshifted]
  generalize rtc.now.carry = now at hhour ⊢
  obtain ⟨hapril, hoctober⟩ := @specialUpdate_change { rtc with now } hon hhour hfresh
  constructor
  · intro hmonth
    rw [hapril hmonth]
    exact ⟨rfl, rfl⟩
  · intro hmonth
    rw [hoctober hmonth]
    exact ⟨rfl, rfl⟩

theorem updateCycle_none
    (h : rtc.daylightSaving = true → rtc.now.carry.changeHour = true → rtc.dstShifted = false →
      rtc.now.carry.month ≠ 4 ∧ rtc.now.carry.month ≠ 10) :
    rtc.updateCycle.now = rtc.now.carry ∧
      rtc.updateCycle.dstShifted =
        (rtc.dstShifted && (rtc.now.carry.hour = 1 || rtc.now.carry.hour = 2)) := by
  obtain ⟨hnow, hshifted⟩ := updateCycle_now rtc
  rw [hnow, hshifted]
  generalize rtc.now.carry = now at h ⊢
  exact @specialUpdate_none { rtc with now } h

/-- WITH DAYLIGHT SAVING TIME an update cycle is a tick of a clock that is put forward and back. -/
theorem updateCycle_next {start : Nat} (hon : rtc.daylightSaving = true)
    (h : rtc.now.Valid offset) (hguard : rtc.GuardUp)
    (hsince : Changes.Since (RtcTime.changes offset) start rtc.shown)
    (hend : rtc.now.seconds + 1 < RtcTime.yearsEnd) :
    rtc.updateCycle.now.Valid offset ∧ rtc.updateCycle.GuardUp ∧
      rtc.updateCycle.shown = (RtcTime.changes offset).next rtc.shown := by
  obtain ⟨hvalid, hsec⟩ := RtcTime.carry_valid h hend
  have hhour := h.hour_eq
  have hhour' := hvalid.hour_eq
  have hspring := fun y => RtcTime.seconds_eq_change hvalid (y := y) (m := 4) (by decide) (by decide)
  have hfall := fun y => RtcTime.seconds_eq_change hvalid (y := y) (m := 10) (by decide) (by decide)
  have hagain : rtc.shown.again = true ↔ rtc.dstShifted = true ∧ rtc.now.hour = 1 := by
    unfold shown
    rw [Bool.and_eq_true, decide_eq_true_eq]
  have htwo : ∀ {y m : Nat}, rtc.now.seconds + 1 = lastSunday offset y m * 86400 + 7200 →
      rtc.now.hour = 1 ∧ rtc.now.carry.hour = 2 := by
    intro y m hy
    omega
  have hshown : rtc.updateCycle.shown = ⟨rtc.updateCycle.now.seconds,
    rtc.updateCycle.dstShifted && rtc.updateCycle.now.hour = 1⟩ := rfl
  have hthree := RtcTime.seconds_atHour rtc.now.carry 3
  have hone := RtcTime.seconds_atHour rtc.now.carry 1
  have htime : rtc.shown.time = rtc.now.seconds := rfl
  have hshift : (RtcTime.changes offset).shift = 3600 := rfl
  unfold GuardUp at *
  rw [hshown]
  obtain ⟨y, hy, hnext⟩ | ⟨y, hy, hrepeat, hnext⟩ | ⟨y, hy, hfirst, hnext⟩ | ⟨hs, hf, hnext⟩ :=
    (RtcTime.changes offset).next_cases rtc.shown
  · -- the clock is put forward
    obtain ⟨hchange, hmonth, -⟩ := (hspring y).1 (hsec.trans hy)
    obtain ⟨hold, hnew⟩ := htwo hy
    have hfresh : rtc.dstShifted = false := by
      by_contra hup
      have hshows := hsince.not_forward hy
      rw [hagain.2 ⟨Bool.eq_true_of_not_eq_false hup, hold⟩] at hshows
      cases hshows
    obtain ⟨hnow, hshifted⟩ := (updateCycle_change hon hchange hfresh).1 hmonth
    rw [hnow, hshifted, hnext, htime, hshift]
    refine ⟨hvalid.atHour (by decide), fun _ => ⟨Nat.le_of_ble_eq_true rfl, le_refl 3⟩,
      congrArg₂ ShownTime.mk ?_ rfl⟩
    dsimp only
    omega
  · -- it comes to the change back again
    obtain ⟨hchange, hmonth, -⟩ := (hfall y).1 (hsec.trans hy)
    obtain ⟨hold, hnew⟩ := htwo hy
    obtain ⟨hup, -⟩ := hagain.1 hrepeat
    obtain ⟨hnow, hshifted⟩ :=
      @updateCycle_none rtc fun _ _ hfresh => Bool.noConfusion (hup.symm.trans hfresh)
    rw [hnow, hshifted, hnext, hup, hnew, htime, hsec]
    exact ⟨hvalid, fun _ => ⟨by decide, by decide⟩, rfl⟩
  · -- the clock is put back
    obtain ⟨hchange, hmonth, -⟩ := (hfall y).1 (hsec.trans hy)
    obtain ⟨hold, hnew⟩ := htwo hy
    have hfresh : rtc.dstShifted = false := by
      by_contra hup
      rw [hagain.2 ⟨Bool.eq_true_of_not_eq_false hup, hold⟩] at hfirst
      cases hfirst
    obtain ⟨hnow, hshifted⟩ := (updateCycle_change hon hchange hfresh).2 hmonth
    rw [hnow, hshifted, hnext, htime, hshift]
    refine ⟨hvalid.atHour (by decide), fun _ => ⟨le_refl 1, Nat.le_of_ble_eq_true rfl⟩,
      congrArg₂ ShownTime.mk ?_ rfl⟩
    dsimp only
    omega
  · obtain ⟨hnow, hshifted⟩ := @updateCycle_none rtc fun _ hchange _ =>
      ⟨fun hmonth => hs _ (hsec.symm.trans ((hspring _).2 ⟨hchange, hmonth, rfl⟩)),
        fun hmonth => hf _ (hsec.symm.trans ((hfall _).2 ⟨hchange, hmonth, rfl⟩))⟩
    rw [hnow, hshifted, hnext, htime, hsec]
    refine ⟨hvalid, ?_, congrArg (ShownTime.mk _) ?_⟩
    · intro hup
      simp only [Bool.and_eq_true, Bool.or_eq_true, decide_eq_true_eq] at hup
      omega
    · rw [Bool.eq_iff_iff, hagain]
      simp only [Bool.and_eq_true, Bool.or_eq_true, decide_eq_true_eq]
      constructor
      · rintro ⟨⟨hup, -⟩, hnew⟩
        obtain ⟨hlow, -⟩ := hguard hup
        exact ⟨hup, by omega⟩
      · rintro ⟨hup, hold⟩
        obtain ⟨y, -, hbefore, hwithin⟩ := hsince.repeated (hagain.2 ⟨hup, hold⟩)
        have hne := hf y
        have hfall' : (RtcTime.changes offset).fall y = lastSunday offset y 10 * 86400 + 7200 := rfl
        refine ⟨⟨hup, ?_⟩, ?_⟩
        · omega
        · omega

/-! ## Runs -/

theorem get_set_ne (ram : Vector (BitVec 8) 64) (value : BitVec 8) {i : Fin 64} {j : Nat} (hj : j < 64)
    (h : i.val ≠ j) : (ram.set j value hj).get i = ram.get i := by
  rw [Vector.get_eq_getElem, Vector.get_eq_getElem, Vector.getElem_set_ne _ _ (Ne.symm h)]

theorem specialUpdate_ram (rtc : Rtc) : rtc.specialUpdate.ram = rtc.ram := by
  unfold specialUpdate
  dsimp only
  split_ifs <;> rfl

theorem updateCycle_get (rtc : Rtc) {i : Fin 64} (h : i.val ≠ 0x0C) :
    rtc.updateCycle.ram.get i = rtc.ram.get i := by
  have hspecial := specialUpdate_ram { rtc with now := rtc.now.carry }
  unfold updateCycle
  dsimp only
  split
  · unfold raise
    rw [get_set_ne _ _ _ h, get_set_ne _ _ _ h, hspecial]
  · unfold raise
    rw [get_set_ne _ _ _ h, hspecial]

theorem daylightSaving_updateCycle (rtc : Rtc) :
    rtc.updateCycle.daylightSaving = rtc.daylightSaving := by
  unfold daylightSaving registerB
  rw [updateCycle_get rtc (by decide)]

theorem updateCycles_succ (rtc : Rtc) (n : Nat) :
    rtc.updateCycles (n + 1) = (rtc.updateCycles n).updateCycle :=
  Function.iterate_succ_apply' _ _ _

theorem daylightSaving_updateCycles (rtc : Rtc) (n : Nat) :
    (rtc.updateCycles n).daylightSaving = rtc.daylightSaving := by
  induction n with
  | zero => rfl
  | succ n ih => rw [updateCycles_succ, daylightSaving_updateCycle, ih]

/-- WITHOUT DAYLIGHT SAVING TIME so many update cycles are so many seconds. -/
theorem updateCycles_standard (h : rtc.now.Valid offset) (hoff : rtc.daylightSaving = false) {n : Nat}
    (hend : rtc.now.seconds + n < RtcTime.yearsEnd) :
    (rtc.updateCycles n).now.Valid offset ∧
      (rtc.updateCycles n).now.seconds = rtc.now.seconds + n := by
  induction n with
  | zero => exact ⟨h, (Nat.add_zero _).symm⟩
  | succ n ih =>
    obtain ⟨hvalid, hsec⟩ := ih (by omega)
    have hoff' := (daylightSaving_updateCycles rtc n).trans hoff
    rw [updateCycles_succ,
      (updateCycle_none fun hon => Bool.noConfusion (hoff'.symm.trans hon)).1]
    obtain ⟨hvalid', hsec'⟩ := RtcTime.carry_valid hvalid (by omega)
    exact ⟨hvalid', by omega⟩

/-- No hour is being repeated. -/
def Settled (rtc : Rtc) : Prop := rtc.dstShifted = true → rtc.now.hour = 2 ∨ rtc.now.hour = 3

theorem Settled.guardUp (h : rtc.Settled) : rtc.GuardUp := by
  intro hup
  have := h hup
  omega

theorem Settled.again (h : rtc.Settled) : rtc.shown.again = false := by
  unfold shown
  cases hup : rtc.dstShifted with
  | false => rfl
  | true =>
    have hne : rtc.now.hour ≠ 1 := by
      have := h hup
      omega
    rw [Bool.true_and, decide_eq_false hne]

/-- WITH DAYLIGHT SAVING TIME a run is one of the clock that is put forward and back. -/
theorem updateCycles_run (h : rtc.now.Valid offset) (hon : rtc.daylightSaving = true)
    (hsettled : rtc.Settled) {n : Nat}
    (hend : ∀ k < n, (rtc.updateCycles k).now.seconds + 1 < RtcTime.yearsEnd) :
    (rtc.updateCycles n).now.Valid offset ∧ (rtc.updateCycles n).GuardUp ∧
      (rtc.updateCycles n).shown = (RtcTime.changes offset).run rtc.shown n := by
  induction n with
  | zero => exact ⟨h, hsettled.guardUp, rfl⟩
  | succ n ih =>
    obtain ⟨hvalid, hguard, hrun⟩ := ih fun k hk => hend k (by omega)
    have hsince := Changes.since_run (c := RtcTime.changes offset) hsettled.again n
    rw [← hrun] at hsince
    rw [updateCycles_succ, Changes.run_succ, ← hrun]
    exact updateCycle_next (by rw [daylightSaving_updateCycles]; exact hon) hvalid hguard hsince
      (hend n (Nat.lt_succ_self n))

/-! ## How often the clock was put forward and back -/

/-- The update cycle that puts the clock forward for a year, -/
def PutForward (offset y : Nat) (rtc : Rtc) : Prop :=
  rtc.now.seconds + 1 = (RtcTime.changes offset).spring y ∧
    rtc.updateCycle.now.seconds = (RtcTime.changes offset).spring y + 3600

/-- and the one that puts it back. -/
def PutBack (offset y : Nat) (rtc : Rtc) : Prop :=
  rtc.now.seconds + 1 = (RtcTime.changes offset).fall y ∧
    rtc.updateCycle.now.seconds + 3600 = (RtcTime.changes offset).fall y

open Classical in
/-- How many of so many update cycles were such ones. -/
noncomputable def cyclesOf (p : Rtc → Prop) (rtc : Rtc) (n : Nat) : Nat :=
  Nat.count (fun k => p (rtc.updateCycles k)) n

theorem putForward_iff {y : Nat}
    (h : rtc.updateCycle.shown = (RtcTime.changes offset).next rtc.shown) :
    PutForward offset y rtc ↔ (RtcTime.changes offset).Forward y rtc.shown := by
  refine ⟨fun hput => hput.1, fun hy => ⟨hy, ?_⟩⟩
  have hnext : rtc.updateCycle.shown.time =
      ((RtcTime.changes offset).next rtc.shown).time := congrArg ShownTime.time h
  unfold Changes.next at hnext
  rw [if_pos ⟨y, hy⟩] at hnext
  exact hnext.trans (congrArg (· + 3600) hy)

theorem putBack_iff {y : Nat}
    (h : rtc.updateCycle.shown = (RtcTime.changes offset).next rtc.shown) :
    PutBack offset y rtc ↔ (RtcTime.changes offset).Back y rtc.shown := by
  have hnext : rtc.updateCycle.now.seconds =
      ((RtcTime.changes offset).next rtc.shown).time := congrArg ShownTime.time h
  have hlate := (RtcTime.changes offset).fallAfter y
  have hshift : (RtcTime.changes offset).shift = 3600 := rfl
  have htime : rtc.shown.time = rtc.now.seconds := rfl
  unfold PutBack Changes.Back
  rw [hnext]
  obtain ⟨y', hy, heq⟩ | ⟨y', hy, hagain, heq⟩ | ⟨y', hy, hagain, heq⟩ | ⟨-, hfall, heq⟩ :=
    (RtcTime.changes offset).next_cases rtc.shown
  · have := (RtcTime.changes offset).spring_apart y' y
    omega
  · rw [heq, hagain]
    simp only [reduceCtorEq, and_false, iff_false]
    omega
  · rw [heq, hagain]
    simp only [and_true]
    omega
  · have := hfall y
    omega

theorem cyclesOf_eq {p : Rtc → Prop} {q : ShownTime → Prop} {n : Nat}
    (h : ∀ k < n, p (rtc.updateCycles k) ↔ q ((RtcTime.changes offset).run rtc.shown k)) :
    cyclesOf p rtc n = (RtcTime.changes offset).times q rtc.shown n := by
  classical
  unfold cyclesOf Changes.times
  induction n with
  | zero => rw [Nat.count_zero, Nat.count_zero]
  | succ n ih =>
    rw [Nat.count_succ, Nat.count_succ, ih fun k hk => h k (by omega),
      if_congr (h n (Nat.lt_succ_self n)) rfl rfl]

end Rtc

end Apollo.Device
