import Apollo.Lib.Sizes
import Mathlib

/-!
# The time base

`src/core/time/ap_time.c`: time is counted in units of one base frequency that
every clock of the machine divides exactly, so a period is a whole number of units
and nothing drifts. A frequency that does not divide it is refused.
-/

namespace Apollo

/-- `ap_time_t`. -/
abbrev Time := BitVec 64

/-- `AP_TIME_BASE_HZ`. -/
def timeBaseHz : Time := 21542400000000

/-- `ap_clock_t`: a frequency and its exact period. -/
structure Clock where
  hz : BitVec 32
  period : Time
deriving DecidableEq, Repr

/-- `ap_time_base_divides`. -/
def timeBaseDivides (hz : BitVec 32) : Bool := hz != 0 && timeBaseHz % hz.setWidth 64 == 0

/-- `ap_clock_init`: `none` is its `false`. -/
def clockInit (hz : BitVec 32) : Option Clock :=
  if timeBaseDivides hz then some { hz, period := timeBaseHz / hz.setWidth 64 } else none

theorem period_of_clockInit {hz : BitVec 32} {clock : Clock} (h : clockInit hz = some clock) :
    0 < clock.period.toNat ∧ hz.toNat * clock.period.toNat = timeBaseHz.toNat := by
  obtain ⟨hdiv, heq⟩ := Option.ite_none_right_eq_some.mp h
  cases heq
  simp only [timeBaseDivides, Bool.and_eq_true, bne_iff_ne, beq_iff_eq] at hdiv
  obtain ⟨hne, hmod⟩ := hdiv
  have hhz : (hz.setWidth 64).toNat = hz.toNat := BitVec.toNat_setWidth_of_le (by decide)
  have hdvd : hz.toNat ∣ timeBaseHz.toNat := by
    have := congrArg BitVec.toNat hmod
    rw [BitVec.toNat_umod, hhz] at this
    exact Nat.dvd_of_mod_eq_zero this
  have hmul : hz.toNat * (timeBaseHz / hz.setWidth 64).toNat = timeBaseHz.toNat := by
    rw [BitVec.toNat_udiv, hhz, Nat.mul_div_cancel' hdvd]
  refine ⟨Nat.pos_of_ne_zero fun hzero => ?_, hmul⟩
  rw [hzero, Nat.mul_zero] at hmul
  exact absurd hmul (by decide)

end Apollo
