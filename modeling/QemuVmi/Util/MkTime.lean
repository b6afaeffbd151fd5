import Mathlib

/-!
# Seconds of a date

`mktimegm` of `util/cutils.c` counts the days of a date with a closed formula, in which the year
begins in March. It is compared with the calendar: the lengths of the years and months before the
date, one after the other. The arithmetic of type `int` is `none` where it overflows; the product
with `86400ULL` is one of 64 bits.

Results:
1. `daysBeforeYear_eq`: the days of the years before a year.
2. `mktimegm_counts_seconds`: the formula agrees with the calendar.
-/

namespace QemuVmi.Util.MkTime

open Option Int

/-- `struct tm` -/
structure Tm where
  tmYear : Int
  tmMon : Int
  tmMday : Int
  tmHour : Int
  tmMin : Int
  tmSec : Int
deriving DecidableEq, Repr

/-- The result of an operation on `int`. -/
def int (x : Int) : Option Int := if -2 ^ 31 ≤ x ∧ x < 2 ^ 31 then some x else none

/-- The number that is multiplied by `86400ULL`, after the month and the year are adjusted. -/
def dayNumber (y m d : Int) : Option Int := do
  let n ← int (d + (← int ((← int (153 * m)) - 457)).tdiv 5)
  let n ← int (n + (← int (365 * y)))
  let n ← int (n + y.tdiv 4)
  let n ← int (n - y.tdiv 100)
  let n ← int (n + y.tdiv 400)
  int (n - 719469)

def mktimegm (tm : Tm) : Option Int := do
  let y ← int (tm.tmYear + 1900)
  let m ← int (tm.tmMon + 1)
  let days ← if m < 3 then dayNumber (← int (y - 1)) (← int (m + 12)) tm.tmMday
    else dayNumber y m tm.tmMday
  let t := (86400#64 * BitVec.ofInt 64 days).toInt
  let seconds ← int ((← int ((← int (3600 * tm.tmHour)) + (← int (60 * tm.tmMin)))) + tm.tmSec)
  return t + seconds

def IsLeap (year : Nat) : Prop := year % 4 = 0 ∧ (year % 100 ≠ 0 ∨ year % 400 = 0)

instance (year : Nat) : Decidable (IsLeap year) := inferInstanceAs (Decidable (_ ∧ _))

def leapDay (year : Nat) : Nat := if IsLeap year then 1 else 0

def daysInMonth (year : Nat) : Nat → Nat
  | 1 => 28 + leapDay year
  | 3 | 5 | 8 | 10 => 30
  | _ => 31

def daysBeforeMonth (year : Nat) : Nat → Nat
  | 0 => 0
  | mon + 1 => daysBeforeMonth year mon + daysInMonth year mon

def daysBeforeYear : Nat → Nat
  | 0 => 0
  | year + 1 => daysBeforeYear year + daysBeforeMonth year 12

namespace Tm

variable (tm : Tm)

def year : Nat := (tm.tmYear + 1900).toNat

def mon : Nat := tm.tmMon.toNat

structure Valid : Prop where
  year : 1 ≤ tm.tmYear + 1900
  mon : 0 ≤ tm.tmMon ∧ tm.tmMon ≤ 11
  mday : 1 ≤ tm.tmMday ∧ tm.tmMday ≤ daysInMonth tm.year tm.mon
  hour : 0 ≤ tm.tmHour ∧ tm.tmHour ≤ 23
  min : 0 ≤ tm.tmMin ∧ tm.tmMin ≤ 59
  sec : 0 ≤ tm.tmSec ∧ tm.tmSec ≤ 59

def days : Int :=
  daysBeforeYear tm.year + daysBeforeMonth tm.year tm.mon + (tm.tmMday - 1) - daysBeforeYear 1970

def seconds : Int := 86400 * tm.days + 3600 * tm.tmHour + 60 * tm.tmMin + tm.tmSec

def Before (tm tm' : Tm) : Prop :=
  [tm.tmYear, tm.tmMon, tm.tmMday, tm.tmHour, tm.tmMin, tm.tmSec] <
    [tm'.tmYear, tm'.tmMon, tm'.tmMday, tm'.tmHour, tm'.tmMin, tm'.tmSec]

end Tm

def lastYear : Nat := 5879488

section
variable (year : Nat)

lemma daysBeforeMonth_twelve : daysBeforeMonth year 12 = 365 + leapDay year := by
  simp only [daysBeforeMonth, daysInMonth]
  omega

lemma daysBeforeYear_eq : daysBeforeYear year + (year + 99) / 100 =
    365 * year + (year + 3) / 4 + (year + 399) / 400 := by
  induction year with
  | zero => rfl
  | succ year ih =>
    rw [daysBeforeYear, daysBeforeMonth_twelve, leapDay]
    split
    · next hleap =>
      simp only [IsLeap] at hleap
      omega
    · next hleap =>
      simp only [IsLeap] at hleap
      omega

lemma daysBeforeYear_succ : daysBeforeYear (year + 1) + year / 100 =
    365 * year + year / 4 + year / 400 + 366 := by
  have hnext := daysBeforeYear_eq (year + 1)
  omega

lemma daysBeforeYear_add_leapDay : daysBeforeYear year + leapDay year + year / 100 =
    365 * year + year / 4 + year / 400 + 1 := by
  have hnext := daysBeforeYear_succ year
  rw [daysBeforeYear, daysBeforeMonth_twelve] at hnext
  omega

lemma daysBeforeYear_epoch : daysBeforeYear 1970 = 719528 := by
  have := daysBeforeYear_eq 1970
  omega

lemma daysBeforeMonth_eq {mon : Nat} (hmon : mon < 12) :
    (daysBeforeMonth year mon : Int) = if mon < 2 then ((153 * (mon + 13) - 457) / 5 - 306 : Int)
      else (153 * (mon + 1) - 457) / 5 + 59 + leapDay year := by
  interval_cases mon <;> simp [daysBeforeMonth, daysInMonth] <;> omega

lemma daysBeforeMonth_mono : Monotone (daysBeforeMonth year) :=
  monotone_nat_of_le_succ fun _ => Nat.le_add_right ..
end

lemma daysBeforeYear_mono : Monotone daysBeforeYear :=
  monotone_nat_of_le_succ fun _ => Nat.le_add_right ..

section
variable {tm tm' : Tm}

lemma Tm.Valid.day_le (h : tm.Valid) {mon : Nat} (hmon : tm.mon < mon) :
    daysBeforeMonth tm.year tm.mon + tm.tmMday ≤ daysBeforeMonth tm.year mon := by
  have hnext := daysBeforeMonth_mono tm.year hmon
  have hmday := h.mday.2
  rw [daysBeforeMonth] at hnext
  omega

lemma Tm.Valid.days_lt (h : tm.Valid) (h' : tm'.Valid) (hbefore : tm.Before tm') :
    tm.days < tm'.days ∨ tm.days = tm'.days ∧
      [tm.tmHour, tm.tmMin, tm.tmSec] < [tm'.tmHour, tm'.tmMin, tm'.tmSec] := by
  have hmday' := h'.mday.1
  have hyear := h.year
  have hmon := h.mon
  obtain hlt | ⟨hyeq, hbefore⟩ := List.cons_lt_cons_iff.mp hbefore
  · have hnext := daysBeforeYear_mono (show tm.year + 1 ≤ tm'.year by simp only [Tm.year]; omega)
    have hday := h.day_le (show tm.mon < 12 by simp only [Tm.mon]; omega)
    rw [daysBeforeYear] at hnext
    simp only [days]
    omega
  have hyear : tm.year = tm'.year := by rw [Tm.year, Tm.year, hyeq]
  obtain hlt | ⟨hmeq, hbefore⟩ := List.cons_lt_cons_iff.mp hbefore
  · have hday := h.day_le (show tm.mon < tm'.mon by simp only [Tm.mon]; omega)
    simp only [days, hyear] at hday ⊢
    omega
  have hmon : tm.mon = tm'.mon := by rw [Tm.mon, Tm.mon, hmeq]
  simp only [days, hyear, hmon]
  obtain hlt | ⟨hdeq, hbefore⟩ := List.cons_lt_cons_iff.mp hbefore
  · omega
  · exact .inr ⟨by rw [hdeq], hbefore⟩

lemma Tm.Valid.seconds_lt (h : tm.Valid) (h' : tm'.Valid) (hbefore : tm.Before tm') :
    tm.seconds < tm'.seconds := by
  have hday := h.days_lt h' hbefore
  obtain ⟨-, -, -, hhour, hmin, hsec⟩ := h
  obtain ⟨-, -, -, hhour', hmin', hsec'⟩ := h'
  simp only [List.cons_lt_cons_iff, List.not_lt_nil, and_false, or_false] at hday
  simp only [seconds]
  omega

lemma int_eq {x : Int} (h : -2 ^ 31 ≤ x ∧ x < 2 ^ 31) : int x = some x := if_pos h

lemma dayNumber_eq {y m d : Int} (hy : 0 ≤ y) (hm : 3 ≤ m ∧ m ≤ 14) (hd : 1 ≤ d)
    (hlast : d + (153 * m - 457) / 5 + 365 * y + y / 4 < 2 ^ 31) : dayNumber y m d =
      some (d + (153 * m - 457) / 5 + 365 * y + y / 4 - y / 100 + y / 400 - 719469) := by
  rw [dayNumber, int_eq (by omega), bind_eq_bind, bind_some, int_eq (by omega)]
  simp only [bind_some]
  rw [tdiv_eq_ediv_of_nonneg (by omega), tdiv_eq_ediv_of_nonneg hy,
    tdiv_eq_ediv_of_nonneg hy, tdiv_eq_ediv_of_nonneg hy]
  simp (disch := omega) only [int_eq, bind_some]

lemma dayNumber_bound {y m d n : Int} (h : dayNumber y m d = some n) : -2 ^ 31 ≤ n ∧ n < 2 ^ 31 := by
  simp only [dayNumber, bind_eq_bind, bind_eq_some_iff] at h
  obtain ⟨_, -, _, -, _, -, _, -, _, -, _, -, _, -, _, -, hlast⟩ := h
  unfold int at hlast
  split at hlast
  · next hrange =>
    cases hlast
    exact hrange
  · cases hlast

lemma daysInMonth_le (year mon : Nat) : daysInMonth year mon ≤ 31 := by
  unfold daysInMonth leapDay
  split <;> (try split) <;> decide

lemma Tm.Valid.dayNumber_eq_days (h : tm.Valid) (hlast : tm.year ≤ lastYear) :
    (if tm.tmMon + 1 < 3 then dayNumber (tm.tmYear + 1900 - 1) (tm.tmMon + 1 + 12) tm.tmMday
      else dayNumber (tm.tmYear + 1900) (tm.tmMon + 1) tm.tmMday) = some tm.days := by
  obtain ⟨hyear, hmon, hmday, -⟩ := h
  have hyear' : tm.tmYear + 1900 = tm.year := (toNat_of_nonneg (by omega)).symm
  have hmon' : tm.tmMon = tm.mon := (toNat_of_nonneg hmon.1).symm
  have hmday' := hmday.2.trans (Int.ofNat_le.mpr (daysInMonth_le tm.year tm.mon))
  have hdays := daysBeforeMonth_eq tm.year (show tm.mon < 12 by omega)
  change tm.year ≤ 5879488 at hlast
  rw [days, hyear', hmon', hdays, daysBeforeYear_epoch]
  rw [hyear'] at hyear
  split
  · next hlt =>
    obtain ⟨y, hy⟩ : ∃ y, tm.year = y + 1 := Nat.exists_eq_succ_of_ne_zero (by omega)
    have hbefore := daysBeforeYear_succ y
    rw [dayNumber_eq (by omega) (by omega) hmday.1 (by omega), if_pos (by omega), hy]
    exact congrArg some (by omega)
  · next hlt =>
    have hbefore := daysBeforeYear_add_leapDay tm.year
    rw [dayNumber_eq (by omega) (by omega) hmday.1 (by omega), if_neg (by omega)]
    exact congrArg some (by omega)

lemma Tm.Valid.mktimegm_eq (h : tm.Valid) (hlast : tm.year ≤ lastYear) :
    mktimegm tm = some tm.seconds := by
  have hdays := h.dayNumber_eq_days hlast
  obtain ⟨hyear, hmon, -, hhour, hmin, hsec⟩ := h
  have hyear' : tm.tmYear + 1900 = tm.year := (toNat_of_nonneg (by omega)).symm
  change tm.year ≤ 5879488 at hlast
  -- the product of 64 bits is the one of integers
  have hsum : -2 ^ 31 ≤ tm.days ∧ tm.days < 2 ^ 31 → (86400#64 * BitVec.ofInt 64 tm.days).toInt +
      (3600 * tm.tmHour + 60 * tm.tmMin + tm.tmSec) = tm.seconds := by
    intro hbound
    change (BitVec.ofInt 64 86400 * BitVec.ofInt 64 tm.days).toInt + _ = _
    rw [← BitVec.ofInt_mul, BitVec.toInt_ofInt, bmod_eq_of_le (by omega) (by omega), seconds]
    omega
  rw [mktimegm, int_eq (by omega), bind_eq_bind, bind_some, int_eq (by omega)]
  simp (disch := omega) only [bind_some, int_eq]
  split
  · next hlt =>
    rw [if_pos hlt] at hdays
    rw [hdays, bind_some, hsum (dayNumber_bound hdays)]
    rfl
  next hlt =>
  rw [if_neg hlt] at hdays
  rw [hdays, bind_some, hsum (dayNumber_bound hdays)]
  rfl

/-- For every valid date from the year 1 up to the last year in which the arithmetic does not
overflow, `mktimegm` returns the seconds since 1970-01-01T00:00:00, and it is strictly monotone. In
the year after this one the arithmetic does overflow. -/
theorem mktimegm_counts_seconds {tm : Tm} (h : tm.Valid) (hlast : tm.year ≤ lastYear) :
    mktimegm tm = some tm.seconds ∧ (∀ tm' : Tm, tm'.Valid → tm'.year ≤ lastYear → tm.Before tm' →
        ∃ t t', mktimegm tm = some t ∧ mktimegm tm' = some t' ∧ t < t') ∧
      ∃ tm' : Tm, tm'.Valid ∧ tm'.year = lastYear + 1 ∧ mktimegm tm' = none := by
  refine ⟨h.mktimegm_eq hlast, fun tm' h' hlast' hbefore => ?_, ?_⟩
  · exact ⟨_, _, h.mktimegm_eq hlast, h'.mktimegm_eq hlast', h.seconds_lt h' hbefore⟩
  · exact ⟨⟨lastYear + 1 - 1900, 11, 31, 0, 0, 0⟩, ⟨by decide, by decide, by decide, by decide,
      by decide, by decide⟩, by decide, by decide⟩

/-- The last second before 1970. -/
theorem mktimegm_counts_seconds_negative : mktimegm ⟨69, 11, 31, 23, 59, 59⟩ = some (-1) := by
  have h : Tm.Valid ⟨69, 11, 31, 23, 59, 59⟩ :=
    ⟨by decide, by decide, by decide, by decide, by decide, by decide⟩
  rw [(mktimegm_counts_seconds h (by decide)).1, Tm.seconds, Tm.days, daysBeforeYear_epoch]
  have hyear : daysBeforeYear 1969 = 719163 := by
    have := daysBeforeYear_eq 1969
    omega
  change some (86400 * ((daysBeforeYear 1969 : Int) + 334 + (31 - 1) - (719528 : Nat)) + _ + _ + _) = _
  rw [hyear]
  rfl
end

end QemuVmi.Util.MkTime
