import Fritz2ci.Lib.Calendar
import Fritz2ci.Lib.CTime

/-! `mktime` and `localtime` in a time zone of fixed offset. Between the valid times of day
on dates from 1900 on and the seconds since the epoch they are inverse to each other. -/

namespace CTime

open Calendar

/-- Seconds east of UTC, less than a week. -/
structure Zone where
  offset : ℤ
  withinWeek : -604800 < offset ∧ offset < 604800

def Zone.utc : Zone := ⟨0, by decide⟩

/-- `struct tm` as `mktime` takes it, with fields of any value; the month counts from 0 and
the year from 1900. -/
structure BrokenDown where
  sec : ℤ
  min : ℤ
  hour : ℤ
  mday : ℤ
  mon : ℤ
  year : ℤ
  deriving DecidableEq, Repr

def BrokenDown.zero : BrokenDown := ⟨0, 0, 0, 0, 0, 0⟩

def Tm.brokenDown (t : Tm) : BrokenDown := ⟨t.sec, t.min, t.hour, t.mday, t.mon, t.year⟩

/-- Fields out of their range carry over into the next larger ones. -/
def mktime (z : Zone) (t : BrokenDown) : ℤ :=
  86400 * (monthStart (1900 + t.year + t.mon / 12) (t.mon % 12).toNat + (t.mday - 1)) +
    (3600 * t.hour + 60 * t.min + t.sec) - z.offset

/-- The broken-down time of a moment not before the year 1900. -/
def localtime (z : Zone) (s : ℤ) : Tm :=
  let date := dateOf ((s + z.offset) / 86400)
  let time := ((s + z.offset) % 86400).toNat
  ⟨time % 60, time / 60 % 60, time / 3600, date.day, date.month, (date.year - 1900).toNat⟩

def Tm.date (t : Tm) : Date := ⟨1900 + t.year, t.mon, t.mday⟩

def Tm.timeOfDay (t : Tm) : ℤ := 3600 * t.hour + 60 * t.min + t.sec

/-- A date of the calendar and a time of day. -/
structure Tm.Valid (t : Tm) : Prop where
  date : t.date.Valid
  hour : t.hour < 24
  min : t.min < 60
  sec : t.sec < 60

/-- Seconds since midnight on 1970-01-01 by the same clock. -/
def Tm.clock (t : Tm) : ℤ := 86400 * daysOf t.date + t.timeOfDay

theorem mktime_brokenDown (z : Zone) {t : Tm} (h : t.mon < 12) :
    mktime z t.brokenDown = t.clock - z.offset := by
  have hdiv : ((t.mon : ℤ) / 12) = 0 := by omega
  have hmod : ((t.mon : ℤ) % 12).toNat = t.mon := by omega
  simp only [mktime, Tm.brokenDown, hdiv, hmod, Int.add_zero]
  rfl

theorem timeOfDay_bounds {t : Tm} (h : t.Valid) : 0 ≤ t.timeOfDay ∧ t.timeOfDay < 86400 := by
  have := h.hour
  have := h.min
  have := h.sec
  unfold Tm.timeOfDay
  omega

theorem localtime_clock (z : Zone) {t : Tm} (h : t.Valid) :
    localtime z (t.clock - z.offset) = t := by
  obtain ⟨hnonneg, hlt⟩ := timeOfDay_bounds h
  have hday : (t.clock - z.offset + z.offset) / 86400 = daysOf t.date := by
    unfold Tm.clock
    omega
  have htime : (t.clock - z.offset + z.offset) % 86400 = t.timeOfDay := by
    unfold Tm.clock
    omega
  have := h.min
  have := h.sec
  simp only [localtime, hday, htime, dateOf_daysOf h.date]
  obtain ⟨sec, min, hour, mday, mon, year⟩ := t
  simp only [Tm.timeOfDay, Tm.date, Tm.mk.injEq, true_and] at *
  omega

theorem localtime_year (z : Zone) {s y : ℤ} (hge : 86400 * yearStart 1900 ≤ s + z.offset) :
    1900 + ((localtime z s).year : ℤ) < y ↔ s + z.offset < 86400 * yearStart y := by
  have h1900 := yearOf_lt_iff.not.2 (show ¬ (s + z.offset) / 86400 < yearStart 1900 by omega)
  have hy := yearOf_lt_iff (n := (s + z.offset) / 86400) (y := y)
  simp only [localtime, dateOf]
  omega

theorem date_localtime (z : Zone) {s : ℤ} (hge : 86400 * yearStart 1900 ≤ s + z.offset) :
    (localtime z s).date = dateOf ((s + z.offset) / 86400) := by
  have h1900 := yearOf_lt_iff.not.2 (show ¬ (s + z.offset) / 86400 < yearStart 1900 by omega)
  have hyear : 1900 + ((yearOf ((s + z.offset) / 86400) - 1900).toNat : ℤ) =
      yearOf ((s + z.offset) / 86400) := by omega
  simp only [Tm.date, localtime, dateOf, hyear]

theorem valid_localtime (z : Zone) {s : ℤ} (hge : 86400 * yearStart 1900 ≤ s + z.offset) :
    (localtime z s).Valid where
  date := by rw [date_localtime z hge]; exact valid_dateOf _
  hour := by simp only [localtime]; omega
  min := by simp only [localtime]; omega
  sec := by simp only [localtime]; omega

theorem clock_localtime (z : Zone) {s : ℤ} (hge : 86400 * yearStart 1900 ≤ s + z.offset) :
    (localtime z s).clock = s + z.offset := by
  have htime : (localtime z s).timeOfDay = (s + z.offset) % 86400 := by
    simp only [Tm.timeOfDay, localtime]
    omega
  rw [Tm.clock, date_localtime z hge, daysOf_dateOf, htime]
  omega

theorem localtime_mktime (z : Zone) {t : Tm} (h : t.Valid) :
    localtime z (mktime z t.brokenDown) = t := by
  rw [mktime_brokenDown z (month_lt h.date), localtime_clock z h]

theorem mktime_localtime (z : Zone) {s : ℤ} (hge : 86400 * yearStart 1900 ≤ s + z.offset) :
    mktime z (localtime z s).brokenDown = s := by
  rw [mktime_brokenDown z (month_lt (valid_localtime z hge).date), clock_localtime z hge,
    Int.add_sub_cancel]

example : localtime Zone.utc 2147483647 = ⟨7, 14, 3, 19, 0, 138⟩ := by decide

end CTime
