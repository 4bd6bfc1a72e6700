/-
**The day count and the calendar.**

Days are counted by years that begin in March, so that the leap day comes last, and in eras of 400
such years, after which the calendar repeats itself.  A year has its place in the era, a day its
place in the year, and a month begins at a fixed place in it.  Each of these steps can be undone,
and so a date is found from its number and a timestamp from its Unix seconds.

Main definitions:

* `HashCalendar.Date.IsPlace` — the years of an era with the days of each of them;
* `HashCalendar.Date.marchYear`, `HashCalendar.Date.dayOfYear` — the year of a date that began in
  March, and the place of the date in it;
* `HashCalendar.Timestamp.IsRegular` — timestamps with leap seconds at the ends of minutes only.

Main results:

* `HashCalendar.Date.yearOfEra_eq` — the year is found from the place of a day in its era;
* `HashCalendar.Date.ofDays?_eq_some_iff` — **a date is found from its number**;
* `HashCalendar.Timestamp.ofUnix?_eq_some_iff` — a timestamp is found from its seconds.
-/

import HashCalendar.Time.Timestamp

set_option relaxedAutoImplicit false
set_option autoImplicit false

namespace HashCalendar

namespace Date

/-! ### Years of an era -/

/-- A year of an era and the place of a day in it, both counted from zero: only a year whose
February has a leap day has a place 365. -/
structure IsPlace (year day : Int) : Prop where
  year_nonneg : 0 ≤ year
  year_lt : year < 400
  day_nonneg : 0 ≤ day
  day_le : day ≤ 365
  leap : day = 365 → (year + 1) % 4 = 0 ∧ ((year + 1) % 100 = 0 → year = 399)

/-- The number of days of an era before a place in it. -/
def dayOfEra (year day : Int) : Int := year * 365 + year / 4 - year / 100 + day

theorem dayOfEra_nonneg {year day : Int} (h : IsPlace year day) : 0 ≤ dayOfEra year day := by
  obtain ⟨hy, -, hn, -, -⟩ := h
  rw [dayOfEra]
  omega

theorem dayOfEra_lt {year day : Int} (h : IsPlace year day) : dayOfEra year day < 146097 := by
  obtain ⟨-, hy, -, hn, -⟩ := h
  rw [dayOfEra]
  omega

/-- The year is found from the number of days before it.  The days are divided by the length of four
years, which is one day too short, so that the leap days before are counted right also on the last
day of all. -/
theorem yearOfEra_eq {year day n : Int} (h : IsPlace year day) (hn : n = dayOfEra year day) :
    (n - n / 1460 + n / 36524 - n / 146096) / 365 = year := by
  obtain ⟨hy, hy', hd, hd', hleap⟩ := h
  rw [dayOfEra] at hn
  by_cases hlast : year = 399 ∧ day = 365
  · obtain ⟨rfl, rfl⟩ := hlast
    rw [hn]
    decide
  · -- Every other day of a century lies before its end.
    have hrest : year % 100 * 365 + year % 100 / 4 + day < 36524 := by
      by_cases hday : day = 365
      · have := hleap hday
        have : year % 100 ≤ 98 := by omega
        omega
      · omega
    have hn' : n = 36524 * (year / 100) + (year % 100 * 365 + year % 100 / 4 + day) := by omega
    have hera : n / 146096 = 0 := by omega
    have hcentury : n / 36524 = year / 100 := by omega
    have hfour : (n / 1460 = year / 4 ∧ day ≤ 364) ∨ (n / 1460 = year / 4 + 1 ∧ 1 ≤ day) := by
      omega
    omega

/-- Every day of an era has its place. -/
theorem exists_place {n : Int} (hn : 0 ≤ n) (hn' : n < 146097) :
    ∃ year day, IsPlace year day ∧ n = dayOfEra year day := by
  -- Centuries are taken off, then four years at a time, then years.  The last century of an era and
  -- the last of four years have a day more than the others.
  obtain ⟨c, hc, hc', hcn, hcn'⟩ : ∃ c, 0 ≤ c ∧ c ≤ 3 ∧ 36524 * c ≤ n ∧
      n ≤ 36524 * c + (if c = 3 then 36524 else 36523) := by
    by_cases h : n / 36524 ≤ 3
    · exact ⟨n / 36524, by omega, h, by omega, by split <;> omega⟩
    · exact ⟨3, by omega, by omega, by omega, by omega⟩
  obtain ⟨q, hq⟩ : ∃ q, q = (n - 36524 * c) / 1461 := ⟨_, rfl⟩
  obtain ⟨r, hr, hr', hrn, hrn'⟩ : ∃ r, 0 ≤ r ∧ r ≤ 3 ∧ 365 * r ≤ n - 36524 * c - 1461 * q ∧
      n - 36524 * c - 1461 * q ≤ 365 * r + (if r = 3 then 365 else 364) := by
    by_cases h : (n - 36524 * c - 1461 * q) / 365 ≤ 3
    · exact ⟨(n - 36524 * c - 1461 * q) / 365, by omega, h, by omega, by split <;> omega⟩
    · exact ⟨3, by omega, by omega, by omega, by omega⟩
  refine ⟨100 * c + 4 * q + r, n - 36524 * c - 1461 * q - 365 * r, ⟨?_, ?_, ?_, ?_, ?_⟩, ?_⟩
  · omega
  · split at hcn' <;> omega
  · omega
  · split at hrn' <;> omega
  · intro hlast
    split at hcn' <;> split at hrn' <;> omega
  · rw [dayOfEra]
    split at hcn' <;> omega

/-! ### Days of a year -/

/-- The months between March and a month. -/
def sinceMarch (month : Nat) : Int := if 2 < month then (month : Int) - 3 else month + 9

/-- The days between the first of March and the beginning of the month that is so many months
later. -/
def daysBefore (months : Int) : Int := (153 * months + 2) / 5

/-- The year that began in the March before. -/
def marchYear (d : Date) : Int := if d.month ≤ 2 then d.year - 1 else d.year

/-- The days since the first of March. -/
def dayOfYear (d : Date) : Int := daysBefore (sinceMarch d.month) + d.day - 1

/-- A month is longest in a leap year, such as the year 0. -/
theorem daysInMonth_le (year : Int) (month : Nat) :
    daysInMonth year month ≤ daysInMonth 0 month := by
  rw [daysInMonth, daysInMonth]
  split
  · split <;> decide
  · exact Nat.le_refl _

/-- A month ends before the next one begins, and the last one after 366 days. -/
theorem daysBefore_add_le : ∀ month < 13, 1 ≤ month →
    daysBefore (sinceMarch month) + daysInMonth 0 month ≤ daysBefore (sinceMarch month + 1) ∧
      daysBefore (sinceMarch month) + daysInMonth 0 month ≤ 366 := by
  decide

/-- The month is found from the day. -/
theorem sinceMarch_eq (d : Date) : (5 * d.dayOfYear + 2) / 153 = sinceMarch d.month := by
  obtain ⟨-, -, hmonth, hmonth', hday, hday'⟩ := d.isDate
  have hlongest := daysInMonth_le d.year d.month
  have hend := daysBefore_add_le d.month (by omega) hmonth
  rw [dayOfYear]
  rw [daysBefore, daysBefore] at *
  omega

/-- Only the last day of February of a leap year is the last of 366. -/
theorem isLeapYear_of_dayOfYear (d : Date) (h : d.dayOfYear = 365) :
    d.month = 2 ∧ isLeapYear d.year = true := by
  obtain ⟨-, -, hmonth, hmonth', hday, hday'⟩ := d.isDate
  have heq := d.sinceMarch_eq
  rw [h] at heq
  have hfebruary : d.month = 2 := by
    rw [sinceMarch] at heq
    split at heq <;> omega
  refine ⟨hfebruary, ?_⟩
  rw [dayOfYear, hfebruary] at h
  rw [daysInMonth, if_pos hfebruary] at hday'
  have hbefore : daysBefore (sinceMarch 2) = 337 := by decide
  rw [hbefore] at h
  split at hday'
  · assumption
  · omega

/-- A date has a place in its era. -/
theorem isPlace (d : Date) :
    IsPlace (d.marchYear - d.marchYear / 400 * 400) d.dayOfYear where
  year_nonneg := by omega
  year_lt := by omega
  day_nonneg := by
    have hmonth := d.sinceMarch_eq
    rw [sinceMarch] at hmonth
    split at hmonth <;> omega
  day_le := by
    obtain ⟨-, -, hmonth, hmonth', -, hday⟩ := d.isDate
    have hlongest := daysInMonth_le d.year d.month
    have hend := (daysBefore_add_le d.month (by omega) hmonth).2
    rw [dayOfYear]
    omega
  leap := by
    intro hlast
    obtain ⟨hmonth, hleap⟩ := d.isLeapYear_of_dayOfYear hlast
    simp only [isLeapYear, Bool.and_eq_true, Bool.or_eq_true, decide_eq_true_eq] at hleap
    rw [marchYear, if_pos (by omega)]
    omega

/-! ### Back from the number -/

theorem days_eq (d : Date) :
    d.days = d.marchYear / 400 * 146097 +
      dayOfEra (d.marchYear - d.marchYear / 400 * 400) d.dayOfYear - 719468 := rfl

/-- The month that is so many months after March. -/
def monthAfter (months : Int) : Int := if months < 10 then months + 3 else months - 9

theorem monthAfter_sinceMarch {month : Nat} (h : 1 ≤ month) (h' : month ≤ 12) :
    monthAfter (sinceMarch month) = month := by
  rw [monthAfter, sinceMarch]
  split <;> split <;> omega

/-- A date is found from its era and its place there. -/
theorem ofDays?_eq (era : Int) {year day : Int} (h : IsPlace year day) :
    ofDays? (era * 146097 + dayOfEra year day - 719468) =
      of? (year + era * 400 + if monthAfter ((5 * day + 2) / 153) ≤ 2 then 1 else 0)
        (monthAfter ((5 * day + 2) / 153)).toNat
        (day - daysBefore ((5 * day + 2) / 153) + 1).toNat := by
  have hnonneg := dayOfEra_nonneg h
  have hlt := dayOfEra_lt h
  have hera : (era * 146097 + dayOfEra year day - 719468 + 719468) / 146097 = era := by omega
  have hplace : era * 146097 + dayOfEra year day - 719468 + 719468 - era * 146097 =
      dayOfEra year day := by omega
  have hday : dayOfEra year day - (365 * year + year / 4 - year / 100) = day := by
    rw [dayOfEra]
    omega
  rw [ofDays?, hera, hplace, yearOfEra_eq h rfl, hday]
  rfl

/-- A date is found from its number. -/
theorem ofDays?_days (d : Date) : ofDays? d.days = some d := by
  obtain ⟨-, -, hmonth, hmonth', -, -⟩ := d.isDate
  rw [days_eq, ofDays?_eq _ d.isPlace, sinceMarch_eq, monthAfter_sinceMarch hmonth hmonth']
  have hyear : d.marchYear - d.marchYear / 400 * 400 + d.marchYear / 400 * 400 +
      (if (d.month : Int) ≤ 2 then 1 else 0) = d.year := by
    rw [marchYear]
    split <;> split <;> omega
  have hday : (d.dayOfYear - daysBefore (sinceMarch d.month) + 1).toNat = d.day := by
    rw [dayOfYear]
    omega
  rw [hyear, hday, Int.toNat_natCast]
  exact of?_eq_some

theorem of?_eq_some_iff {year : Int} {month day : Nat} {d : Date} :
    of? year month day = some d ↔ d.year = year ∧ d.month = month ∧ d.day = day := by
  constructor
  · intro h
    rw [of?] at h
    split at h
    · cases h
      exact ⟨rfl, rfl, rfl⟩
    · cases h
  · rintro ⟨rfl, rfl, rfl⟩
    exact of?_eq_some

/-- What was found from an era and a place in it has that place. -/
theorem days_of_ofDays? {era year day : Int} (h : IsPlace year day) {d : Date}
    (hd : ofDays? (era * 146097 + dayOfEra year day - 719468) = some d) :
    d.days = era * 146097 + dayOfEra year day - 719468 := by
  rw [ofDays?_eq era h, of?_eq_some_iff] at hd
  obtain ⟨hy, hy', hn, hn', -⟩ := h
  obtain ⟨hyear, hmonth, hday⟩ := hd
  obtain ⟨months, hmonths⟩ : ∃ months, months = (5 * day + 2) / 153 := ⟨_, rfl⟩
  rw [← hmonths] at hyear hmonth hday
  have hsince : sinceMarch d.month = months := by
    rw [hmonth, sinceMarch, monthAfter]
    split <;> split <;> omega
  have hmarch : d.marchYear = year + era * 400 := by
    rw [marchYear, hyear, hmonth]
    rw [monthAfter]
    split <;> split <;> split <;> omega
  have hplace : d.dayOfYear = day := by
    rw [dayOfYear, hsince, hday]
    rw [daysBefore]
    omega
  have hera : (year + era * 400) / 400 = era := by omega
  rw [days_eq, hmarch, hplace, hera, Int.add_sub_cancel]

/-- **A date is found from its number**, and from no other. -/
theorem ofDays?_eq_some_iff {count : Int} {d : Date} : ofDays? count = some d ↔ d.days = count := by
  constructor
  · intro h
    obtain ⟨year, day, hplace, hn⟩ := exists_place (n := (count + 719468) % 146097) (by omega)
      (by omega)
    have hcount : count =
        (count + 719468) / 146097 * 146097 + dayOfEra year day - 719468 := by omega
    rw [hcount] at h
    rw [days_of_ofDays? hplace h, ← hcount]
  · rintro rfl
    exact d.ofDays?_days

end Date

namespace Timestamp

theorem of?_eq_some_iff {date : Date} {hour minute second nanos : Nat} {t : Timestamp} :
    of? date hour minute second nanos = some t ↔
      t.date = date ∧ t.hour = hour ∧ t.minute = minute ∧ t.second = second ∧ t.nanos = nanos := by
  constructor
  · intro h
    rw [of?] at h
    split at h
    · cases h
      exact ⟨rfl, rfl, rfl, rfl, rfl⟩
    · cases h
  · rintro ⟨rfl, rfl, rfl, rfl, rfl⟩
    rw [of?, dif_pos t.isTime]

/-- Whether a timestamp is in a leap second only if that belongs to the end of a minute. -/
def IsRegular (t : Timestamp) : Prop := t.inLeapSecond = true → t.second = 59

instance (t : Timestamp) : Decidable t.IsRegular := inferInstanceAs (Decidable (_ → _))

theorem isRegular_iff {t : Timestamp} : t.IsRegular ↔ (1000000000 ≤ t.nanos → t.second = 59) := by
  rw [IsRegular, inLeapSecond, decide_eq_true_eq]

/-- **A timestamp is found from its seconds** and its nanoseconds, and from no others, unless it is
in a leap second within a minute. -/
theorem ofUnix?_eq_some_iff {seconds : Int} {nanos : Nat} {t : Timestamp} :
    ofUnix? seconds nanos = some t ↔ t.unix = seconds ∧ t.nanos = nanos ∧ t.IsRegular := by
  obtain ⟨hhour, hminute, hsecond, -⟩ := t.isTime
  rw [ofUnix?, unix, isRegular_iff]
  simp only [Option.ite_none_left_eq_some, Option.bind_eq_some_iff, Date.ofDays?_eq_some_iff,
    of?_eq_some_iff]
  constructor
  · rintro ⟨hleap, date, hdays, rfl, hh, hm, hs, hn⟩
    exact ⟨by omega, hn, by omega⟩
  · rintro ⟨rfl, hn, hleap⟩
    exact ⟨by omega, t.date, by omega, rfl, by omega, by omega, by omega, hn⟩

end Timestamp

end HashCalendar
