import RecordMapper.Calendar.Civil

/-! The calendar and its count of days.

Counted from March, years and months begin at fixed offsets: `yearStart` and `monthStart`. A valid
date lies within its month and its year (`Valid.inMonth`, `Valid.inYear`), so later dates have
greater counts (`days_lt`), and the way back from the count finds the date again (`date_days`). Every
number is the count of a date (`days_date`). -/
namespace RecordMapper.Calendar

/-- A day that its month has. -/
def Date.Valid (d : Date) : Prop := 1 ≤ d.day ∧ d.day ≤ daysInMonth d.year d.month.toNat

instance (d : Date) : Decidable d.Valid := instDecidableAnd

theorem isLeap_iff (year : Int) : isLeap year = true ↔ year % 4 = 0 ∧ year % 100 ≠ 0 ∨ year % 400 = 0 := by
  simp [isLeap]

/-! ### Years and months from March -/

/-- The days from the start of year 0 to that of another one. -/
def yearStart (year : Int) : Int := 365 * year + year / 4 - year / 100 + year / 400

/-- The days from the first of March to the first of another month. -/
def monthStart (month : Int) : Int := (153 * month + 2) / 5

/-- The year, counted from March, to which a date belongs. -/
def Date.marchYear (d : Date) : Int := if d.month ≤ 2 then d.year - 1 else d.year

/-- The months since March. -/
def Date.marchMonth (d : Date) : Int := if 2 < d.month then d.month - 3 else d.month + 9

/-- The days since the first of March. -/
def Date.dayOfYear (d : Date) : Int := monthStart d.marchMonth + d.day - 1

theorem yearStart_mono {a b : Int} (h : a ≤ b) : yearStart a ≤ yearStart b := by
  unfold yearStart
  omega

theorem monthStart_mono {a b : Int} (h : a ≤ b) : monthStart a ≤ monthStart b := by
  unfold monthStart
  omega

/-- Years of an era start like those of the first one. -/
theorem yearStart_eq (year : Int) :
    yearStart year = year / 400 * 146097 + yearStart (year - year / 400 * 400) := by
  unfold yearStart
  omega

/-! ### Valid dates -/

namespace Date.Valid

variable {d : Date}

theorem month (h : d.Valid) : 1 ≤ d.month ∧ d.month ≤ 12 := by
  obtain ⟨hone, hlast⟩ := h
  unfold daysInMonth at hlast
  split at hlast <;> omega

theorem month_cases (h : d.Valid) :
    d.month = 1 ∨ d.month = 2 ∨ d.month = 3 ∨ d.month = 4 ∨ d.month = 5 ∨ d.month = 6 ∨ d.month = 7 ∨ d.month = 8 ∨
      d.month = 9 ∨ d.month = 10 ∨ d.month = 11 ∨ d.month = 12 := by
  have hmonth := h.month
  omega

/-- The months, counted from March, with the days that they have. -/
theorem lengths (h : d.Valid) :
    1 ≤ d.day ∧ 0 ≤ d.marchMonth ∧
      (d.marchMonth < 11 ∧ monthStart d.marchMonth + d.day ≤ monthStart (d.marchMonth + 1) ∨
        d.marchMonth = 11 ∧ d.marchYear = d.year - 1 ∧ (d.day ≤ 28 ∨ d.day = 29 ∧ isLeap d.year = true)) := by
  have hmonth := h.month_cases
  obtain ⟨hone, hlast⟩ := h
  obtain ⟨year, month, day⟩ := d
  rcases hmonth with rfl | rfl | rfl | rfl | rfl | rfl | rfl | rfl | rfl | rfl | rfl | rfl
  case inr.inl =>
    refine ⟨hone, by simp [marchMonth], .inr ⟨by simp [marchMonth], by simp [marchYear], ?_⟩⟩
    by_cases hleap : isLeap year = true
    · simp [daysInMonth, hleap] at hlast
      have hday : day ≤ 28 ∨ day = 29 := by omega
      exact hday.imp_right fun h => ⟨h, hleap⟩
    · simp [daysInMonth, hleap] at hlast
      exact .inl hlast
  all_goals
    simp [daysInMonth] at hlast
    refine ⟨hone, by simp [marchMonth], .inl ⟨by simp [marchMonth], ?_⟩⟩
    simp only [marchMonth, monthStart]
    omega

/-- A valid date lies in its year. -/
theorem inYear (h : d.Valid) : 0 ≤ d.dayOfYear ∧ yearStart d.marchYear + d.dayOfYear < yearStart (d.marchYear + 1) := by
  obtain ⟨hone, hmarch, ⟨hmonth, hlast⟩ | ⟨hmonth, hyear, hlast⟩⟩ := h.lengths
  · have hstart := monthStart_mono (show d.marchMonth + 1 ≤ 11 by omega)
    unfold dayOfYear yearStart
    unfold monthStart at *
    omega
  · have hlength : d.day ≤ 28 ∨ d.day = 29 ∧ (d.year % 4 = 0 ∧ d.year % 100 ≠ 0 ∨ d.year % 400 = 0) := by
      simpa only [isLeap_iff] using hlast
    unfold dayOfYear yearStart monthStart
    rw [hmonth, hyear]
    omega

end Date.Valid

/-! ### Counting days -/

/-- Moving a negative dividend down makes truncation the rounding to the lower era. -/
theorem tdiv_eraDividend (n : Int) {k l : Int} (hk : 0 < k) (hl : l = k - 1) :
    (if 0 ≤ n then n else n - l).tdiv k = n / k := by
  subst hl
  split
  · next hn => exact Int.tdiv_eq_ediv_of_nonneg hn
  · have hneg : n - (k - 1) = -(k - 1 - n) := by omega
    have hnonneg : 0 ≤ k - 1 - n := by omega
    rw [hneg, Int.neg_tdiv, Int.tdiv_eq_ediv_of_nonneg hnonneg]
    have hmod := Int.emod_nonneg n (Int.ne_of_gt hk)
    have hlt := Int.emod_lt_of_pos n hk
    have hsplit : k - 1 - n = (k - 1 - n % k) + k * -(n / k) := by
      rw [Int.mul_neg]
      have := Int.emod_add_mul_ediv n k
      omega
    rw [hsplit, Int.add_mul_ediv_left _ _ (Int.ne_of_gt hk), Int.ediv_eq_zero_of_lt (by omega) (by omega)]
    omega

theorem days_eq {d : Date} (h : d.Valid) : days d = yearStart d.marchYear + d.dayOfYear - 719468 := by
  have hmarch := h.lengths.2.1
  have hera : (if 0 ≤ d.marchYear then d.marchYear else d.marchYear - 399).tdiv 400 = d.marchYear / 400 :=
    tdiv_eraDividend _ (by decide) rfl
  have hyear : 0 ≤ d.marchYear - d.marchYear / 400 * 400 := by omega
  have hmonth : (153 * d.marchMonth + 2).tdiv 5 = monthStart d.marchMonth :=
    Int.tdiv_eq_ediv_of_nonneg (by omega)
  show (if 0 ≤ d.marchYear then d.marchYear else d.marchYear - 399).tdiv 400 * 146097 +
    ((d.marchYear - (if 0 ≤ d.marchYear then d.marchYear else d.marchYear - 399).tdiv 400 * 400) * 365 +
      (d.marchYear - (if 0 ≤ d.marchYear then d.marchYear else d.marchYear - 399).tdiv 400 * 400).tdiv 4 -
      (d.marchYear - (if 0 ≤ d.marchYear then d.marchYear else d.marchYear - 399).tdiv 400 * 400).tdiv 100 +
      ((153 * d.marchMonth + 2).tdiv 5 + d.day - 1)) - 719468 = _
  rw [hera, hmonth, Int.tdiv_eq_ediv_of_nonneg hyear, Int.tdiv_eq_ediv_of_nonneg hyear]
  unfold yearStart Date.dayOfYear
  omega

/-- A later date has a greater count. -/
theorem days_lt {a b : Date} (ha : a.Valid) (hb : b.Valid)
    (h : a.year < b.year ∨ a.year = b.year ∧ (a.month < b.month ∨ a.month = b.month ∧ a.day < b.day)) :
    days a < days b := by
  have hinYear := ha.inYear
  have hbfirst := hb.inYear.1
  have hamonth := ha.month
  have hbmonth := hb.month
  rw [days_eq ha, days_eq hb]
  -- The order of dates is that of their years, months and days counted from March.
  have hmarch : a.marchYear < b.marchYear ∨ a.marchYear = b.marchYear ∧
      (a.marchMonth < b.marchMonth ∨ a.marchMonth = b.marchMonth ∧ a.day < b.day) := by
    unfold Date.marchYear Date.marchMonth
    split <;> split <;> split <;> split <;> omega
  rcases hmarch with hyear | ⟨hyear, hmonth | ⟨hmonth, hday⟩⟩
  · have hstart := yearStart_mono (show a.marchYear + 1 ≤ b.marchYear by omega)
    omega
  · have hstart := monthStart_mono (show a.marchMonth + 1 ≤ b.marchMonth by omega)
    obtain ⟨-, -, ⟨-, hlast⟩ | ⟨heleven, -⟩⟩ := ha.lengths
    · have hone := hb.lengths.1
      unfold Date.dayOfYear
      rw [hyear]
      omega
    · have htwelve : b.marchMonth ≤ 11 := by
        unfold Date.marchMonth
        split <;> omega
      omega
  · unfold Date.dayOfYear
    rw [hyear, hmonth]
    omega

/-- Dates are in the order of their counts. -/
theorem compare_days {a b : Date} (ha : a.Valid) (hb : b.Valid) :
    compare (days a) (days b) =
      (compare a.year b.year).then ((compare a.month b.month).then (compare a.day b.day)) := by
  have hlt := days_lt ha hb
  have hgt := days_lt hb ha
  rcases Int.lt_trichotomy a.year b.year with hyear | hyear | hyear
  · rw [Int.compare_eq_lt.2 (hlt (.inl hyear)), Int.compare_eq_lt.2 hyear]
    rfl
  · rw [hyear, Std.compare_self, Ordering.eq_then]
    rcases Int.lt_trichotomy a.month b.month with hmonth | hmonth | hmonth
    · rw [Int.compare_eq_lt.2 (hlt (.inr ⟨hyear, .inl hmonth⟩)), Int.compare_eq_lt.2 hmonth]
      rfl
    · rw [hmonth, Std.compare_self, Ordering.eq_then]
      rcases Int.lt_trichotomy a.day b.day with hday | hday | hday
      · rw [Int.compare_eq_lt.2 (hlt (.inr ⟨hyear, .inr ⟨hmonth, hday⟩⟩)), Int.compare_eq_lt.2 hday]
      · have hsame : a = b := by
          cases a
          cases b
          simp_all
        rw [hsame, Std.compare_self, Std.compare_self]
      · rw [Int.compare_eq_gt.2 (hgt (.inr ⟨hyear.symm, .inr ⟨hmonth.symm, hday⟩⟩)), Int.compare_eq_gt.2 hday]
    · rw [Int.compare_eq_gt.2 (hgt (.inr ⟨hyear.symm, .inl hmonth⟩)), Int.compare_eq_gt.2 hmonth]
      rfl
  · rw [Int.compare_eq_gt.2 (hgt (.inl hyear)), Int.compare_eq_gt.2 hyear]
    rfl

/-! ### The way back -/

/-- Taking the leap days out of an era leaves years of equal length. -/
theorem yearOfEra_eq {year day dayOfEra : Int} (hyear : 0 ≤ year ∧ year < 400) (hday : 0 ≤ day)
    (hstart : dayOfEra = yearStart year + day) (hend : dayOfEra < yearStart (year + 1)) :
    (dayOfEra - dayOfEra / 1460 + dayOfEra / 36524 - dayOfEra / 146096) / 365 = year := by
  unfold yearStart at hstart hend
  -- Centuries have 36524 days and leap cycles of four years 1461, but for the last of each.
  obtain ⟨century, cycle, rest, hcycle, hrest, rfl⟩ : ∃ century cycle rest : Int,
      (0 ≤ cycle ∧ cycle < 25) ∧ (0 ≤ rest ∧ rest < 4) ∧ year = 100 * century + 4 * cycle + rest :=
    ⟨year / 100, year % 100 / 4, year % 4, by omega, by omega, by omega⟩
  have hcentury : 0 ≤ century ∧ century < 4 := by omega
  have hdays : dayOfEra = 36524 * century + 1461 * cycle + 365 * rest + day := by omega
  have hlast : day < 365 ∨ day = 365 ∧ rest = 3 ∧ (cycle = 24 → century = 3) := by omega
  clear hstart hend
  have hcenturies : dayOfEra / 36524 - dayOfEra / 146096 = century := by
    have hbound : 36524 * century ≤ dayOfEra ∧
        (dayOfEra < 36524 * (century + 1) ∨ century = 3 ∧ dayOfEra = 146096) := by omega
    clear hlast hdays
    obtain ⟨hlow, hhigh | ⟨rfl, rfl⟩⟩ := hbound
    · omega
    · decide
  have hcycles : dayOfEra / 1460 =
      25 * century + cycle + if 1460 ≤ 24 * century + cycle + 365 * rest + day then 1 else 0 := by
    clear hcenturies
    split <;> omega
  split at hcycles <;> omega

/-- Where the day with a count lies: the era, the year of the era, and the day and the month of the year, both counted
from March. -/
structure LiesAt (n era year day month : Int) : Prop where
  count : n + 719468 = era * 146097 + (yearStart year + day)
  inEra : 0 ≤ year ∧ year < 400
  inYear : 0 ≤ day ∧ yearStart year + day < yearStart (year + 1)
  fromMarch : 0 ≤ month
  inMonth : monthStart month ≤ day ∧ day < monthStart (month + 1)

namespace LiesAt

variable {n era year day month : Int}

theorem dayOfEra (h : LiesAt n era year day month) : 0 ≤ yearStart year + day ∧ yearStart year + day < 146097 := by
  have hera := h.inEra
  have hyear := h.inYear
  unfold yearStart at *
  omega

theorem era_eq (h : LiesAt n era year day month) :
    (if 0 ≤ n + 719468 then n + 719468 else n + 719468 - 146096).tdiv 146097 = era := by
  have hfloor : (if 0 ≤ n + 719468 then n + 719468 else n + 719468 - 146096).tdiv 146097 =
      (n + 719468) / 146097 := tdiv_eraDividend _ (by decide) rfl
  have hcount := h.count
  have hlength := h.dayOfEra
  omega

theorem dayOfEra_eq (h : LiesAt n era year day month) : n + 719468 - era * 146097 = yearStart year + day := by
  have hcount := h.count
  omega

theorem yearOfEra_eq (h : LiesAt n era year day month) :
    (yearStart year + day - (yearStart year + day).tdiv 1460 + (yearStart year + day).tdiv 36524 -
      (yearStart year + day).tdiv 146096).tdiv 365 = year := by
  have hlength := h.dayOfEra
  rw [Int.tdiv_eq_ediv_of_nonneg hlength.1, Int.tdiv_eq_ediv_of_nonneg hlength.1,
    Int.tdiv_eq_ediv_of_nonneg hlength.1, Int.tdiv_eq_ediv_of_nonneg (by omega)]
  exact Calendar.yearOfEra_eq h.inEra h.inYear.1 rfl h.inYear.2

theorem yearStart_eq (h : LiesAt n era year day month) :
    365 * year + year.tdiv 4 - year.tdiv 100 = yearStart year := by
  have hera := h.inEra
  rw [Int.tdiv_eq_ediv_of_nonneg hera.1, Int.tdiv_eq_ediv_of_nonneg hera.1]
  unfold yearStart
  omega

theorem month_eq (h : LiesAt n era year day month) : (5 * day + 2).tdiv 153 = month := by
  have hday := h.inYear.1
  have hmonth := h.inMonth
  rw [Int.tdiv_eq_ediv_of_nonneg (by omega)]
  unfold monthStart at hmonth
  omega

theorem monthStart_eq (h : LiesAt n era year day month) : (153 * month + 2).tdiv 5 = monthStart month := by
  have hmonth := h.fromMarch
  exact Int.tdiv_eq_ediv_of_nonneg (by omega)

/-- The date of the day. -/
theorem date_eq (h : LiesAt n era year day month) :
    date n =
      { year := if (if month < 10 then month + 3 else month - 9) ≤ 2 then year + era * 400 + 1 else year + era * 400
        month := if month < 10 then month + 3 else month - 9
        day := day - monthStart month + 1 } := by
  have hday : yearStart year + day - yearStart year = day := by omega
  simp only [date, FromDays.of, h.era_eq, h.dayOfEra_eq, h.yearOfEra_eq, h.yearStart_eq, hday, h.month_eq,
    h.monthStart_eq]

end LiesAt

/-- A valid date lies in its era, year and month. -/
theorem Date.Valid.liesAt {d : Date} (h : d.Valid) :
    LiesAt (days d) (d.marchYear / 400) (d.marchYear - d.marchYear / 400 * 400) d.dayOfYear d.marchMonth := by
  obtain ⟨hone, hmarch, hlengths⟩ := h.lengths
  obtain ⟨hday, hend⟩ := h.inYear
  have hera := yearStart_eq d.marchYear
  have hnext : yearStart (d.marchYear + 1) =
      d.marchYear / 400 * 146097 + yearStart (d.marchYear - d.marchYear / 400 * 400 + 1) := by
    unfold yearStart
    omega
  have hcount := days_eq h
  refine { count := by omega, inEra := by omega, inYear := ⟨hday, by omega⟩, fromMarch := hmarch, inMonth := ⟨?_, ?_⟩ }
  · unfold Date.dayOfYear
    omega
  · unfold Date.dayOfYear
    rcases hlengths with ⟨-, hlast⟩ | ⟨heleven, -, hlast⟩
    · omega
    · rw [heleven]
      unfold monthStart
      omega

/-- The date is found again from its count. -/
theorem date_days {d : Date} (h : d.Valid) : date (days d) = d := by
  have hmonths := h.month
  rw [h.liesAt.date_eq]
  obtain ⟨year, month, day⟩ := d
  simp only [Date.marchYear, Date.marchMonth, Date.dayOfYear, Date.mk.injEq] at *
  refine ⟨?_, ?_, ?_⟩
  · split <;> split <;> omega
  · split <;> split <;> omega
  · omega

/-! ### Every count -/

/-- A number between the values of a function lies between two neighbours of them. -/
theorem exists_between {f : Int → Int} {r : Int} (hfirst : f 0 ≤ r) {n : Nat} (hlast : r < f n) :
    ∃ k : Int, (0 ≤ k ∧ k < n) ∧ f k ≤ r ∧ r < f (k + 1) := by
  induction n with
  | zero => exact absurd hlast (Int.not_lt.2 hfirst)
  | succ n ih =>
    by_cases hn : r < f n
    · obtain ⟨k, hk, hbetween⟩ := ih hn
      exact ⟨k, by omega, hbetween⟩
    · exact ⟨n, by omega, Int.not_lt.1 hn, hlast⟩

/-- A day of a month and a year that are counted from March. -/
def ofMarch (year month day : Int) : Date where
  year := if month < 10 then year else year + 1
  month := if month < 10 then month + 3 else month - 9
  day := day

theorem valid_ofMarch {year month day : Int} (hmonth : 0 ≤ month ∧ month < 12) (hfirst : 1 ≤ day)
    (hlast : monthStart month + day ≤ monthStart (month + 1))
    (hyear : yearStart year + (monthStart month + day - 1) < yearStart (year + 1)) :
    (ofMarch year month day).Valid := by
  refine ⟨hfirst, ?_⟩
  have hcases : month = 0 ∨ month = 1 ∨ month = 2 ∨ month = 3 ∨ month = 4 ∨ month = 5 ∨ month = 6 ∨ month = 7 ∨
      month = 8 ∨ month = 9 ∨ month = 10 ∨ month = 11 := by
    omega
  unfold yearStart at hyear
  rcases hcases with rfl | rfl | rfl | rfl | rfl | rfl | rfl | rfl | rfl | rfl | rfl | rfl
  case inr.inr.inr.inr.inr.inr.inr.inr.inr.inr.inr =>
    -- February ends with its year.
    by_cases hleap : isLeap (year + 1) = true
    · have hlength : monthStart 11 = 337 := rfl
      simp [ofMarch, daysInMonth, hleap]
      omega
    · have hlength : monthStart 11 = 337 := rfl
      simp [ofMarch, daysInMonth, hleap]
      rw [isLeap_iff] at hleap
      omega
  all_goals
    simp [ofMarch, daysInMonth]
    simp [monthStart] at hlast
    omega

theorem march_ofMarch (year day : Int) {month : Int} (hmonth : 0 ≤ month ∧ month < 12) :
    (ofMarch year month day).marchYear = year ∧ (ofMarch year month day).marchMonth = month := by
  simp only [Date.marchYear, Date.marchMonth, ofMarch]
  constructor
  · split <;> split <;> omega
  · split <;> split <;> omega

/-- Every number counts the days to a date. -/
theorem exists_days (n : Int) : ∃ d : Date, d.Valid ∧ days d = n := by
  have hrest : yearStart 0 ≤ (n + 719468) % 146097 ∧ (n + 719468) % 146097 < yearStart (400 : Nat) := by
    unfold yearStart
    omega
  obtain ⟨year, hyear, hstart, hend⟩ := exists_between hrest.1 hrest.2
  obtain ⟨day, hday⟩ : ∃ day, day = (n + 719468) % 146097 - yearStart year := ⟨_, rfl⟩
  have hinYear : monthStart 0 ≤ day ∧ day < monthStart (12 : Nat) := by
    unfold yearStart at hstart hend hday
    unfold monthStart
    omega
  obtain ⟨month, hmonth, hfirst, hlast⟩ := exists_between hinYear.1 hinYear.2
  -- Years that are an era apart begin alike.
  have heras : ∀ k, yearStart (k + (n + 719468) / 146097 * 400) = (n + 719468) / 146097 * 146097 + yearStart k := by
    intro k
    unfold yearStart
    omega
  have hvalid : (ofMarch (year + (n + 719468) / 146097 * 400) month (day - monthStart month + 1)).Valid := by
    refine valid_ofMarch hmonth (by omega) (by omega) ?_
    rw [Int.add_right_comm, heras, heras]
    omega
  refine ⟨_, hvalid, ?_⟩
  obtain ⟨hmarchYear, hmarchMonth⟩ := march_ofMarch (year + (n + 719468) / 146097 * 400)
    (day - monthStart month + 1) hmonth
  rw [days_eq hvalid, Date.dayOfYear, hmarchYear, hmarchMonth, heras]
  show _ + (_ + (day - monthStart month + 1) - 1) - _ = _
  omega

theorem valid_date (n : Int) : (date n).Valid := by
  obtain ⟨d, hd, rfl⟩ := exists_days n
  rwa [date_days hd]

theorem days_date (n : Int) : days (date n) = n := by
  obtain ⟨d, hd, rfl⟩ := exists_days n
  rw [date_days hd]

end RecordMapper.Calendar
