import RecordMapper.Calendar.Window
import RecordMapper.Proofs.Calendar.Text
import RecordMapper.Proofs.Calendar.WordDate

/-! The bounds of the window on the calendar.

The window is computed in words. Around a day that leaves room for it (`Anchors`) it is the exact span from the day
eighty years before to the one eighty years after (`toInt_window`). Both lie on the month and the day of today, but
29 February becomes 28 February in every year, also in those that have a 29 February. Of the years eighty years before
and after a leap year at least one is a leap year too. So the window spans the years between two anniversaries exactly
if today is no 29 February (`spansYears_window_iff`). -/
namespace RecordMapper.Calendar

/-- 29 February. -/
def Date.IsLeapDay (d : Date) : Prop := d.month = 2 ∧ d.day = 29

instance (d : Date) : Decidable d.IsLeapDay := instDecidableAnd

/-- The same month and day in another year; 29 February becomes 28 February where the year has none. -/
def Date.anniversary (d : Date) (year : Int) : Date where
  year := year
  month := d.month
  day := if d.IsLeapDay ∧ isLeap year = false then 28 else d.day

/-- Bounds around a day that lie on its anniversaries eighty years before and after it. -/
structure SpansYears (today : Int32) (bounds : Int32 × Int32) : Prop where
  before : bounds.1 < today
  after : today < bounds.2
  first : date bounds.1.toInt = (date today.toInt).anniversary ((date today.toInt).year - 80)
  last : date bounds.2.toInt = (date today.toInt).anniversary ((date today.toInt).year + 80)

/-! ### Days in other years -/

/-- The same month and day in another year; 29 February always becomes 28 February. -/
def Date.inYear (d : Date) (year : Int) : Date where
  year := year
  month := d.month
  day := if d.IsLeapDay then 28 else d.day

theorem daysInMonth_of_ne {month : Nat} (h : month ≠ 2) (a b : Int) : daysInMonth a month = daysInMonth b month := by
  unfold daysInMonth
  split
  case h_12 => exact absurd rfl h
  all_goals rfl

/-- The day that stands for a valid date in another year is valid. -/
theorem Date.Valid.valid_inYear {d : Date} (h : d.Valid) (year : Int) : (d.inYear year).Valid := by
  obtain ⟨hone, hlast⟩ := h
  have hfebruary : ∀ year, 28 ≤ daysInMonth year 2 ∧ daysInMonth year 2 ≤ 29 := by
    intro year
    have hlength : daysInMonth year 2 = if isLeap year then 29 else 28 := rfl
    rw [hlength]
    split <;> omega
  by_cases hleap : d.IsLeapDay
  · have hday : (d.inYear year).day = 28 := if_pos hleap
    refine ⟨by omega, ?_⟩
    show (d.inYear year).day ≤ (daysInMonth year d.month.toNat : Int)
    rw [hday, hleap.1]
    exact Int.ofNat_le.2 (hfebruary year).1
  · have hday : (d.inYear year).day = d.day := if_neg hleap
    refine ⟨by omega, ?_⟩
    show (d.inYear year).day ≤ (daysInMonth year d.month.toNat : Int)
    rw [hday]
    by_cases hmonth : d.month = 2
    · have hother : d.day ≠ 29 := fun h => hleap ⟨hmonth, h⟩
      have hlong := (hfebruary d.year).2
      have hshort := (hfebruary year).1
      have htwo : d.month.toNat = 2 := by omega
      rw [htwo] at hlast ⊢
      omega
    · rwa [daysInMonth_of_ne (by omega) year d.year]

theorem isLeap_of_isLeapDay {d : Date} (h : d.Valid) (hleap : d.IsLeapDay) : isLeap d.year = true := by
  obtain ⟨hmonth, hday⟩ := hleap
  have hlast := h.2
  rw [hmonth, hday] at hlast
  cases hyear : isLeap d.year with
  | true => rfl
  | false =>
    have hlength : daysInMonth d.year 2 = 28 := if_neg (by simp [hyear])
    have hlast : (29 : Int) ≤ daysInMonth d.year 2 := hlast
    omega

/-- At most one of the two years is a century without a leap day. -/
theorem isLeap_around {year : Int} (h : isLeap year = true) :
    isLeap (year - 80) = true ∨ isLeap (year + 80) = true := by
  simp only [isLeap_iff] at *
  omega

/-- A day in another year is the anniversary, unless both are leap days. -/
theorem Date.inYear_eq_anniversary_iff {d : Date} {year : Int} :
    d.inYear year = d.anniversary year ↔ ¬ (d.IsLeapDay ∧ isLeap year = true) := by
  unfold Date.inYear Date.anniversary
  by_cases hday : d.IsLeapDay
  · cases hyear : isLeap year with
    | false => simp [hday]
    | true => simp [hday, hday.2]
  · simp [hday]

/-! ### The span -/

/-- The days eighty years before and after a day. -/
def span (today : Int) : Int × Int :=
  (days ((date today).inYear ((date today).year - 80)), days ((date today).inYear ((date today).year + 80)))

theorem date_span (today : Int) :
    date (span today).1 = (date today).inYear ((date today).year - 80) ∧
      date (span today).2 = (date today).inYear ((date today).year + 80) :=
  ⟨date_days ((valid_date today).valid_inYear _), date_days ((valid_date today).valid_inYear _)⟩

theorem span_around (today : Int) : (span today).1 < today ∧ today < (span today).2 := by
  have hvalid := valid_date today
  have hbefore : (span today).1 < days (date today) :=
    days_lt (hvalid.valid_inYear _) hvalid (.inl (show (date today).year - 80 < _ by omega))
  have hafter : days (date today) < (span today).2 :=
    days_lt hvalid (hvalid.valid_inYear _) (.inl (show _ < (date today).year + 80 by omega))
  rw [days_date] at hbefore hafter
  exact ⟨hbefore, hafter⟩

/-- The bounds of the span are within eighty years of 365 days, and as many leap days as these can have. -/
theorem span_near (today : Int) : today - 29221 ≤ (span today).1 ∧ (span today).2 ≤ today + 29221 := by
  have hvalid := valid_date today
  have hcount := days_eq hvalid
  rw [days_date] at hcount
  have hbounds : ∀ year, days ((date today).inYear year) =
      yearStart ((date today).inYear year).marchYear + ((date today).inYear year).dayOfYear - 719468 := fun year =>
    days_eq (hvalid.valid_inYear year)
  have hmonth : ∀ year, ((date today).inYear year).marchYear = (date today).marchYear + (year - (date today).year) := by
    intro year
    simp only [Date.marchYear, Date.inYear]
    split <;> omega
  have hday : ∀ year, (date today).dayOfYear - 1 ≤ ((date today).inYear year).dayOfYear ∧
      ((date today).inYear year).dayOfYear ≤ (date today).dayOfYear := by
    intro year
    have hleap : ((date today).IsLeapDay ∧ ((date today).inYear year).day = 28) ∨
        ((date today).inYear year).day = (date today).day := by
      unfold Date.inYear
      split
      · next h => exact .inl ⟨h, rfl⟩
      · exact .inr rfl
    have hmarch : ((date today).inYear year).marchMonth = (date today).marchMonth := rfl
    unfold Date.dayOfYear
    rw [hmarch]
    rcases hleap with ⟨⟨-, hleap⟩, h⟩ | h <;> omega
  have hfirst := hday ((date today).year - 80)
  have hlast := hday ((date today).year + 80)
  unfold span
  rw [hbounds, hbounds, hmonth, hmonth]
  unfold yearStart at *
  omega

/-- Where the years around a day have four digits, so have the years of its span. -/
theorem short_of_span {today day : Int} (hyear : 80 ≤ (date today).year ∧ (date today).year ≤ 9919)
    (h : (span today).1 ≤ day ∧ day ≤ (span today).2) : (date day).Short := by
  have hvalid := valid_date day
  have hfirst := (valid_date today).valid_inYear ((date today).year - 80)
  have hlast := (valid_date today).valid_inYear ((date today).year + 80)
  refine ⟨hvalid, Int.not_lt.1 fun hlow => ?_, Int.not_le.1 fun hhigh => ?_⟩
  · have hbefore := days_lt hvalid hfirst (.inl (show _ < (date today).year - 80 by omega))
    rw [days_date] at hbefore
    exact absurd h.1 (Int.not_le.2 hbefore)
  · have hafter := days_lt hlast hvalid (.inl (show (date today).year + 80 < _ by omega))
    rw [days_date] at hafter
    exact absurd h.2 (Int.not_le.2 hafter)

/-! ### The window -/

/-- A day with room for its window: the days before 1970 can be added to it, and the bounds fit. -/
structure Anchors (today : Int32) : Prop where
  dated : today.toInt + 719468 ≤ 2147483647
  first : FitsWord (span today.toInt).1
  last : FitsWord (span today.toInt).2

/-- Only at the ends of the words is there no room. -/
theorem anchors_of_le {today : Int32} (h : -2147454427 ≤ today.toInt ∧ today.toInt ≤ 2146764179) : Anchors today := by
  have hnear := span_near today.toInt
  have haround := span_around today.toInt
  exact ⟨by omega, ⟨by omega, by omega⟩, ⟨by omega, by omega⟩⟩

theorem Date.Valid.words_inYear {d : Date} (h : d.Valid) {year : Int} (hfits : FitsWord (days (d.inYear year))) :
    d.words.inYear (Int32.ofInt year) = Int32.ofInt (days (d.inYear year)) := by
  have hmonth := h.month
  have hday := h.day
  have hleap : d.words.month = 2 ∧ d.words.day = 29 ↔ d.IsLeapDay :=
    and_congr (forall_small (P := fun k => UInt32.ofInt k = 2 ↔ k = 2) (by decide) ⟨by omega, by omega⟩)
      (forall_small (P := fun k => UInt32.ofInt k = 29 ↔ k = 29) (by decide) ⟨by omega, by omega⟩)
  have hwords : (d.inYear year).words =
      ⟨Int32.ofInt year, d.words.month, if d.words.month = 2 ∧ d.words.day = 29 then 28 else d.words.day⟩ := by
    simp only [hleap]
    simp only [Date.words, Date.inYear, apply_ite UInt32.ofInt]
    rfl
  rw [← (h.valid_inYear year).days_words hfits, hwords, WordDate.inYear]

/-- Around a day with room for it, the window is the exact span. -/
theorem toInt_window {today : Int32} (h : Anchors today) :
    (window today).1.toInt = (span today.toInt).1 ∧ (window today).2.toInt = (span today.toInt).2 := by
  have hvalid := valid_date today.toInt
  have hyears : (date today.toInt).words.year - windowYears = Int32.ofInt ((date today.toInt).year - 80) ∧
      (date today.toInt).words.year + windowYears = Int32.ofInt ((date today.toInt).year + 80) :=
    ⟨(Int32.ofInt_sub (date today.toInt).year 80).symm, (Int32.ofInt_add (date today.toInt).year 80).symm⟩
  unfold window
  dsimp only
  rw [WordDate.ofDays_eq h.dated, hyears.1, hyears.2, hvalid.words_inYear h.first, hvalid.words_inYear h.last]
  exact ⟨toInt_ofInt h.first, toInt_ofInt h.last⟩

/-- The bounds lie on the month and the day of today, eighty years before and after it, but on 28 February if today is
29 February. These are the anniversaries exactly if today is no 29 February. -/
theorem spansYears_window_iff (today : Int32) (h : Anchors today) :
    (window today).1 < today ∧ today < (window today).2 ∧
    date (window today).1.toInt = ⟨(date today.toInt).year - 80, (date today.toInt).month,
      if (date today.toInt).IsLeapDay then 28 else (date today.toInt).day⟩ ∧
    date (window today).2.toInt = ⟨(date today.toInt).year + 80, (date today.toInt).month,
      if (date today.toInt).IsLeapDay then 28 else (date today.toInt).day⟩ ∧
    (SpansYears today (window today) ↔ ¬ (date today.toInt).IsLeapDay) := by
  obtain ⟨hfirst, hlast⟩ := toInt_window h
  obtain ⟨hbefore, hafter⟩ := span_around today.toInt
  obtain ⟨hdateFirst, hdateLast⟩ := date_span today.toInt
  rw [← hfirst] at hbefore hdateFirst
  rw [← hlast] at hafter hdateLast
  have hbefore : (window today).1 < today := Int32.lt_iff_toInt_lt.2 hbefore
  have hafter : today < (window today).2 := Int32.lt_iff_toInt_lt.2 hafter
  refine ⟨hbefore, hafter, hdateFirst, hdateLast, fun hspans hday => ?_, fun hday => ?_⟩
  · have hyearFirst := Date.inYear_eq_anniversary_iff.1 (hdateFirst.symm.trans hspans.first)
    have hyearLast := Date.inYear_eq_anniversary_iff.1 (hdateLast.symm.trans hspans.last)
    rcases isLeap_around (isLeap_of_isLeapDay (valid_date _) hday) with hyear | hyear
    · exact hyearFirst ⟨hday, hyear⟩
    · exact hyearLast ⟨hday, hyear⟩
  · have hsame : ∀ year, (date today.toInt).inYear year = (date today.toInt).anniversary year := fun _ =>
      Date.inYear_eq_anniversary_iff.2 fun h => hday h.1
    exact ⟨hbefore, hafter, hdateFirst.trans (hsame _), hdateLast.trans (hsame _)⟩

/-- The window around 12 October 2022 reaches from that day of 1942, before 1970, to that of 2102. -/
theorem spansYears_window_october :
    Anchors 19277 ∧ window 19277 = (-9943, 48496) ∧ ¬ (date (19277 : Int32).toInt).IsLeapDay ∧
    SpansYears 19277 (window 19277) := by
  have hanchors : Anchors 19277 := anchors_of_le (by decide)
  have hday : ¬ (date (19277 : Int32).toInt).IsLeapDay := by decide
  obtain ⟨-, -, -, -, hspans⟩ := spansYears_window_iff 19277 hanchors
  exact ⟨hanchors, by decide +kernel, hday, hspans.2 hday⟩

/-- Around 29 February 2000 the window reaches from 28 February 1920 to 28 February 2080, though both are leap years. -/
theorem not_spansYears_leapDay :
    date 11016 = ⟨2000, 2, 29⟩ ∧ isLeap 1920 = true ∧ isLeap 2080 = true ∧
    window 11016 = (-18205, 40235) ∧ date (-18205) = ⟨1920, 2, 28⟩ ∧ date 40235 = ⟨2080, 2, 28⟩ ∧
    ¬ SpansYears 11016 (window 11016) := by
  have hwindow : window 11016 = (-18205, 40235) := by decide +kernel
  refine ⟨by decide, by decide, by decide, hwindow, by decide, by decide, fun h => ?_⟩
  exact absurd h.first (by decide +kernel)

end RecordMapper.Calendar
