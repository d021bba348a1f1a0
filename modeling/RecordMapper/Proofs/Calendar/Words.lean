import RecordMapper.Proofs.Calendar.Civil
import RecordMapper.Word

/-! The calendar in words of 32 bits.

The conversions are computed with words, and a step whose result is no word has none (`dateInWords?`,
`daysInWords?`). For a count up to the last word less the days before 1970 no step leaves the words, neither on the
way to the date nor on the way back (`date_inWords`); after that the first step does (`dateInWords?_eq`). Days that
follow each other have dates that do (`date_next`). -/
namespace RecordMapper.Calendar

/-! ### The next day -/

/-- The day after a date. -/
def Date.next (d : Date) : Date :=
  if d.day < daysInMonth d.year d.month.toNat then {d with day := d.day + 1}
  else if d.month < 12 then ⟨d.year, d.month + 1, 1⟩
  else ⟨d.year + 1, 1, 1⟩

theorem daysInMonth_pos (year : Int) (month : Nat) (h : 1 ≤ month ∧ month ≤ 12) : 1 ≤ daysInMonth year month := by
  unfold daysInMonth
  split <;> grind

theorem daysInMonth_le (year : Int) (month : Nat) : daysInMonth year month ≤ 31 := by
  unfold daysInMonth
  split <;> grind

theorem Date.Valid.day {d : Date} (h : d.Valid) : 1 ≤ d.day ∧ d.day ≤ 31 :=
  ⟨h.1, Int.le_trans h.2 (Int.ofNat_le.2 (daysInMonth_le _ _))⟩

theorem Date.Valid.next {d : Date} (h : d.Valid) : d.next.Valid := by
  have hmonth := h.month
  obtain ⟨hone, hlast⟩ := h
  unfold Date.next
  split
  · next hday => exact ⟨Int.le_add_one hone, hday⟩
  · split
    · have hlength := daysInMonth_pos d.year (d.month + 1).toNat (by omega)
      exact ⟨Int.le_refl 1, Int.ofNat_le.2 hlength⟩
    · have hlength : (1 : Int) ≤ 31 := by decide
      exact ⟨Int.le_refl 1, hlength⟩

/-- The count goes on by one. -/
theorem days_next {d : Date} (h : d.Valid) : days d.next = days d + 1 := by
  rw [days_eq h, days_eq h.next]
  have hmonth := h.month_cases
  obtain ⟨hone, hlast⟩ := h
  obtain ⟨year, month, day⟩ := d
  unfold Date.next
  split
  · simp only [Date.dayOfYear, Date.marchYear, Date.marchMonth]
    omega
  · next hday =>
    rcases hmonth with rfl | rfl | rfl | rfl | rfl | rfl | rfl | rfl | rfl | rfl | rfl | rfl
    case inr.inl =>
      -- The year from March ends with February.
      have hend : day = 29 ∧ isLeap year = true ∨ day = 28 ∧ ¬isLeap year = true := by
        by_cases hleap : isLeap year = true <;> simp [daysInMonth, hleap] at hlast hday ⊢ <;> omega
      rw [isLeap_iff] at hend
      simp [Date.dayOfYear, Date.marchYear, Date.marchMonth, monthStart, yearStart]
      omega
    all_goals
      simp [daysInMonth] at hlast hday
      simp [Date.dayOfYear, Date.marchYear, Date.marchMonth, monthStart]
      omega

/-- The date after that of a day. -/
theorem date_next (n : Int) : date (n + 1) = (date n).next := by
  have hvalid := valid_date n
  rw [← date_days hvalid.next, days_next hvalid, days_date]

/-! ### Steps in words -/

/-- An integer that a word of 32 bits holds. -/
def FitsWord (n : Int) : Prop := -2147483648 ≤ n ∧ n ≤ 2147483647

/-- The result of a step, if a word holds it. -/
def word? (n : Int) : Option Int := (int32? n).map Int32.toInt

/-- The same without a sign. -/
def unsigned? (n : Int) : Option Int := if 0 ≤ n then word? n else none

theorem word?_of_fits {n : Int} (h : FitsWord n) : word? n = some n := by
  obtain ⟨hfirst, hlast⟩ := h
  rw [word?, int32?, if_pos ⟨hfirst, hlast⟩, Option.map_some, Int32.toInt_ofInt_of_le hfirst (by omega)]

theorem word?_bind {α : Type} {n : Int} (h : FitsWord n) (f : Int → Option α) : (word? n >>= f) = f n := by
  rw [word?_of_fits h]
  rfl

theorem word?_eq_none {n : Int} (h : ¬FitsWord n) : word? n = none := by
  rw [word?, int32?, if_neg fun hfits => h ⟨hfits.1, hfits.2⟩]
  rfl

theorem unsigned?_bind {α : Type} {n : Int} (hn : 0 ≤ n) (h : FitsWord n) (f : Int → Option α) :
    (unsigned? n >>= f) = f n := by
  rw [unsigned?, if_pos hn, word?_bind h]

/-! ### The conversions in words -/

/-- The date of a count, computed in words. A quotient by more than one is a word where its dividend is, and of two
branches only the one that is taken has to fit. -/
def dateInWords? (days : Int) : Option Date := do
  let shifted ← word? (days + 719468)
  let eraDividend ← word? (if 0 ≤ shifted then shifted else shifted - 146096)
  let era := eraDividend.tdiv 146097
  let eraStart ← word? (era * 146097)
  let dayOfEra ← word? (shifted - eraStart)
  let lessCycles ← word? (dayOfEra - dayOfEra.tdiv 1460)
  let withCenturies ← word? (lessCycles + dayOfEra.tdiv 36524)
  let leapless ← word? (withCenturies - dayOfEra.tdiv 146096)
  let yearOfEra := leapless.tdiv 365
  let eraYear ← word? (era * 400)
  let year ← word? (yearOfEra + eraYear)
  let plainStart ← word? (365 * yearOfEra)
  let leapStart ← word? (plainStart + yearOfEra.tdiv 4)
  let yearStart ← word? (leapStart - yearOfEra.tdiv 100)
  let dayOfYear ← word? (dayOfEra - yearStart)
  let fifths ← word? (5 * dayOfYear)
  let monthDividend ← word? (fifths + 2)
  let month := monthDividend.tdiv 153
  let monthFifths ← word? (153 * month)
  let startDividend ← word? (monthFifths + 2)
  let dayBefore ← word? (dayOfYear - startDividend.tdiv 5)
  let day ← word? (dayBefore + 1)
  let civilDay ← unsigned? day
  let shiftedMonth ← word? (if month < 10 then month + 3 else month - 9)
  let civilMonth ← unsigned? shiftedMonth
  let civilYear ← word? (if civilMonth ≤ 2 then year + 1 else year)
  return ⟨civilYear, civilMonth, civilDay⟩

/-- The count of a date, computed in words. -/
def daysInWords? (d : Date) : Option Int := do
  let year ← word? (if d.month ≤ 2 then d.year - 1 else d.year)
  let eraDividend ← word? (if 0 ≤ year then year else year - 399)
  let era := eraDividend.tdiv 400
  let eraYear ← word? (era * 400)
  let yearOfEra ← word? (year - eraYear)
  let civilMonth ← word? d.month
  let month ← word? (if 2 < civilMonth then civilMonth - 3 else civilMonth + 9)
  let monthFifths ← word? (153 * month)
  let startDividend ← word? (monthFifths + 2)
  let civilDay ← word? d.day
  let dayAfter ← word? (startDividend.tdiv 5 + civilDay)
  let dayOfYear ← word? (dayAfter - 1)
  let plainStart ← word? (yearOfEra * 365)
  let leapStart ← word? (plainStart + yearOfEra.tdiv 4)
  let yearStart ← word? (leapStart - yearOfEra.tdiv 100)
  let dayOfEra ← word? (yearStart + dayOfYear)
  let eraStart ← word? (era * 146097)
  let shifted ← word? (eraStart + dayOfEra)
  word? (shifted - 719468)

/-! ### Within the words -/

theorem tdiv_between {n k : Int} (hn : 0 ≤ n) (hk : 0 ≤ k) : 0 ≤ n.tdiv k ∧ n.tdiv k ≤ n :=
  ⟨Int.tdiv_nonneg hn hk, Int.tdiv_le_self _ hn⟩

namespace LiesAt

variable {n era year day month : Int}

/-- A year and a month have no more days than fit in. -/
theorem bounds (h : LiesAt n era year day month) :
    day < 366 ∧ month < 12 ∧ 0 ≤ monthStart month ∧ 0 ≤ yearStart year := by
  obtain ⟨-, hinEra, hinYear, hfrom, hinMonth⟩ := h
  unfold yearStart monthStart at *
  omega

theorem dateInWords? (h : LiesAt n era year day month) (hfirst : -2147483648 ≤ n) (hlast : n + 719468 ≤ 2147483647) :
    dateInWords? n = some (date n) := by
  obtain ⟨hday, hmonth, hmonthStart, hyearStart⟩ := h.bounds
  have hdayOfEra := h.dayOfEra
  obtain ⟨hcount, hinEra, ⟨hfirstDay, -⟩, hfrom, ⟨hinMonth, -⟩⟩ := id h
  have hdayOfYear : yearStart year + day - yearStart year = day := by omega
  have hcycles := tdiv_between (k := 1460) hdayOfEra.1 (by decide)
  have hcenturies := tdiv_between (k := 36524) hdayOfEra.1 (by decide)
  have heras := tdiv_between (k := 146096) hdayOfEra.1 (by decide)
  have hleaps := tdiv_between (k := 4) hinEra.1 (by decide)
  have hcommon := tdiv_between (k := 100) hinEra.1 (by decide)
  unfold Calendar.dateInWords?
  dsimp only
  -- the era and the day in it
  rw [word?_bind ⟨by omega, by omega⟩, word?_bind ⟨by omega, by omega⟩, h.era_eq, word?_bind ⟨by omega, by omega⟩,
    word?_bind ⟨by omega, by omega⟩, h.dayOfEra_eq]
  -- the year of the era and where it starts
  rw [word?_bind ⟨by omega, by omega⟩, word?_bind ⟨by omega, by omega⟩, word?_bind ⟨by omega, by omega⟩,
    h.yearOfEra_eq, word?_bind ⟨by omega, by omega⟩, word?_bind ⟨by omega, by omega⟩, word?_bind ⟨by omega, by omega⟩,
    word?_bind ⟨by omega, by omega⟩, word?_bind ⟨by omega, by omega⟩, h.yearStart_eq]
  -- the month of the year and where it starts
  rw [word?_bind ⟨by omega, by omega⟩, hdayOfYear, word?_bind ⟨by omega, by omega⟩, word?_bind ⟨by omega, by omega⟩,
    h.month_eq, word?_bind ⟨by omega, by omega⟩, word?_bind ⟨by omega, by omega⟩, h.monthStart_eq]
  -- the date
  rw [word?_bind ⟨by omega, by omega⟩, word?_bind ⟨by omega, by omega⟩, unsigned?_bind (by omega) ⟨by omega, by omega⟩,
    word?_bind ⟨by omega, by omega⟩, unsigned?_bind (by omega) ⟨by omega, by omega⟩, word?_bind ⟨by omega, by omega⟩,
    h.date_eq]
  rfl

end LiesAt

theorem Date.Valid.daysInWords? {d : Date} (h : d.Valid) (hfirst : -2147483648 ≤ days d)
    (hlast : days d + 719468 ≤ 2147483647) : daysInWords? d = some (days d) := by
  have hlies := h.liesAt
  obtain ⟨hday, hmonth, hmonthStart, hyearStart⟩ := hlies.bounds
  have hdayOfEra := hlies.dayOfEra
  obtain ⟨hcount, hinEra, ⟨hfirstDay, -⟩, hfrom, -⟩ := id hlies
  have hera : (if 0 ≤ d.marchYear then d.marchYear else d.marchYear - 399).tdiv 400 = d.marchYear / 400 :=
    tdiv_eraDividend _ (by decide) rfl
  obtain ⟨year, hyear⟩ : ∃ year, d.marchYear - d.marchYear / 400 * 400 = year := ⟨_, rfl⟩
  rw [hyear] at hlies hyearStart hdayOfEra hcount hinEra
  have hyears : year * 365 + year.tdiv 4 - year.tdiv 100 = yearStart year := by
    rw [← hlies.yearStart_eq, Int.mul_comm]
  have hcivilMonth := h.month
  have hcivilDay := h.1
  have hdayOfYear : monthStart d.marchMonth + d.day - 1 = d.dayOfYear := rfl
  have hcount' : d.marchYear / 400 * 146097 + (yearStart year + d.dayOfYear) - 719468 = days d := by omega
  have hleaps := tdiv_between (k := 4) hinEra.1 (by decide)
  have hcommon := tdiv_between (k := 100) hinEra.1 (by decide)
  unfold Calendar.daysInWords?
  dsimp only
  show (word? d.marchYear >>= _) = _
  -- the era and the year in it
  rw [word?_bind ⟨by omega, by omega⟩, word?_bind ⟨by omega, by omega⟩, hera, word?_bind ⟨by omega, by omega⟩,
    word?_bind ⟨by omega, by omega⟩, hyear]
  -- the month and the day of the year
  rw [word?_bind ⟨by omega, by omega⟩]
  show (word? d.marchMonth >>= _) = _
  rw [word?_bind ⟨by omega, by omega⟩, word?_bind ⟨by omega, by omega⟩, word?_bind ⟨by omega, by omega⟩,
    hlies.monthStart_eq, word?_bind ⟨by omega, by omega⟩, word?_bind ⟨by omega, by omega⟩,
    word?_bind ⟨by omega, by omega⟩, hdayOfYear]
  -- the day of the era, and the count
  rw [word?_bind ⟨by omega, by omega⟩, word?_bind ⟨by omega, by omega⟩, word?_bind ⟨by omega, by omega⟩, hyears,
    word?_bind ⟨by omega, by omega⟩, word?_bind ⟨by omega, by omega⟩, word?_bind ⟨by omega, by omega⟩, hcount',
    word?_of_fits ⟨by omega, by omega⟩]

/-- Months and days are small enough to stand for themselves without a sign. -/
theorem toInt_toInt32_ofInt {k : Int} (hk : 0 ≤ k ∧ k ≤ 31) : (UInt32.ofInt k).toInt32.toInt = k := by
  obtain ⟨k, rfl⟩ := Int.eq_ofNat_of_zero_le hk.1
  have hall : ∀ k : Fin 32, (UInt32.ofInt k).toInt32.toInt = k := by decide
  exact hall ⟨k, by omega⟩

theorem Date.Valid.daysOfWords {d : Date} (h : d.Valid) :
    daysOfWords d.year (UInt32.ofInt d.month) (UInt32.ofInt d.day) = days d := by
  have hmonth := h.month
  have hday := h.day
  rw [Calendar.daysOfWords, toInt_toInt32_ofInt ⟨by omega, by omega⟩, toInt_toInt32_ofInt ⟨by omega, by omega⟩]
  exact congrArg (fun year => days ⟨year, d.month, d.day⟩) (if_neg (by omega))

/-- The first step is the only one that can leave the words. -/
theorem dateInWords?_eq {n : Int} (h : FitsWord n) :
    dateInWords? n = if n + 719468 ≤ 2147483647 then some (date n) else none := by
  split
  · next hlast =>
    have hlies := (valid_date n).liesAt
    rw [days_date] at hlies
    exact hlies.dateInWords? h.1 hlast
  · next hlast =>
    rw [dateInWords?, word?_eq_none fun hfits => hlast hfits.2]
    rfl

/-- A count of days that is a word, and stays one when the days from year 0 to 1970 are added, has a valid date. The
date is found, and the count found again, without leaving the words, and the next count has the next date. -/
theorem date_inWords (n : Int32) (h : n.toInt ≤ 2147483647 - 719468) :
    dateInWords? n.toInt = some (date n.toInt) ∧ (date n.toInt).Valid ∧
      daysInWords? (date n.toInt) = some n.toInt ∧
      daysOfWords (date n.toInt).year (UInt32.ofInt (date n.toInt).month) (UInt32.ofInt (date n.toInt).day) = n.toInt ∧
      (n.toInt + 1 ≤ 2147483647 - 719468 → dateInWords? (n.toInt + 1) = some (date n.toInt).next) := by
  have hfirst : -2147483648 ≤ n.toInt := Int32.le_toInt n
  have hvalid := valid_date n.toInt
  have hcount := days_date n.toInt
  refine ⟨?_, hvalid, ?_, hvalid.daysOfWords.trans hcount, fun hnext => ?_⟩
  · rw [dateInWords?_eq ⟨hfirst, by omega⟩, if_pos (by omega)]
  · rw [hvalid.daysInWords? (by omega) (by omega), hcount]
  · rw [dateInWords?_eq ⟨by omega, by omega⟩, if_pos (by omega), date_next]

/-- The first count of all. -/
theorem date_inWords_minValue :
    Int32.minValue.toInt ≤ 2147483647 - 719468 ∧ date Int32.minValue.toInt = ⟨-5877641, 6, 23⟩ ∧
      dateInWords? Int32.minValue.toInt = some ⟨-5877641, 6, 23⟩ ∧
      daysInWords? ⟨-5877641, 6, 23⟩ = some Int32.minValue.toInt ∧
      dateInWords? (Int32.minValue.toInt + 1) = some ⟨-5877641, 6, 24⟩ := by
  have hle : Int32.minValue.toInt ≤ 2147483647 - 719468 := by decide
  have hdate : date Int32.minValue.toInt = ⟨-5877641, 6, 23⟩ := by decide
  obtain ⟨hwords, -, hback, -, hnext⟩ := date_inWords Int32.minValue hle
  rw [hdate] at hwords hback hnext
  exact ⟨hle, hdate, hwords, hback, hnext (by decide)⟩

end RecordMapper.Calendar
