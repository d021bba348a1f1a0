/-! The proleptic Gregorian calendar as a count of days since 1970-01-01.

Both conversions count years from March, so that the leap day comes last, in eras of
400 years. Each keeps its intermediate results in a record: `FromDate` for a date
turned into a day count, `FromDays` for the way back. -/
namespace RecordMapper.Calendar

/-- A year, a month and a day of the month. -/
structure Date where
  year : Int
  month : Int
  day : Int
  deriving DecidableEq, Repr

def isLeap (year : Int) : Bool := (year % 4 = 0 && year % 100 ≠ 0) || year % 400 = 0

/-- The number of days of a month; there are none in a month that does not exist. -/
def daysInMonth (year : Int) (month : Nat) : Nat :=
  match month with
  | 1 | 3 | 5 | 7 | 8 | 10 | 12 => 31
  | 4 | 6 | 9 | 11 => 30
  | 2 => if isLeap year then 29 else 28
  | _ => 0

/-! ### From a date to days -/

/-- The steps from a date to its day count. -/
structure FromDate where
  /-- The year counted from March. -/
  year : Int
  /-- The year, moved down in negative eras so that truncation finds the era. -/
  eraDividend : Int
  era : Int
  eraStart : Int
  yearOfEra : Int
  /-- Months since March. -/
  month : Int
  monthDays : Int
  dayOfYear : Int
  eraDays : Int
  dayOfEra : Int
  days : Int

def FromDate.of (date : Date) : FromDate :=
  let year := if date.month ≤ 2 then date.year - 1 else date.year
  let eraDividend := if 0 ≤ year then year else year - 399
  let era := eraDividend.tdiv 400
  let yearOfEra := year - era * 400
  let month := if 2 < date.month then date.month - 3 else date.month + 9
  let monthDays := 153 * month + 2
  let dayOfYear := monthDays.tdiv 5 + date.day - 1
  let dayOfEra := yearOfEra * 365 + yearOfEra.tdiv 4 - yearOfEra.tdiv 100 + dayOfYear
  { year, eraDividend, era, eraStart := era * 400, yearOfEra, month, monthDays, dayOfYear
    eraDays := era * 146097, dayOfEra, days := era * 146097 + dayOfEra - 719468 }

/-- The days from 1970-01-01 to a date. Months and days outside the calendar are
computed with as they stand. -/
def days (date : Date) : Int := (FromDate.of date).days

/-- The days to a date whose month and day are words of 32 bits. A word with its top bit set
stands for a negative number. As a month it still counts as one after February, so that it
is taken from the year itself and not from the year before. -/
def daysOfWords (year : Int) (month day : UInt32) : Int :=
  let signedMonth := month.toInt32.toInt
  let year := if signedMonth < 0 then year + 1 else year
  days ⟨year, signedMonth, day.toInt32.toInt⟩

/-! ### From days to a date -/

/-- The steps from a day count to its date. -/
structure FromDays where
  /-- Days since 1 March of year 0. -/
  shifted : Int
  eraDividend : Int
  era : Int
  eraStart : Int
  dayOfEra : Int
  /-- The day of the era with the leap days before it taken out. -/
  leapless : Int
  yearOfEra : Int
  year : Int
  yearStart : Int
  dayOfYear : Int
  monthDividend : Int
  /-- Months since March. -/
  month : Int
  monthStart : Int
  date : Date

def FromDays.of (days : Int) : FromDays :=
  let shifted := days + 719468
  let eraDividend := if 0 ≤ shifted then shifted else shifted - 146096
  let era := eraDividend.tdiv 146097
  let dayOfEra := shifted - era * 146097
  let leapless := dayOfEra - dayOfEra.tdiv 1460 + dayOfEra.tdiv 36524 - dayOfEra.tdiv 146096
  let yearOfEra := leapless.tdiv 365
  let year := yearOfEra + era * 400
  let yearStart := 365 * yearOfEra + yearOfEra.tdiv 4 - yearOfEra.tdiv 100
  let dayOfYear := dayOfEra - yearStart
  let monthDividend := 5 * dayOfYear + 2
  let month := monthDividend.tdiv 153
  let monthStart := (153 * month + 2).tdiv 5
  let civilMonth := if month < 10 then month + 3 else month - 9
  { shifted, eraDividend, era, eraStart := era * 146097, dayOfEra, leapless, yearOfEra, year
    yearStart, dayOfYear, monthDividend, month, monthStart
    date :=
      { year := if civilMonth ≤ 2 then year + 1 else year
        month := civilMonth
        day := dayOfYear - monthStart + 1 } }

/-- The date that lies `days` after 1970-01-01. -/
def date (days : Int) : Date := (FromDays.of days).date

end RecordMapper.Calendar
