import RecordMapper.Calendar.Civil

/-! The calendar in machine words.

Both conversions are computed in words of 32 bits, and a step that leaves the words wraps
around. The month and the day of a date have no sign. -/
namespace RecordMapper.Calendar

/-- A date in words. -/
structure WordDate where
  year : Int32
  month : UInt32
  day : UInt32
  deriving DecidableEq, Repr

namespace WordDate

/-- The days from 1970-01-01 to a date. -/
def days (date : WordDate) : Int32 :=
  let year := if date.month ≤ 2 then date.year - 1 else date.year
  let era := (if 0 ≤ year then year else year - 399) / 400
  let yearOfEra := year - era * 400
  let signedMonth := date.month.toInt32
  let month := if 2 < signedMonth then signedMonth - 3 else signedMonth + 9
  let dayOfYear := (153 * month + 2) / 5 + date.day.toInt32 - 1
  let dayOfEra := yearOfEra * 365 + yearOfEra / 4 - yearOfEra / 100 + dayOfYear
  era * 146097 + dayOfEra - 719468

/-- The date that lies `days` after 1970-01-01. -/
def ofDays (days : Int32) : WordDate :=
  let shifted := days + 719468
  let era := (if 0 ≤ shifted then shifted else shifted - 146096) / 146097
  let dayOfEra := shifted - era * 146097
  let leapless := dayOfEra - dayOfEra / 1460 + dayOfEra / 36524 - dayOfEra / 146096
  let yearOfEra := leapless / 365
  let year := yearOfEra + era * 400
  let dayOfYear := dayOfEra - (365 * yearOfEra + yearOfEra / 4 - yearOfEra / 100)
  let month := (5 * dayOfYear + 2) / 153
  let day := dayOfYear - (153 * month + 2) / 5 + 1
  let civilMonth := (if month < 10 then month + 3 else month - 9).toUInt32
  { year := if civilMonth ≤ 2 then year + 1 else year
    month := civilMonth
    day := day.toUInt32 }

end WordDate

end RecordMapper.Calendar
