import RecordMapper.Calendar.Civil
import RecordMapper.Text.Digits

/-! Dates and times as text: `yyyy-MM-dd`, and `yyyy-MM-dd HH:mm:ss` for moments,
which are counted in microseconds since the start of 1970. -/
namespace RecordMapper.Calendar

def microsPerSecond : Int := 1000000
def secondsPerDay : Int := 86400

/-- The microseconds from the start of 1970 to the start of a day. -/
def startOfDay (days : Int) : Int := days * secondsPerDay * microsPerSecond

/-! ### Reading -/

/-- Reads four digits, two and two between hyphens that name a day of the calendar. -/
def parseDate? (s : List Char) : Option Int :=
  match s.splitOn '-' with
  | [y, m, d] => do
    let year ← Text.fixed? 4 y
    let month ← Text.fixed? 2 m
    let day ← Text.fixed? 2 d
    if day = 0 ∨ daysInMonth year month < day then none else some (days ⟨year, month, day⟩)
  | _ => none

/-- Reads two digits each for hour, minute and second, as seconds since midnight. -/
def parseTime? (s : List Char) : Option Int :=
  match s.splitOn ':' with
  | [h, m, s] => do
    let hour ← Text.fixed? 2 h
    let minute ← Text.fixed? 2 m
    let second ← Text.fixed? 2 s
    if 23 < hour ∨ 59 < minute ∨ 59 < second then none
    else some (hour * 3600 + minute * 60 + second)
  | _ => none

def isDateEnd (c : Char) : Bool := c = ' ' || c = 'T'

/-- Reads a date, a space or `T`, and a time; a date alone is its midnight. -/
def parseMoment? (s : List Char) : Option Int := do
  let day ← parseDate? (s.takeWhile (!isDateEnd ·))
  let seconds ← match s.dropWhile (!isDateEnd ·) with
    | [] => some 0
    | _ :: time => parseTime? time
  return startOfDay day + seconds * microsPerSecond

/-! ### Writing -/

def dateText (day : Int) : List Char :=
  let d := date day
  Text.padded 4 d.year ++ '-' :: Text.padded 2 d.month ++ '-' :: Text.padded 2 d.day

/-- The time of day, given in seconds since midnight. -/
def timeText (seconds : Int) : List Char :=
  Text.padded 2 (seconds / 3600) ++ ':' :: Text.padded 2 (seconds % 3600 / 60) ++
    ':' :: Text.padded 2 (seconds % 60)

/-- The whole second in which a moment lies. -/
def wholeSecond (micros : Int) : Int := micros / microsPerSecond

/-- The day on which a moment lies. -/
def dayOf (micros : Int) : Int := wholeSecond micros / secondsPerDay

def momentText (micros : Int) : List Char :=
  dateText (dayOf micros) ++ ' ' :: timeText (wholeSecond micros % secondsPerDay)

end RecordMapper.Calendar
