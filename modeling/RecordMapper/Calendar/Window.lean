import RecordMapper.Calendar.WordDate

/-! The window of accepted dates: eighty years to either side of a day. -/
namespace RecordMapper.Calendar

def windowYears : Int32 := 80

/-- The same month and day in another year; 29 February always becomes 28 February. -/
def WordDate.inYear (date : WordDate) (year : Int32) : Int32 :=
  days ⟨year, date.month, if date.month = 2 ∧ date.day = 29 then 28 else date.day⟩

/-- The first and the last accepted day around `today`. -/
def window (today : Int32) : Int32 × Int32 :=
  let anchor := WordDate.ofDays today
  (anchor.inYear (anchor.year - windowYears), anchor.inYear (anchor.year + windowYears))

end RecordMapper.Calendar
