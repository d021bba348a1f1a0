import RecordMapper.Calendar.Window
import RecordMapper.Field.Basic
import RecordMapper.Pattern.Engine
import RecordMapper.Text.Blank

/-! The rules that coerced values are checked against.

`fault?` gives the first rule that a value breaks. Lengths count characters. Dates and
moments must lie in the window around a day, a moment by the microseconds from the start
of the first accepted day to the end of the last one. -/
namespace RecordMapper

/-- What the rules of all fields rest on: the day that anchors the window of accepted
dates, and the engine that reads patterns. -/
structure Rules where
  today : Int32
  engine : PatternEngine
  deriving Inhabited

/-- Whether a text has the length that the bounds ask for; equal bounds ask for one length. -/
def lengthFault? (length min max : Nat) : Option FieldFault :=
  if min = max ∧ length ≠ min then some (.lengthNot min)
  else if length < min then some (.shorterThan min)
  else if max < length then some (.longerThan max)
  else none

/-- One `@` with text before it and, after it, at least two parts between points, none
of them empty; no white space. -/
def isEmail (s : List Char) : Bool :=
  let host := (s.dropWhile (· ≠ '@')).drop 1
  !s.any Text.isBlank && s.contains '@' && !(s.takeWhile (· ≠ '@')).isEmpty &&
    !host.contains '@' && host.contains '.' && (host.splitOn '.').all fun part => !part.isEmpty

/-- Whether a number lies between two bounds, given beside the days they stand for. -/
def windowFault? (value : Int) (bounds : Int × Int) (window : Int32 × Int32) : Option FieldFault :=
  if value < bounds.1 then some (.beforeDay window.1.toInt)
  else if bounds.2 < value then some (.afterDay window.2.toInt)
  else none

/-- The first and the last microsecond of a window, in words of 64 bits. -/
def momentsOf (window : Int32 × Int32) : Int64 × Int64 :=
  (Value.midnight window.1, Value.midnight (window.2 + 1) - 1)

/-- The first rule of a kind that a value breaks. -/
def FieldKind.fault? (kind : FieldKind) (rules : Rules) (v : Value) : Option FieldFault :=
  match kind, v with
  | .id length pool, .text s =>
    if s.length ≠ length then some (.lengthNot length)
    else (s.toList.find? fun c => !pool.toList.contains c).map .strayCharacter
  | .text min max pattern, .text s =>
    match lengthFault? s.length min max with
    | some fault => some fault
    | none => pattern.bind fun p => if rules.engine.accepts p s then none else some (.unmatched p)
  | .email min max, .text s =>
    match lengthFault? s.length min max with
    | some fault => some fault
    | none => if isEmail s.toList then none else some .notEmail
  | .integer min max, v =>
    match v.asInteger? with
    | some n =>
      if n < min then some (.lessThan min)
      else if max < n then some (.greaterThan max)
      else none
    | none => some (.mismatch kind.label)
  | .boolean, .bool _ => none
  | .enum typeName variants, .text s =>
    if variants.contains s then none else some (.noVariant s typeName)
  | .date, .date days =>
    let window := Calendar.window rules.today
    windowFault? days.toInt (window.1.toInt, window.2.toInt) window
  | .timestamp, .timestamp micros =>
    let window := Calendar.window rules.today
    let bounds := momentsOf window
    windowFault? micros.toInt (bounds.1.toInt, bounds.2.toInt) window
  | kind, _ => some (.mismatch kind.label)

/-- The first rule of a field that a value breaks. NULL suits exactly the fields that
may be left out. -/
def Field.fault? (f : Field) (rules : Rules) (v : Value) : Option FieldFault :=
  if v.isNull then if f.required then some .isNull else none
  else f.kind.fault? rules v

/-- Checks a coerced value. -/
def Field.check (f : Field) (rules : Rules) (v : Value) : Except FieldError Unit :=
  match f.fault? rules v with
  | some fault => .error ⟨f.name, fault⟩
  | none => .ok ()

end RecordMapper
