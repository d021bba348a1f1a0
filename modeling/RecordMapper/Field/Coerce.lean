import RecordMapper.Field.Basic
import RecordMapper.Word

/-! Turning a caller's or a database's value into the form a field keeps.

Integers widen to 64 bits, integers stand for booleans, text is read as dates and
timestamps, and a date in a timestamp field becomes its midnight. NULL passes. -/
namespace RecordMapper

/-- The day that a text names, in a word. -/
def Value.readDate? (s : String) : Option Value :=
  (Calendar.parseDate? s.toList).map fun day => .date (Int32.ofInt day)

/-- The moment that a text names, in a word. -/
def Value.readTimestamp? (s : String) : Option Value :=
  (Calendar.parseMoment? s.toList).map fun micros => .timestamp (Int64.ofInt micros)

/-- Text that names a value of the kind, or the fault of naming none. -/
def FieldKind.readOr (kind : FieldKind) (s : String) : Option Value → Except FieldFault Value
  | some v => .ok v
  | none => .error (.unreadable s kind.label)

/-- The canonical form of a value of a kind. -/
def FieldKind.coerce (kind : FieldKind) (v : Value) : Except FieldFault Value :=
  match kind, v with
  | _, .null => .ok .null
  | .id _ _, .text s => .ok (.text s)
  | .text _ _ _, .text s => .ok (.text s)
  | .email _ _, .text s => .ok (.text s)
  | .enum _ _, .text s => .ok (.text s)
  | .integer _ _, .int n => .ok (.bigInt n.toInt64)
  | .integer _ _, .bigInt n => .ok (.bigInt n)
  | .boolean, .bool b => .ok (.bool b)
  | .boolean, .int n => .ok (.bool (n ≠ 0))
  | .boolean, .bigInt n => .ok (.bool (n ≠ 0))
  | .date, .date days => .ok (.date days)
  | .date, .text s => kind.readOr s (Value.readDate? s)
  | .timestamp, .timestamp micros => .ok (.timestamp micros)
  | .timestamp, .date days => .ok (.timestamp (Value.midnight days))
  | .timestamp, .text s => kind.readOr s (Value.readTimestamp? s)
  | _, _ => .error (.mismatch kind.label)

/-- The canonical form of a value of a field. -/
def Field.coerce (f : Field) (v : Value) : Except FieldError Value :=
  (f.kind.coerce v).mapError fun fault => ⟨f.name, fault⟩

end RecordMapper
