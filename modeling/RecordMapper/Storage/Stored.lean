import RecordMapper.Decimal
import RecordMapper.Text.Utf8
import RecordMapper.Value.Basic
import RecordMapper.Word

/-! What a database cell holds, and how values become cells and cells values again.

There are five storage classes. Booleans are stored as 0 and 1, and dates, moments and
documents as their text. A cell does not tell which of them it was made from: it is read
by its storage class, and a field brings the result into its own form. -/
namespace RecordMapper.Storage

inductive Stored where
  | null
  | integer (n : Int64)
  | real (x : Float)
  | text (s : String)
  | blob (bytes : List Nat)
  deriving Inhabited

namespace Stored

/-- The cell that a value is stored in. -/
def ofValue : Value → Stored
  | .null => null
  | .bool b => integer (if b then 1 else 0)
  | .int n => integer n.toInt64
  | .bigInt n => integer n
  | v => text v.plainText

/-- The value read from a cell: an integer as narrow as it can be, a real cut to a whole
number, and bytes as text. -/
def toValue : Stored → Value
  | null => .null
  | integer n =>
    match int32? n.toInt with
    | some w => .int w
    | none => .bigInt n
  | real x => .bigInt (int64Saturated (Decimal.truncated x))
  | text s => .text s
  | blob bytes => .text (Text.ofUtf8 bytes)

/-- A value as a column of texts stores it; NULL stays NULL. -/
def columnText : Value → Option String
  | .null => none
  | .bool b => some (if b then "1" else "0")
  | v => some v.plainText

end Stored

end RecordMapper.Storage
