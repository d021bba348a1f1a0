import RecordMapper.Calendar.Text
import RecordMapper.Json.Printer
import RecordMapper.Word

/-! Dynamic values: what a field can hold, what is bound to a statement, and what a
row returns. -/
namespace RecordMapper

/-- Dates count days and timestamps microseconds from the start of 1970. -/
inductive Value where
  | null
  | bool (b : Bool)
  | int (n : Int32)
  | bigInt (n : Int64)
  | text (s : String)
  | date (days : Int32)
  | timestamp (micros : Int64)
  | json (document : Json)
  deriving DecidableEq, Inhabited

namespace Value

def isNull : Value → Bool
  | null => true
  | _ => false

/-- The name of a value's type in messages. -/
def typeName : Value → String
  | null => "NULL"
  | bool _ => "BOOLEAN"
  | int _ => "INTEGER"
  | bigInt _ => "BIGINT"
  | text _ => "TEXT"
  | date _ => "DATE"
  | timestamp _ => "TIMESTAMP"
  | json _ => "JSON"

/-! ### Readings -/

/-- Booleans, and integers as "not zero". -/
def asBool? : Value → Option Bool
  | bool b => some b
  | int n => some (n ≠ 0)
  | bigInt n => some (n ≠ 0)
  | _ => none

/-- Integers of either width. -/
def asInteger? : Value → Option Int
  | int n => some n.toInt
  | bigInt n => some n.toInt
  | _ => none

def asText? : Value → Option String
  | text s => some s
  | _ => none

/-! ### Native values -/

def ofInt16 (n : Int16) : Value := int n.toInt32
def ofUInt32 (n : UInt32) : Value := bigInt (Int64.ofInt (Int.ofNat n.toNat))

/-- A missing value is NULL. -/
def ofOption {α : Type} (present : α → Value) : Option α → Value
  | some a => present a
  | none => null

/-! ### Comparison -/

/-- The moment a day starts, in a word of 64 bits. -/
def midnight (days : Int32) : Int64 := Int64.ofInt (Calendar.startOfDay days.toInt)

/-- Whether the start of a day fits its word. -/
def hasMidnight (days : Int32) : Bool := (int64? (Calendar.startOfDay days.toInt)).isSome

/-- Orders two values of compatible types: integers across widths, a date among
moments as its midnight. There is no order with NULL or between incompatible types,
and documents are only equal or not comparable. -/
def compare? : Value → Value → Option Ordering
  | bool a, bool b => some (compare a b)
  | text a, text b => some (compare a b)
  | date a, date b => some (compare a.toInt b.toInt)
  | timestamp a, timestamp b => some (compare a.toInt b.toInt)
  | date a, timestamp b => some (compare (midnight a).toInt b.toInt)
  | timestamp a, date b => some (compare a.toInt (midnight b).toInt)
  | json a, json b => if a.equal b then some .eq else none
  | a, b =>
    match a.asInteger?, b.asInteger? with
    | some m, some n => some (compare m n)
    | _, _ => none

/-- Whether two values are the same: of one type and equal in it. Doubles inside
documents are compared as numbers. -/
def equal : Value → Value → Bool
  | json a, json b => a.equal b
  | a, b => a = b

/-! ### Text -/

/-- The value as plain text; NULL is empty. -/
def plainText : Value → String
  | null => ""
  | bool b => if b then "true" else "false"
  | int n => Text.ofInt n.toInt
  | bigInt n => Text.ofInt n.toInt
  | text s => s
  | date days => String.ofList (Calendar.dateText days.toInt)
  | timestamp micros => String.ofList (Calendar.momentText micros.toInt)
  | json document => document.text

/-- The value as it is shown: plain text, and NULL by its name. -/
def displayText : Value → String
  | null => "NULL"
  | other => other.plainText

end Value

end RecordMapper
