import RecordMapper.Error
import RecordMapper.Value.Basic

/-! Rows of a query's result, and reading typed values from them. -/
namespace RecordMapper

structure Row where
  columns : List String
  values : List Value
  deriving DecidableEq, Inhabited

/-- How values of a type are read: the name under which the type is asked for, the name
under which a value of another type is refused, and the reading itself. -/
structure Decoder (α : Type) where
  typeName : String
  refusalName : String
  read : Value → Option α

namespace Decoder

def bool : Decoder Bool := ⟨"bool", "bool", Value.asBool?⟩
def int64 : Decoder Int := ⟨"i64", "i64", Value.asInteger?⟩

/-- Integers that are not negative. -/
def uint64 : Decoder Nat :=
  ⟨"u64", "u64", fun v => v.asInteger?.bind fun n => if 0 ≤ n then some n.toNat else none⟩

def text : Decoder String := ⟨"text", "text", Value.asText?⟩

/-- Any value as it is. -/
def value : Decoder Value := ⟨"value", "value", some⟩

/-- NULL as a missing value, under a type name of its own. -/
def optional {α : Type} (typeName : String) (d : Decoder α) : Decoder (Option α) :=
  ⟨typeName, d.refusalName, fun v => if v.isNull then some none else (d.read v).map some⟩

/-- Reads a value, naming the column it comes from if that is known. -/
def decode {α : Type} (d : Decoder α) (column : Option String) (v : Value) : Except Error α :=
  match d.read v with
  | some a => .ok a
  | none => .error (.type d.refusalName v.typeName column)

end Decoder

/-- The last position of a name. -/
def lastIndex? (name : String) : List String → Option Nat
  | [] => none
  | c :: rest =>
    match lastIndex? name rest with
    | some i => some (i + 1)
    | none => if c = name then some 0 else none

namespace Row

def size (r : Row) : Nat := r.values.length

/-- The value of a column by position. -/
def get? (r : Row) (index : Nat) : Option Value := r.values[index]?

/-- The value of a column by name; of columns with one name the last counts. -/
def named? (r : Row) (name : String) : Option Value := (lastIndex? name r.columns).bind r.get?

/-- Reads a column by position. -/
def read {α : Type} (r : Row) (d : Decoder α) (index : Nat) : Except Error α :=
  match r.get? index with
  | some v => d.decode none v
  | none =>
    .error (.type d.typeName
      ("index " ++ Text.ofInt index ++ " out of bounds (row has " ++ Text.ofInt r.size ++ " columns)")
      none)

/-- Reads a column by name. -/
def readNamed {α : Type} (r : Row) (d : Decoder α) (name : String) : Except Error α :=
  match r.named? name with
  | some v => d.decode (some name) v
  | none => .error (.type d.typeName ("column '" ++ name ++ "' not found") (some name))

end Row

end RecordMapper
