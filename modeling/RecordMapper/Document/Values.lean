import RecordMapper.Json.Access
import RecordMapper.Value.Encoded

/-! Values in JSON documents. A value may be written plainly, as a null, a boolean, a text
or an integer, which is as narrow as it can be; or it is written with its type. -/
namespace RecordMapper.Document

def value? : Json → Option Value
  | .null => some .null
  | .bool b => some (.bool b)
  | .str s => some (.text s)
  | .int n =>
    match int32? n with
    | some w => some (.int w)
    | none => (int64? n).map .bigInt
  | j => Value.ofJson? j

def values? (j : Json) : Option (List Value) := j.listOf? value?

/-- A name and a value. -/
def pair? (j : Json) : Option (String × Value) := do
  return (← (j.item 0).asText?, ← value? (j.item 1))

def pairs? (j : Json) : Option (List (String × Value)) := j.listOf? pair?

def valuesJson (vs : List Value) : Json := .arr (vs.map Value.toJson)

def pairsJson (pairs : List (String × Value)) : Json :=
  .arr (pairs.map fun p => .arr [.str p.1, p.2.toJson])

end RecordMapper.Document
