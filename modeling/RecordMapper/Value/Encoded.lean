import RecordMapper.Json.Parser
import RecordMapper.Value.Basic
import RecordMapper.Word

/-! The tagged form of values in JSON, and the key text of a tuple of values.

A value is written as an object with one member, named for its type; NULL is the bare
name. `ofJson?` also takes NULL as an object. The key text of a tuple is the compact
text of the list of its values in this form. -/
namespace RecordMapper.Value

def toJson : Value → Json
  | null => .str "Null"
  | bool b => .obj [("Bool", .bool b)]
  | int n => .obj [("Int", .int n.toInt)]
  | bigInt n => .obj [("BigInt", .int n.toInt)]
  | text s => .obj [("Text", .str s)]
  | date days => .obj [("Date", .int days.toInt)]
  | timestamp micros => .obj [("Timestamp", .int micros.toInt)]
  | json document => .obj [("Json", document)]

/-- The value of one tag and what it carries. Numbers must be integers in range. -/
def ofTag? (tag : String) (content : Json) : Option Value :=
  match tag, content with
  | "Null", .null => some null
  | "Bool", .bool b => some (bool b)
  | "Int", .int n => (int32? n).map int
  | "BigInt", .int n => (int64? n).map bigInt
  | "Text", .str s => some (text s)
  | "Date", .int n => (int32? n).map date
  | "Timestamp", .int n => (int64? n).map timestamp
  | "Json", document => some (json document.tidy)
  | _, _ => none

/-- The value of a document as written, members in their order. -/
def ofJson? : Json → Option Value
  | .str s => if s = "Null" then some null else none
  | .obj [(tag, content)] => ofTag? tag content
  | _ => none

/-- Reads the JSON text of a value. -/
def decode? (s : String) : Option Value := (Json.parseRaw? s).bind ofJson?

/-- The text under which a tuple of values is filed. -/
def keyText (values : List Value) : String := (Json.arr (values.map toJson)).text

end RecordMapper.Value
