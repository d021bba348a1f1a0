import RecordMapper.Document.Names
import RecordMapper.Json.Access
import RecordMapper.Model.Registry
import RecordMapper.Pattern.Reader
import RecordMapper.Word

/-! Fields, models and registries as JSON documents. -/
namespace RecordMapper.Document

/-! ### Reading -/

/-- A field of one of the usual types, without its options. -/
def plainField? (j : Json) : Option Field := do
  let name ← j.text? "name"
  match ← j.text? "type" with
  | "id" => return .id name
  | "short_id" => return .shortId name
  | "name" => return .title name
  | "email" => return .email name
  | "phone" => return .phone name
  | "hash" => return .hash name
  | "slug" => return .slug name
  | "hex_color" => return .hexColor name
  | "postcode" => return .postcode name
  | "price" => return .price name
  | "boolean" => return .boolean name
  | "date" => return .date name
  | "timestamp" => return .timestamp name
  | "id_with" => return .idOf name (← j.nat? "length") (← j.text? "pool")
  | "text" => return .text name (← j.nat? "min") (← j.nat? "max")
  | "int" => return .int name (← j.int? "min") (← j.int? "max")
  | "enumeration" =>
    return .enumeration name (← j.text? "enum") (← j.list? "variants" Json.asText?)
  | "email_with" => return .emailWithin name (← j.nat? "min") (← j.nat? "max")
  | "pattern" =>
    return .patterned name (← j.nat? "min") (← j.nat? "max") (← j.text? "pattern") false
  | _ => none

def field? (j : Json) : Option Field := do
  let f ← plainField? j
  let search ← j.textOrNull? "search"
  return { f with
    primaryKey := ← j.boolOr? "pk" f.primaryKey
    unique := ← j.boolOr? "unique" f.unique
    required := !(← j.boolOr? "optional" (!f.required))
    searchWeight := search.bind fun s => s.toList.head?
    embeddable := ← j.boolOr? "embeddable" f.embeddable }

def navigation? (j : Json) : Option NavigationDecl := do
  let name ← j.text? "name"
  let target ← j.text? "target"
  let decl ← match ← j.text? "type" with
    | "single" => pure (.single name (← j.text? "field") target (← j.text? "target_field"))
    | "to_primary" => pure (.toPrimary name (← j.text? "field") target)
    | "collection" => pure (.collection name (← j.text? "field") target (← j.text? "target_field"))
    | "from_primary" => pure (.fromPrimary name target (← j.text? "target_field"))
    | _ => none
  match ← j.textOrNull? "on_delete" with
  | some action => return {decl with onDelete := ← named? deletions action}
  | none => return decl

def model? (j : Json) : Option ModelDecl := do
  return { name := ← j.text? "name"
           fields := ← j.list? "fields" field?
           navigations := ← j.list? "navs" navigation? }

/-- The day that anchors the dates of documents that name none: 12 October 2022. -/
def defaultToday : Int32 := 19277

def today? (j : Json) : Option Int32 :=
  ((j.get "today").orNull? fun j => j.asInt?.bind int32?).map (·.getD defaultToday)

/-- A registry, built from the declarations of a document. -/
def registry? (j : Json) : Option (Except Error Registry) := do
  return Registry.build (Pattern.rules (← today? j)) (← j.list? "models" model?)

/-! ### Writing -/

def fieldJson (f : Field) : Json :=
  .obj [("name", .str f.name), ("label", .str f.kind.label),
    ("mismatch", .str (FieldFault.mismatch f.kind.label).message),
    ("ordered", .bool f.kind.isOrdered), ("is_enum", .bool f.isEnum),
    ("sql_type", .str f.kind.sqlType), ("required", .bool f.required),
    ("primary_key", .bool f.primaryKey), ("unique", .bool f.unique),
    ("search", .ofOption (fun c => .str (String.singleton c)) f.searchWeight),
    ("embeddable", .bool f.embeddable)]

def navigationJson (n : Navigation) : Json :=
  .obj [("name", .str n.name), ("kind", .str (if n.isCollection then "Collection" else "Single")),
    ("collection", .bool n.isCollection), ("field", .str n.field), ("target", .str n.target),
    ("target_field", .str n.targetField), ("on_delete", .str n.onDelete.sql)]

/-- A model, and the navigations of others that lead to it. -/
def modelJson (r : Registry) (m : Model) : Json :=
  .obj [("name", .str m.name), ("table", .str m.table), ("fields", .arr (m.fields.map fieldJson)),
    ("primary_key", .ofTexts (m.primaryKey.map (·.name))),
    ("unique", .ofTexts (m.uniqueFields.map (·.name))),
    ("navigations", .arr (m.navigations.map navigationJson)),
    ("dependents", .arr ((r.dependents m.name).map fun d => .ofTexts [d.1.name, d.2.name]))]

end RecordMapper.Document
