import RecordMapper.Classifier
import RecordMapper.Document.Names
import RecordMapper.Json.Access

/-! Errors as JSON documents. -/
namespace RecordMapper.Document

def fieldErrorJson (e : FieldError) : Json :=
  .obj [("field", .str e.field), ("kind", .str (nameOf fieldRules e.fault.rule)),
    ("message", .str e.fault.message)]

def errorJson (e : Error) : Json :=
  let message := ("message", Json.str e.message)
  match e with
  | .validation errors =>
    .obj [("error", .str "Validation"), ("fields", .arr (errors.map fieldErrorJson)), message]
  | .compilation model fault =>
    .obj [("error", .str "Compilation"), ("kind", .str (nameOf modelRules fault.rule)),
      ("model", .str model), message]
  | .notFound model sql =>
    .obj [("error", .str "NotFound"), ("model", .str model), ("sql", .ofOption .str sql), message]
  | .multipleRows model count =>
    .obj [("error", .str "MultipleRows"), ("model", .str model), ("count", .ofNat count), message]
  | .database f =>
    .obj [("error", .str "Database"), ("code", .str (nameOf databaseCodes f.code)),
      ("state", .ofOption .str f.state), ("sql", .ofOption .str f.sql), message]
  | .consistency fault =>
    .obj [("error", .str "Consistency"), ("kind", .str (nameOf sessionRules fault.rule)), message]
  | .type expected actual column =>
    .obj [("error", .str "Type"), ("expected", .str expected), ("actual", .str actual),
      ("column", .ofOption .str column), message]
  | .serialization _ => .obj [("error", .str "Serialization"), message]

/-! ### Reading -/

/-- A fault of a field with a rule and a wording of its own. -/
def fieldFault? (rule message : String) : Option FieldFault := do
  return .stated (← named? fieldRules rule) message

def error? (j : Json) : Option Error := do
  match ← j.text? "kind" with
  | "NotFound" => return .notFound (← j.text? "model") (← j.textOrNull? "sql")
  | "MultipleRows" => return .multipleRows (← j.text? "model") (← j.nat? "count")
  | "Database" =>
    return .database { code := ← named? databaseCodes (← j.text? "code")
                       state := ← j.textOrNull? "state"
                       message := ← j.text? "message"
                       sql := ← j.textOrNull? "sql" }
  | "Type" => return .type (← j.text? "expected") (← j.text? "actual") (← j.textOrNull? "column")
  | "Compilation" =>
    return .compilation (← j.text? "model")
      (.stated (← named? modelRules (← j.text? "sub")) (← j.text? "message"))
  | "Consistency" =>
    return .consistency (.stated (← named? sessionRules (← j.text? "sub")) (← j.text? "message"))
  | "Serialization" => return .serialization (← j.text? "message")
  | "Field" =>
    return .ofField ⟨← j.text? "field", ← fieldFault? (← j.text? "sub") (← j.text? "message")⟩
  | _ => none

/-- A table of states: a base and entries added to it. -/
def classifier? (j : Json) : Option Classifier := do
  let base := match ← j.text? "base" with
    | "postgres" => Classifier.postgres
    | "sqlite" => Classifier.sqlite
    | _ => Classifier.empty
  (← (j.get "with").asList?).foldlM (fun c entry => do
    return c.add (← (entry.item 0).asText?) (← named? databaseCodes (← (entry.item 1).asText?))) base

end RecordMapper.Document
