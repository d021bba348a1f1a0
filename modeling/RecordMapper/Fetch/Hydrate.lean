import RecordMapper.Attempt
import RecordMapper.Fetch.Plan
import RecordMapper.Json.Parser
import RecordMapper.Row

/-! Building instances from the rows of a fetch.

Each column is found by its label and brought into the form of its field; the elements
of a document are read in the same way from its members. Every instance built is given
to a keeper, which may keep it or answer with one it already has, and the targets are
attached to the root it answered with. Reading and keeping alternate, so what was kept
before a fault stays kept. -/
namespace RecordMapper

/-- What a fetch does with the instances it builds. -/
structure Keeper (σ : Type) where
  /-- Takes an instance and names the one to use in its place. -/
  resolve : Instance → Attempt σ Handle
  /-- Changes an instance it has named. -/
  modify : Handle → (Instance → Instance) → σ → σ

/-- The cell of a field that a committed value fills. -/
def Field.loaded (f : Field) (column : String) (v : Value) : Except Error Cell :=
  match f.kind.coerce v with
  | .ok w => .ok (({field := f} : Cell).settled w)
  | .error _ => .error (.type f.kind.label v.typeName (some column))

/-- A document's number as an integer if a word of 64 bits holds it. -/
def Json.toValue : Json → Value
  | .null => .null
  | .bool b => .bool b
  | .str s => .text s
  | .int n =>
    match int64? n with
    | some w => .bigInt w
    | none => .json (.int n)
  | other => .json other

namespace FetchPlan

/-! ### Columns -/

/-- The cell of a field from the column with a label. -/
def columnCell (row : Row) (label : Field → String) (f : Field) : Except Error Cell :=
  match row.named? (label f) with
  | some v => f.loaded (label f) v
  | none => .error (.type f.kind.label "missing column" (some (label f)))

/-- An instance whose fields are columns of the row. -/
def columnInstance (row : Row) (m : Model) (label : Field → String) : Except Error Instance := do
  return {model := m, cells := ← m.fields.mapM (columnCell row label)}

/-- A join without match leaves NULL in every column, so also in those of the key. -/
def isAbsent (row : Row) (j : Joined) : Bool :=
  j.target.primaryKey.all fun f => (row.named? (j.columnLabel f)).all Value.isNull

/-- The target of a single-valued navigation, if there is one. -/
def singleInstance (row : Row) (j : Joined) : Except Error (Option Instance) :=
  if isAbsent row j then .ok none
  else (columnInstance row j.target j.columnLabel).map some

/-! ### Documents -/

/-- The document of a collection: a document, or its text. None stands for an empty one. -/
def documentOf (row : Row) (label : String) : Except Error Json :=
  match row.named? label with
  | some (.json document) => .ok document
  | some (.text s) =>
    match Json.parse? s with
    | some document => .ok document
    | none => .error (.serialization "the text is no JSON document")
  | some .null => .ok (.arr [])
  | none => .ok (.arr [])
  | some other => .error (.type "json" other.typeName (some label))

/-- The elements of a collection's document. -/
def elementsOf (row : Row) (label : String) : Except Error (List Json) := do
  match ← documentOf row label with
  | .arr elements => return elements
  | other => throw (.type "json array" other.kind (some label))

/-- The cell of a field from a member of an object; a missing member is NULL. -/
def memberCell (members : List (String × Json)) (label : String) (j : Joined) (f : Field) :
    Except Error Cell :=
  let key := j.columnLabel f
  let v := match KeyedList.get? key members with
    | some json => json.toValue
    | none => .null
  f.loaded (label ++ "[" ++ key ++ "]") v

/-- An instance whose fields are members of an element. -/
def elementInstance (label : String) (j : Joined) : Json → Except Error Instance
  | .obj members => do
    return {model := j.target, cells := ← j.target.fields.mapM (memberCell members label j)}
  | other => throw (.type "json object" other.kind (some label))

/-! ### Rows -/

variable {σ : Type}

/-- Takes the target of a single-valued navigation and attaches it. -/
def hydrateSingle (keeper : Keeper σ) (row : Row) (root : Handle) (j : Joined) : Attempt σ Unit := do
  let target ← match ← Attempt.ofExcept (singleInstance row j) with
    | some i => some <$> keeper.resolve i
    | none => pure none
  modify (keeper.modify root fun i => i.attachSingle j.navigation.name target)

/-- Takes the targets of a collection and attaches them. -/
def hydrateCollection (p : FetchPlan) (keeper : Keeper σ) (row : Row) (root : Handle) (j : Joined) :
    Attempt σ Unit := do
  let label := p.documentLabel j
  let elements ← Attempt.ofExcept (elementsOf row label)
  let targets ← Attempt.collect elements fun element => do
    keeper.resolve (← Attempt.ofExcept (elementInstance label j element))
  modify (keeper.modify root fun i => i.attachCollection j.navigation.name targets)

/-- Takes the root of a row and then the targets of its navigations. -/
def hydrate (p : FetchPlan) (keeper : Keeper σ) (row : Row) : Attempt σ Handle := do
  let root ← keeper.resolve (← Attempt.ofExcept (columnInstance row p.root p.rootLabel))
  Attempt.forEach p.singles (hydrateSingle keeper row root)
  Attempt.forEach p.collections (p.hydrateCollection keeper row root)
  return root

end FetchPlan

end RecordMapper
