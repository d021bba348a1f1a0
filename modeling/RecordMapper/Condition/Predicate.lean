import RecordMapper.Condition.Basic
import RecordMapper.Field.Check

/-! Predicates and their compilation.

A predicate names fields by text and carries any values. `compile` resolves it against a
model: it finds the fields, brings every literal into its field's form and checks it,
and decides which literals are written into the SQL text. The first fault from the left
is reported. -/
namespace RecordMapper

inductive Predicate where
  | compare (field : String) (op : Operator) (value : Value)
  | combine (left : Predicate) (logic : Connective) (right : Predicate)
  deriving DecidableEq, Inhabited

namespace Predicate

def and (a b : Predicate) : Predicate := combine a .and b
def or (a b : Predicate) : Predicate := combine a .or b

/-- A field equal to a value. -/
def equals (field : String) (value : Value) : Predicate := compare field .eq value

def isNull (field : String) : Predicate := compare field .eq .null
def isNotNull (field : String) : Predicate := compare field .ne .null

end Predicate

/-- The text that a literal of a kind is inlined as. -/
def FieldKind.inlineText? (kind : FieldKind) (v : Value) : Option String :=
  match kind with
  | .integer _ _ => v.asInteger?.map Text.ofInt
  | .boolean => v.asBool?.map fun b => if b then "true" else "false"
  | _ => v.sqlLiteral?

/-- How a coerced literal of a field is written. -/
def Field.literal (f : Field) (v : Value) : Literal :=
  match f.kind.inlineText? v with
  | some sql => if f.embeddable then .inlined sql else .bound
  | none => .bound

namespace Condition

/-- Equality with NULL asks whether a field is NULL; only optional fields can be. -/
def compileNull (m : Model) (f : Field) (op : Operator) : Except Error Condition :=
  if op.isRelational then .error (.compilation m.name (.nullOperator op f.name))
  else if f.required then .error (.ofField ⟨f.name, .isNull⟩)
  else .ok (nullCheck m.name f.name (op = .ne))

/-- One comparison of a field with a literal. -/
def compileLeaf (m : Model) (rules : Rules) (name : String) (op : Operator) (v : Value) :
    Except Error Condition := do
  let f ← m.requireField name
  if v.isNull then compileNull m f op
  else if op.isRelational && !f.kind.isOrdered then
    throw (.compilation m.name (.unsupportedOperator op f.name))
  else
    let v ← (f.coerce v).mapError .ofField
    (f.check rules v).mapError .ofField
    return comparison m.name f.name op v (f.literal v)

/-- The condition that a predicate is on the rows of a model. -/
def compile (m : Model) (rules : Rules) : Predicate → Except Error Condition
  | .compare field op value => compileLeaf m rules field op value
  | .combine left logic right => do
    let left ← compile m rules left
    let right ← compile m rules right
    return combination left logic right

/-- The predicate that the key fields equal a key, joined from the left. -/
def keyPredicate? (fields : List Field) (key : List Value) : Option Predicate :=
  match List.zipWith (fun (f : Field) v => Predicate.equals f.name v) fields key with
  | [] => none
  | first :: rest => some (rest.foldl Predicate.and first)

/-- The condition that the primary key equals `key`. -/
def compileKey (m : Model) (rules : Rules) (key : List Value) : Except Error Condition :=
  match keyPredicate? m.primaryKey key with
  | some p => compile m rules p
  | none => .error (.compilation m.name .noPrimaryKey)

end Condition

end RecordMapper
