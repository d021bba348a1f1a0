import RecordMapper.Field.Basic

/-! Models: a table, its fields, and the navigations from its rows to rows of other
models. -/
namespace RecordMapper

/-- A single-valued navigation leads to at most one row, a collection to any number. -/
inductive NavigationKind where
  | single | collection
  deriving DecidableEq, Inhabited

/-- A navigation: the rows of `target` whose `targetField` equals this model's `field`. -/
structure Navigation where
  name : String
  kind : NavigationKind
  field : String
  target : String
  targetField : String
  onDelete : OnDelete
  deriving DecidableEq, Inhabited

def Navigation.isCollection (n : Navigation) : Bool := n.kind = .collection

/-- A model, named like its table. -/
structure Model where
  name : String
  fields : List Field
  navigations : List Navigation := []
  deriving DecidableEq, Inhabited

namespace Model

def table (m : Model) : String := m.name

/-! ### Fields -/

def field? (m : Model) (name : String) : Option Field := m.fields.find? (·.name = name)

def fieldIndex? (m : Model) (name : String) : Option Nat := m.fields.findIdx? (·.name = name)

/-- Looks a field up. -/
def requireField (m : Model) (name : String) : Except Error Field :=
  match m.field? name with
  | some f => .ok f
  | none => .error (.compilation m.name (.unknownField name))

/-- The fields that together identify a row, as declared. -/
def primaryKey (m : Model) : List Field := m.fields.filter (·.primaryKey)

/-- The fields without two equal values, a sole key field included. -/
def uniqueFields (m : Model) : List Field := m.fields.filter (·.unique)

/-- The key field, if the key consists of one. -/
def soleKey? (m : Model) : Option Field :=
  match m.primaryKey with
  | [key] => some key
  | _ => none

/-! ### Navigations -/

def navigation? (m : Model) (name : String) : Option Navigation :=
  m.navigations.find? (·.name = name)

/-- Looks a navigation up. -/
def requireNavigation (m : Model) (name : String) : Except Error Navigation :=
  match m.navigation? name with
  | some n => .ok n
  | none => .error (.compilation m.name (.unknownNavigation name))

end Model

end RecordMapper
