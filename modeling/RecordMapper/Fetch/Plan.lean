import RecordMapper.Model.Registry
import RecordMapper.Statement.Select

/-! Fetching a model together with rows its navigations lead to, in one SELECT.

A single-valued navigation becomes a join whose columns stand beside those of the root. A
collection becomes a join whose rows are folded into one document per root. A joined
table is referred to by its name, or by the name of the navigation when the table is
already part of the statement. -/
namespace RecordMapper

/-- Asks for one more navigation of a model; none may be asked for twice. -/
def include? (m : Model) (included : List Navigation) (name : String) :
    Except Error (List Navigation) := do
  let n ← m.requireNavigation name
  if included.any (·.name = n.name) then throw (.compilation m.name (.includedTwice name))
  return included ++ [n]

/-- A navigation, the model it leads to, and the name that refers to the joined table. -/
structure Joined where
  navigation : Navigation
  target : Model
  reference : String
  deriving DecidableEq, Inhabited

namespace Joined

def isCollection (j : Joined) : Bool := j.navigation.isCollection

/-- The label of a column of the joined table. -/
def columnLabel (j : Joined) (f : Field) : String := SelectItem.columnLabel j.reference f.name

def join (j : Joined) (root : Model) : Join :=
  { table := j.target.table
    alias? := if j.reference = j.target.table then none else some j.reference
    left := ⟨root.table, j.navigation.field⟩
    rightColumn := j.navigation.targetField }

/-- The column that is NULL where no row was joined. -/
def presentColumn (j : Joined) : String :=
  match j.target.primaryKey with
  | key :: _ => key.name
  | [] => j.navigation.targetField

/-- The document of all joined rows. -/
def document (j : Joined) (d : Dialect) : String :=
  d.aggregate (j.target.fields.map fun f => ⟨j.columnLabel f, d.qualify j.reference f.name⟩)
    (d.qualify j.reference j.presentColumn)

end Joined

structure FetchPlan where
  root : Model
  joined : List Joined
  deriving DecidableEq, Inhabited

namespace FetchPlan

/-- Joins navigations in turn to tables referred to by the names in `used`. -/
def joinAll (r : Registry) (used : List String) : List Navigation → Except Error (List Joined)
  | [] => .ok []
  | n :: rest => do
    let target ← r.model n.target
    let reference := if target.table ∈ used then n.name else target.table
    let more ← joinAll r (reference :: used) rest
    return ⟨n, target, reference⟩ :: more

/-- The plan for a model with the included navigations. -/
def make (r : Registry) (root : Model) (included : List Navigation) : Except Error FetchPlan := do
  return ⟨root, ← joinAll r [root.table] included⟩

def singles (p : FetchPlan) : List Joined := p.joined.filter fun j => !j.isCollection
def collections (p : FetchPlan) : List Joined := p.joined.filter fun j => j.isCollection
def hasIncludes (p : FetchPlan) : Bool := !p.joined.isEmpty

/-- The label of a column of the root. -/
def rootLabel (p : FetchPlan) (f : Field) : String := SelectItem.columnLabel p.root.table f.name

/-- The label of a collection's document. -/
def documentLabel (p : FetchPlan) (j : Joined) : String :=
  SelectItem.columnLabel p.root.name j.navigation.name

/-- The columns of the root, those of the single targets, then the documents. -/
def items (p : FetchPlan) (d : Dialect) : List SelectItem :=
  p.root.fields.map (fun f => .ofColumn p.root.table f.name f.isEnum) ++
  p.singles.flatMap (fun j => j.target.fields.map fun f => .ofColumn j.reference f.name f.isEnum) ++
  p.collections.map (fun j => .expression (j.document d) (p.documentLabel j))

/-- The keys of the root and the single targets, by which rows are grouped when there
are documents to fold. -/
def groupKeys (p : FetchPlan) : List ColumnRef :=
  if p.collections.isEmpty then []
  else
    p.root.primaryKey.map (fun f => ⟨p.root.table, f.name⟩) ++
    p.singles.flatMap fun j => j.target.primaryKey.map fun f => ⟨j.reference, f.name⟩

/-- The SELECT without condition, order and paging. -/
def select (p : FetchPlan) (d : Dialect) : SelectQuery :=
  { projection := .items (p.items d)
    tables := [p.root.table]
    joins := (p.singles ++ p.collections).map fun j => j.join p.root
    groupBy := p.groupKeys }

/-- Counts the rows of the root; what is included does not matter. -/
def count (p : FetchPlan) : SelectQuery := {projection := .count, tables := [p.root.table]}

end FetchPlan

end RecordMapper
