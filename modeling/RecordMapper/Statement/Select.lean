import RecordMapper.Condition.Basic

/-! SELECT statements. -/
namespace RecordMapper

/-- A column with the table, or the alias, it belongs to. -/
structure ColumnRef where
  table : String
  column : String
  deriving DecidableEq, Inhabited

def ColumnRef.sql (c : ColumnRef) (d : Dialect) : String := d.qualify c.table c.column

/-! ### Joins -/

inductive JoinKind where
  | inner | left
  deriving DecidableEq, Inhabited

def JoinKind.sql : JoinKind → String
  | inner => "INNER JOIN"
  | left => "LEFT JOIN"

/-- A join of a table where a column of a table joined before equals one of its own. -/
structure Join where
  kind : JoinKind := .left
  table : String
  alias? : Option String := none
  left : ColumnRef
  rightColumn : String
  deriving DecidableEq, Inhabited

namespace Join

/-- The name by which the rest of the statement refers to the joined table. -/
def reference (j : Join) : String := j.alias?.getD j.table

def sql (j : Join) (d : Dialect) : String :=
  let named := match j.alias? with
    | some name => " " ++ d.quoteIdentifier name
    | none => ""
  j.kind.sql ++ " " ++ d.quoteIdentifier j.table ++ named ++ " ON " ++ j.left.sql d ++ " = " ++
    d.qualify j.reference j.rightColumn

end Join

/-! ### Projections and orders -/

/-- A projected expression and the label its column gets. -/
inductive SelectItem where
  /-- A column; enumerations are read as text where they are types of their own. -/
  | column (ref : ColumnRef) (label : String) (isEnum : Bool)
  | expression (sql : String) (label : String)
  deriving DecidableEq, Inhabited

namespace SelectItem

/-- The label of a column: its table and its name. -/
def columnLabel (table column : String) : String := table ++ "." ++ column

def ofColumn (table column : String) (isEnum : Bool) : SelectItem :=
  .column ⟨table, column⟩ (columnLabel table column) isEnum

def label : SelectItem → String
  | column _ label _ => label
  | expression _ label => label

def sql (d : Dialect) : SelectItem → String
  | column ref label isEnum =>
    ref.sql d ++ (if isEnum && d.castsEnums then "::text" else "") ++ " as " ++
      d.quoteIdentifier label
  | expression sql label => sql ++ " AS " ++ d.quoteIdentifier label

end SelectItem

inductive Projection where
  | all
  | count
  | items (list : List SelectItem)
  deriving DecidableEq, Inhabited

def Projection.sql (d : Dialect) : Projection → String
  | all => "*"
  | count => "COUNT(*)"
  | items list => String.intercalate ", " (list.map fun i => i.sql d)

inductive Direction where
  | ascending | descending
  deriving DecidableEq, Inhabited

structure OrderBy where
  ref : ColumnRef
  direction : Direction
  deriving DecidableEq, Inhabited

def OrderBy.sql (o : OrderBy) (d : Dialect) : String :=
  o.ref.sql d ++ match o.direction with
    | .ascending => " ASC"
    | .descending => " DESC"

/-! ### The statement -/

/-- A limit or an offset of zero stands for none. -/
structure SelectQuery where
  projection : Projection := .all
  tables : List String := []
  joins : List Join := []
  filter : Option Condition := none
  groupBy : List ColumnRef := []
  orderBy : List OrderBy := []
  limit : Nat := 0
  offset : Nat := 0
  deriving DecidableEq, Inhabited

/-- A clause of terms separated by commas, left out when there are none. -/
def clause (keyword : String) (terms : List String) : String :=
  if terms.isEmpty then "" else " " ++ keyword ++ " " ++ String.intercalate ", " terms

/-- The condition of a statement, if it has one. -/
def whereClause (d : Dialect) : Option Condition → Fragment
  | some c => .raw " WHERE " ++ c.render d
  | none => {}

namespace SelectQuery

/-- An offset without a limit is given the widest limit where a dialect demands one. -/
def paging (q : SelectQuery) (d : Dialect) : String :=
  let limit :=
    if 0 < q.limit then " LIMIT " ++ Text.ofInt q.limit
    else if 0 < q.offset then
      match d with
      | .sqlite => " LIMIT -1"
      | .mysql => " LIMIT 18446744073709551615"
      | _ => ""
    else ""
  limit ++ if 0 < q.offset then " OFFSET " ++ Text.ofInt q.offset else ""

/-- What stands before the condition. -/
def start (q : SelectQuery) (d : Dialect) : String :=
  "SELECT " ++ q.projection.sql d ++ " FROM " ++ String.intercalate ", " (q.tables.map d.quoteIdentifier) ++
    String.join (q.joins.map fun j => " " ++ j.sql d)

/-- What stands behind the condition. -/
def ending (q : SelectQuery) (d : Dialect) : String :=
  clause "GROUP BY" (q.groupBy.map fun c => c.sql d) ++
    clause "ORDER BY" (q.orderBy.map fun o => o.sql d) ++ q.paging d

def build (q : SelectQuery) (d : Dialect) : Except Error Fragment :=
  if q.tables.isEmpty then .error (.consistency .noTable)
  else .ok (.raw (q.start d) ++ whereClause d q.filter ++ .raw (q.ending d))

end SelectQuery

end RecordMapper
