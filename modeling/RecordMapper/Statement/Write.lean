import RecordMapper.Statement.Select

/-! INSERT, UPDATE and DELETE statements. -/
namespace RecordMapper

/-- A column and the value written to it. -/
structure Assignment where
  column : String
  value : Value
  isEnum : Bool
  deriving DecidableEq, Inhabited

namespace Assignment

/-- The written value: NULL and cast variants stand in the text, all else is bound. -/
def valueFragment (a : Assignment) (table : String) (d : Dialect) : Fragment :=
  match a.value with
  | .null => .raw "NULL"
  | .text variant =>
    if a.isEnum && d.castsEnums then .raw (d.enumLiteral table a.column variant)
    else .param a.value
  | v => .param v

/-- The column and its value as a term of a SET clause. -/
def setFragment (a : Assignment) (table : String) (d : Dialect) : Fragment :=
  .raw (d.quoteIdentifier a.column ++ " = ") ++ a.valueFragment table d

end Assignment

structure InsertQuery where
  table : String
  values : List Assignment
  deriving DecidableEq, Inhabited

structure UpdateQuery where
  table : String
  assignments : List Assignment
  filter : Option Condition
  deriving DecidableEq, Inhabited

structure DeleteQuery where
  table : String
  filter : Option Condition
  deriving DecidableEq, Inhabited

/-- What stands before the values. -/
def InsertQuery.start (q : InsertQuery) (d : Dialect) : String :=
  "INSERT INTO " ++ d.quoteIdentifier q.table ++ " (" ++
    String.intercalate ", " (q.values.map fun a => d.quoteIdentifier a.column) ++ ") VALUES ("

def InsertQuery.build (q : InsertQuery) (d : Dialect) : Except Error Fragment :=
  if q.table.isEmpty then .error (.consistency .noTable)
  else if q.values.isEmpty then .error (.consistency .noColumns)
  else
    .ok (.raw (q.start d) ++ .joined ", " (q.values.map fun a => a.valueFragment q.table d) ++ .raw ")")

def UpdateQuery.build (q : UpdateQuery) (d : Dialect) : Except Error Fragment :=
  if q.table.isEmpty then .error (.consistency .noTable)
  else if q.assignments.isEmpty then .error (.consistency .noAssignments)
  else
    .ok (.raw ("UPDATE " ++ d.quoteIdentifier q.table ++ " SET ") ++
      .joined ", " (q.assignments.map fun a => a.setFragment q.table d) ++ whereClause d q.filter)

def DeleteQuery.build (q : DeleteQuery) (d : Dialect) : Except Error Fragment :=
  if q.table.isEmpty then .error (.consistency .noTable)
  else .ok (.raw ("DELETE FROM " ++ d.quoteIdentifier q.table) ++ whereClause d q.filter)

end RecordMapper
