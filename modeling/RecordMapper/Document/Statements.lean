import RecordMapper.Document.Conditions
import RecordMapper.Statement.Write

/-! Statements and their parts as JSON documents. -/
namespace RecordMapper.Document

/-! ### Reading -/

def join? (j : Json) : Option Join := do
  return { kind := if ← j.boolOr? "inner" false then .inner else .left
           table := ← j.text? "table"
           alias? := ← j.textOrNull? "alias"
           left := ⟨← j.text? "left_table", ← j.text? "left_column"⟩
           rightColumn := ← j.text? "right_column" }

def selectItem? (j : Json) : Option SelectItem := do
  match ← j.textOrNull? "sql" with
  | some sql => return .expression sql (← j.text? "label")
  | none => return .ofColumn (← j.text? "table") (← j.text? "column") (← j.boolOr? "enum" false)

def projection? : Json → Option Projection
  | .null => some .all
  | .str "all" => some .all
  | .str "count" => some .count
  | j => (j.listOf? selectItem?).map .items

/-- A table and a column. -/
def columnRef? (j : Json) : Option ColumnRef := do
  return ⟨← (j.item 0).asText?, ← (j.item 1).asText?⟩

def orderBy? (j : Json) : Option OrderBy := do
  return ⟨← columnRef? j, ← named? directions (← (j.item 2).asText?)⟩

def select? (j : Json) : Option SelectQuery := do
  return { projection := ← projection? (j.get "projection")
           tables := ← j.list? "from" Json.asText?
           joins := ← j.list? "joins" join?
           filter := ← (j.get "filter").orNull? condition?
           groupBy := ← j.list? "group_by" columnRef?
           orderBy := ← j.list? "order_by" orderBy?
           limit := ← j.natOr? "limit" 0
           offset := ← j.natOr? "offset" 0 }

/-- A column, a value, and whether the column holds an enumeration. -/
def assignment? (j : Json) : Option Assignment := do
  let isEnum ← (j.item 2).orNull? Json.asBool?
  return ⟨← (j.item 0).asText?, ← value? (j.item 1), isEnum.getD false⟩

/-- How a writing statement is built. -/
def write? (j : Json) : Option (Dialect → Except Error Fragment) := do
  let table ← j.text? "table"
  let values ← j.list? "values" assignment?
  let filter ← (j.get "filter").orNull? condition?
  match ← j.text? "statement" with
  | "insert" => return (InsertQuery.mk table values).build
  | "update" => return (UpdateQuery.mk table values filter).build
  | "delete" => return (DeleteQuery.mk table filter).build
  | _ => none

/-! ### Writing -/

/-- One document for each dialect. -/
def perDialect (f : Dialect → Json) : Json := .obj (dialects.map fun d => (d.1, f d.2))

def statementJson (s : Statement) : Json := .obj [("sql", .str s.sql), ("params", valuesJson s.params)]

end RecordMapper.Document
