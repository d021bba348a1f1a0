import RecordMapper.Statement.Fragment
import RecordMapper.Storage.Selection

/-! Two tables of which one refers to the other, and the statements on them.

Table `t` holds ids. Table `c` holds ids too, and with each a reference to an id of `t`.
All are texts or NULL. No id but NULL occurs twice in a table, and every reference but
NULL leads to an id of `t`. -/
namespace RecordMapper.Storage

structure Tables where
  t : List (Option String) := []
  c : List (Option String × Option String) := []
  deriving DecidableEq, Inhabited

/-- The rule of the tables that a statement would break. -/
inductive Violation where
  | duplicate (table : String)
  | foreignKey
  deriving DecidableEq, Inhabited

/-- The extended result code. -/
def Violation.state : Violation → String
  | duplicate _ => "1555"
  | foreignKey => "787"

def Violation.message : Violation → String
  | duplicate table => "UNIQUE constraint failed: " ++ table ++ ".id"
  | foreignKey => "FOREIGN KEY constraint failed"

namespace Tables

/-- Whether some row is equal to an id that is not NULL. -/
def holds (ids : List (Option String)) (id : Option String) : Bool := id.isSome && ids.contains id

/-- Whether a reference leads to a row of `t`, or is NULL. -/
def resolves (ids : List (Option String)) (reference : Option String) : Bool :=
  reference.isNone || ids.contains reference

def insertT (s : Tables) (id : Option String) : Except Violation (Tables × Nat) :=
  if holds s.t id then .error (.duplicate "t") else .ok ({s with t := s.t ++ [id]}, 1)

def insertC (s : Tables) (id reference : Option String) : Except Violation (Tables × Nat) :=
  if holds (s.c.map (·.1)) id then .error (.duplicate "c")
  else if !resolves s.t reference then .error .foreignKey
  else .ok ({s with c := s.c ++ [(id, reference)]}, 1)

/-- Deletes the rows of `t` with a property, unless one of them is referred to. -/
def deleteT (s : Tables) (p : Option String → Bool) : Except Violation (Tables × Nat) :=
  let kept := s.t.filter (!p ·)
  if s.c.all fun row => resolves kept row.2 then .ok ({s with t := kept}, s.t.length - kept.length)
  else .error .foreignKey

/-- Deletes the rows of `c` whose ids have a property. -/
def deleteC (s : Tables) (p : Option String → Bool) : Tables × Nat :=
  let kept := s.c.filter (!p ·.1)
  ({s with c := kept}, s.c.length - kept.length)

end Tables

/-! ### Statements -/

inductive Command where
  | insertT
  | insertC
  | deleteT
  | deleteC
  /-- Deletes all rows of a table. -/
  | clear (table : String)
  | select (columns : Selection)

namespace Command

def texts : List (String × Command) :=
  [("INSERT INTO t VALUES (?1)", insertT), ("INSERT INTO c VALUES (?1, ?2)", insertC),
   ("DELETE FROM t WHERE id = ?1", deleteT), ("DELETE FROM c WHERE id = ?1", deleteC),
   ("DELETE FROM c WHERE 1 = 1", clear "c"), ("SELECT 1", select [(.number "1", "1")]),
   ("SELECT ?1", select [(.parameter, "?1")])]

/-- The table of a statement that deletes all rows of one. -/
def clearedTable? (sql : List Char) : Option String :=
  if "DELETE FROM ".toList.isPrefixOf sql then some (String.ofList (sql.drop 12)) else none

def ofText? (sql : String) : Option Command :=
  (KeyedList.get? sql texts).or ((clearedTable? sql.toList).map clear)

def parameterCount : Command → Nat
  | insertT => 1
  | insertC => 2
  | deleteT => 1
  | deleteC => 1
  | clear _ => 0
  | select columns => columns.parameterCount

/-- What a writing command makes of the tables, and the number of rows it writes; a
missing parameter is NULL. Comparisons with NULL hold of no row. -/
def apply (command : Command) (params : List Value) (s : Tables) :
    Except Violation (Option (Tables × Nat)) :=
  let param (index : Nat) := params[index]?.bind Stored.columnText
  let matching (id : Option String) := id.isSome && id == param 0
  match command with
  | insertT => (s.insertT (param 0)).map some
  | insertC => (s.insertC (param 0) (param 1)).map some
  | deleteT => (s.deleteT matching).map some
  | deleteC => .ok (some (s.deleteC matching))
  | clear table =>
    if table = "t" then (s.deleteT fun _ => true).map some else .ok (some (s.deleteC fun _ => true))
  | select _ => .ok none

end Command

/-- The command that a text is, without regard to its parameters. -/
def readCommand (sql : String) : Except Error Command :=
  if hasNul sql then .error (statementError none "SQL contains null byte" sql)
  else match Command.ofText? sql with
    | some (.clear table) =>
      if table = "t" ∨ table = "c" then .ok (.clear table)
      else .error (statementError (some "1") ("no such table: " ++ table) sql)
    | some command => .ok command
    | none =>
      let word := String.ofList (sql.toList.takeWhile (· ≠ ' '))
      .error (statementError (some "1") ("near \"" ++ word ++ "\": syntax error") sql)

/-- The command of a statement with as many values as it needs. -/
def prepare (s : Statement) : Except Error Command := do
  let command ← readCommand s.sql
  checkCount command.parameterCount s.params.length
  return command

/-- The rows that a query returns; other statements return none. -/
def queryRows (s : Statement) : Except Error (List Row) := do
  match ← prepare s with
  | .select columns => return [← columns.run s.params]
  | _ => return []

/-- Runs a text without values. -/
def runRaw (sql : String) : Except Error Unit := (readCommand sql).map fun _ => ()

end RecordMapper.Storage
