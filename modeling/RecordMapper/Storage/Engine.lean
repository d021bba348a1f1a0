import RecordMapper.Storage.Tables

/-! Engines: what carries out statements on the tables.

A connection hands the text of a statement to an engine. The engine compiles the text and runs it with
values, and counts the rows that it writes. What a statement means is up to the engine: which texts
it knows, whether it enforces references, and when it refuses to open a transaction or to keep
what was done in one. No statement opens or ends a transaction itself, unless by failing. -/
namespace RecordMapper.Storage

/-- How a statement ends. -/
inductive Outcome where
  /-- It has written rows, and the counter of the engine shows how many. -/
  | wrote (tables : Tables) (rows : Nat)
  /-- It has written rows and returns them; the counter shows how many once they are fetched. -/
  | returned (tables : Tables) (rows : Nat)
  /-- It writes no rows, and leaves the counter alone. -/
  | other
  /-- It fails, and what it did until then is kept; some set the counter. -/
  | failed (error : Error) (tables : Tables) (count : Option Nat)
  /-- It fails, and with it the engine undoes and ends the transaction. -/
  | undone (error : Error) (count : Option Nat)
  deriving Inhabited

/-- A compiled statement. -/
structure Prepared where
  parameterCount : Nat
  run : List Value → Tables → Outcome

structure Engine where
  /-- Why no transaction can be opened. -/
  beginFault? : Option Error := none
  /-- Why what was done to the tables cannot be kept. -/
  commitFault? : Tables → Option Error := fun _ => none
  compile : String → Tables → Except Error Prepared

namespace Engine

/-- Compiles a statement that has as many values as it needs. -/
def prepare (e : Engine) (s : Statement) (tables : Tables) : Except Error Prepared := do
  let prepared ← e.compile s.sql tables
  checkCount prepared.parameterCount s.params.length
  return prepared

/-- The engine that knows the commands on the two tables. A command that breaks a rule of the
tables does nothing, and counts no rows. -/
def ofCommands : Engine where
  compile sql _ := (readCommand sql).map fun command => {
    parameterCount := command.parameterCount
    run := fun params tables =>
      match command.apply params tables with
      | .ok (some (tables, rows)) => .wrote tables rows
      | .ok none => .other
      | .error v => .failed (statementError (some v.state) v.message sql) tables (some 0) }

end Engine

end RecordMapper.Storage
