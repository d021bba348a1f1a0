import RecordMapper.Attempt
import RecordMapper.Statement.Fragment
import RecordMapper.Storage.Engine

/-! A connection to the two tables, and batches of statements that are run as one
transaction: either all of them take effect or none. -/
namespace RecordMapper.Storage

structure Connection where
  tables : Tables := {}
  /-- The tables to go back to, while a transaction is open. -/
  saved : Option Tables := none
  /-- The number of rows that the last writing statement wrote; none if it failed. -/
  changes : Nat := 0
  deriving DecidableEq, Inhabited

namespace Connection

/-! ### Transactions -/

/-- Opens a transaction; there can be only one. -/
def begin (e : Engine) : Attempt Connection Unit := Attempt.ofRun fun c =>
  if c.saved.isSome then
    (.error (statementError (some "1") "cannot start a transaction within a transaction"
      "BEGIN IMMEDIATE"), c)
  else match e.beginFault? with
    | some fault => (.error fault, c)
    | none => (.ok (), {c with saved := some c.tables})

/-- Ends a transaction and keeps what was done in it. -/
def commit (e : Engine) : Attempt Connection Unit := Attempt.ofRun fun c =>
  if c.saved.isSome then
    match e.commitFault? c.tables with
    | some fault => (.error fault, c)
    | none => (.ok (), {c with saved := none})
  else
    (.error (statementError (some "1") "cannot commit - no transaction is active" "COMMIT"), c)

/-- Ends a transaction and undoes what was done in it. -/
def rollback (c : Connection) : Connection := {c with tables := c.saved.getD c.tables, saved := none}

/-! ### Statements -/

/-- Takes over how a statement has ended, and counts by the engine's counter: a statement that has
not set it counts the rows of the one before it. -/
def finish (outcome : Outcome) : Attempt Connection Nat := Attempt.ofRun fun c =>
  match outcome with
  | .wrote tables rows => (.ok rows, {c with tables, changes := rows})
  | .returned tables rows => (.ok c.changes, {c with tables, changes := rows})
  | .other => (.ok c.changes, c)
  | .failed error tables count => (.error error, {c with tables, changes := count.getD c.changes})
  | .undone error count => (.error error, {c.rollback with changes := count.getD c.changes})

/-- Runs a statement and counts the rows it writes. -/
def execute (e : Engine) (s : Statement) : Attempt Connection Nat := do
  let c ← get
  let prepared ← Attempt.ofExcept (e.prepare s c.tables)
  finish (prepared.run s.params c.tables)

/-- Runs statements in turn, up to the first that fails, and adds up what they count. -/
def executeAll (e : Engine) (statements : List Statement) : Attempt Connection Nat := do
  return (← Attempt.collect statements (execute e)).foldl (· + ·) 0

/-- Runs an operation, and rolls back if it fails. -/
def orRollback {α : Type} (a : Attempt Connection α) : Attempt Connection α := Attempt.ofRun fun c =>
  match a.runOn c with
  | (.ok r, c) => (.ok r, c)
  | (.error e, c) => (.error e, c.rollback)

/-- Runs statements as one transaction of an engine. -/
def transact (e : Engine) (statements : List Statement) : Attempt Connection Nat := do
  begin e
  orRollback do
    let affected ← executeAll e statements
    commit e
    return affected

/-- Runs commands as one transaction. -/
def executeInTransaction (statements : List Statement) : Attempt Connection Nat :=
  transact .ofCommands statements

end Connection

end RecordMapper.Storage
