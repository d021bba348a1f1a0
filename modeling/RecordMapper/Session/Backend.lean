import RecordMapper.Attempt
import RecordMapper.Row
import RecordMapper.Statement.Fragment

/-! The database as a session uses it.

A connection is opened for each query and for each transaction. A transaction runs all of
its statements or none. -/
namespace RecordMapper

/-- A database whose state is of type `β`. -/
structure Backend (β : Type) where
  dialect : Dialect
  connect : Attempt β Unit
  /-- The rows of a query, in the database's order. -/
  query : Statement → Attempt β (List Row)
  /-- Runs statements as one transaction and counts the affected rows. -/
  transaction : List Statement → Attempt β Nat

namespace Backend

variable {β : Type}

/-- Runs a query on a connection of its own. -/
def fetch (b : Backend β) (s : Statement) : Attempt β (List Row) := do
  b.connect
  b.query s

/-- Runs a transaction on a connection of its own. -/
def execute (b : Backend β) (statements : List Statement) : Attempt β Nat := do
  b.connect
  b.transaction statements

end Backend

end RecordMapper
