import RecordMapper.Classifier
import RecordMapper.Session.Backend

/-! A database that answers from a script and records what it is asked.

Row sets and counts of affected rows are handed out in turn. A failure happens once, and
then takes no row set and no count. -/
namespace RecordMapper

/-- What a failing database reports. -/
structure ScriptedFailure where
  state : Option String
  message : String
  sql : Option String
  deriving DecidableEq, Inhabited

/-- What the database was asked to run. -/
inductive DatabaseEvent where
  | query (s : Statement)
  | transaction (statements : List Statement)
  deriving DecidableEq, Inhabited

structure Script where
  /-- The row sets of the next queries; later ones have no rows. -/
  rows : List (List Row) := []
  /-- The counts of the next transactions; later ones count their statements. -/
  affected : List Nat := []
  connectFailure : Option ScriptedFailure := none
  queryFailure : Option ScriptedFailure := none
  transactionFailure : Option ScriptedFailure := none
  /-- What was asked, the last first. -/
  events : List DatabaseEvent := []
  deriving DecidableEq, Inhabited

namespace Script

def record (s : Script) (e : DatabaseEvent) : Script := {s with events := e :: s.events}

def fail (c : Classifier) (f : ScriptedFailure) : Error := c.error f.state f.message f.sql

def connect (c : Classifier) (s : Script) : Except Error Unit × Script :=
  match s.connectFailure with
  | some f => (.error (fail c f), {s with connectFailure := none})
  | none => (.ok (), s)

def query (c : Classifier) (statement : Statement) (s : Script) : Except Error (List Row) × Script :=
  let s := s.record (.query statement)
  match s.queryFailure, s.rows with
  | some f, _ => (.error (fail c f), {s with queryFailure := none})
  | none, rows :: rest => (.ok rows, {s with rows := rest})
  | none, [] => (.ok [], s)

def transaction (c : Classifier) (statements : List Statement) (s : Script) :
    Except Error Nat × Script :=
  let s := s.record (.transaction statements)
  match s.transactionFailure, s.affected with
  | some f, _ => (.error (fail c f), {s with transactionFailure := none})
  | none, count :: rest => (.ok count, {s with affected := rest})
  | none, [] => (.ok statements.length, s)

/-- The database that follows its script. -/
def backend (dialect : Dialect) (c : Classifier) : Backend Script where
  dialect
  connect := Attempt.ofRun (connect c)
  query statement := Attempt.ofRun (query c statement)
  transaction statements := Attempt.ofRun (transaction c statements)

end Script

end RecordMapper
