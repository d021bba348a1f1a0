import RecordMapper.Session.Backend
import RecordMapper.Session.Flush
import RecordMapper.Session.Tracker

/-! Sessions.

A session reads and writes models through a database. It hands out at most one instance
for each row, and it remembers what it handed out so that changes can be saved together.
Several sessions may share the instances and the database; the cache and the tracker are a
session's own. -/
namespace RecordMapper

/-- What stays the same during a session. -/
structure Session (β : Type) where
  registry : Registry
  backend : Backend β
  /-- The mark that the session puts on its instances. -/
  owner : Owner
  /-- Whether instances are cached, so that lookups may be answered without a query. -/
  useCache : Bool := true

/-- What changes during a session. -/
structure SessionState (β : Type) where
  heap : Heap := {}
  cache : Cache := {}
  tracker : Tracker := {}
  database : β

namespace SessionState

variable {β : Type}

def memory (s : SessionState β) : Memory := ⟨s.heap, s.cache⟩

def setMemory (s : SessionState β) (m : Memory) : SessionState β := {s with heap := m.heap, cache := m.cache}

/-- Files and tracks an instance. -/
def welcome (s : SessionState β) (useCache : Bool) (h : Handle) : SessionState β :=
  { s with
    cache := if useCache then s.cache.register s.heap h else s.cache
    tracker := s.tracker.track h }

end SessionState

/-- An operation of a session. -/
abbrev SessionAction (β α : Type) : Type := Attempt (SessionState β) α

namespace Session

variable {β : Type}

/-- An operation on the database. -/
def onDatabase {α : Type} (a : Attempt β α) : SessionAction β α :=
  Attempt.within (·.database) (fun database s => {s with database}) a

/-- An operation on the instances and the cache. -/
def onMemory {α : Type} (a : Attempt Memory α) : SessionAction β α :=
  Attempt.within (·.memory) (fun m s => s.setMemory m) a

def dialect (s : Session β) : Dialect := s.backend.dialect

/-- The statement that the session's dialect makes of a fragment. -/
def statement (s : Session β) (f : Dialect → Except Error Fragment) : Except Error Statement := do
  (← f s.dialect).finish s.dialect

/-- A new instance of a model, outside of the session. -/
def newInstance (s : Session β) (model : String) : Except Error Instance :=
  (s.registry.model model).map .new

/-- The model with a name, and what a predicate means on it. -/
def compile (s : Session β) (model : String) (p : Predicate) : Except Error (Model × Condition) := do
  let m ← s.registry.model model
  return (m, ← Condition.compile m s.registry.rules p)

/-- Takes over a new instance: it is marked, filed and tracked. -/
def adopt (s : Session β) (i : Instance) : SessionAction β Handle := Attempt.change fun state =>
  let (h, heap) := state.heap.add {i with owner := some s.owner}
  (h, ({state with heap} : SessionState β).welcome s.useCache h)

end Session

end RecordMapper
