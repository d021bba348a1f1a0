import RecordMapper.Fetch.Hydrate
import RecordMapper.Session.Basic

/-! Reading instances.

A row is mapped to the instance that the cache has for its key, if there is one. That
instance takes over the row's values unless it has changes of its own. -/
namespace RecordMapper

/-- What is fetched, apart from the condition. A limit or an offset of zero stands for
none. -/
structure Fetch where
  model : Model
  includes : List Navigation := []
  orderBy : List OrderBy := []
  limit : Nat := 0
  offset : Nat := 0
  deriving DecidableEq, Inhabited

namespace Fetch

/-- Also fetches what a navigation leads to. -/
def include? (f : Fetch) (navigation : String) : Except Error Fetch := do
  return {f with includes := ← RecordMapper.include? f.model f.includes navigation}

/-- Sorts by one more field of the model. -/
def sortBy (f : Fetch) (field : String) (direction : Direction) : Except Error Fetch := do
  let field ← f.model.requireField field
  return {f with orderBy := f.orderBy ++ [⟨⟨f.model.table, field.name⟩, direction⟩]}

/-- The SELECT for a plan of this fetch. -/
def query (f : Fetch) (p : FetchPlan) (filter : Option Condition) (limit : Nat) (d : Dialect) :
    SelectQuery :=
  {p.select d with filter, orderBy := f.orderBy, limit, offset := f.offset}

end Fetch

namespace Session

variable {β : Type}

/-- Starts a fetch of a model. -/
def fetch (s : Session β) (model : String) : Except Error Fetch :=
  (s.registry.model model).map fun m => {model := m}

/-! ### Instances for rows -/

/-- Takes over a row's values into a cached instance, unless that has pending changes. -/
def refresh (h : Handle) (i : Instance) : Attempt Memory Unit := do
  if !(← get).heap.holds (·.isDirty) h then
    Memory.loadAll h i.setValues
    modify fun m => m.rekey h i.primaryKey

/-- The session's instance for a row: the cached one with its key, or the new one. -/
def resolve (s : Session β) (i : Instance) : SessionAction β Handle := do
  let state ← get
  let cached := if s.useCache then state.cache.get? i.model.name i.primaryKey else none
  match cached with
  | some h =>
    onMemory (refresh h i)
    return h
  | none => s.adopt i

/-- Maps the instances of fetched rows to the session's. -/
def keeper (s : Session β) : Keeper (SessionState β) where
  resolve := s.resolve
  modify h f state := {state with heap := state.heap.modify h f}

/-! ### Running a fetch -/

/-- Runs a fetch as a query and maps all of its rows. -/
def run (s : Session β) (f : Fetch) (filter : Option Condition) (limit : Nat) :
    SessionAction β (List Handle) := do
  let plan ← Attempt.ofExcept (FetchPlan.make s.registry f.model f.includes)
  let statement ← Attempt.ofExcept (s.statement fun d => (f.query plan filter limit d).build d)
  let rows ← onDatabase (s.backend.fetch statement)
  Attempt.collect rows (plan.hydrate s.keeper)

/-- What a predicate means on the fetched model. -/
def condition (s : Session β) (f : Fetch) (p : Predicate) : SessionAction β Condition :=
  Attempt.ofExcept (Condition.compile f.model s.registry.rules p)

/-- The first match, if there is one. It is answered from the cache if nothing is
included and the cache has a match. -/
def first? (s : Session β) (f : Fetch) (p : Predicate) : SessionAction β (Option Handle) := do
  let condition ← s.condition f p
  let state ← get
  let cached := if f.includes.isEmpty && s.useCache then
    state.cache.probe state.heap f.model.name condition else none
  match cached with
  | some h => return some h
  | none => return (← s.run f (some condition) 1).head?

/-- The first match. -/
def first (s : Session β) (f : Fetch) (p : Predicate) : SessionAction β Handle := do
  match ← s.first? f p with
  | some h => return h
  | none => throw (.notFound f.model.name none)

/-- All matches, up to the limit. -/
def many (s : Session β) (f : Fetch) (p : Predicate) : SessionAction β (List Handle) := do
  let condition ← s.condition f p
  s.run f (some condition) f.limit

/-- All instances of the model, up to the limit. -/
def all (s : Session β) (f : Fetch) : SessionAction β (List Handle) := s.run f none f.limit

/-- The only match. -/
def single (s : Session β) (f : Fetch) (p : Predicate) : SessionAction β Handle := do
  let condition ← s.condition f p
  match ← s.run f (some condition) 0 with
  | [h] => return h
  | [] => throw (.notFound f.model.name none)
  | found => throw (.multipleRows f.model.name found.length)

/-- The number of matches; what is included does not matter. -/
def count (s : Session β) (f : Fetch) (p : Predicate) : SessionAction β Nat := do
  let condition ← s.condition f p
  let plan ← Attempt.ofExcept (FetchPlan.make s.registry f.model [])
  let statement ← Attempt.ofExcept (s.statement ({plan.count with filter := some condition}).build)
  match ← onDatabase (s.backend.fetch statement) with
  | row :: _ => Attempt.ofExcept (row.read .uint64 0)
  | [] => return 0

end Session

end RecordMapper
