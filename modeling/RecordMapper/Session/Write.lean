import RecordMapper.Session.Basic

/-! Writing instances.

Each write is one transaction. Everything that can be wrong is found before it is begun,
and a session changes only after the database has committed. -/
namespace RecordMapper

/-! ### Insertion -/

/-- The fault of a field of a new row, which must be set if it is required. -/
def Cell.insertFault? (c : Cell) (rules : Rules) : Option FieldFault :=
  if c.isSet then c.field.fault? rules c.current
  else if c.field.required then some .unset
  else none

/-- The rules that a new row breaks, as declared. -/
def Instance.insertFaults (i : Instance) (rules : Rules) : List FieldError :=
  i.cells.filterMap fun c => (c.insertFault? rules).map fun fault => ⟨c.field.name, fault⟩

/-- The values of a new row; what is NULL is left out. -/
def Instance.insertValues (i : Instance) : List Assignment :=
  (i.cells.filter fun c => c.isSet && !c.current.isNull).map fun c =>
    ⟨c.field.name, c.current, c.field.isEnum⟩

/-! ### Updates -/

/-- A bulk update in the making: each field is assigned once, in its canonical form. -/
structure BulkUpdate where
  model : Model
  condition : Condition
  assignments : List Assignment := []
  deriving DecidableEq, Inhabited

/-- Assigns one more field. -/
def BulkUpdate.set (u : BulkUpdate) (rules : Rules) (field : String) (v : Value) :
    Except Error BulkUpdate := do
  let field ← u.model.requireField field
  if u.assignments.any (·.column = field.name) then throw (.consistency (.assignedTwice field.name))
  let v ← (field.coerce v).mapError .ofField
  (field.check rules v).mapError .ofField
  return {u with assignments := u.assignments ++ [⟨field.name, v, field.isEnum⟩]}

/-- Assigns fields in turn. -/
def BulkUpdate.setAll (u : BulkUpdate) (rules : Rules) : List (String × Value) → Except Error BulkUpdate
  | [] => .ok u
  | (field, v) :: rest => do (← u.set rules field v).setAll rules rest

/-- The assigned fields with their values. -/
def BulkUpdate.changes (u : BulkUpdate) : List (String × Value) :=
  u.assignments.map fun a => (a.column, a.value)

namespace Session

variable {β : Type}

/-- Inserts an instance as a new row and takes it over. -/
def insert (s : Session β) (i : Instance) : SessionAction β Handle := do
  if i.owner.any (· ≠ s.owner) then throw (.consistency .foreignModel)
  let faults := i.insertFaults s.registry.rules
  if !faults.isEmpty then throw (.validation faults)
  let statement ← Attempt.ofExcept
    (s.statement (InsertQuery.mk i.model.table i.insertValues).build)
  let _ ← onDatabase (s.backend.execute [statement])
  s.adopt i.commit

/-- Starts an update of all rows that satisfy a predicate. -/
def update (s : Session β) (model : String) (p : Predicate) : Except Error BulkUpdate := do
  let (model, condition) ← s.compile model p
  return {model, condition}

/-- Runs a bulk update and repeats it on the cached instances. -/
def save (s : Session β) (u : BulkUpdate) : SessionAction β Nat := do
  if u.assignments.isEmpty then throw (.consistency .noAssignments)
  let statement ← Attempt.ofExcept
    (s.statement (UpdateQuery.mk u.model.table u.assignments (some u.condition)).build)
  let affected ← onDatabase (s.backend.execute [statement])
  if s.useCache then
    let _ ← onMemory (Memory.reconcileUpdate u.model.name u.condition u.changes)
  return affected

/-- Repeats a delete on the cached instances and stops tracking the removed ones. -/
def dropDeleted (s : Session β) (model : String) (condition : Condition) (state : SessionState β) :
    SessionState β :=
  let (gone, m) := state.memory.reconcileDelete s.registry model condition
  {state.setMemory m with tracker := state.tracker.forget gone}

/-- Deletes all rows that satisfy a predicate. -/
def delete (s : Session β) (model : String) (p : Predicate) : SessionAction β Nat := do
  let (model, condition) ← Attempt.ofExcept (s.compile model p)
  let statement ← Attempt.ofExcept (s.statement (DeleteQuery.mk model.table (some condition)).build)
  let affected ← onDatabase (s.backend.execute [statement])
  if s.useCache then modify (s.dropDeleted model.name condition)
  return affected

/-- Queues an instance for the next save. -/
def enqueue (h : Handle) : SessionAction β Unit :=
  modify fun state => {state with tracker := state.tracker.enqueue h}

/-- Settles a plan whose statements are committed. -/
def applyPlan (p : FlushPlan) (state : SessionState β) : SessionState β :=
  {state.setMemory (p.apply state.memory) with tracker := state.tracker.clearQueue}

/-- Writes all pending changes as one transaction. -/
def saveChanges (s : Session β) : SessionAction β Nat := do
  let state ← get
  let candidates := state.tracker.candidates state.heap
  if candidates.isEmpty then return 0
  let plan ← Attempt.ofExcept
    (FlushPlan.make s.owner s.registry.rules s.dialect state.heap candidates)
  let affected ← onDatabase (s.backend.execute plan.statements)
  modify (applyPlan plan)
  return affected

end Session

end RecordMapper
