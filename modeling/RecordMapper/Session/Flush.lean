import RecordMapper.Condition.Predicate
import RecordMapper.Session.Reconcile
import RecordMapper.Statement.Write

/-! Plans for saving pending changes.

A plan holds one UPDATE for each instance. It sets the changed fields, and it finds the
row by the key that it is stored under, which pending changes do not touch. Nothing is
changed while a plan is made; it is applied once its statements are committed. -/
namespace RecordMapper

/-- An instance in a plan, the key of its row, and the statement that updates the row. -/
structure PlannedUpdate where
  handle : Handle
  persistedKey : List Value
  statement : Statement
  deriving DecidableEq, Inhabited

abbrev FlushPlan := List PlannedUpdate

/-- The rules that the changed fields break, as declared. -/
def Instance.changeFaults (i : Instance) (rules : Rules) : List FieldError :=
  (i.cells.filter (·.isChanged)).filterMap fun c =>
    (c.field.fault? rules c.current).map fun fault => ⟨c.field.name, fault⟩

/-- The UPDATE of the changed fields of an instance. -/
def Instance.updateStatement (i : Instance) (rules : Rules) (d : Dialect) : Except Error Statement := do
  let assignments := (i.cells.filter (·.isChanged)).map fun c =>
    Assignment.mk c.field.name c.current c.field.isEnum
  let condition ← Condition.compileKey i.model rules i.persistedKey
  let fragment ← (UpdateQuery.mk i.model.table assignments (some condition)).build d
  fragment.finish d

namespace FlushPlan

/-- Plans the update of an instance, which must belong to the owner, be changed, and keep
the rules of its fields. -/
def planOne (owner : Owner) (rules : Rules) (d : Dialect) (h : Handle) (i : Instance) :
    Except Error PlannedUpdate := do
  if i.owner ≠ some owner then throw (.consistency .foreignModel)
  if !i.isDirty then throw (.consistency .noChanges)
  let faults := i.changeFaults rules
  if !faults.isEmpty then throw (.validation faults)
  return ⟨h, i.persistedKey, ← i.updateStatement rules d⟩

/-- Plans the update of all candidates, or reports the first fault. -/
def make (owner : Owner) (rules : Rules) (d : Dialect) (heap : Heap) (candidates : List Handle) :
    Except Error FlushPlan :=
  candidates.mapM fun h =>
    match heap.get? h with
    | some i => planOne owner rules d h i
    | none => .error (.consistency .foreignModel)

def statements (p : FlushPlan) : List Statement := p.map (·.statement)

/-- Commits an instance of a plan and files it under its new key. -/
def applyOne (m : Memory) (u : PlannedUpdate) : Memory := (m.commit u.handle).rekey u.handle u.persistedKey

/-- Commits all instances of a plan in turn. -/
def apply (p : FlushPlan) (m : Memory) : Memory := p.foldl applyOne m

end FlushPlan

end RecordMapper
