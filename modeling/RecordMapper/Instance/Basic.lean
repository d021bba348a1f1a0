import RecordMapper.Field.Coerce
import RecordMapper.KeyedList
import RecordMapper.Model.Basic

/-! Instances: rows of a model in memory.

For each field an instance keeps the value last read from or written to the database,
the baseline, beside the value the caller gave it. An instance whose values differ from
the baselines is dirty, and it then remembers the primary key its row is stored under. -/
namespace RecordMapper

/-- Names an instance in a heap. -/
structure Handle where
  index : Nat
  deriving DecidableEq, Inhabited

/-- Names a session as the owner of instances. -/
structure Owner where
  number : Nat
  deriving DecidableEq, Inhabited

/-- A field with its two values. A field never set has NULL for both. -/
structure Cell where
  field : Field
  current : Value := .null
  baseline : Value := .null
  isSet : Bool := false
  deriving DecidableEq, Inhabited

namespace Cell

def isChanged (c : Cell) : Bool := c.current ≠ c.baseline

/-- Makes a value both current and committed. -/
def settled (c : Cell) (v : Value) : Cell := {c with current := v, baseline := v, isSet := true}

/-- Makes the current value the committed one. -/
def committed (c : Cell) : Cell := {c with baseline := c.current}

/-- Changes the first cell of the named field. -/
def update (name : String) (f : Cell → Cell) : List Cell → List Cell
  | [] => []
  | c :: rest => if c.field.name = name then f c :: rest else c :: update name f rest

end Cell

structure Instance where
  model : Model
  cells : List Cell
  keySnapshot : Option (List Value) := none
  /-- The targets of the single-valued navigations that have been loaded. -/
  singles : List (String × Option Handle) := []
  /-- The targets of the collections that have been loaded. -/
  collections : List (String × List Handle) := []
  owner : Option Owner := none
  deriving DecidableEq, Inhabited

namespace Instance

/-- An instance with no field set. -/
def new (m : Model) : Instance := {model := m, cells := m.fields.map fun f => {field := f}}

/-! ### Reading -/

def cell? (i : Instance) (name : String) : Option Cell := i.cells.find? (·.field.name = name)

/-- The current value of a field, NULL if it was never set. -/
def get? (i : Instance) (name : String) : Option Value := (i.cell? name).map (·.current)

/-- The committed value of a field. -/
def baseline? (i : Instance) (name : String) : Option Value := (i.cell? name).map (·.baseline)

def isSet (i : Instance) (name : String) : Bool := (i.cell? name).any (·.isSet)
def isChanged (i : Instance) (name : String) : Bool := (i.cell? name).any (·.isChanged)

/-- Whether any value differs from its baseline. -/
def isDirty (i : Instance) : Bool := i.cells.any (·.isChanged)

/-- The changed fields with their current values, as declared. -/
def changes (i : Instance) : List (String × Value) :=
  (i.cells.filter (·.isChanged)).map fun c => (c.field.name, c.current)

/-- The set fields with their current values, as declared. -/
def setValues (i : Instance) : List (String × Value) :=
  (i.cells.filter (·.isSet)).map fun c => (c.field.name, c.current)

/-- The current values of the primary key. -/
def primaryKey (i : Instance) : List Value :=
  (i.cells.filter (·.field.primaryKey)).map (·.current)

/-- The key that the row is stored under. -/
def persistedKey (i : Instance) : List Value := i.keySnapshot.getD i.primaryKey

/-! ### Writing -/

/-- Forgets the key snapshot when nothing is pending. -/
def settle (i : Instance) : Instance := if i.isDirty then i else {i with keySnapshot := none}

/-- The cell of a field and the canonical form of a value for it. -/
def prepare (i : Instance) (name : String) (v : Value) : Except Error (Cell × Value) :=
  match i.cell? name with
  | none => .error (.compilation i.model.name (.unknownField name))
  | some c =>
    match c.field.coerce v with
    | .ok v => .ok (c, v)
    | .error e => .error (.ofField e)

/-- Assigns a field. The first assignment is also the baseline. A later one is pending,
and the first pending one keeps the primary key as it was. -/
def set (i : Instance) (name : String) (v : Value) : Except Error Instance := do
  let (c, v) ← i.prepare name v
  if c.isSet then
    let pending :=
      { i with
        keySnapshot := some i.persistedKey
        cells := Cell.update name (fun c => {c with current := v}) i.cells }
    return pending.settle
  else return {i with cells := Cell.update name (·.settled v) i.cells}

/-- Assigns fields in turn. -/
def setAll (i : Instance) : List (String × Value) → Except Error Instance
  | [] => .ok i
  | (name, v) :: rest => do (← i.set name v).setAll rest

/-- Takes over a committed value. -/
def load (i : Instance) (name : String) (v : Value) : Except Error Instance := do
  let (_, v) ← i.prepare name v
  return ({i with cells := Cell.update name (·.settled v) i.cells} : Instance).settle

/-- Makes the current values the committed ones. -/
def commit (i : Instance) : Instance :=
  {i with cells := i.cells.map Cell.committed, keySnapshot := none}

/-! ### Navigations -/

/-- The target of a single-valued navigation, if it is loaded and there is one. -/
def single? (i : Instance) (navigation : String) : Option Handle :=
  (KeyedList.get? navigation i.singles).join

/-- The targets of a collection, none if it is not loaded. -/
def collection (i : Instance) (navigation : String) : List Handle :=
  (KeyedList.get? navigation i.collections).getD []

def isLoaded (i : Instance) (navigation : String) : Bool :=
  (KeyedList.get? navigation i.singles).isSome || (KeyedList.get? navigation i.collections).isSome

/-- The declared navigations that have been loaded. -/
def loaded (i : Instance) : List Navigation := i.model.navigations.filter fun n => i.isLoaded n.name

def attachSingle (i : Instance) (navigation : String) (target : Option Handle) : Instance :=
  {i with singles := KeyedList.put navigation target i.singles}

def attachCollection (i : Instance) (navigation : String) (targets : List Handle) : Instance :=
  {i with collections := KeyedList.put navigation targets i.collections}

/-- Drops the targets that are gone. -/
def detach (i : Instance) (gone : List Handle) : Instance :=
  { i with
    singles := i.singles.map fun e => (e.1, e.2.filter fun h => h ∉ gone)
    collections := i.collections.map fun e => (e.1, e.2.filter fun h => h ∉ gone) }

end Instance

end RecordMapper
