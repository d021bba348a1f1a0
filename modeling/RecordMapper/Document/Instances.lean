import RecordMapper.Document.Values
import RecordMapper.Session.Cache

/-! Instances and caches as JSON documents.

Shared instances are named `m0`, `m1`, ... in the order in which they are first met. -/
namespace RecordMapper.Document

/-- The fields of some cells with values taken from them. -/
def cellsJson (cells : List Cell) (value : Cell → Value) : Json :=
  .obj (cells.map fun c => (c.field.name, (value c).toJson))

/-- The values of an instance and what is pending. -/
def valueMembers (i : Instance) : List (String × Json) :=
  [("values", cellsJson i.cells (·.current)),
    ("dirty", cellsJson (i.cells.filter (·.isChanged)) (·.baseline)),
    ("unset", .ofTexts ((i.cells.filter fun c => !c.isSet).map (·.field.name))),
    ("snapshot", .ofOption valuesJson i.keySnapshot)]

/-! ### Names of shared instances -/

/-- The handles that have names, in the order of the names. -/
abbrev Naming := StateM (List Handle)

def nameAt (position : Nat) : String := "m" ++ Text.ofInt position

/-- The name of an instance, a new one if it has none. -/
def nameJson (h : Handle) : Naming Json := do
  let known ← get
  match known.findIdx? (· = h) with
  | some position => return .str (nameAt position)
  | none =>
    set (known ++ [h])
    return .str (nameAt known.length)

def namesJson (hs : List Handle) : Naming Json := do return .arr (← hs.mapM nameJson)

/-- The instance that a name stands for. -/
def handle? (known : List Handle) (name : String) : Option Handle :=
  ((List.range known.length).find? fun position => nameAt position = name).bind (known[·]?)

/-! ### Shared instances -/

/-- A loaded navigation with the names of its targets. -/
def loadedJson (i : Instance) (n : Navigation) : Naming (String × Json) := do
  if n.isCollection then return (n.name, ← namesJson (i.collection n.name))
  match i.single? n.name with
  | some h => return (n.name, ← nameJson h)
  | none => return (n.name, .null)

/-- An instance with the names of its targets. Of navigations with one name the last counts. -/
def instanceJson (ownerName : Owner → String) (i : Instance) : Naming Json := do
  let loaded ← i.loaded.mapM (loadedJson i)
  return .obj (("model", .str i.model.name) ::
    ("owner", .ofOption (fun o => .str (ownerName o)) i.owner) ::
    ("navs", (Json.obj loaded).tidy) :: valueMembers i)

/-- The instances of the named handles from a position on, and of those that get a name on
the way, at most `fuel` of them. -/
def instancesFrom (ownerName : Owner → String) (heap : Heap) (position : Nat) :
    Nat → Naming (List (String × Json))
  | 0 => pure []
  | fuel + 1 => do
    match (← get)[position]?.bind heap.get? with
    | none => return []
    | some i =>
      let here ← instanceJson ownerName i
      return (nameAt position, here) :: (← instancesFrom ownerName heap (position + 1) fuel)

/-- All named instances and those that they lead to. No more can get a name than there
are. -/
def instancesJson (ownerName : Owner → String) (heap : Heap) : Naming (List (String × Json)) :=
  instancesFrom ownerName heap 0 heap.size

/-- The cached instances of each of some models that has any. -/
def cacheJson (models : List Model) (c : Cache) : Naming Json := do
  let used := models.filter fun m => !(c.entries m.name).isEmpty
  return .obj (← used.mapM fun m => do return (m.name, ← namesJson (c.entries m.name)))

end RecordMapper.Document
