import RecordMapper.Condition.Basic
import RecordMapper.Instance.Heap
import RecordMapper.KeyedList
import RecordMapper.Value.Encoded

/-! The cache: at most one instance for each row that a session has seen.

Instances are filed by model under the text of the key that their row is stored under. A
list of the key texts keeps the order in which they were registered, and an index leads
from the values of unique fields to keys. The index only helps to find instances sooner: it
may lag behind the instances, so what it leads to is compared with the live value. -/
namespace RecordMapper

/-- The cached instances of one model. -/
structure Shelf where
  /-- Instances under the text of their keys. -/
  filed : List (String × Handle) := []
  /-- The key texts in the order in which they were registered. -/
  order : List String := []
  /-- Key texts under a unique field and the plain text of its value. -/
  index : List ((String × String) × String) := []
  deriving DecidableEq, Inhabited

/-- The text under which an instance is filed. -/
def Instance.keyText (i : Instance) : String := Value.keyText i.persistedKey

/-- The unique fields that have a value, each with its plain text. -/
def Instance.uniqueTexts (i : Instance) : List (String × String) :=
  (i.cells.filter fun c => c.field.unique && c.isSet && !c.current.isNull).map fun c =>
    (c.field.name, c.current.plainText)

namespace Shelf

/-- The filed instances. -/
def handles (s : Shelf) : List Handle := s.filed.map (·.2)

/-- The filed instances, as registered. -/
def entries (s : Shelf) : List Handle := s.order.filterMap fun key => KeyedList.get? key s.filed

/-- The index without its entries for a key. -/
def unindexed (s : Shelf) (key : String) : List ((String × String) × String) :=
  s.index.filter fun e => e.2 ≠ key

/-- Indexes an instance anew. -/
def indexUnder (s : Shelf) (key : String) (i : Instance) : Shelf :=
  {s with index := i.uniqueTexts.foldl (fun index text => KeyedList.put text key index) (s.unindexed key)}

/-- Files an instance under a key, in place of another one under that key. A new key comes
last in the order. -/
def file (s : Shelf) (key : String) (h : Handle) (i : Instance) : Shelf :=
  let order := if (KeyedList.get? key s.filed).isSome then s.order else s.order ++ [key]
  indexUnder {s with filed := KeyedList.put key h s.filed, order} key i

/-- Takes out what is filed under a key. -/
def drop (s : Shelf) (key : String) : Shelf where
  filed := KeyedList.erase key s.filed
  order := s.order.filter (· ≠ key)
  index := s.unindexed key

end Shelf

/-- The shelves under the names of their models. -/
structure Cache where
  shelves : List (String × Shelf) := []
  deriving DecidableEq, Inhabited

namespace Cache

def shelf (c : Cache) (model : String) : Shelf := (KeyedList.get? model c.shelves).getD {}

/-- Replaces the shelf of a model. -/
def setShelf (c : Cache) (model : String) (s : Shelf) : Cache := ⟨KeyedList.put model s c.shelves⟩

/-- The cached instances of a model, as registered. -/
def entries (c : Cache) (model : String) : List Handle := (c.shelf model).entries

/-- All cached instances. -/
def handles (c : Cache) : List Handle := c.shelves.flatMap fun e => e.2.handles

/-- The number of cached instances. -/
def size (c : Cache) : Nat := c.handles.length

/-! ### Looking instances up -/

/-- The instance filed under a text. -/
def filed? (c : Cache) (model key : String) : Option Handle := KeyedList.get? key (c.shelf model).filed

/-- The instance cached for a key. -/
def get? (c : Cache) (model : String) (key : List Value) : Option Handle :=
  c.filed? model (Value.keyText key)

/-- Whether an instance is the one that is filed under a key of its model. -/
def isFiled (c : Cache) (h : Handle) (i : Instance) (key : String) : Bool :=
  c.filed? i.model.name key == some h

/-- Whether an instance is cached: it is the one filed under the key of its row. -/
def contains (c : Cache) (heap : Heap) (h : Handle) : Bool :=
  (heap.get? h).any fun i => c.isFiled h i i.keyText

/-- The first cached instance of a model, as registered, that satisfies a condition. -/
def findOne? (c : Cache) (heap : Heap) (model : String) (condition : Condition) : Option Handle :=
  (c.entries model).find? (heap.holds condition.evaluate)

/-- Whether the current value of a field equals a value. -/
def hasValue (field : String) (v : Value) (i : Instance) : Bool := (i.get? field).any fun w => w.equal v

/-- The cached instance with a value in a unique field, by the index. -/
def findUnique? (c : Cache) (heap : Heap) (model field : String) (v : Value) : Option Handle := do
  let key ← KeyedList.get? (field, v.plainText) (c.shelf model).index
  let h ← c.filed? model key
  if heap.holds (hasValue field v) h then some h else none

/-- Looks for an instance that satisfies a condition: by the index if the condition is
an equality, and else, or without success, one after the other. -/
def probe (c : Cache) (heap : Heap) (model : String) (condition : Condition) : Option Handle :=
  let scan := c.findOne? heap model condition
  match condition with
  | .comparison _ field .eq v _ => (c.findUnique? heap model field v).or scan
  | _ => scan

/-! ### Filing -/

/-- Files an instance under the key of its row, in place of another one with that key. -/
def register (c : Cache) (heap : Heap) (h : Handle) : Cache :=
  match heap.get? h with
  | some i => c.setShelf i.model.name ((c.shelf i.model.name).file i.keyText h i)
  | none => c

/-- Takes an instance out, if it is cached. -/
def remove? (c : Cache) (heap : Heap) (h : Handle) : Option Cache := do
  let i ← heap.get? h
  if c.isFiled h i i.keyText then
    some (c.setShelf i.model.name ((c.shelf i.model.name).drop i.keyText))
  else none

/-- Moves an instance that is filed under an old key to the key of its row and indexes it
anew. An instance that is filed elsewhere or not at all is left alone. -/
def rekey (c : Cache) (heap : Heap) (h : Handle) (oldKey : List Value) : Cache :=
  match heap.get? h with
  | some i =>
    let old := Value.keyText oldKey
    if c.isFiled h i old then
      let shelf := c.shelf i.model.name
      let shelf := if old = i.keyText then shelf else shelf.drop old
      c.setShelf i.model.name (shelf.file i.keyText h i)
    else c
  | none => c

end Cache

end RecordMapper
