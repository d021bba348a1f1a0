import RecordMapper.Attempt
import RecordMapper.Model.Registry
import RecordMapper.Session.Cache

/-! Keeping cached instances in step with the database.

A bulk update or delete is carried out by the database on all rows that satisfy a
condition. The same is then done here to the cached instances that satisfy it. What a
delete does to the rows that refer to deleted ones is declared by the single-valued
navigations, and is done here to the cached instances too. -/
namespace RecordMapper

/-- The instances, and those of them that are cached. -/
structure Memory where
  heap : Heap := {}
  cache : Cache := {}
  deriving Inhabited

/-- The instance with NULL as the committed value of a field. -/
def Instance.clear (i : Instance) (name : String) : Instance :=
  ({i with cells := Cell.update name (·.settled .null) i.cells}).settle

namespace Memory

/-- The cached instances of a model with a property, as registered. -/
def cachedWith (m : Memory) (model : String) (p : Instance → Bool) : List Handle :=
  (m.cache.entries model).filter (m.heap.holds p)

/-- The key under which an instance's row is stored. -/
def persistedKey (m : Memory) (h : Handle) : List Value :=
  ((m.heap.get? h).map (·.persistedKey)).getD []

def rekey (m : Memory) (h : Handle) (oldKey : List Value) : Memory :=
  {m with cache := m.cache.rekey m.heap h oldKey}

/-- Makes the current values of an instance the committed ones. -/
def commit (m : Memory) (h : Handle) : Memory := {m with heap := m.heap.modify h (·.commit)}

/-! ### Updates -/

/-- Takes over a committed value of an instance. -/
def load (h : Handle) (name : String) (v : Value) : Attempt Memory Unit :=
  Attempt.ofRun fun m =>
    match m.heap.get? h with
    | some i =>
      match i.load name v with
      | .ok i => (.ok (), {m with heap := m.heap.put h i})
      | .error e => (.error e, m)
    | none => (.ok (), m)

/-- Takes over committed values in turn, up to the first that does not suit its field. -/
def loadAll (h : Handle) (changes : List (String × Value)) : Attempt Memory Unit :=
  Attempt.forEach changes fun change => load h change.1 change.2

/-- Takes over committed values and files the instance under its new key. -/
def update (changes : List (String × Value)) (h : Handle) : Attempt Memory Unit := do
  let oldKey := (← get).persistedKey h
  loadAll h changes
  modify fun m => m.rekey h oldKey

/-- Repeats a bulk update on the cached instances that satisfy its condition, and counts
them. -/
def reconcileUpdate (model : String) (condition : Condition) (changes : List (String × Value)) :
    Attempt Memory Nat := do
  let matched := (← get).cachedWith model condition.evaluate
  Attempt.forEach matched (update changes)
  return matched.length

/-! ### Deletes -/

/-- Sets a field of an instance to NULL and files it anew. -/
def clearField (name : String) (m : Memory) (h : Handle) : Memory :=
  let cleared := {m with heap := m.heap.modify h fun i => i.clear name}
  cleared.rekey h (m.persistedKey h)

/-- The cached instances of a model that refer by a navigation to an instance. NULL refers
to nothing. -/
def referrers (m : Memory) (owner : Model) (n : Navigation) (h : Handle) : List Handle :=
  match (m.heap.get? h).bind (·.get? n.targetField) with
  | some v => if v.isNull then [] else m.cachedWith owner.name (Cache.hasValue n.field v)
  | none => []

/-- Does to the referrers of a removed instance what a navigation declares. Those that are
to be removed too go before the ones that are pending, the last one first. -/
def followDelete (gone : Handle) (s : List Handle × Memory) (dependent : Model × Navigation) :
    List Handle × Memory :=
  let owners := s.2.referrers dependent.1 dependent.2 gone
  match dependent.2.onDelete with
  | .cascade => (owners.reverse ++ s.1, s.2)
  | .setNull => (s.1, owners.foldl (clearField dependent.2.field) s.2)
  | .restrict => s
  | .noAction => s

/-- Does what all navigations to a removed instance declare. -/
def followDeletes (r : Registry) (gone : Handle) (s : List Handle × Memory) : List Handle × Memory :=
  match s.2.heap.get? gone with
  | some i => (r.dependents i.model.name).foldl (followDelete gone) s
  | none => s

/-- The first of some instances that is still cached, the cache without it, and the
instances after it. -/
def takeCached? (m : Memory) : List Handle → Option (Handle × Cache × List Handle)
  | [] => none
  | h :: rest =>
    match m.cache.remove? m.heap h with
    | some cache => some (h, cache, rest)
    | none => m.takeCached? rest

/-- Removes the pending instances and all that have to follow them, at most `fuel` of
them, and lists them in the order of removal. -/
def removeAll (r : Registry) : Nat → List Handle → Memory → List Handle × Memory
  | 0, _, m => ([], m)
  | fuel + 1, pending, m =>
    match m.takeCached? pending with
    | none => ([], m)
    | some (gone, cache, rest) =>
      let next := followDeletes r gone (rest, {m with cache})
      let done := removeAll r fuel next.1 next.2
      (gone :: done.1, done.2)

/-- Drops instances from the loaded navigations of all cached ones. -/
def detach (m : Memory) (gone : List Handle) : Memory :=
  {m with heap := m.cache.handles.foldl (fun heap h => heap.modify h fun i => i.detach gone) m.heap}

/-- Repeats a delete on the cached instances: those that satisfy its condition are taken
out of the cache, the last one first, and each is followed by what its removal entails.
Every removal makes the cache smaller, so it can be no longer than the cache is large. -/
def reconcileDelete (r : Registry) (model : String) (condition : Condition) (m : Memory) :
    List Handle × Memory :=
  let matched := m.cachedWith model condition.evaluate
  let (gone, m) := removeAll r m.cache.size matched.reverse m
  (gone, m.detach gone)

end Memory

end RecordMapper
