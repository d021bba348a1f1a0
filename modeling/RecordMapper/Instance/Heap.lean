import RecordMapper.Instance.Basic

/-! The heap: all instances there are, each under a handle of its own.

Instances are shared: a cache, a list of tracked instances and the navigations of others
may hold the same handle, and a change made through one is seen through all. The heap
only grows, so a handle stays good. -/
namespace RecordMapper

structure Heap where
  instances : Array Instance := #[]
  deriving Inhabited

namespace Heap

def size (heap : Heap) : Nat := heap.instances.size

/-- The instance under a handle. -/
def get? (heap : Heap) (h : Handle) : Option Instance := heap.instances[h.index]?

/-- Adds an instance and names it. -/
def add (heap : Heap) (i : Instance) : Handle × Heap :=
  (⟨heap.instances.size⟩, ⟨heap.instances.push i⟩)

/-- Changes the instance under a handle. -/
def modify (heap : Heap) (h : Handle) (f : Instance → Instance) : Heap :=
  ⟨heap.instances.modify h.index f⟩

/-- Puts an instance in the place of the one under a handle. -/
def put (heap : Heap) (h : Handle) (i : Instance) : Heap := heap.modify h fun _ => i

/-- Whether the instance under a handle has a property. -/
def holds (heap : Heap) (p : Instance → Bool) (h : Handle) : Bool := (heap.get? h).any p

theorem get?_modify (heap : Heap) (h k : Handle) (f : Instance → Instance) :
    (heap.modify h f).get? k = if h = k then (heap.get? k).map f else heap.get? k := by
  obtain ⟨h⟩ := h
  obtain ⟨k⟩ := k
  simp only [get?, modify, Array.getElem?_modify, Handle.mk.injEq]

theorem get?_add_self (heap : Heap) (i : Instance) : (heap.add i).2.get? (heap.add i).1 = some i := by
  simp [get?, add]

theorem holds_of_get? {heap : Heap} {h : Handle} {i : Instance} (hi : heap.get? h = some i)
    (p : Instance → Bool) : heap.holds p h = p i := by
  unfold holds
  rw [hi]
  rfl

end Heap

end RecordMapper
