import RecordMapper.Instance.Heap

/-! What a session remembers for the next save: the instances it handed out, and those
that were queued. Neither list holds an instance twice. -/
namespace RecordMapper

structure Tracker where
  /-- Handed out, in the order in which that happened. -/
  tracked : List Handle := []
  queued : List Handle := []
  deriving DecidableEq, Inhabited

/-- Adds an instance at the end, unless it is there. -/
def insertHandle (h : Handle) (handles : List Handle) : List Handle :=
  if h ∈ handles then handles else handles ++ [h]

namespace Tracker

def track (t : Tracker) (h : Handle) : Tracker := {t with tracked := insertHandle h t.tracked}
def enqueue (t : Tracker) (h : Handle) : Tracker := {t with queued := insertHandle h t.queued}
def isTracked (t : Tracker) (h : Handle) : Bool := h ∈ t.tracked

/-- What the next save considers: the dirty ones among the tracked instances, and then the
queued ones, none of them twice. -/
def candidates (t : Tracker) (heap : Heap) : List Handle :=
  let dirty := t.tracked.filter (heap.holds (·.isDirty))
  dirty ++ t.queued.filter (· ∉ dirty)

def clearQueue (t : Tracker) : Tracker := {t with queued := []}

/-- Drops instances that are gone. -/
def forget (t : Tracker) (gone : List Handle) : Tracker :=
  ⟨t.tracked.filter (· ∉ gone), t.queued.filter (· ∉ gone)⟩

end Tracker

end RecordMapper
