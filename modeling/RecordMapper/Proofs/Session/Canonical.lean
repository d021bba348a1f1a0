import RecordMapper.Proofs.Instance.Canonical
import RecordMapper.Proofs.Session.CacheCalls
import RecordMapper.Proofs.Session.Reading

/-! Heaps of canonical instances.

Whatever is done to the instances of a cache, one after the other takes over values, loses or commits them, or has
targets attached and dropped. Each of these leaves a canonical instance canonical, and so every instance stays so
through any calls (`canonical_performAll`). -/
namespace RecordMapper

/-- Every instance is canonical. -/
def Heap.Canonical (heap : Heap) : Prop := ∀ ⦃h : Handle⦄ ⦃i : Instance⦄, heap.get? h = some i → i.Canonical

namespace Heap.Canonical

variable {heap : Heap} (hheap : heap.Canonical)
include hheap

theorem modify {h : Handle} {f : Instance → Instance}
    (hf : ∀ i, heap.get? h = some i → i.Canonical → (f i).Canonical) : (heap.modify h f).Canonical := by
  intro k j hj
  rw [Heap.get?_modify] at hj
  split at hj
  · next hk =>
    obtain ⟨i, hi, rfl⟩ := Option.map_eq_some_iff.1 hj
    exact hf i (hk ▸ hi) (hheap hi)
  · exact hheap hj

theorem put {h : Handle} {i : Instance} (hi : i.Canonical) : (heap.put h i).Canonical :=
  hheap.modify fun _ _ _ => hi

theorem add {i : Instance} (hi : i.Canonical) : (heap.add i).2.Canonical := by
  intro k j hj
  rw [Heap.get?_add] at hj
  split at hj
  · exact Option.some.inj hj ▸ hi
  · exact hheap hj

end Heap.Canonical

namespace Memory

/-- Every instance in a memory is canonical. -/
abbrev Canonical (m : Memory) : Prop := m.heap.Canonical

theorem canonical_empty : ({} : Memory).Canonical := fun _ _ h => by cases h

/-! ### Updates and plans -/

theorem keepsCanonical_load (h : Handle) (name : String) (v : Value) : Attempt.Keeps Canonical (load h name v) := by
  intro m hm
  unfold load
  rw [Attempt.runOn_ofRun]
  split
  · next i hi =>
    split
    · next hload => exact hm.put ((hm hi).load hload)
    · exact hm
  · exact hm

theorem keepsCanonical_loadAll (h : Handle) (changes : List (String × Value)) :
    Attempt.Keeps Canonical (loadAll h changes) :=
  Attempt.Keeps.forEach fun change _ => keepsCanonical_load h change.1 change.2

theorem keepsCanonical_reconcileUpdate (model : String) (condition : Condition) (changes : List (String × Value)) :
    Attempt.Keeps Canonical (reconcileUpdate model condition changes) := by
  refine Attempt.keeps_get.bind fun m => (Attempt.Keeps.forEach fun h _ => ?_).bind fun _ => Attempt.keeps_pure _
  exact Attempt.keeps_get.bind fun _ => (keepsCanonical_loadAll h changes).bind fun _ =>
    Attempt.keeps_modify fun _ hm => hm

theorem keepsCanonical_refresh (h : Handle) (i : Instance) : Attempt.Keeps Canonical (Session.refresh h i) := by
  refine Attempt.keeps_get.bind fun m => ?_
  split
  · exact (keepsCanonical_loadAll h _).bind fun _ => Attempt.keeps_modify fun _ hm => hm
  · exact Attempt.keeps_pure _

theorem Canonical.apply {m : Memory} (hm : m.Canonical) (p : FlushPlan) : (p.apply m).Canonical :=
  List.foldlRecOn (motive := Memory.Canonical) p FlushPlan.applyOne hm fun _ hm _ _ =>
    hm.modify fun _ _ hi => hi.commit

/-! ### Deletes -/

theorem Canonical.detach {m : Memory} (hm : m.Canonical) (gone : List Handle) : (m.detach gone).Canonical :=
  List.foldlRecOn (motive := Heap.Canonical) m.cache.handles (fun heap h => heap.modify h fun i => i.detach gone) hm
    fun _ hheap _ _ => hheap.modify fun _ _ hi => hi.of_unlinked rfl

theorem Canonical.reconcileDelete {m : Memory} (hm : m.Canonical) (r : Registry) (model : String)
    (condition : Condition) : (m.reconcileDelete r model condition).2.Canonical :=
  Canonical.detach (removeAll_keeps (P := Memory.Canonical)
    (fun name _ hm => hm.modify fun _ _ hi => hi.clear name) (fun _ hm => hm) r _ _ hm) _

/-! ### Calls -/

theorem Canonical.perform {m : Memory} (hm : m.Canonical) (call : CacheCall) : (m.perform call).Canonical := by
  cases call with
  | create model calls owner =>
    have hi := Instance.canonical_performAll model calls
    exact hm.add ⟨hi.fields, hi.current, hi.key⟩
  | set h name v =>
    unfold Memory.perform
    dsimp only
    split
    · next hset =>
      obtain ⟨i, hi, hset⟩ := Option.map_eq_some_iff.1 hset
      exact hm.put ((hm hi).set hset)
    · exact hm
    · exact hm
  | register h => exact hm
  | remove h =>
    unfold Memory.perform
    dsimp only
    split <;> exact hm
  | rekey h oldKey => exact hm
  | update model condition changes => exact keepsCanonical_reconcileUpdate model condition changes m hm
  | delete registry model condition => exact hm.reconcileDelete registry model condition
  | flush owner rules d handles =>
    unfold Memory.perform
    dsimp only
    split
    · exact hm.apply _
    · exact hm

/-- Whatever is done to a cache, its instances are canonical. -/
theorem canonical_performAll (calls : List CacheCall) : (({} : Memory).performAll calls).Canonical :=
  List.foldlRecOn (motive := Memory.Canonical) calls perform canonical_empty fun _ hm call _ => hm.perform call

end Memory

end RecordMapper
