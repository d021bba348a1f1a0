import Mathlib.Data.List.Nodup
import Mathlib.Data.List.Perm.Subperm
import RecordMapper.Proofs.Session.Moves

/-! The loop of a delete, to its end.

The loop works on a list of instances that are still to go: one that is not cached is skipped, one that
is cached is taken out and followed by what its removal entails. `Sweeps` is this loop without any bound.
It ends on every cache, because what was taken out does not come back (`Filed.sweeps_removeAll`). The
loaded navigations of all instances are then as they were before, and those that are still cached let go
of the removed ones. -/
namespace RecordMapper

namespace Memory

variable {m : Memory} {pending rest : List Handle} {k : Handle} {cache : Cache}

/-! ### The next one -/

/-- What is skipped is not cached. -/
theorem mem_of_takeCached? (ht : m.takeCached? pending = some (k, cache, rest)) {h : Handle} :
    (h ∈ rest → h ∈ pending) ∧ (h ∈ pending → m.cache.contains m.heap h = true → h = k ∨ h ∈ rest) := by
  induction pending with
  | nil => cases ht
  | cons l more ih =>
    unfold takeCached? at ht
    split at ht
    · cases ht
      exact ⟨.tail _, fun hh _ => List.mem_cons.1 hh⟩
    · next hnone =>
      obtain ⟨hback, hforth⟩ := ih ht
      refine ⟨fun hh => .tail _ (hback hh), fun hh hc => ?_⟩
      rcases List.mem_cons.1 hh with rfl | hh
      · rw [Cache.contains_of_remove?_eq_none hnone] at hc
        cases hc
      · exact hforth hh hc

theorem contains_of_takeCached?_eq_none (ht : m.takeCached? pending = none) :
    ∀ h ∈ pending, m.cache.contains m.heap h = false := by
  induction pending with
  | nil => exact fun _ hh => nomatch hh
  | cons l more ih =>
    unfold takeCached? at ht
    split at ht
    · cases ht
    · next hnone =>
      intro h hh
      rcases List.mem_cons.1 hh with rfl | hh
      · exact Cache.contains_of_remove?_eq_none hnone
      · exact ih ht h hh

/-! ### The end -/

/-- From the instances that are still to go the loop comes to its end, having removed some. -/
inductive Sweeps (r : Registry) : List Handle → Memory → List Handle → Memory → Prop
  | done {pending : List Handle} {m : Memory} (ht : m.takeCached? pending = none) : Sweeps r pending m [] m
  | remove {pending rest gone : List Handle} {m left : Memory} {k : Handle} {cache : Cache}
    (ht : m.takeCached? pending = some (k, cache, rest))
    (hrest : Sweeps r (followDeletes r k (rest, {m with cache})).1 (followDeletes r k (rest, {m with cache})).2
      gone left) :
    Sweeps r pending m (k :: gone) left

/-- Some instances that were cached have left. -/
structure Emptied (before : Memory) (gone : List Handle) (m : Memory) : Prop where
  follows : before.Follows m
  nodup : gone.Nodup
  left : ∀ k ∈ gone, before.cache.contains before.heap k = true ∧ ¬m.cache.contains m.heap k = true

variable {before : Memory} {gone : List Handle}

/-- No more can leave than were cached. -/
theorem Emptied.length_le (hm : Emptied before gone m) : gone.length ≤ before.cache.size :=
  (hm.nodup.subperm fun k hk => Cache.mem_handles_of_contains (hm.left k hk).1).length_le

theorem Emptied.step (hm : Emptied before gone m) (r : Registry) (ht : m.takeCached? pending = some (k, cache, rest)) :
    Emptied before (k :: gone) (followDeletes r k (rest, {m with cache})).2 := by
  have hr := (takeCached?_eq_some ht).1
  have hc := Cache.contains_of_remove?_eq_some hr
  have hremoved := hm.follows.filed.follows_remove hr
  have hfollowed := Filed.follows_followDeletes (s := (rest, {m with cache})) hremoved.filed r k
  refine ⟨hm.follows.trans (hremoved.trans hfollowed), List.nodup_cons.2 ⟨fun hk => (hm.left k hk).2 hc, hm.nodup⟩,
    fun l hl => ?_⟩
  rcases List.mem_cons.1 hl with rfl | hl
  · exact ⟨hm.follows.cached hc, fun hc' => ((contains_remove hr _).1 (hfollowed.cached hc')).2 rfl⟩
  · exact ⟨(hm.left l hl).1, fun hc' => (hm.left l hl).2 (hremoved.cached (hfollowed.cached hc'))⟩

/-- Fuel for every instance that was cached is enough. -/
theorem Emptied.sweeps_removeAll (hm : Emptied before gone m) {fuel : Nat}
    (hfuel : before.cache.size ≤ fuel + gone.length) (r : Registry) (pending : List Handle) :
    Sweeps r pending m (removeAll r fuel pending m).1 (removeAll r fuel pending m).2 := by
  induction fuel generalizing gone pending m with
  | zero =>
    refine .done ?_
    cases ht : m.takeCached? pending with
    | none => rfl
    | some taken =>
      have hlength := (hm.step r ht).length_le
      rw [List.length_cons] at hlength
      omega
  | succ fuel ih =>
    unfold removeAll
    cases ht : m.takeCached? pending with
    | none => exact .done ht
    | some taken => exact .remove ht (ih (hm.step r ht) (by rw [List.length_cons]; omega) _)

/-- The loop ends on every cache, and a delete does what it does until then. -/
theorem Filed.sweeps_removeAll (hm : m.Filed) (r : Registry) (pending : List Handle) :
    Sweeps r pending m (removeAll r m.cache.size pending m).1 (removeAll r m.cache.size pending m).2 :=
  Emptied.sweeps_removeAll ⟨hm.follows_refl, .nil, fun _ hk => nomatch hk⟩ (Nat.le_add_right _ _) r pending

end Memory

/-! ### What is loaded -/

/-- The targets that have been loaded. -/
def Instance.links (i : Instance) : List (String × Option Handle) × List (String × List Handle) :=
  (i.singles, i.collections)

theorem Instance.links_clear (i : Instance) (name : String) : (i.clear name).links = i.links := by
  unfold clear settle links
  split <;> rfl

/-- An instance that has let go of others has none of them loaded. -/
theorem Instance.not_mem_links_detach (i : Instance) {gone : List Handle} {k : Handle} (hk : k ∈ gone) :
    (∀ e ∈ (i.detach gone).singles, e.2 ≠ some k) ∧ ∀ e ∈ (i.detach gone).collections, k ∉ e.2 := by
  constructor
  · intro e he hsome
    obtain ⟨e, -, rfl⟩ := List.mem_map.1 he
    have hkept := (Option.filter_eq_some_iff.1 hsome).2
    exact of_decide_eq_true hkept hk
  · intro e he hmem
    obtain ⟨e, -, rfl⟩ := List.mem_map.1 he
    exact of_decide_eq_true (List.mem_filter.1 hmem).2 hk

theorem Instance.detach_detach (i : Instance) (gone : List Handle) : (i.detach gone).detach gone = i.detach gone := by
  simp [detach, List.map_map, Function.comp_def, Option.filter_filter, List.filter_filter]

namespace Heap

/-- Every instance has loaded what it had. -/
def KeepsLinks (a b : Heap) : Prop :=
  ∀ {h : Handle} {i : Instance}, a.get? h = some i → ∃ j, b.get? h = some j ∧ j.links = i.links

theorem KeepsLinks.clear {a b : Heap} (h : a.KeepsLinks b) (name : String) (k : Handle) :
    a.KeepsLinks (b.modify k (·.clear name)) := by
  intro l i hi
  obtain ⟨j, hj, hlinks⟩ := h hi
  rw [get?_modify, hj]
  split
  · exact ⟨j.clear name, rfl, (j.links_clear name).trans hlinks⟩
  · exact ⟨j, rfl, hlinks⟩

end Heap

namespace Memory

variable {m : Memory}

/-- The loop leaves alone what is loaded. -/
theorem keepsLinks_removeAll (r : Registry) (fuel : Nat) (pending : List Handle) (m : Memory) :
    m.heap.KeepsLinks (removeAll r fuel pending m).2.heap :=
  removeAll_keeps (P := fun left => m.heap.KeepsLinks left.heap) (fun name h hk => hk.clear name h) (fun _ hk => hk)
    r fuel pending fun {_ i} hi => ⟨i, hi, rfl⟩

/-- What is cached lets go of some instances. -/
theorem get?_detach {h : Handle} (hc : m.cache.contains m.heap h = true) (gone : List Handle) :
    (m.detach gone).heap.get? h = (m.heap.get? h).map (·.detach gone) := by
  have hall := m.heap.get?_modifyAll (f := (·.detach gone)) (fun i => i.detach_detach gone) m.cache.handles h
  rw [if_pos (Cache.mem_handles_of_contains hc)] at hall
  exact hall

end Memory

end RecordMapper
