import RecordMapper.Proofs.Field.Coerce
import RecordMapper.Proofs.Session.Flush

/-! Instances that move among the cached ones.

Replaying a write comes down to moves: an instance takes over values, commits or loses a value,
and is filed anew from the key it had. A move to the key of another instance puts that one out of
the cache, and nothing else does (`keepsCached_move_iff`). So a bulk update, the plan of a save and
a delete keep all cached instances, but for the deleted ones, exactly when every instance they move
goes to a key of its own. -/
namespace RecordMapper

namespace Heap

theorem ext {a b : Heap} (h : ∀ k, a.get? k = b.get? k) : a = b := by
  obtain ⟨a⟩ := a
  obtain ⟨b⟩ := b
  congr 1
  exact Array.ext_getElem? fun n => h ⟨n⟩

/-- Changing an instance is putting the changed one in its place. -/
theorem put_eq_modify {heap : Heap} {h : Handle} {i : Instance} (hi : heap.get? h = some i)
    (f : Instance → Instance) : heap.put h (f i) = heap.modify h f := by
  apply ext
  intro k
  rw [put, get?_modify, get?_modify]
  split
  · next hk => rw [← hk, hi]; rfl
  · rfl

theorem modify_modify (heap : Heap) (h : Handle) (f g : Instance → Instance) :
    (heap.modify h f).modify h g = heap.modify h fun i => g (f i) := by
  apply ext
  intro k
  simp only [get?_modify]
  split
  · rw [Option.map_map]
    rfl
  · rfl

theorem modify_congr {heap : Heap} {h : Handle} {f g : Instance → Instance}
    (hfg : ∀ i, heap.get? h = some i → f i = g i) : heap.modify h f = heap.modify h g := by
  apply ext
  intro k
  rw [get?_modify, get?_modify]
  split
  · next hk => exact Option.map_congr fun i hi => hfg i (hk ▸ hi)
  · rfl

theorem modify_id (heap : Heap) (h : Handle) : heap.modify h (fun i => i) = heap := by
  apply ext
  intro k
  rw [get?_modify]
  split
  · exact Option.map_id_apply
  · rfl

theorem modify_of_none {heap : Heap} {h : Handle} (hn : heap.get? h = none) (f : Instance → Instance) :
    heap.modify h f = heap := by
  apply ext
  intro k
  rw [get?_modify]
  split
  · next hk => rw [← hk, hn]; rfl
  · rfl

/-- Instances are changed one after the other, by what makes no difference the second time. -/
theorem get?_modifyAll {f : Instance → Instance} (hf : ∀ i, f (f i) = f i) (heap : Heap) (hs : List Handle)
    (k : Handle) : (hs.foldl (fun heap h => heap.modify h f) heap).get? k =
      if k ∈ hs then (heap.get? k).map f else heap.get? k := by
  induction hs generalizing heap with
  | nil => rfl
  | cons h rest ih =>
    rw [List.foldl_cons, ih, get?_modify]
    by_cases hk : h = k
    · subst hk
      have hff : f ∘ f = f := funext hf
      rw [if_pos rfl, if_pos List.mem_cons_self, Option.map_map, hff, ite_self]
    · simp only [if_neg hk, List.mem_cons, (Ne.symm hk : k ≠ h), false_or]

end Heap

namespace Memory

/-! ### Keeping what is cached -/

/-- Two steps after one another keep everything when each of them does, as nothing comes back. -/
theorem Follows.keepsCached_trans_iff {m m' m'' : Memory} (h : m.Follows m') (h' : m'.Follows m'') :
    m.KeepsCached m'' ↔ m.KeepsCached m' ∧ m'.KeepsCached m'' :=
  ⟨fun hk => ⟨fun k hc => h'.cached (hk k hc), fun k hc => hk k (h.cached hc)⟩,
    fun ⟨hk, hk'⟩ k hc => hk' k (hk k hc)⟩

/-- A run of steps keeps everything when each of them does. -/
theorem Filed.keepsCached_foldl_iff {σ α : Type} {step : σ → α → σ} {P : σ → α → Prop} (memory : σ → Memory)
    (hf : ∀ s a, (memory s).Filed → (memory s).Follows (memory (step s a)))
    (hP : ∀ s a, (memory s).Filed → ((memory s).KeepsCached (memory (step s a)) ↔ P s a))
    {s : σ} (hs : (memory s).Filed) (xs : List α) :
    (memory s).Follows (memory (xs.foldl step s)) ∧
      ((memory s).KeepsCached (memory (xs.foldl step s)) ↔ AllSteps step P xs s) := by
  induction xs generalizing s with
  | nil => exact ⟨hs.follows_refl, fun _ => trivial, fun _ _ h => h⟩
  | cons a rest ih =>
    have hstep := hf s a hs
    obtain ⟨hrest, hkeeps⟩ := ih hstep.filed
    refine ⟨hstep.trans hrest, ?_⟩
    rw [List.foldl_cons, hstep.keepsCached_trans_iff hrest, hP s a hs, hkeeps]
    rfl

/-! ### Moves -/

/-- Changes an instance and files it anew. -/
def move (f : Instance → Instance) (m : Memory) (h : Handle) : Memory :=
  rekey {m with heap := m.heap.modify h f} h (m.persistedKey h)

/-- A cached instance gets a key that no other one is filed under. -/
def MovesFreely (f : Instance → Instance) (m : Memory) (h : Handle) : Prop :=
  m.cache.contains m.heap h = true → ∀ k, keyHolder? {m with heap := m.heap.modify h f} h = some k → k = h

instance (f : Instance → Instance) (m : Memory) (h : Handle) : Decidable (m.MovesFreely f h) :=
  inferInstanceAs (Decidable (_ → ∀ k ∈ keyHolder? {m with heap := m.heap.modify h f} h, k = h))

section

variable {f : Instance → Instance} (hf : ∀ i : Instance, i.TakesOver (f i))
include hf

theorem Filed.follows_move {m : Memory} (hm : m.Filed) (h : Handle) : m.Follows (m.move f h) :=
  hm.follows_moved (fun _ hk => m.heap.get?_modify_of_ne hk _) (m.heap.takesOver_modify h fun i _ => hf i)

theorem Filed.keepsCached_move_iff {m : Memory} (hm : m.Filed) (h : Handle) :
    m.KeepsCached (m.move f h) ↔ m.MovesFreely f h := by
  have hcontains := hm.contains_moved (fun _ hk => m.heap.get?_modify_of_ne hk _)
    (m.heap.takesOver_modify h fun i _ => hf i)
  constructor
  · intro hk hh k hholder
    obtain ⟨i, _, hfiled⟩ := keyHolder?_eq_some_iff.1 hholder
    exact ((hcontains k).1 (hk k (hm.contains hfiled))).2 hh hholder
  · exact fun hfree k hk => (hcontains k).2 ⟨hk, fun hh => hfree hh k⟩

/-- A run of moves keeps all cached instances exactly when each of them goes to a key of its
own. -/
theorem Filed.keepsCached_moveAll_iff {m : Memory} (hm : m.Filed) (hs : List Handle) :
    m.Follows (hs.foldl (move f) m) ∧
      (m.KeepsCached (hs.foldl (move f) m) ↔ AllSteps (move f) (MovesFreely f) hs m) :=
  hm.keepsCached_foldl_iff id (fun _ h hm => hm.follows_move hf h)
    (fun _ h hm => hm.keepsCached_move_iff hf h) hs

end

/-! ### Bulk updates -/

end Memory

namespace Instance

/-- Takes over committed values. -/
def takeAll (changes : List (String × Value)) (i : Instance) : Instance :=
  i.performAll (changes.map fun change => .load change.1 change.2)

end Instance

/-- Every value is in the canonical form of its field. -/
def Model.Takes (m : Model) (changes : List (String × Value)) : Prop :=
  ∀ change ∈ changes, ∃ f, m.field? change.1 = some f ∧ f.coerce change.2 = .ok change.2

namespace Instance

theorem Coherent.cell?_of_field? {i : Instance} (hi : i.Coherent) {name : String} {f : Field}
    (hf : i.model.field? name = some f) : ∃ c, i.cell? name = some c ∧ c.field = f := by
  unfold Model.field? at hf
  rw [← hi.fields, List.find?_map] at hf
  exact Option.map_eq_some_iff.1 hf

theorem perform_load {i j : Instance} {name : String} {v : Value} (h : i.load name v = .ok j) :
    i.perform (.load name v) = j := by
  unfold perform
  simp only [h]

/-- A canonical value is always taken over. -/
theorem Coherent.load_eq {i : Instance} (hi : i.Coherent) {name : String} {f : Field} {v : Value}
    (hf : i.model.field? name = some f) (hv : f.coerce v = .ok v) :
    i.load name v = .ok (i.perform (.load name v)) := by
  obtain ⟨c, hc, rfl⟩ := hi.cell?_of_field? hf
  have hload : i.load name v = .ok (settle {i with cells := Cell.update name (·.settled v) i.cells}) := by
    unfold Instance.load prepare
    rw [hc]
    simp only [hv]
    rfl
  rw [perform_load hload, hload]

theorem takesOver_perform_load (i : Instance) (name : String) (v : Value) :
    i.TakesOver (i.perform (.load name v)) := by
  unfold perform
  dsimp only
  split
  · next hload => exact takesOver_load hload
  · exact .refl i

theorem takesOver_takeAll (changes : List (String × Value)) (i : Instance) :
    i.TakesOver (i.takeAll changes) := by
  induction changes generalizing i with
  | nil => exact .refl i
  | cons change rest ih => exact (i.takesOver_perform_load change.1 change.2).trans (ih _)

end Instance

namespace Memory

theorem loadAll_eq {m : Memory} {h : Handle} {changes : List (String × Value)}
    (ht : ∀ i, m.heap.get? h = some i → i.Coherent ∧ i.model.Takes changes) :
    (loadAll h changes).runOn m = (.ok (), {m with heap := m.heap.modify h (·.takeAll changes)}) := by
  induction changes generalizing m with
  | nil =>
    show (Except.ok (), m) = (Except.ok (), {m with heap := m.heap.modify h fun i => i})
    rw [Heap.modify_id]
  | cons change rest ih =>
    have hfirst : (load h change.1 change.2).runOn m =
        (.ok (), {m with heap := m.heap.modify h (·.perform (.load change.1 change.2))}) := by
      unfold load
      rw [Attempt.runOn_ofRun]
      cases hi : m.heap.get? h with
      | none => simp only [Heap.modify_of_none hi]
      | some i =>
        obtain ⟨hcoherent, htakes⟩ := ht i hi
        obtain ⟨f, hf, hv⟩ := htakes change (.head _)
        simp only [hcoherent.load_eq hf hv, Heap.put_eq_modify hi (·.perform (.load change.1 change.2))]
    have hrest := ih (m := {m with heap := m.heap.modify h (·.perform (.load change.1 change.2))}) fun j hj => by
      rw [Heap.get?_modify_self] at hj
      obtain ⟨i, hi, rfl⟩ := Option.map_eq_some_iff.1 hj
      obtain ⟨hcoherent, htakes⟩ := ht i hi
      have hij := i.takesOver_perform_load change.1 change.2
      exact ⟨hij.coherent hcoherent, hij.model ▸ fun e he => htakes e (.tail _ he)⟩
    unfold loadAll Attempt.forEach
    rw [Attempt.runOn_bind, hfirst]
    refine hrest.trans ?_
    rw [Heap.modify_modify]
    rfl

theorem update_eq {m : Memory} {h : Handle} {changes : List (String × Value)}
    (ht : ∀ i, m.heap.get? h = some i → i.Coherent ∧ i.model.Takes changes) :
    (update changes h).runOn m = (.ok (), m.move (·.takeAll changes) h) := by
  rw [runOn_update, loadAll_eq ht]
  rfl

theorem updateAll_eq {m : Memory} (hc : m.heap.Coherent) {changes : List (String × Value)}
    {hs : List Handle} (ht : ∀ h ∈ hs, ∀ i, m.heap.get? h = some i → i.model.Takes changes) :
    (Attempt.forEach hs (update changes)).runOn m = (.ok (), hs.foldl (move (·.takeAll changes)) m) := by
  induction hs generalizing m with
  | nil => rfl
  | cons h rest ih =>
    have hstep : m.heap.TakesOver (m.move (·.takeAll changes) h).heap :=
      m.heap.takesOver_modify h fun i _ => i.takesOver_takeAll changes
    unfold Attempt.forEach
    rw [Attempt.runOn_bind, update_eq fun i hi => ⟨hc hi, ht h (.head _) i hi⟩]
    refine ih (hstep.coherent hc) fun k hk j hj => ?_
    obtain ⟨i, hi, hij⟩ := hstep.before hj
    exact hij.model ▸ ht k (.tail _ hk) i hi

/-- A bulk update of canonical values cannot fail, and is a run of moves. -/
theorem reconcileUpdate_eq {m : Memory} (hc : m.heap.Coherent) {model : String} {condition : Condition}
    {changes : List (String × Value)}
    (ht : ∀ h ∈ m.cache.entries model, ∀ i, m.heap.get? h = some i → i.model.Takes changes) :
    let matched := m.cachedWith model condition.evaluate
    (reconcileUpdate model condition changes).runOn m =
      (.ok matched.length, matched.foldl (move (·.takeAll changes)) m) := by
  intro matched
  rw [runOn_reconcileUpdate]
  have hall := updateAll_eq hc fun h (hh : h ∈ matched) => ht h (List.mem_filter.1 hh).1
  exact congrArg (fun out : Except Error Unit × Memory => (out.1.map fun _ => matched.length, out.2)) hall

end Memory

/-! ### Plans -/

theorem Instance.commit_commit (i : Instance) : i.commit.commit = i.commit := by
  simp [commit, Function.comp_def, Cell.committed]

namespace FlushPlan

/-- Applying a plan commits its instances, and changes no other one. -/
theorem heap_apply (p : FlushPlan) (m : Memory) (k : Handle) :
    (p.apply m).heap.get? k =
      if k ∈ p.map (·.handle) then (m.heap.get? k).map (·.commit) else m.heap.get? k := by
  have hheap : (p.apply m).heap = (p.map (·.handle)).foldl (fun heap h => heap.modify h (·.commit)) m.heap := by
    induction p generalizing m with
    | nil => rfl
    | cons u rest ih => exact ih (applyOne m u)
  rw [hheap]
  exact m.heap.get?_modifyAll Instance.commit_commit _ k

/-- A plan for distinct instances, with the keys that their rows have, is a run of moves. -/
theorem apply_eq {m : Memory} {p : FlushPlan} (hn : (p.map (·.handle)).Nodup)
    (hk : ∀ u ∈ p, u.persistedKey = m.persistedKey u.handle) :
    p.apply m = (p.map (·.handle)).foldl (Memory.move (·.commit)) m := by
  induction p generalizing m with
  | nil => rfl
  | cons u rest ih =>
    obtain ⟨hne, hn⟩ := List.nodup_cons.1 hn
    have hfirst : applyOne m u = m.move (·.commit) u.handle := by
      unfold applyOne Memory.move
      rw [hk u (.head _)]
      rfl
    have hrest := ih (m := applyOne m u) hn fun v hv => by
      have hother : v.handle ≠ u.handle := fun he =>
        hne (List.mem_map.2 ⟨v, hv, he⟩)
      unfold Memory.persistedKey
      rw [heap_applyOne_of_ne m u hother]
      exact hk v (.tail _ hv)
    rw [List.map_cons, List.foldl_cons, ← hfirst]
    exact hrest

end FlushPlan

namespace Memory

/-! ### Deletes -/

/-- Where referrers lose their value, each of them goes to a key of its own. -/
def FollowsFreely (gone : Handle) (s : List Handle × Memory) (dependent : Model × Navigation) : Prop :=
  match dependent.2.onDelete with
  | .setNull =>
    AllSteps (move (·.clear dependent.2.field)) (MovesFreely (·.clear dependent.2.field))
      (s.2.referrers dependent.1 dependent.2 gone) s.2
  | .cascade => True
  | .restrict => True
  | .noAction => True

/-- The same for all navigations to a removed instance. -/
def FollowsAllFreely (r : Registry) (gone : Handle) (s : List Handle × Memory) : Prop :=
  match s.2.heap.get? gone with
  | some i => AllSteps (followDelete gone) (FollowsFreely gone) (r.dependents i.model.name) s
  | none => True

/-- The same for all instances that are removed in turn. -/
def RemovesFreely (r : Registry) : Nat → List Handle → Memory → Prop
  | 0, _, _ => True
  | fuel + 1, pending, m =>
    match m.takeCached? pending with
    | none => True
    | some (gone, cache, rest) =>
      let next := followDeletes r gone (rest, {m with cache})
      FollowsAllFreely r gone (rest, {m with cache}) ∧ RemovesFreely r fuel next.1 next.2

theorem Filed.keepsCached_followDelete_iff {s : List Handle × Memory} (hm : s.2.Filed) (gone : Handle)
    (dependent : Model × Navigation) :
    s.2.KeepsCached (followDelete gone s dependent).2 ↔ FollowsFreely gone s dependent := by
  have hself : s.2.KeepsCached s.2 ↔ True := ⟨fun _ => trivial, fun _ _ h => h⟩
  unfold followDelete FollowsFreely
  cases dependent.2.onDelete with
  | setNull => exact (hm.keepsCached_moveAll_iff (fun i => i.takesOver_clear _) _).2
  | cascade => exact hself
  | restrict => exact hself
  | noAction => exact hself

theorem Filed.keepsCached_followDeletes_iff {s : List Handle × Memory} (hm : s.2.Filed) (r : Registry)
    (gone : Handle) : s.2.KeepsCached (followDeletes r gone s).2 ↔ FollowsAllFreely r gone s := by
  unfold followDeletes FollowsAllFreely
  cases s.2.heap.get? gone with
  | some i =>
    exact (hm.keepsCached_foldl_iff Prod.snd (fun s d hm => hm.follows_followDelete gone d)
      (fun s d hm => hm.keepsCached_followDelete_iff gone d) _).2
  | none => exact ⟨fun _ => trivial, fun _ _ h => h⟩

/-- The removed instances were cached, and are not any more. -/
theorem Filed.contains_removed {m : Memory} (hm : m.Filed) (r : Registry) (fuel : Nat)
    (pending : List Handle) : ∀ k ∈ (removeAll r fuel pending m).1,
      m.cache.contains m.heap k = true ∧
        ¬(removeAll r fuel pending m).2.cache.contains (removeAll r fuel pending m).2.heap k = true := by
  induction fuel generalizing pending m with
  | zero => exact fun _ hk => absurd hk List.not_mem_nil
  | succ fuel ih =>
    unfold removeAll
    split
    · exact fun _ hk => absurd hk List.not_mem_nil
    · next gone cache rest ht =>
      have hr := (takeCached?_eq_some ht).1
      have hremoved := hm.follows_remove hr
      have hfollowed := Filed.follows_followDeletes (s := (rest, {m with cache})) hremoved.filed r gone
      have hrest := hfollowed.filed.follows_removeAll r fuel (followDeletes r gone (rest, {m with cache})).1
      have hgone := Cache.contains_of_remove?_eq_some hr
      intro k hk
      rcases List.mem_cons.1 hk with rfl | hk
      · refine ⟨hgone, fun hc => ?_⟩
        exact ((contains_remove hr k).1 (hfollowed.cached (hrest.cached hc))).2 rfl
      · obtain ⟨hbefore, hafter⟩ := ih hfollowed.filed _ k hk
        exact ⟨hremoved.cached (hfollowed.cached hbefore), hafter⟩

/-- A delete keeps all but the removed instances exactly when the referrers that lose their
value go to keys of their own. -/
theorem Filed.keepsCached_removeAll_iff {m : Memory} (hm : m.Filed) (r : Registry) (fuel : Nat)
    (pending : List Handle) :
    (∀ k, m.cache.contains m.heap k = true → k ∈ (removeAll r fuel pending m).1 ∨
      (removeAll r fuel pending m).2.cache.contains (removeAll r fuel pending m).2.heap k = true) ↔
    RemovesFreely r fuel pending m := by
  induction fuel generalizing pending m with
  | zero => exact ⟨fun _ => trivial, fun _ _ h => .inr h⟩
  | succ fuel ih =>
    unfold removeAll RemovesFreely
    cases ht : m.takeCached? pending with
    | none => exact ⟨fun _ => trivial, fun _ _ h => .inr h⟩
    | some taken =>
      obtain ⟨gone, cache, rest⟩ := taken
      dsimp only
      have hr := (takeCached?_eq_some ht).1
      have hremoved := hm.follows_remove hr
      have hfollowed := Filed.follows_followDeletes (s := (rest, {m with cache})) hremoved.filed r gone
      rw [← Filed.keepsCached_followDeletes_iff (s := (rest, {m with cache})) hremoved.filed r gone,
        ← ih hfollowed.filed]
      generalize followDeletes r gone (rest, {m with cache}) = next at hfollowed
      have hrest := hfollowed.filed.follows_removeAll r fuel next.1
      have hdone := hfollowed.filed.contains_removed r fuel next.1
      constructor
      · intro hall
        have hlater : ∀ k, cache.contains m.heap k = true → k ∈ (removeAll r fuel next.1 next.2).1 ∨
            (removeAll r fuel next.1 next.2).2.cache.contains
              (removeAll r fuel next.1 next.2).2.heap k = true := fun k hk =>
          (hall k (hremoved.cached hk)).imp_left fun hk' =>
            (List.mem_cons.1 hk').resolve_left ((contains_remove hr k).1 hk).2
        refine ⟨fun k hk => ?_, fun k hk => hlater k (hfollowed.cached hk)⟩
        exact (hlater k hk).elim (fun hk => (hdone k hk).1) hrest.cached
      · rintro ⟨hfirst, hall⟩ k hk
        by_cases hgone : k = gone
        · exact .inl (hgone ▸ .head _)
        · exact (hall k (hfirst k ((contains_remove hr k).2 ⟨hk, hgone⟩))).imp_left (.tail _)

end Memory

end RecordMapper
