import Mathlib.Data.List.Nodup
import Mathlib.Data.List.Perm.Subperm
import RecordMapper.Proofs.Session.Canonical
import RecordMapper.Proofs.Session.Moves

/-! Plans that give cached instances new keys.

The database changes all keys of a plan at once, and the cache follows one instance after the other. So the place
that an instance goes to may still be taken by another one of the plan, whose turn comes later; that one is put out
then, and is not found any more when its turn has come. With new keys that are distinct and taken by no one else,
this is all that can go wrong: every instance ends in its new place exactly if none goes to the place of a later one
(`relocates_iff`). -/
namespace RecordMapper

@[simp] theorem Instance.primaryKey_commit (i : Instance) : i.commit.primaryKey = i.primaryKey := by
  simp [primaryKey, commit, List.filter_map, Function.comp_def, Cell.committed]

theorem Cache.Consistent.shelf_of_mem {c : Cache} (hc : c.Consistent) {e : String × Shelf} (he : e ∈ c.shelves) :
    c.shelf e.1 = e.2 := by
  unfold Cache.shelf
  rw [KeyedList.get?_of_mem hc.names_nodup he]
  rfl

namespace Memory

/-! ### All that is cached -/

/-- What stands on a shelf is filed there. -/
theorem Filed.filed?_of_mem {m : Memory} (hm : m.Filed) {e : String × Shelf} (he : e ∈ m.cache.shelves)
    {d : String × Handle} (hd : d ∈ e.2.filed) : m.cache.filed? e.1 d.1 = some d.2 := by
  have hs := hm.consistent.shelf e.1
  unfold Cache.filed?
  rw [hm.consistent.shelf_of_mem he] at hs ⊢
  exact KeyedList.get?_of_mem hs.filed_nodup hd

theorem Filed.mem_handles {m : Memory} (hm : m.Filed) {h : Handle} :
    h ∈ m.cache.handles ↔ m.cache.contains m.heap h = true := by
  refine ⟨fun hh => ?_, Cache.mem_handles_of_contains⟩
  obtain ⟨e, he, hh⟩ := List.mem_flatMap.1 hh
  obtain ⟨d, hd, rfl⟩ := List.mem_map.1 hh
  exact hm.contains (hm.filed?_of_mem he hd)

/-- The cached instances are listed once each. -/
theorem Filed.nodup_handles {m : Memory} (hm : m.Filed) : m.cache.handles.Nodup := by
  have hplace : ∀ {e e' : String × Shelf} {d d' : String × Handle}, e ∈ m.cache.shelves → d ∈ e.2.filed →
      e' ∈ m.cache.shelves → d' ∈ e'.2.filed → d.2 = d'.2 → e.1 = e'.1 ∧ d.1 = d'.1 := by
    intro e e' d d' he hd he' hd' hsame
    obtain ⟨i, hi, hmodel, hkey⟩ := hm.under (hm.filed?_of_mem he hd)
    obtain ⟨j, hj, hmodel', hkey'⟩ := hm.under (hm.filed?_of_mem he' hd')
    obtain rfl : i = j := Option.some.inj (hi.symm.trans (hsame ▸ hj))
    exact ⟨hmodel.symm.trans hmodel', hkey.symm.trans hkey'⟩
  refine List.nodup_flatMap.2 ⟨fun e he => ?_, ?_⟩
  · have hkeys := hm.consistent.shelf_of_mem he ▸ (hm.consistent.shelf e.1).filed_nodup
    exact List.pairwise_map.2 ((List.pairwise_map.1 hkeys).imp_of_mem fun hd hd' hne hsame =>
      hne (hplace he hd he hd' hsame).2)
  · refine (List.pairwise_map.1 hm.consistent.names_nodup).imp_of_mem fun he he' hne h hh hh' => ?_
    obtain ⟨d, hd, rfl⟩ := List.mem_map.1 hh
    obtain ⟨d', hd', hsame⟩ := List.mem_map.1 hh'
    exact hne (hplace he hd he' hd' hsame.symm).1

/-- A memory that follows another one has as many cached instances exactly if it keeps all of them. -/
theorem Follows.keepsCached_iff_size {m m' : Memory} (hm : m.Filed) (h : m.Follows m') :
    m.KeepsCached m' ↔ m'.cache.size = m.cache.size := by
  have hsub : m'.cache.handles.Subperm m.cache.handles := h.filed.nodup_handles.subperm fun k hk =>
    hm.mem_handles.2 (h.cached (h.filed.mem_handles.1 hk))
  constructor
  · intro hkeeps
    have hsub' : m.cache.handles.Subperm m'.cache.handles := hm.nodup_handles.subperm fun k hk =>
      h.filed.mem_handles.2 (hkeeps k (hm.mem_handles.1 hk))
    exact Nat.le_antisymm hsub.length_le hsub'.length_le
  · intro hsize k hk
    have hperm := hsub.perm_of_length_le (Nat.le_of_eq hsize.symm)
    exact h.filed.mem_handles.1 (hperm.mem_iff.2 (hm.mem_handles.2 hk))

/-! ### Places -/

/-- Where the row of an instance is stored. -/
def place? (m : Memory) (h : Handle) : Option (String × List Value) :=
  (m.heap.get? h).map fun i => (i.model.name, i.persistedKey)

/-- Where it will be stored with the current key. -/
def nextPlace? (m : Memory) (h : Handle) : Option (String × List Value) :=
  (m.heap.get? h).map fun i => (i.model.name, i.primaryKey)

section

variable {m : Memory} {h k : Handle}

theorem place?_congr {m' : Memory} (hk : m'.heap.get? k = m.heap.get? k) : m'.place? k = m.place? k := by
  unfold place?
  rw [hk]

theorem nextPlace?_congr {m' : Memory} (hk : m'.heap.get? k = m.heap.get? k) : m'.nextPlace? k = m.nextPlace? k := by
  unfold nextPlace?
  rw [hk]

theorem heap_move_of_ne {f : Instance → Instance} (hk : k ≠ h) : (m.move f h).heap.get? k = m.heap.get? k :=
  m.heap.get?_modify_of_ne hk f

/-- A committed instance has gone to its next place. -/
theorem place?_move_commit (m : Memory) (h : Handle) : (m.move (·.commit) h).place? h = m.nextPlace? h := by
  unfold place? nextPlace?
  show ((m.heap.modify h (·.commit)).get? h).map _ = _
  rw [Heap.get?_modify_self, Option.map_map]
  refine congrArg (fun f => (m.heap.get? h).map f) (funext fun i => ?_)
  exact congrArg (Prod.mk i.model.name) i.persistedKey_commit

/-- A commit does not change where an instance goes. -/
theorem nextPlace?_move_commit (m : Memory) (h k : Handle) :
    (m.move (·.commit) h).nextPlace? k = m.nextPlace? k := by
  by_cases hk : k = h
  · subst hk
    unfold nextPlace?
    show ((m.heap.modify k (·.commit)).get? k).map _ = _
    rw [Heap.get?_modify_self, Option.map_map]
    refine congrArg (fun f => (m.heap.get? k).map f) (funext fun i => ?_)
    exact congrArg (Prod.mk i.model.name) i.primaryKey_commit
  · exact nextPlace?_congr (heap_move_of_ne hk)

/-- The next place of an instance is taken by the one whose row is there. -/
theorem Filed.keyHolder?_commit_iff (hm : m.Filed) (hc : m.Canonical) :
    keyHolder? {m with heap := m.heap.modify h (·.commit)} h = some k ↔
      m.cache.contains m.heap k = true ∧ (m.nextPlace? h).isSome = true ∧ m.nextPlace? h = m.place? k := by
  rw [keyHolder?_eq_some_iff]
  constructor
  · rintro ⟨j, hj, hfiled⟩
    rw [Heap.get?_modify_self] at hj
    obtain ⟨i, hi, rfl⟩ := Option.map_eq_some_iff.1 hj
    obtain ⟨l, hl, hmodel, hkey⟩ := hm.under hfiled
    have hkey : l.persistedKey = i.primaryKey :=
      ((hc hl).persistedKey_eq (hc hi).commit hkey).trans i.persistedKey_commit
    refine ⟨hm.contains hfiled, ?_, ?_⟩
    · rw [nextPlace?, hi]
      rfl
    · rw [nextPlace?, place?, hi, hl, Option.map_some, Option.map_some, hmodel, hkey]
      rfl
  · rintro ⟨hcached, hsome, hsame⟩
    obtain ⟨l, hl, hfiled⟩ := Cache.contains_iff.1 hcached
    cases hi : m.heap.get? h with
    | none =>
      rw [nextPlace?, hi] at hsome
      cases hsome
    | some i =>
      rw [nextPlace?, place?, hi, hl] at hsame
      obtain ⟨hmodel, hkey⟩ := Prod.mk.inj (Option.some.inj hsame)
      refine ⟨i.commit, by rw [Heap.get?_modify_self, hi]; rfl, ?_⟩
      rw [Instance.keyText, Instance.persistedKey_commit, hkey]
      exact hmodel ▸ hfiled

theorem Canonical.move_commit (hc : m.Canonical) (h : Handle) : (m.move (·.commit) h).Canonical :=
  hc.modify fun _ _ hi => hi.commit

/-- A cached instance stays where it is while others go elsewhere. -/
theorem Filed.contains_moveAll_commit (hm : m.Filed) (hc : m.Canonical) {hs : List Handle} (hk : k ∉ hs)
    (hcached : m.cache.contains m.heap k = true) (hfree : ∀ h ∈ hs, m.nextPlace? h ≠ m.place? k) :
    (hs.foldl (move (·.commit)) m).cache.contains (hs.foldl (move (·.commit)) m).heap k = true := by
  induction hs generalizing m with
  | nil => exact hcached
  | cons h rest ih =>
    rw [List.mem_cons, not_or] at hk
    have hother : ∀ l, l ≠ h → (m.move (·.commit) h).heap.get? l = m.heap.get? l := fun l hl => heap_move_of_ne hl
    have hfollows := hm.follows_move Instance.takesOver_commit h
    refine ih hfollows.filed (hc.move_commit h) hk.2 ?_ fun l hl => ?_
    · refine (hm.contains_moved hother hfollows.heap k).2 ⟨hcached, fun _ hholder => ?_⟩
      exact absurd ((hm.keyHolder?_commit_iff hc).1 hholder).2.2 (hfree h (.head _))
    · rw [place?_congr (hother k hk.1), nextPlace?_move_commit]
      exact hfree l (.tail _ hl)

end

end Memory

/-! ### Plans -/

namespace FlushPlan

/-- All instances of a plan are cached under their keys, and go to places of their own, where no cached one is that
stays. -/
structure Fits (p : FlushPlan) (m : Memory) : Prop where
  cached : ∀ u ∈ p, m.cache.contains m.heap u.handle = true ∧ u.persistedKey = m.persistedKey u.handle
  distinct : (p.map fun u => m.nextPlace? u.handle).Nodup
  free : ∀ u ∈ p, ∀ k ∉ p.map (·.handle), m.cache.contains m.heap k = true → m.nextPlace? u.handle ≠ m.place? k

/-- No instance goes to the place of a later one. -/
def InOrder (p : FlushPlan) (m : Memory) : Prop := p.Pairwise fun u v => m.nextPlace? u.handle ≠ m.place? v.handle

instance (p : FlushPlan) (m : Memory) : Decidable (p.InOrder m) :=
  inferInstanceAs (Decidable (p.Pairwise fun u v => m.nextPlace? u.handle ≠ m.place? v.handle))

/-- What applying a plan always does: the planned instances are committed with the values they have, and those outside
of the plan stay as they are and where they are. -/
structure Commits (p : FlushPlan) (m m' : Memory) : Prop where
  committed : ∀ u ∈ p, ∃ i, m.heap.get? u.handle = some i ∧ m'.heap.get? u.handle = some i.commit
  others : ∀ k ∉ p.map (·.handle), m'.heap.get? k = m.heap.get? k ∧
    (m.cache.contains m.heap k = true → m'.cache.contains m'.heap k = true)

/-- What applying a plan is for: the planned instances are also cached, each in its next place, and as many instances
are cached as before. -/
structure Relocates (p : FlushPlan) (m m' : Memory) : Prop extends p.Commits m m' where
  moved : ∀ u ∈ p, m'.cache.contains m'.heap u.handle = true ∧ m'.place? u.handle = m.nextPlace? u.handle
  size : m'.cache.size = m.cache.size

variable {m : Memory} {u : PlannedUpdate} {p : FlushPlan}

theorem Fits.nodup (hp : p.Fits m) : (p.map (·.handle)).Nodup := by
  have hdistinct := hp.distinct
  rw [← Function.comp_def m.nextPlace?, ← List.map_map] at hdistinct
  exact hdistinct.of_map

theorem Fits.apply_eq (hp : p.Fits m) : p.apply m = (p.map (·.handle)).foldl (Memory.move (·.commit)) m :=
  FlushPlan.apply_eq hp.nodup fun u hu => (hp.cached u hu).2

/-- The first instance moves freely exactly if it does not go to the place of a later one. -/
theorem Fits.movesFreely_iff (hm : m.Filed) (hc : m.Canonical) (hp : Fits (u :: p) m) :
    m.MovesFreely (·.commit) u.handle ↔ ∀ v ∈ p, m.nextPlace? u.handle ≠ m.place? v.handle := by
  obtain ⟨hcached, -⟩ := hp.cached u (.head _)
  constructor
  · intro hfree v hv hsame
    obtain ⟨hvcached, -⟩ := hp.cached v (.tail _ hv)
    have hsome : (m.nextPlace? u.handle).isSome = true := by
      obtain ⟨i, hi, -⟩ := Cache.contains_iff.1 hcached
      rw [Memory.nextPlace?, hi]
      rfl
    have hsame := hfree hcached v.handle ((hm.keyHolder?_commit_iff hc).2 ⟨hvcached, hsome, hsame⟩)
    exact (List.nodup_cons.1 hp.nodup).1 (List.mem_map.2 ⟨v, hv, hsame⟩)
  · intro hne _ k hholder
    obtain ⟨hkcached, -, hsame⟩ := (hm.keyHolder?_commit_iff hc).1 hholder
    by_contra hk
    by_cases hplanned : k ∈ p.map (·.handle)
    · obtain ⟨v, hv, rfl⟩ := List.mem_map.1 hplanned
      exact hne v hv hsame
    · exact hp.free u (.head _) k (fun hmem => (List.mem_cons.1 hmem).elim hk hplanned) hkcached hsame

/-- When the first instance has moved freely, the rest of the plan fits. -/
theorem Fits.tail (hm : m.Filed) (hp : Fits (u :: p) m) (hfree : m.MovesFreely (·.commit) u.handle) :
    p.Fits (m.move (·.commit) u.handle) := by
  obtain ⟨hnotin, -⟩ := List.nodup_cons.1 hp.nodup
  have hother : ∀ v ∈ p, v.handle ≠ u.handle := fun v hv he => hnotin (List.mem_map.2 ⟨v, hv, he⟩)
  have hfollows := hm.follows_move Instance.takesOver_commit u.handle
  have hkeeps := (hm.keepsCached_move_iff Instance.takesOver_commit u.handle).2 hfree
  refine ⟨fun v hv => ?_, ?_, fun v hv k hk hcached => ?_⟩
  · obtain ⟨hcached, hkey⟩ := hp.cached v (.tail _ hv)
    refine ⟨hkeeps _ hcached, hkey.trans ?_⟩
    unfold Memory.persistedKey
    rw [Memory.heap_move_of_ne (hother v hv)]
  · simp only [Memory.nextPlace?_move_commit]
    exact (List.nodup_cons.1 hp.distinct).2
  · rw [Memory.nextPlace?_move_commit]
    by_cases hku : k = u.handle
    · rw [hku, Memory.place?_move_commit]
      exact fun hsame => (List.nodup_cons.1 hp.distinct).1 (List.mem_map.2 ⟨v, hv, hsame⟩)
    · rw [Memory.place?_congr (Memory.heap_move_of_ne hku)]
      exact hp.free v (.tail _ hv) k (fun hmem => (List.mem_cons.1 hmem).elim hku hk) (hfollows.cached hcached)

/-- Each instance moves freely in its turn exactly if none goes to the place of a later one. -/
theorem Fits.allSteps_iff (hm : m.Filed) (hc : m.Canonical) (hp : p.Fits m) :
    AllSteps (Memory.move (·.commit)) (Memory.MovesFreely (·.commit)) (p.map (·.handle)) m ↔ p.InOrder m := by
  induction p generalizing m with
  | nil => exact ⟨fun _ => .nil, fun _ => trivial⟩
  | cons u rest ih =>
    have hother : ∀ v ∈ rest, v.handle ≠ u.handle := fun v hv he =>
      (List.nodup_cons.1 hp.nodup).1 (List.mem_map.2 ⟨v, hv, he⟩)
    have hrest : InOrder rest (m.move (·.commit) u.handle) ↔ InOrder rest m := by
      refine List.Pairwise.iff_of_mem fun hv hw => ?_
      rw [Memory.nextPlace?_move_commit, Memory.place?_congr (Memory.heap_move_of_ne (hother _ hw))]
    unfold InOrder at hrest ⊢
    rw [List.pairwise_cons, ← hp.movesFreely_iff hm hc, ← hrest]
    refine and_congr_right fun hfree => ?_
    exact ih (hm.follows_move Instance.takesOver_commit u.handle).filed (hc.move_commit u.handle) (hp.tail hm hfree)

/-! ### Where the instances of a plan end -/

theorem Fits.commits (hm : m.Filed) (hc : m.Canonical) (hp : p.Fits m) : p.Commits m (p.apply m) := by
  constructor
  · intro u hu
    obtain ⟨i, hi, -⟩ := Cache.contains_iff.1 (hp.cached u hu).1
    refine ⟨i, hi, ?_⟩
    rw [heap_apply, if_pos (List.mem_map_of_mem hu), hi]
    rfl
  · intro k hk
    refine ⟨by rw [heap_apply, if_neg hk], fun hcached => ?_⟩
    rw [hp.apply_eq]
    refine hm.contains_moveAll_commit hc hk hcached fun h hh => ?_
    obtain ⟨u, hu, rfl⟩ := List.mem_map.1 hh
    exact hp.free u hu k hk hcached

theorem Commits.place? {m' : Memory} (h : p.Commits m m') (hu : u ∈ p) :
    m'.place? u.handle = m.nextPlace? u.handle := by
  obtain ⟨i, hi, hi'⟩ := h.committed u hu
  unfold Memory.place? Memory.nextPlace?
  rw [hi, hi']
  exact congrArg (fun key => some (i.model.name, key)) i.persistedKey_commit

/-- Applying a plan commits its instances and leaves the others where they are. It brings every instance to its next
place, and loses none, exactly if none goes to the place of a later one. -/
theorem relocates_iff (hm : m.Filed) (hc : m.Canonical) (hp : p.Fits m) :
    p.Commits m (p.apply m) ∧ (p.Relocates m (p.apply m) ↔ p.InOrder m) ∧
      ((p.apply m).cache.size = m.cache.size ↔ p.InOrder m) := by
  have hcommits := hp.commits hm hc
  obtain ⟨hfollows, hkeeps⟩ := hm.keepsCached_moveAll_iff Instance.takesOver_commit (p.map (·.handle))
  rw [hp.allSteps_iff hm hc] at hkeeps
  rw [← hp.apply_eq] at hfollows hkeeps
  have hsize : (p.apply m).cache.size = m.cache.size ↔ p.InOrder m :=
    (hfollows.keepsCached_iff_size hm).symm.trans hkeeps
  refine ⟨hcommits, ⟨fun h => hsize.1 h.size, fun h => ?_⟩, hsize⟩
  exact ⟨hcommits, fun u hu => ⟨hkeeps.2 h _ (hp.cached u hu).1, hcommits.place? hu⟩, hsize.2 h⟩

/-! ### People who take over identifiers -/

/-- Two people are cached, and then get other identifiers. -/
def renumbered (first second : String) : Memory := ({} : Memory).performAll
  [ .create Memory.people [.set "ID" (.text "ADA01"), .set "Name" (.text "Ada")] (some ⟨0⟩),
    .create Memory.people [.set "ID" (.text "EVE01"), .set "Name" (.text "Eve")] (some ⟨0⟩),
    .register ⟨0⟩, .register ⟨1⟩,
    .set ⟨0⟩ "ID" (.text first), .set ⟨1⟩ "ID" (.text second) ]

/-- The plan for some people, in this order. -/
def planned (m : Memory) (handles : List Handle) : FlushPlan :=
  match FlushPlan.make ⟨0⟩ (Pattern.rules 0) .sqlite m.heap handles with
  | .ok p => p
  | .error _ => []

theorem sound_renumbered (first second : String) : (renumbered first second).Sound := by
  refine AllSteps.invariant (fun _ _ hm hp => hm.perform hp) ?_ Memory.sound_empty
  refine ⟨trivial, trivial, ?_, ?_, trivial, trivial, trivial⟩
  all_goals
    show ∀ i ∈ Heap.get? _ _, _
    decide +kernel

theorem canonical_renumbered (first second : String) : (renumbered first second).Canonical :=
  Memory.canonical_performAll _

/-- A plan for all cached people fits where their new identifiers are distinct. -/
theorem fits_of_all {m : Memory} {p : FlushPlan}
    (hall : (∀ u ∈ p, m.cache.contains m.heap u.handle = true ∧ u.persistedKey = m.persistedKey u.handle) ∧
      (p.map fun u => m.nextPlace? u.handle).Nodup ∧ ∀ k ∈ m.cache.handles, k ∈ p.map (·.handle)) : p.Fits m :=
  ⟨hall.1, hall.2.1, fun _ _ k hk hcached => absurd (hall.2.2 k (Cache.mem_handles_of_contains hcached)) hk⟩

/-- The first takes over the identifier of the second, who is moved before. -/
theorem relocates_secondFirst :
    let m := renumbered "EVE01" "BOB01"
    let p := planned m [⟨1⟩, ⟨0⟩]
    p.map (·.handle) = [⟨1⟩, ⟨0⟩] ∧ p.Relocates m (p.apply m) := by
  intro m p
  have hfits : p.Fits m := fits_of_all (by decide +kernel)
  have horder : p.InOrder m := by decide +kernel
  exact ⟨by decide +kernel, (relocates_iff (sound_renumbered _ _).filed (canonical_renumbered _ _) hfits).2.1.2 horder⟩

/-- Of two people with new identifiers, who are moved in an order that a plan may have, only the first one is left. -/
def LeavesFirst (second : String) (order : List Handle) : Prop :=
  let m := renumbered "EVE01" second
  let p := planned m order
  m.Filed ∧ m.Canonical ∧ p.Fits m ∧ (p.apply m).cache.handles = order.take 1 ∧ ¬p.Relocates m (p.apply m)

theorem leavesFirst_of_all {second : String} {order : List Handle}
    (hall : let m := renumbered "EVE01" second
      let p := planned m order
      ((∀ u ∈ p, m.cache.contains m.heap u.handle = true ∧ u.persistedKey = m.persistedKey u.handle) ∧
        (p.map fun u => m.nextPlace? u.handle).Nodup ∧ ∀ k ∈ m.cache.handles, k ∈ p.map (·.handle)) ∧
      (p.apply m).cache.handles = order.take 1 ∧ (p.apply m).cache.size ≠ m.cache.size) :
    LeavesFirst second order :=
  ⟨(sound_renumbered _ _).filed, canonical_renumbered _ _, fits_of_all hall.1, hall.2.1, fun h => hall.2.2 h.size⟩

/-- Who is moved first puts the other one out, whose identifier it takes over. In one order that is so when the other
one goes on to a third identifier, and in either order when the two exchange theirs. -/
theorem not_relocates_chained_exchanged :
    LeavesFirst "BOB01" [⟨0⟩, ⟨1⟩] ∧ LeavesFirst "ADA01" [⟨0⟩, ⟨1⟩] ∧ LeavesFirst "ADA01" [⟨1⟩, ⟨0⟩] :=
  ⟨leavesFirst_of_all (by decide +kernel), leavesFirst_of_all (by decide +kernel),
    leavesFirst_of_all (by decide +kernel)⟩

end FlushPlan

end RecordMapper
