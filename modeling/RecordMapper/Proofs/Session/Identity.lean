import RecordMapper.Proofs.Session.Over
import RecordMapper.Proofs.Session.Writes

/-! One instance for each row.

A session tracks the instances that it handed out, and the cache names one of them for each row.
`TracksCached` says that these are the same instances; then no two tracked ones stand for one row.
A write that files an instance under the key of another one takes that one out of the cache, but
it stays tracked. So the guarantee lasts exactly as long as no accepted write does that, which
`FilesFreely` spells out write by write (`tracksCached_iff_filesFreely`). -/
namespace RecordMapper

variable {β : Type}

namespace SessionState

/-- What is tracked is what is cached. -/
def TracksCached (t : SessionState β) : Prop :=
  ∀ h, h ∈ t.tracker.tracked ↔ t.cache.contains t.heap h = true

/-- No two instances that the tracker holds stand for one row. -/
def TwinFree (t : SessionState β) : Prop :=
  ∀ h k i j, h ∈ t.tracker.tracked ++ t.tracker.queued → k ∈ t.tracker.tracked ++ t.tracker.queued →
    t.heap.get? h = some i → t.heap.get? k = some j →
    i.model.name = j.model.name → i.persistedKey = j.persistedKey → h = k

theorem tracksCached_setMemory_iff {t : SessionState β} (ht : t.TracksCached) {m : Memory}
    (hf : t.memory.Follows m) : (t.setMemory m).TracksCached ↔ t.memory.KeepsCached m :=
  ⟨fun h k hk => (h k).1 ((ht k).2 hk), fun h k => (ht k).trans ⟨h k, hf.cached⟩⟩

/-- When the instances that left the cache are forgotten too, what is tracked stays what is cached as
long as no other one left it. -/
theorem tracksCached_forget_iff {t : SessionState β} (ht : t.TracksCached) {m : Memory} (hf : t.memory.Follows m)
    {gone : List Handle} (hgone : ∀ h ∈ gone, ¬m.cache.contains m.heap h = true) :
    ({t.setMemory m with tracker := t.tracker.forget gone} : SessionState β).TracksCached ↔
      ∀ h, t.cache.contains t.heap h = true → h ∈ gone ∨ m.cache.contains m.heap h = true := by
  have hforget : ∀ h, h ∈ (t.tracker.forget gone).tracked ↔ h ∈ t.tracker.tracked ∧ h ∉ gone := by
    intro h
    show h ∈ t.tracker.tracked.filter _ ↔ _
    rw [List.mem_filter, decide_eq_true_iff]
  constructor
  · intro hall h hh
    by_cases hleft : h ∈ gone
    · exact .inl hleft
    · exact .inr ((hall h).1 ((hforget h).2 ⟨(ht h).2 hh, hleft⟩))
  · intro hall h
    refine (hforget h).trans ⟨fun ⟨hh, hleft⟩ => ?_, fun hh => ?_⟩
    · exact (hall h ((ht h).1 hh)).resolve_left hleft
    · exact ⟨(ht h).2 (hf.cached hh), fun hleft => hgone h hleft hh⟩

end SessionState

namespace Session

variable {s : Session β} {t : SessionState β}

/-! ### The invariant -/

/-- What holds of a session's state whatever it has done. -/
structure Sound (s : Session β) (t : SessionState β) : Prop where
  memory : t.memory.Sound
  models : ∀ {h : Handle} {i : Instance}, t.heap.get? h = some i → s.registry.model? i.model.name = some i.model
  tracked_nodup : t.tracker.tracked.Nodup
  queued : t.tracker.queued = []

theorem sound_start (s : Session β) (database : β) : s.Sound {database} where
  memory := Memory.sound_empty
  models h := by cases h
  tracked_nodup := .nil
  queued := rfl

theorem Sound.database (ht : s.Sound t) (database : β) : s.Sound {t with database} :=
  ⟨ht.memory, ht.models, ht.tracked_nodup, ht.queued⟩

theorem Sound.follow (ht : s.Sound t) {m : Memory} (hf : t.memory.Follows m)
    (hkeys : t.memory.KeepsPendingKeys m) : s.Sound (t.setMemory m) where
  memory := ht.memory.follow hf hkeys
  models {h j} hj := by
    obtain ⟨i, hi, hij⟩ := hf.heap.before hj
    rw [hij.model]
    exact ht.models hi
  tracked_nodup := ht.tracked_nodup
  queued := ht.queued

theorem Sound.over (ht : s.Sound t) : t.memory.Over s.registry where
  models := ht.models
  coherent := ht.memory.coherent
  shelved hfiled :=
    let ⟨i, hi, hmodel, _⟩ := ht.memory.filed.under hfiled
    ⟨i, hi, hmodel⟩

/-- Tracked instances that are the cached ones stand for different rows. -/
theorem Sound.twinFree (ht : s.Sound t) (hc : t.TracksCached) : t.TwinFree := by
  intro h k i j hh hk hi hj hmodel hkey
  rw [ht.queued, List.append_nil] at hh hk
  exact Memory.Filed.eq_of_contains (m := t.memory) ((hc h).1 hh) ((hc k).1 hk) hi hj hmodel hkey

/-! ### Taking instances over -/

theorem nodup_insertHandle {h : Handle} {handles : List Handle} (hn : handles.Nodup) :
    (insertHandle h handles).Nodup := by
  unfold insertHandle
  split
  · exact hn
  · next hnew =>
    exact List.nodup_append.2 ⟨hn, List.nodup_cons.2 ⟨List.not_mem_nil, .nil⟩,
      fun a ha b hb he => hnew (List.mem_singleton.1 hb ▸ he ▸ ha)⟩

theorem mem_insertHandle {h k : Handle} {handles : List Handle} :
    k ∈ insertHandle h handles ↔ k ∈ handles ∨ k = h := by
  unfold insertHandle
  split
  · next hold => exact ⟨.inl, fun hk => hk.elim id fun he => he ▸ hold⟩
  · rw [List.mem_append, List.mem_singleton]

/-- An instance that is taken over finds its key free exactly when all tracked ones stay
cached. -/
theorem Sound.adopt (hcache : s.useCache = true) (ht : s.Sound t) (hc : t.TracksCached) {i : Instance}
    (hi : i.Coherent) (ha : i.Anchored) (hmodel : s.registry.model? i.model.name = some i.model) :
    s.Sound ((s.adopt i).runOn t).2 ∧
      (((s.adopt i).runOn t).2.TracksCached ↔ t.cache.get? i.model.name i.persistedKey = none) := by
  let j : Instance := {i with owner := some s.owner}
  let h := (t.heap.add j).1
  let m : Memory := {t.memory with heap := (t.heap.add j).2}
  have hj : m.heap.get? h = some j := t.heap.get?_add_self j
  have hfresh : t.heap.get? h = none := t.heap.get?_add_fresh j
  have hkept : ∀ k, k ≠ h → m.heap.get? k = t.heap.get? k := fun k hk => by
    rw [Heap.get?_add, if_neg hk]
  have hm : m.Sound := ht.memory.add ⟨hi.fields, hi.snapshot, hi.unset⟩
  have hrun : ((s.adopt i).runOn t).2 =
      {t with heap := m.heap, cache := m.cache.register m.heap h, tracker := t.tracker.track h} :=
    congrArg Prod.snd (runOn_adopt hcache t i)
  rw [hrun]
  constructor
  · refine ⟨hm.register fun k hk => ?_, fun {k l} hl => ?_, nodup_insertHandle ht.tracked_nodup, ht.queued⟩
    · obtain rfl : j = k := Option.some.inj (hj.symm.trans hk)
      exact ⟨ha.keySet, ha.key⟩
    · by_cases hk : k = h
      · obtain rfl : j = l := Option.some.inj (hj.symm.trans (hk ▸ hl))
        exact hmodel
      · exact ht.models ((hkept k hk).symm.trans hl)
  · have hcached : ∀ k, (m.cache.register m.heap h).contains m.heap k = true ↔
        k = h ∨ t.cache.contains t.heap k = true ∧ t.cache.get? i.model.name i.persistedKey ≠ some k := by
      intro k
      rw [hm.filed.contains_register hj]
      by_cases hk : k = h
      · simp only [hk, true_or]
      · rw [m.cache.contains_congr (hkept k hk)]
        rfl
    have huntracked : h ∉ t.tracker.tracked := by
      rw [hc h, t.cache.contains_missing hfresh]
      nofun
    constructor
    · intro hall
      cases hheld : t.cache.get? i.model.name i.persistedKey with
      | none => rfl
      | some k =>
        have hk : k ∈ t.tracker.tracked := (hc k).2 (ht.memory.filed.contains hheld)
        rcases (hcached k).1 ((hall k).1 (mem_insertHandle.2 (.inl hk))) with rfl | ⟨_, hfree⟩
        · exact absurd hk huntracked
        · exact absurd hheld hfree
    · intro hnone k
      show k ∈ insertHandle h t.tracker.tracked ↔ _
      rw [mem_insertHandle, hcached, hnone, hc k, or_comm]
      simp

/-! ### Fetches -/

/-- The invariant, with the tracked instances cached. -/
def Good (s : Session β) (t : SessionState β) : Prop := s.Sound t ∧ t.TracksCached

/-- A model of the registry, whose fields have distinct names. -/
def Knows (s : Session β) (m : Model) : Prop :=
  s.registry.model? m.name = some m ∧ (m.fields.map (·.name)).Nodup

theorem keeps_resolve (hcache : s.useCache = true) {i : Instance} (hi : i.Fresh) (hknown : s.Knows i.model) :
    Attempt.Keeps s.Good (s.resolve i) := by
  rintro t ⟨ht, hc⟩
  cases hfound : t.cache.get? i.model.name i.primaryKey with
  | some h =>
    have hr : Refreshes t.memory h i := ht.over.refreshes ht.memory.filed hi hknown.2 hknown.1 hfound
    obtain ⟨hfollows, hkeeps, hkeys⟩ := follows_refresh hr
    rw [runOn_resolve_cached hcache hr]
    rw [runOn_refresh hr] at hfollows hkeeps hkeys
    exact ⟨ht.follow hfollows hkeys, (SessionState.tracksCached_setMemory_iff hc hfollows).2 hkeeps⟩
  | none =>
    obtain ⟨ht', hc'⟩ := ht.adopt hcache hc hi.coherent hi.anchored hknown.1
    rw [runOn_resolve_new hfound]
    exact ⟨ht', hc'.2 (hi.persistedKey ▸ hfound)⟩

theorem Good.attach (hg : s.Good t) (h : Handle) {f : Instance → Instance}
    (hf : ∀ i, (f i).unlinked = i.unlinked) : s.Good {t with heap := t.heap.modify h f} := by
  obtain ⟨ht, hc⟩ := hg
  have hrows : t.heap.SameRows (t.heap.modify h f) := t.heap.sameRows_modify h hf
  obtain ⟨hfollows, hkeeps⟩ := ht.memory.filed.follows_unlinked hrows
  refine ⟨ht.follow hfollows fun k i j hi hj _ => ?_,
    (SessionState.tracksCached_setMemory_iff hc hfollows).2 hkeeps⟩
  obtain ⟨j', hj', hij⟩ := hrows.kept hi
  obtain rfl : j' = j := Option.some.inj (hj'.symm.trans hj)
  exact Instance.committedKey_of_unlinked hij

/-- What is kept when rows are mapped to instances, when targets are attached to them, and when only
the database changes. -/
structure KeptByFetch (s : Session β) (P : SessionState β → Prop) : Prop where
  resolve : ∀ i : Instance, i.Fresh → s.Knows i.model → Attempt.Keeps P (s.resolve i)
  attach : ∀ (t : SessionState β) (h : Handle) (f : Instance → Instance), (∀ i, (f i).unlinked = i.unlinked) →
    P t → P {t with heap := t.heap.modify h f}
  database : ∀ (t : SessionState β) (database : β), P t → P {t with database}

theorem keptByFetch_good (hcache : s.useCache = true) : s.KeptByFetch s.Good where
  resolve _ hi hknown := keeps_resolve hcache hi hknown
  attach _ h _ hf ht := ht.attach h hf
  database _ database ht := ⟨ht.1.database database, ht.2⟩

namespace KeptByFetch

variable {P : SessionState β → Prop} (hP : s.KeptByFetch P)
include hP

theorem onDatabase {α : Type} (a : Attempt β α) : Attempt.Keeps P (onDatabase a) :=
  fun t ht => hP.database t _ ht

theorem run (hknown : ∀ {name m}, s.registry.model name = .ok m → s.Knows m) {f : Fetch} (hf : s.Knows f.model)
    (filter : Option Condition) (limit : Nat) : Attempt.Keeps P (s.run f filter limit) := by
  refine Attempt.Keeps.bind_ofExcept fun plan hplan => ?_
  obtain ⟨hroot, hjoined⟩ := FetchPlan.make_ok hplan
  refine Attempt.Keeps.bind_ofExcept fun statement _ => ?_
  refine (hP.onDatabase _).bind fun rows => Attempt.Keeps.collect fun row _ => ?_
  exact FetchPlan.keeps_hydrate s.Knows hP.resolve (fun h f t hf ht => hP.attach t h f hf ht) (hroot ▸ hf)
    (fun j hj => hknown (hjoined j hj)) row

end KeptByFetch

/-! ### Writes -/

/-- The database has accepted a write, and the session has followed it. -/
def Accepts {α : Type} (a : SessionAction β α) (t : SessionState β) : Prop := ∃ r, (a.runOn t).1 = .ok r

/-- After a refused write everything is as before. -/
theorem Good.refused {α : Type} (hg : s.Good t) {a : SessionAction β α} (hr : s.Refused a t) {Free : Prop} :
    s.Sound (a.runOn t).2 ∧ ((a.runOn t).2.TracksCached ↔ (Accepts a t → Free)) := by
  obtain ⟨e, database, h, _⟩ := hr
  rw [Accepts, h]
  refine ⟨hg.1.database database, fun _ hok => ?_, fun _ => hg.2⟩
  obtain ⟨_, hok⟩ := hok
  cases hok

/-- An accepted insertion keeps what is tracked cached exactly when no instance has the new key. -/
theorem Good.insert (hg : s.Good t) (hcache : s.useCache = true) {i : Instance} (hi : i.Coherent)
    (hmodel : s.registry.model? i.model.name = some i.model) (hkey : Accepts (s.insert i) t → i.KeySet) :
    s.Sound ((s.insert i).runOn t).2 ∧ (((s.insert i).runOn t).2.TracksCached ↔
      (Accepts (s.insert i) t → t.cache.get? i.model.name i.primaryKey = none)) := by
  rcases s.insert_outcome t i with hr | ⟨_, database, _, hrun⟩
  · exact hg.refused hr
  · have haccepts : Accepts (s.insert i) t := ⟨_, congrArg Prod.fst hrun⟩
    obtain ⟨hsound, hiff⟩ := (hg.1.database database).adopt hcache hg.2 hi.commit
      (Instance.Anchored.commit hi (hkey haccepts)) hmodel
    rw [hrun]
    refine ⟨hsound, hiff.trans ?_⟩
    rw [Instance.persistedKey_commit]
    exact ⟨fun h _ => h, fun h => h haccepts⟩

/-- The cached matches take an accepted bulk update over, each in turn. -/
theorem runOn_followUpdate (ht : t.memory.Over s.registry) {u : BulkUpdate}
    (hmodel : s.registry.model? u.model.name = some u.model) (htakes : u.model.Takes u.changes) (affected : Nat) :
    (s.followUpdate u affected).runOn t = (.ok affected, if s.useCache then t.setMemory
      ((t.memory.cachedWith u.model.name u.condition.evaluate).foldl (Memory.move (·.takeAll u.changes)) t.memory)
      else t) := by
  have hupdate : (Memory.reconcileUpdate u.model.name u.condition u.changes).runOn t.memory = _ :=
    Memory.reconcileUpdate_eq ht.coherent fun _ hh _ hi => ht.model_of_mem hmodel hh hi ▸ htakes
  unfold followUpdate
  cases s.useCache with
  | true =>
    rw [if_pos rfl, if_pos rfl, Attempt.runOn_bind, onMemory, Attempt.runOn_within, hupdate]
    rfl
  | false => rfl

/-- An accepted bulk update, when each cached match moves to a key of its own. -/
theorem Good.save (hg : s.Good t) (hcache : s.useCache = true) {u : BulkUpdate}
    (hmodel : s.registry.model? u.model.name = some u.model) (htakes : u.model.Takes u.changes)
    (hkeys : t.memory.KeepsPendingKeys ((s.save u).runOn t).2.memory) :
    s.Sound ((s.save u).runOn t).2 ∧ (((s.save u).runOn t).2.TracksCached ↔
      (Accepts (s.save u) t → AllSteps (Memory.move (·.takeAll u.changes))
        (Memory.MovesFreely (·.takeAll u.changes))
        (t.memory.cachedWith u.model.name u.condition.evaluate) t.memory)) := by
  rcases s.save_outcome t u with hr | ⟨affected, database, _, hrun⟩
  · exact hg.refused hr
  · let matched := t.memory.cachedWith u.model.name u.condition.evaluate
    let m := matched.foldl (Memory.move (·.takeAll u.changes)) t.memory
    have hfollow : (s.followUpdate u affected).runOn {t with database} =
        (.ok affected, ({t with database} : SessionState β).setMemory m) := by
      rw [runOn_followUpdate (hg.1.database database).over hmodel htakes, if_pos hcache]
      rfl
    rw [hrun, hfollow] at hkeys
    rw [Accepts, hrun, hfollow]
    obtain ⟨hfollows, hkeeps⟩ := hg.1.memory.filed.keepsCached_moveAll_iff
      (Instance.takesOver_takeAll u.changes) matched
    refine ⟨(hg.1.database database).follow hfollows hkeys, ?_⟩
    rw [SessionState.tracksCached_setMemory_iff (t := {t with database}) hg.2 hfollows]
    exact hkeeps.trans ⟨fun h _ => h, fun h => h ⟨_, rfl⟩⟩

/-- An accepted delete, when the referrers that lose their value move to keys of their own. -/
theorem Good.delete (hg : s.Good t) (hcache : s.useCache = true) {model : String} {p : Predicate}
    (hkeys : t.memory.KeepsPendingKeys ((s.delete model p).runOn t).2.memory) :
    s.Sound ((s.delete model p).runOn t).2 ∧ (((s.delete model p).runOn t).2.TracksCached ↔
      (Accepts (s.delete model p) t → ∀ m condition, s.compile model p = .ok (m, condition) →
        Memory.RemovesFreely s.registry t.cache.size
          (t.memory.cachedWith m.name condition.evaluate).reverse t.memory)) := by
  rcases s.delete_outcome t model p with hr | ⟨m, condition, affected, database, hcompile, _, hrun⟩
  · exact hg.refused hr
  · let out := Memory.removeAll s.registry t.cache.size
      (t.memory.cachedWith m.name condition.evaluate).reverse t.memory
    have hm := hg.1.memory.filed
    have hfollows : t.memory.Follows out.2 := hm.follows_removeAll _ _ _
    obtain ⟨hdetach, hdetached⟩ := hfollows.filed.follows_unlinked (Memory.sameRows_detach out.2 out.1)
    rw [hcache, if_pos rfl] at hrun
    have hstate : s.dropDeleted m.name condition {t with database} =
        {({t with database} : SessionState β).setMemory (out.2.detach out.1) with
          tracker := t.tracker.forget out.1} := rfl
    rw [hrun, hstate] at hkeys
    rw [Accepts, hrun, hstate]
    have hsound := (hg.1.database database).follow (hfollows.trans hdetach) hkeys
    refine ⟨⟨hsound.memory, hsound.models, hsound.tracked_nodup.filter _, ?_⟩, ?_⟩
    · show t.tracker.queued.filter _ = []
      rw [hg.1.queued]
      rfl
    have hsame : ∀ k, (out.2.detach out.1).cache.contains (out.2.detach out.1).heap k = true ↔
        out.2.cache.contains out.2.heap k = true := fun k => ⟨hdetach.cached, hdetached k⟩
    refine (SessionState.tracksCached_forget_iff (t := {t with database}) hg.2 (hfollows.trans hdetach)
      fun k hgone => (not_congr (hsame k)).2 (hm.contains_removed _ _ _ k hgone).2).trans ?_
    refine (forall_congr' fun k => imp_congr_right fun _ => or_congr_right (hsame k)).trans ?_
    refine (hm.keepsCached_removeAll_iff _ _ _).trans ⟨fun h _ m' condition' hc => ?_,
      fun h => h ⟨_, rfl⟩ m condition hcompile⟩
    obtain ⟨rfl, rfl⟩ := Prod.mk.inj (Except.ok.inj (hcompile.symm.trans hc))
    exact h

/-- An accepted save, when each candidate moves to a key of its own. -/
theorem Good.saveChanges (hg : s.Good t) :
    s.Sound (s.saveChanges.runOn t).2 ∧ ((s.saveChanges.runOn t).2.TracksCached ↔
      (Accepts s.saveChanges t → AllSteps (Memory.move (·.commit)) (Memory.MovesFreely (·.commit))
        (t.tracker.candidates t.heap) t.memory)) := by
  rcases s.saveChanges_outcome t with hr | ⟨hnone, hrun⟩ | ⟨plan, affected, database, hplan, _, hrun⟩
  · exact hg.refused hr
  · rw [hrun, hnone]
    exact ⟨hg.1, fun _ _ => trivial, fun _ => hg.2⟩
  · obtain ⟨hhandles, hkeys⟩ := FlushPlan.make_ok (m := t.memory) hplan
    have hn : (t.tracker.candidates t.heap).Nodup := by
      unfold Tracker.candidates
      rw [hg.1.queued]
      show (t.tracker.tracked.filter _ ++ []).Nodup
      rw [List.append_nil]
      exact hg.1.tracked_nodup.filter _
    have happly : plan.apply t.memory =
        (t.tracker.candidates t.heap).foldl (Memory.move (·.commit)) t.memory := by
      rw [FlushPlan.apply_eq (hhandles ▸ hn) hkeys, hhandles]
    obtain ⟨hfollows, hkeeps⟩ := hg.1.memory.filed.keepsCached_moveAll_iff
      Instance.takesOver_commit (t.tracker.candidates t.heap)
    rw [← happly] at hfollows hkeeps
    have hpending : t.memory.KeepsPendingKeys (plan.apply t.memory) := fun h i j hi hj hd => by
      rw [Option.some.inj (hi.symm.trans (FlushPlan.apply_pending hj hd))]
    have hsound := (hg.1.database database).follow hfollows hpending
    rw [Accepts, hrun]
    refine ⟨⟨hsound.memory, hsound.models, hsound.tracked_nodup, rfl⟩, ?_⟩
    have htracks : (applyPlan plan {t with database}).TracksCached ↔ t.memory.KeepsCached (plan.apply t.memory) :=
      SessionState.tracksCached_setMemory_iff (t := {t with database}) hg.2 hfollows
    exact htracks.trans (hkeeps.trans ⟨fun h _ => h, fun h => h ⟨_, rfl⟩⟩)

/-- An assignment moves nothing. -/
theorem Good.assign (hg : s.Good t) {h : Handle} {i j : Instance} {name : String} {v : Value}
    (hi : t.heap.get? h = some i) (hset : i.set name v = .ok j) :
    s.Sound {t with heap := t.heap.put h j} ∧
      (({t with heap := t.heap.put h j} : SessionState β).TracksCached ↔ True) := by
  obtain ⟨hm, hcached⟩ := hg.1.memory.assign hi hset
  refine ⟨⟨hm, fun {k l} hl => ?_, hg.1.tracked_nodup, hg.1.queued⟩, fun _ => trivial, fun _ k => ?_⟩
  · have hl : (t.heap.modify h fun _ => j).get? k = some l := hl
    rw [Heap.get?_modify] at hl
    split at hl
    · obtain ⟨_, _, rfl⟩ := Option.map_eq_some_iff.1 hl
      rw [Instance.model_set hset]
      exact hg.1.models hi
    · exact hg.1.models hl
  · exact (hg.2 k).trans (iff_of_eq (congrArg (· = true) (hcached k).symm))

end Session

end RecordMapper
