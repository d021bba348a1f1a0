import RecordMapper.Proofs.Attempt
import RecordMapper.Proofs.Session.Filing

/-! What replaying a write does to the cache.

Bulk updates, deletes with all that they entail, and the plans of a save are runs of a few
steps: an instance takes over values and is filed anew, a removed one is taken out, and
instances are detached. `Follows` is what every such run keeps: the cache stays filed,
instances only take over values, and no instance comes into the cache. Each step follows,
and so does every run (`follows_reconcileDelete`, `follows_reconcileUpdate`,
`follows_apply`). -/
namespace RecordMapper

/-! ### Heaps -/

namespace Heap

theorem get?_modify_of_ne (heap : Heap) {h k : Handle} (hne : k ≠ h) (f : Instance → Instance) :
    (heap.modify h f).get? k = heap.get? k := by
  rw [get?_modify, if_neg hne.symm]

theorem get?_modify_self (heap : Heap) (h : Handle) (f : Instance → Instance) :
    (heap.modify h f).get? h = (heap.get? h).map f := by
  rw [get?_modify, if_pos rfl]

theorem get?_add (heap : Heap) (i : Instance) (k : Handle) :
    (heap.add i).2.get? k = if k = (heap.add i).1 then some i else heap.get? k := by
  obtain ⟨k⟩ := k
  simp only [get?, add, Array.getElem?_push, Handle.mk.injEq]

theorem get?_add_fresh (heap : Heap) (i : Instance) : heap.get? (heap.add i).1 = none := by
  simp [get?, add]

/-- What there was stays as it is when an instance is added. -/
theorem get?_add_of_some {heap : Heap} {h : Handle} {j : Instance} (hj : heap.get? h = some j) (i : Instance) :
    (heap.add i).2.get? h = some j := by
  rw [get?_add, if_neg]
  · exact hj
  · rintro rfl
    rw [get?_add_fresh] at hj
    cases hj

/-- Every instance of a heap after some of them took over values. -/
structure TakesOver (a b : Heap) : Prop where
  kept : ∀ {h : Handle} {i : Instance}, a.get? h = some i → ∃ j, b.get? h = some j ∧ i.TakesOver j
  missing : ∀ {h : Handle}, a.get? h = none → b.get? h = none

theorem TakesOver.refl (heap : Heap) : heap.TakesOver heap :=
  ⟨fun {_ i} h => ⟨i, h, .refl i⟩, id⟩

theorem TakesOver.trans {a b c : Heap} (h : a.TakesOver b) (h' : b.TakesOver c) : a.TakesOver c where
  kept hi := by
    obtain ⟨j, hj, hij⟩ := h.kept hi
    obtain ⟨k, hk, hjk⟩ := h'.kept hj
    exact ⟨k, hk, hij.trans hjk⟩
  missing hn := h'.missing (h.missing hn)

/-- The instance before, from the one after. -/
theorem TakesOver.before {a b : Heap} (h : a.TakesOver b) {k : Handle} {j : Instance}
    (hj : b.get? k = some j) : ∃ i, a.get? k = some i ∧ i.TakesOver j := by
  cases hi : a.get? k with
  | none => rw [h.missing hi] at hj; cases hj
  | some i =>
    obtain ⟨j', hj', hij⟩ := h.kept hi
    obtain rfl : j' = j := Option.some.inj (hj'.symm.trans hj)
    exact ⟨i, rfl, hij⟩

theorem takesOver_modify (heap : Heap) (h : Handle) {f : Instance → Instance}
    (hf : ∀ i, heap.get? h = some i → i.TakesOver (f i)) : heap.TakesOver (heap.modify h f) where
  kept {k i} hi := by
    rw [get?_modify]
    split
    · next he => exact ⟨f i, by rw [hi]; rfl, hf i (he ▸ hi)⟩
    · exact ⟨i, hi, .refl i⟩
  missing {k} hn := by
    rw [get?_modify, hn]
    split <;> rfl

/-- The heaps differ only in the navigations of their instances. -/
def SameRows (a b : Heap) : Prop :=
  ∀ h, (b.get? h).map Instance.unlinked = (a.get? h).map Instance.unlinked

theorem SameRows.refl (heap : Heap) : heap.SameRows heap := fun _ => rfl

theorem SameRows.trans {a b c : Heap} (h : a.SameRows b) (h' : b.SameRows c) : a.SameRows c :=
  fun k => (h' k).trans (h k)

theorem SameRows.kept {a b : Heap} (h : a.SameRows b) {k : Handle} {i : Instance}
    (hi : a.get? k = some i) : ∃ j, b.get? k = some j ∧ j.unlinked = i.unlinked := by
  have hk := h k
  rw [hi] at hk
  exact Option.map_eq_some_iff.1 hk

theorem SameRows.before {a b : Heap} (h : a.SameRows b) {k : Handle} {j : Instance}
    (hj : b.get? k = some j) : ∃ i, a.get? k = some i ∧ j.unlinked = i.unlinked := by
  have hk := h k
  rw [hj] at hk
  obtain ⟨i, hi, hij⟩ := Option.map_eq_some_iff.1 hk.symm
  exact ⟨i, hi, hij.symm⟩

theorem SameRows.takesOver {a b : Heap} (h : a.SameRows b) : a.TakesOver b where
  kept hi := by
    obtain ⟨j, hj, hij⟩ := h.kept hi
    exact ⟨j, hj, Instance.takesOver_of_unlinked hij⟩
  missing {k} hn := by
    have hk := h k
    rw [hn] at hk
    exact Option.map_eq_none_iff.1 hk

theorem sameRows_modify (heap : Heap) (h : Handle) {f : Instance → Instance}
    (hf : ∀ i, (f i).unlinked = i.unlinked) : heap.SameRows (heap.modify h f) := by
  intro k
  rw [get?_modify]
  split
  · rw [Option.map_map]
    exact congrArg (Option.map · (heap.get? k)) (funext hf)
  · rfl

def Coherent (heap : Heap) : Prop := ∀ {h : Handle} {i : Instance}, heap.get? h = some i → i.Coherent

theorem TakesOver.coherent {a b : Heap} (h : a.TakesOver b) (ha : a.Coherent) : b.Coherent := by
  intro k j hj
  obtain ⟨i, hi, hij⟩ := h.before hj
  exact hij.coherent (ha hi)

end Heap

namespace Memory

/-! ### Steps -/

/-- The instance that is filed under the key of an instance's row. -/
def keyHolder? (m : Memory) (h : Handle) : Option Handle :=
  (m.heap.get? h).bind fun i => m.cache.filed? i.model.name i.keyText

theorem keyHolder?_eq_some_iff {m : Memory} {h k : Handle} :
    m.keyHolder? h = some k ↔
      ∃ i, m.heap.get? h = some i ∧ m.cache.filed? i.model.name i.keyText = some k :=
  Option.bind_eq_some_iff

/-- What is true of a memory after a write was replayed on it. -/
structure Follows (m m' : Memory) : Prop where
  filed : m'.Filed
  heap : m.heap.TakesOver m'.heap
  cached : ∀ {h : Handle}, m'.cache.contains m'.heap h = true → m.cache.contains m.heap h = true

/-- No cached instance leaves the cache. -/
def KeepsCached (m m' : Memory) : Prop :=
  ∀ h, m.cache.contains m.heap h = true → m'.cache.contains m'.heap h = true

theorem Filed.follows_refl {m : Memory} (hm : m.Filed) : m.Follows m := ⟨hm, .refl _, id⟩

theorem Follows.trans {m m' m'' : Memory} (h : m.Follows m') (h' : m'.Follows m'') : m.Follows m'' :=
  ⟨h'.filed, h.heap.trans h'.heap, fun hc => h.cached (h'.cached hc)⟩

/-! An instance changes and is filed anew from its old key. -/

section Moved
variable {m : Memory} {h k : Handle} {heap : Heap} {i j : Instance}

/-- It stays cached. -/
theorem Filed.contains_moved_self (hm : m.Filed) (hi : m.heap.get? h = some i) (hj : heap.get? h = some j)
    (hmodel : j.model = i.model) :
    (m.cache.rekey heap h (m.persistedKey h)).contains heap h = true ↔ m.cache.contains m.heap h = true := by
  rw [Cache.contains_iff_filed hj, Cache.contains_iff_filed hi, Cache.filed?_rekey hj, keyText_persistedKey hi, hmodel]
  constructor
  · intro hf
    split at hf
    · next hwas => exact hwas
    · exact (Cache.contains_iff_filed hi).1 (hm.contains hf)
  · intro hwas
    rw [if_pos hwas, if_pos ⟨rfl, rfl⟩]

/-- Another instance keeps its place, unless that is where the moved one goes. -/
theorem Filed.contains_moved_of_ne (hm : m.Filed) (hi : m.heap.get? h = some i) (hj : heap.get? h = some j)
    (hmodel : j.model = i.model) (hk : k ≠ h) (hother : heap.get? k = m.heap.get? k) :
    (m.cache.rekey heap h (m.persistedKey h)).contains heap k = true ↔
      m.cache.contains m.heap k = true ∧
        (m.cache.contains m.heap h = true → keyHolder? {m with heap} h ≠ some k) := by
  have hholder : keyHolder? {m with heap} h = some k ↔ m.cache.filed? i.model.name j.keyText = some k := by
    rw [← hmodel]
    exact keyHolder?_eq_some_iff.trans ⟨fun ⟨j', hj', hf⟩ => Option.some.inj (hj'.symm.trans hj) ▸ hf,
      fun hf => ⟨j, hj, hf⟩⟩
  rw [Cache.contains_iff, Cache.contains_iff, hother, Cache.contains_iff_filed hi, ne_eq, hholder]
  constructor
  · rintro ⟨l, hl, hf⟩
    rw [Cache.filed?_rekey hj, keyText_persistedKey hi, hmodel] at hf
    split at hf
    · split at hf
      · exact absurd (Option.some.inj hf).symm hk
      · next hnew =>
        split at hf
        · cases hf
        · refine ⟨⟨l, hl, hf⟩, fun _ hheld => hnew ?_⟩
          obtain ⟨hlmodel, hlkey⟩ := hm.eq_of_filed hheld hl
          exact ⟨hlmodel.symm, hlkey.symm⟩
    · next hwas => exact ⟨⟨l, hl, hf⟩, fun h' => absurd h' hwas⟩
  · rintro ⟨⟨l, hl, hf⟩, hfree⟩
    refine ⟨l, hl, ?_⟩
    rw [Cache.filed?_rekey hj, keyText_persistedKey hi, hmodel]
    split
    · next hwas =>
      rw [if_neg, if_neg]
      · exact hf
      · rintro ⟨hlmodel, hlkey⟩
        rw [hlmodel, hlkey, hwas] at hf
        exact hk (Option.some.inj hf).symm
      · rintro ⟨hlmodel, hlkey⟩
        rw [hlmodel, hlkey] at hf
        exact hfree hwas hf
    · exact hf

end Moved

/-- When a cached instance changes and is filed anew from its old key, it stays cached, and so
does every other one but the holder of its new key. -/
theorem Filed.contains_moved {m : Memory} (hm : m.Filed) {h : Handle} {heap : Heap}
    (hother : ∀ k, k ≠ h → heap.get? k = m.heap.get? k) (ht : m.heap.TakesOver heap) (k : Handle) :
    (m.cache.rekey heap h (m.persistedKey h)).contains heap k = true ↔
      m.cache.contains m.heap k = true ∧
        (m.cache.contains m.heap h = true → keyHolder? {m with heap} h = some k → k = h) := by
  cases hi : m.heap.get? h with
  | none =>
    have hnone : heap.get? h = none := ht.missing hi
    have hheap : heap.get? k = m.heap.get? k := by
      by_cases hk : k = h
      · rw [hk, hnone, hi]
      · exact hother k hk
    rw [m.cache.rekey_missing hnone, m.cache.contains_congr hheap, m.cache.contains_missing hi]
    exact ⟨fun hc => ⟨hc, nofun⟩, fun hc => hc.1⟩
  | some i =>
    obtain ⟨j, hj, hij⟩ := ht.kept hi
    by_cases hk : k = h
    · subst hk
      rw [hm.contains_moved_self hi hj hij.model]
      exact ⟨fun hc => ⟨hc, fun _ _ => rfl⟩, fun hc => hc.1⟩
    · simp only [hm.contains_moved_of_ne hi hj hij.model hk (hother k hk), hk, ne_eq, imp_false]

/-- An instance that takes over values and is filed anew from its old key. -/
theorem Filed.follows_moved {m : Memory} (hm : m.Filed) {h : Handle} {heap : Heap}
    (hother : ∀ k, k ≠ h → heap.get? k = m.heap.get? k) (ht : m.heap.TakesOver heap) :
    m.Follows (rekey {m with heap} h (m.persistedKey h)) where
  filed := by
    refine hm.moved hother (fun i hi => ?_) ht.missing
    obtain ⟨j, hj, hij⟩ := ht.kept hi
    exact ⟨j, hj, hij.model⟩
  heap := ht
  cached hk := ((hm.contains_moved hother ht _).1 hk).1

theorem Filed.follows_clearField {m : Memory} (hm : m.Filed) (name : String) (h : Handle) :
    m.Follows (clearField name m h) :=
  hm.follows_moved (fun _ hk => m.heap.get?_modify_of_ne hk _)
    (m.heap.takesOver_modify h fun i _ => i.takesOver_clear name)

/-- An instance that is taken out is the only one that leaves the cache. -/
theorem contains_remove {m : Memory} {h : Handle} {cache : Cache}
    (hr : m.cache.remove? m.heap h = some cache) (k : Handle) :
    cache.contains m.heap k = true ↔ m.cache.contains m.heap k = true ∧ k ≠ h := by
  obtain ⟨i, hi, hfiled, rfl⟩ := Cache.remove?_eq_some hr
  rw [Cache.contains_iff, Cache.contains_iff]
  constructor
  · rintro ⟨j, hj, hk⟩
    rw [Cache.filed?_remove] at hk
    split at hk
    · cases hk
    · next hne =>
      refine ⟨⟨j, hj, hk⟩, fun he => hne ?_⟩
      obtain rfl : j = i := Option.some.inj (hj.symm.trans (he ▸ hi))
      exact ⟨rfl, rfl⟩
  · rintro ⟨⟨j, hj, hk⟩, hne⟩
    refine ⟨j, hj, ?_⟩
    rw [Cache.filed?_remove, if_neg]
    · exact hk
    · rintro ⟨hmodel, hkey⟩
      rw [hmodel, hkey, hfiled] at hk
      exact hne (Option.some.inj hk).symm

theorem Filed.follows_remove {m : Memory} (hm : m.Filed) {h : Handle} {cache : Cache}
    (hr : m.cache.remove? m.heap h = some cache) : m.Follows {m with cache} := by
  refine ⟨⟨hm.consistent.remove hr, fun {model key k} hk => ?_⟩, .refl _, fun hk =>
    ((contains_remove hr _).1 hk).1⟩
  obtain ⟨i, _, _, rfl⟩ := Cache.remove?_eq_some hr
  have hk : (m.cache.setShelf i.model.name ((m.cache.shelf i.model.name).drop i.keyText)).filed? model
    key = some k := hk
  rw [Cache.filed?_remove] at hk
  split at hk
  · cases hk
  · exact hm.under hk

/-- Instances that change while the cached ones keep the keys of their rows stay where they
are. -/
theorem Filed.unmoved {m : Memory} (hm : m.Filed) {heap : Heap}
    (hkept : ∀ {h i}, m.heap.get? h = some i → ∃ j, heap.get? h = some j ∧ j.model = i.model ∧
      (m.cache.contains m.heap h = true → j.persistedKey = i.persistedKey)) :
    Filed {m with heap} ∧ ∀ h, m.cache.contains heap h = m.cache.contains m.heap h := by
  have hunder : ∀ {model key h}, m.cache.filed? model key = some h →
      ∃ j, heap.get? h = some j ∧ j.model.name = model ∧ j.keyText = key := by
    intro model key h hfiled
    obtain ⟨i, hi, rfl, rfl⟩ := hm.under hfiled
    obtain ⟨j, hj, hmodel, hkey⟩ := hkept hi
    exact ⟨j, hj, by rw [hmodel], congrArg Value.keyText (hkey (hm.contains hfiled))⟩
  refine ⟨⟨hm.consistent, hunder⟩, fun h => ?_⟩
  rw [Bool.eq_iff_iff]
  constructor
  · intro hc
    obtain ⟨j, _, hfiled⟩ := Cache.contains_iff.1 hc
    exact hm.contains hfiled
  · intro hc
    obtain ⟨i, hi, hfiled⟩ := Cache.contains_iff.1 hc
    obtain ⟨j, hj, hmodel, htext⟩ := hunder hfiled
    exact Cache.contains_iff.2 ⟨j, hj, by rw [hmodel, htext]; exact hfiled⟩

theorem Filed.add {m : Memory} (hm : m.Filed) (i : Instance) : Filed {m with heap := (m.heap.add i).2} :=
  (hm.unmoved fun {_ j} hj => ⟨j, Heap.get?_add_of_some hj i, rfl, fun _ => rfl⟩).1

theorem Filed.follows_unlinked {m : Memory} (hm : m.Filed) {heap : Heap}
    (h : m.heap.SameRows heap) : m.Follows {m with heap} ∧ m.KeepsCached {m with heap} := by
  obtain ⟨hfiled, hcached⟩ := hm.unmoved fun {k i} hi => by
    obtain ⟨j, hj, hij⟩ := h.kept hi
    exact ⟨j, hj, Instance.model_of_unlinked hij, fun _ => Instance.persistedKey_of_unlinked hij⟩
  exact ⟨⟨hfiled, h.takesOver, fun hc => (hcached _).symm.trans hc⟩, fun k hc => (hcached k).trans hc⟩

/-! ### Deletes -/

theorem takeCached?_eq_some {m : Memory} {pending rest : List Handle} {h : Handle} {cache : Cache}
    (ht : m.takeCached? pending = some (h, cache, rest)) :
    m.cache.remove? m.heap h = some cache ∧ h ∈ pending := by
  induction pending with
  | nil => cases ht
  | cons k more ih =>
    unfold takeCached? at ht
    split at ht
    · next hr =>
      cases ht
      exact ⟨hr, .head _⟩
    · exact (ih ht).imp_right (.tail _)

/-! A delete clears fields and takes instances out. What each of the two keeps, it keeps. -/

section Kept

variable {P : Memory → Prop} (hclear : ∀ {m : Memory} (name : String) (h : Handle), P m → P (clearField name m h))
include hclear

theorem followDelete_keeps (gone : Handle) {s : List Handle × Memory} (hs : P s.2) (dependent : Model × Navigation) :
    P (followDelete gone s dependent).2 := by
  unfold followDelete
  dsimp only
  split
  · exact hs
  · exact List.foldlRecOn _ _ hs fun _ hm h _ => hclear _ h hm
  · exact hs
  · exact hs

theorem followDeletes_keeps (r : Registry) (gone : Handle) {s : List Handle × Memory} (hs : P s.2) :
    P (followDeletes r gone s).2 := by
  unfold followDeletes
  split
  · exact List.foldlRecOn (motive := fun s : List Handle × Memory => P s.2) _ _ hs fun _ hs d _ =>
      followDelete_keeps hclear gone hs d
  · exact hs

theorem removeAll_keeps (hremove : ∀ {m : Memory} {h : Handle} {cache : Cache},
      m.cache.remove? m.heap h = some cache → P m → P {m with cache})
    (r : Registry) (fuel : Nat) (pending : List Handle) {m : Memory} (hm : P m) : P (removeAll r fuel pending m).2 := by
  induction fuel generalizing pending m with
  | zero => exact hm
  | succ fuel ih =>
    unfold removeAll
    split
    · exact hm
    · next gone cache rest ht =>
      have hleft := hremove (takeCached?_eq_some ht).1 hm
      exact ih _ (followDeletes_keeps hclear r gone (s := (rest, {m with cache})) hleft)

end Kept

theorem Follows.clearField {m m' : Memory} (h : m.Follows m') (name : String) (k : Handle) :
    m.Follows (clearField name m' k) :=
  h.trans (h.filed.follows_clearField name k)

theorem Filed.follows_followDelete {s : List Handle × Memory} (hm : s.2.Filed) (gone : Handle)
    (dependent : Model × Navigation) : s.2.Follows (followDelete gone s dependent).2 :=
  followDelete_keeps (fun name h hf => hf.clearField name h) gone hm.follows_refl dependent

theorem Filed.follows_followDeletes {s : List Handle × Memory} (hm : s.2.Filed) (r : Registry)
    (gone : Handle) : s.2.Follows (followDeletes r gone s).2 :=
  followDeletes_keeps (fun name h hf => hf.clearField name h) r gone hm.follows_refl

theorem Filed.follows_removeAll {m : Memory} (hm : m.Filed) (r : Registry) (fuel : Nat)
    (pending : List Handle) : m.Follows (removeAll r fuel pending m).2 :=
  removeAll_keeps (fun name h hf => hf.clearField name h) (fun hr hf => hf.trans (hf.filed.follows_remove hr)) r fuel
    pending hm.follows_refl

theorem sameRows_detach (m : Memory) (gone : List Handle) : m.heap.SameRows (m.detach gone).heap := by
  have hall : ∀ (handles : List Handle) (heap : Heap),
      heap.SameRows (handles.foldl (fun heap h => heap.modify h fun i => i.detach gone) heap) := by
    intro handles
    induction handles with
    | nil => exact fun heap => .refl heap
    | cons h rest ih =>
      intro heap
      exact (heap.sameRows_modify (f := fun i => i.detach gone) h fun _ => rfl).trans (ih _)
  exact hall _ _

theorem Filed.follows_reconcileDelete {m : Memory} (hm : m.Filed) (r : Registry) (model : String)
    (condition : Condition) : m.Follows (m.reconcileDelete r model condition).2 := by
  have hremoved := hm.follows_removeAll r m.cache.size (m.cachedWith model condition.evaluate).reverse
  exact hremoved.trans (hremoved.filed.follows_unlinked (sameRows_detach _ _)).1

/-! ### Updates -/

/-- Values are taken over into one instance, and nothing else changes. -/
theorem loadAll_within (h : Handle) (changes : List (String × Value)) (m : Memory) :
    ∃ heap, ((loadAll h changes).runOn m).2 = {m with heap} ∧
      (∀ k, k ≠ h → heap.get? k = m.heap.get? k) ∧ m.heap.TakesOver heap := by
  let P : Memory → Prop := fun m' => ∃ heap, m' = {m with heap} ∧
    (∀ k, k ≠ h → heap.get? k = m.heap.get? k) ∧ m.heap.TakesOver heap
  have hload : ∀ change ∈ changes, Attempt.Keeps P (load h change.1 change.2) := by
    rintro ⟨name, v⟩ - _ ⟨heap, rfl, hother, ht⟩
    unfold load
    rw [Attempt.runOn_ofRun]
    dsimp only
    split
    · next i hi =>
      split
      · next j hload =>
        refine ⟨heap.put h j, rfl, fun k hk => ?_, ht.trans ?_⟩
        · rw [Heap.put, heap.get?_modify_of_ne hk, hother k hk]
        · refine heap.takesOver_modify h fun i' hi' => ?_
          obtain rfl : i' = i := Option.some.inj (hi'.symm.trans hi)
          exact Instance.takesOver_load hload
      · exact ⟨heap, rfl, hother, ht⟩
    · exact ⟨heap, rfl, hother, ht⟩
  exact Attempt.Keeps.forEach hload m ⟨m.heap, rfl, fun _ _ => rfl, .refl _⟩

theorem runOn_update (changes : List (String × Value)) (h : Handle) (m : Memory) :
    (update changes h).runOn m =
      match (loadAll h changes).runOn m with
      | (.ok (), m') => (.ok (), m'.rekey h (m.persistedKey h))
      | (.error e, m') => (.error e, m') := by
  unfold update
  rw [Attempt.runOn_bind, Attempt.runOn_get]
  dsimp only
  rw [Attempt.runOn_bind]
  rcases (loadAll h changes).runOn m with ⟨_ | _, m'⟩ <;> rfl

theorem runOn_reconcileUpdate (model : String) (condition : Condition) (changes : List (String × Value))
    (m : Memory) :
    (reconcileUpdate model condition changes).runOn m =
      let matched := m.cachedWith model condition.evaluate
      let out := (Attempt.forEach matched (update changes)).runOn m
      (out.1.map fun _ => matched.length, out.2) := by
  unfold reconcileUpdate
  rw [Attempt.runOn_bind, Attempt.runOn_get]
  dsimp only
  rw [Attempt.runOn_bind]
  rcases (Attempt.forEach _ (update changes)).runOn m with ⟨_ | _, m'⟩ <;> rfl

/-- An update that succeeds follows, and changes one instance. -/
theorem Filed.follows_update {m m' : Memory} (hm : m.Filed) {changes : List (String × Value)} {h : Handle}
    (hu : (update changes h).runOn m = (.ok (), m')) :
    m.Follows m' ∧ ∀ k, k ≠ h → m'.heap.get? k = m.heap.get? k := by
  obtain ⟨heap, hloaded, hother, ht⟩ := loadAll_within h changes m
  rw [runOn_update] at hu
  split at hu
  · next hrun =>
    rw [hrun] at hloaded
    dsimp only at hloaded
    cases hu
    subst hloaded
    exact ⟨hm.follows_moved hother ht, hother⟩
  · cases hu

theorem Filed.follows_updateAll {m m' : Memory} (hm : m.Filed) {changes : List (String × Value)}
    {matched : List Handle}
    (hu : (Attempt.forEach matched (update changes)).runOn m = (.ok (), m')) :
    m.Follows m' ∧ ∀ k ∉ matched, m'.heap.get? k = m.heap.get? k := by
  induction matched generalizing m with
  | nil =>
    cases hu
    exact ⟨hm.follows_refl, fun _ _ => rfl⟩
  | cons h rest ih =>
    obtain ⟨m₁, hfirst, hrest⟩ := Attempt.runOn_forEach_cons_ok hu
    obtain ⟨hfollows, hother⟩ := hm.follows_update hfirst
    obtain ⟨hfollows', hothers⟩ := ih hfollows.filed hrest
    refine ⟨hfollows.trans hfollows', fun k hk => ?_⟩
    rw [List.mem_cons, not_or] at hk
    exact (hothers k hk.2).trans (hother k hk.1)

theorem Filed.follows_reconcileUpdate {m m' : Memory} (hm : m.Filed) {model : String} {condition : Condition}
    {changes : List (String × Value)} {n : Nat}
    (hu : (reconcileUpdate model condition changes).runOn m = (.ok n, m')) : m.Follows m' := by
  rw [runOn_reconcileUpdate] at hu
  obtain ⟨hmap, hstate⟩ := Prod.mk.inj hu
  cases hout : (Attempt.forEach (m.cachedWith model condition.evaluate) (update changes)).runOn m with
  | mk out left =>
    rw [hout] at hmap hstate
    cases out with
    | error e => cases hmap
    | ok _ => exact (show left = m' from hstate) ▸ (hm.follows_updateAll hout).1

theorem Filed.nodup_entries {m : Memory} (hm : m.Filed) (model : String) : (m.cache.entries model).Nodup := by
  refine List.Pairwise.filterMap _ ?_ (hm.consistent.shelf model).order_nodup
  intro key key' hne h hh h' hh' he
  obtain ⟨i, hi, -, rfl⟩ := hm.under (hh : m.cache.filed? model key = some h)
  obtain ⟨j, hj, -, rfl⟩ := hm.under (hh' : m.cache.filed? model key' = some h')
  subst he
  exact hne (congrArg Instance.keyText (Option.some.inj (hi.symm.trans hj)))

/-- A bulk update that fails has failed for one instance, which then is not filed anew. -/
theorem Filed.follows_updateAll_error {m m' : Memory} (hm : m.Filed) {changes : List (String × Value)}
    {matched : List Handle} (hn : matched.Nodup) {e : Error}
    (hu : (Attempt.forEach matched (update changes)).runOn m = (.error e, m')) :
    ∃ m₁, ∃ h ∈ matched, ∃ heap, m.Follows m₁ ∧ m₁.heap.get? h = m.heap.get? h ∧ m' = {m₁ with heap} ∧
      (∀ k, k ≠ h → heap.get? k = m₁.heap.get? k) ∧ m₁.heap.TakesOver heap := by
  induction matched generalizing m with
  | nil => cases hu
  | cons h rest ih =>
    rcases Attempt.runOn_forEach_cons_error hu with hfirst | ⟨m₁, hfirst, hrest⟩
    · obtain ⟨heap, hloaded, hother, ht⟩ := loadAll_within h changes m
      rw [runOn_update] at hfirst
      split at hfirst
      · cases hfirst
      · next hrun =>
        rw [hrun] at hloaded
        cases hfirst
        exact ⟨m, h, .head _, heap, hm.follows_refl, rfl, hloaded, hother, ht⟩
    · obtain ⟨hne, hn⟩ := List.nodup_cons.1 hn
      obtain ⟨hfollows, hothers⟩ := hm.follows_update hfirst
      obtain ⟨m₂, k, hk, heap, hfollows', hsame, hrest⟩ := ih hfollows.filed hn hrest
      exact ⟨m₂, k, .tail _ hk, heap, hfollows.trans hfollows',
        hsame.trans (hothers k fun he => hne (he ▸ hk)), hrest⟩

end Memory

end RecordMapper
