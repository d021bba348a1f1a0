import RecordMapper.Proofs.Session.Reading

/-! Memory over the models of one registry.

Instances come from registered models, and what is filed for a model is an instance of it. `Over` says
this of a memory, and every operation keeps it, also one that fails half-way. It is all that is needed
to know which fields the cached instances of a model have, and so that what is replayed on them suits
their fields. -/
namespace RecordMapper

namespace Memory

structure Over (r : Registry) (m : Memory) : Prop where
  models : ∀ {h : Handle} {i : Instance}, m.heap.get? h = some i → r.model? i.model.name = some i.model
  coherent : m.heap.Coherent
  shelved : ∀ {model key : String} {h : Handle}, m.cache.filed? model key = some h →
    ∃ i, m.heap.get? h = some i ∧ i.model.name = model

section

variable {r : Registry} {m : Memory}

theorem over_empty (r : Registry) : ({} : Memory).Over r where
  models h := by cases h
  coherent h := by cases h
  shelved h := by cases h

/-- What is listed for a model is an instance of it. -/
theorem Over.model_of_mem (hm : m.Over r) {owner : Model} (ho : r.model? owner.name = some owner) {h : Handle}
    (hh : h ∈ m.cache.entries owner.name) {i : Instance} (hi : m.heap.get? h = some i) : i.model = owner := by
  obtain ⟨key, _, hfiled⟩ := List.mem_filterMap.1 hh
  obtain ⟨j, hj, hname⟩ := hm.shelved hfiled
  obtain rfl : j = i := Option.some.inj (hj.symm.trans hi)
  have hregistered := hm.models hi
  rw [hname, ho] at hregistered
  exact (Option.some.inj hregistered).symm

/-- What is cached for the row of a fresh instance can be refreshed with it. -/
theorem Over.refreshes (hm : m.Over r) (hfiled : m.Filed) {i : Instance} (hi : i.Fresh)
    (hn : (i.model.fields.map (·.name)).Nodup) (hmodel : r.model? i.model.name = some i.model) {h : Handle}
    (hcached : m.cache.get? i.model.name i.primaryKey = some h) : Session.Refreshes m h i where
  filed := hfiled
  coherent := hm.coherent
  fresh := hi
  names := hn
  cached := hcached
  model j hj := by
    obtain ⟨k, hk, hname⟩ := hm.shelved hcached
    obtain rfl : k = j := Option.some.inj (hk.symm.trans hj)
    have hregistered := hm.models hk
    rw [hname, hmodel] at hregistered
    exact (Option.some.inj hregistered).symm

/-! ### Instances change -/

/-- Instances keep their models, and there may be new ones. -/
theorem Over.change (hm : m.Over r) {heap : Heap}
    (hkept : ∀ {h i}, m.heap.get? h = some i → ∃ j, heap.get? h = some j ∧ j.model = i.model)
    (hall : ∀ {h j}, heap.get? h = some j → j.Coherent ∧ r.model? j.model.name = some j.model) :
    Over r {m with heap} where
  models hj := (hall hj).2
  coherent hj := (hall hj).1
  shelved hfiled := by
    obtain ⟨i, hi, rfl⟩ := hm.shelved hfiled
    obtain ⟨j, hj, hmodel⟩ := hkept hi
    exact ⟨j, hj, congrArg Model.name hmodel⟩

theorem Over.takesOver (hm : m.Over r) {heap : Heap} (ht : m.heap.TakesOver heap) : Over r {m with heap} := by
  refine hm.change (fun hi => ?_) fun {h j} hj => ⟨ht.coherent hm.coherent hj, ?_⟩
  · obtain ⟨j, hj, hij⟩ := ht.kept hi
    exact ⟨j, hj, hij.model⟩
  · obtain ⟨i, hi, hij⟩ := ht.before hj
    rw [hij.model]
    exact hm.models hi

theorem Over.add (hm : m.Over r) {i : Instance} (hi : i.Coherent) (hmodel : r.model? i.model.name = some i.model) :
    Over r {m with heap := (m.heap.add i).2} := by
  refine hm.change (fun {h j} hj => ⟨j, Heap.get?_add_of_some hj i, rfl⟩) fun {h j} hj => ?_
  rw [Heap.get?_add] at hj
  split at hj
  · cases hj
    exact ⟨hi, hmodel⟩
  · exact ⟨hm.coherent hj, hm.models hj⟩

/-- An instance that goes through a call keeps its model. -/
theorem Over.perform (hm : m.Over r) (h : Handle) (call : InstanceCall) :
    Over r {m with heap := m.heap.modify h (·.perform call)} := by
  refine hm.change (fun {k i} hi => ?_) fun {k j} hj => ?_
  · rw [Heap.get?_modify, hi]
    split
    · exact ⟨i.perform call, rfl, i.model_perform call⟩
    · exact ⟨i, rfl, rfl⟩
  · rw [Heap.get?_modify] at hj
    split at hj
    · obtain ⟨i, hi, rfl⟩ := Option.map_eq_some_iff.1 hj
      exact ⟨(hm.coherent hi).perform call, i.model_perform call ▸ hm.models hi⟩
    · exact ⟨hm.coherent hj, hm.models hj⟩

/-! ### Instances are filed -/

/-- What is newly filed is filed for its model. -/
theorem Over.file (hm : m.Over r) {cache : Cache}
    (hcache : ∀ {model key h}, cache.filed? model key = some h →
      m.cache.filed? model key = some h ∨ ∃ i, m.heap.get? h = some i ∧ i.model.name = model) :
    Over r {m with cache} where
  models := hm.models
  coherent := hm.coherent
  shelved hfiled := (hcache hfiled).elim hm.shelved id

theorem Over.register (hm : m.Over r) (h : Handle) : Over r {m with cache := m.cache.register m.heap h} := by
  refine hm.file fun {model key k} hk => ?_
  cases hi : m.heap.get? h with
  | none =>
    unfold Cache.register at hk
    rw [hi] at hk
    exact .inl hk
  | some i =>
    rw [Cache.filed?_register hi] at hk
    split at hk
    · next hnew =>
      cases hk
      exact .inr ⟨i, hi, hnew.1.symm⟩
    · exact .inl hk

theorem Over.rekey (hm : m.Over r) (h : Handle) (oldKey : List Value) : (m.rekey h oldKey).Over r := by
  refine hm.file fun {model key k} hk => ?_
  cases hi : m.heap.get? h with
  | none =>
    rw [m.cache.rekey_missing hi] at hk
    exact .inl hk
  | some i =>
    rw [Cache.filed?_rekey hi] at hk
    split at hk
    · split at hk
      · next hnew =>
        cases hk
        exact .inr ⟨i, hi, hnew.1.symm⟩
      · split at hk
        · cases hk
        · exact .inl hk
    · exact .inl hk

theorem Over.remove (hm : m.Over r) {h : Handle} {cache : Cache} (hr : m.cache.remove? m.heap h = some cache) :
    Over r {m with cache} := by
  refine hm.file fun {model key k} hk => ?_
  obtain ⟨i, _, _, rfl⟩ := Cache.remove?_eq_some hr
  rw [Cache.filed?_remove] at hk
  split at hk
  · cases hk
  · exact .inl hk

/-! ### Updates and plans -/

theorem keeps_loadAll (h : Handle) (changes : List (String × Value)) :
    Attempt.Keeps (Over r) (loadAll h changes) := by
  intro m hm
  obtain ⟨heap, hloaded, _, ht⟩ := loadAll_within h changes m
  rw [hloaded]
  exact hm.takesOver ht

theorem keeps_update (changes : List (String × Value)) (h : Handle) :
    Attempt.Keeps (Over r) (update changes h) :=
  Attempt.keeps_get.bind fun _ => (keeps_loadAll h changes).bind fun _ =>
    Attempt.keeps_modify fun _ hm => hm.rekey h _

theorem keeps_reconcileUpdate (model : String) (condition : Condition) (changes : List (String × Value)) :
    Attempt.Keeps (Over r) (reconcileUpdate model condition changes) :=
  Attempt.keeps_get.bind fun _ => (Attempt.Keeps.forEach fun h _ => keeps_update changes h).bind fun _ =>
    Attempt.keeps_pure _

theorem keeps_refresh (h : Handle) (i : Instance) : Attempt.Keeps (Over r) (Session.refresh h i) := by
  refine Attempt.keeps_get.bind fun m => ?_
  split
  · exact (keeps_loadAll h _).bind fun _ => Attempt.keeps_modify fun _ hm => hm.rekey h _
  · exact Attempt.keeps_pure _

theorem Over.apply (hm : m.Over r) (p : FlushPlan) : (p.apply m).Over r :=
  List.foldlRecOn p FlushPlan.applyOne hm fun m hm u _ =>
    Over.rekey (m := m.commit u.handle) (hm.takesOver (takesOver_modify_commit m.heap u.handle)) _ _

/-! ### Deletes -/

theorem Over.clearField (hm : m.Over r) (name : String) (h : Handle) : (clearField name m h).Over r :=
  Over.rekey (m := {m with heap := m.heap.modify h (·.clear name)})
    (hm.takesOver (m.heap.takesOver_modify h fun i _ => i.takesOver_clear name)) h _

theorem Over.followDelete {s : List Handle × Memory} (hm : s.2.Over r) (gone : Handle)
    (dependent : Model × Navigation) : (followDelete gone s dependent).2.Over r :=
  followDelete_keeps (fun name h hm => hm.clearField name h) gone hm dependent

theorem Over.followDeletes {s : List Handle × Memory} (hm : s.2.Over r) (gone : Handle) :
    (followDeletes r gone s).2.Over r :=
  followDeletes_keeps (fun name h hm => hm.clearField name h) r gone hm

theorem Over.removeAll (hm : m.Over r) (fuel : Nat) (pending : List Handle) :
    (removeAll r fuel pending m).2.Over r :=
  removeAll_keeps (fun name h hm => hm.clearField name h) (fun hr hm => hm.remove hr) r fuel pending hm

theorem Over.reconcileDelete (hm : m.Over r) (model : String) (condition : Condition) :
    (m.reconcileDelete r model condition).2.Over r :=
  (hm.removeAll _ _).takesOver (sameRows_detach _ _).takesOver

end

end Memory

end RecordMapper
