import RecordMapper.Proofs.Instance.Pending
import RecordMapper.Proofs.Session.Shelf
import RecordMapper.Session.Flush

/-! Where cached instances are filed.

`Filed` says that every cached instance stands on the shelf of its model under the key of its
row. Instances are shared and change while they are cached, so each operation has to move an
instance together with its key. All of them do it in the same way: the instance is changed,
and then filed anew from the key it had (`Filed.moved`). What the cache holds after that is
given by one equation, `filed?_rekey`. -/
namespace RecordMapper

namespace Cache

theorem contains_iff {c : Cache} {heap : Heap} {h : Handle} :
    c.contains heap h = true ↔ ∃ i, heap.get? h = some i ∧ c.filed? i.model.name i.keyText = some h := by
  unfold contains isFiled
  simp only [Option.any_eq_true, beq_iff_eq]

/-- An instance is cached if it is what is filed under its key. -/
theorem contains_iff_filed {c : Cache} {heap : Heap} {h : Handle} {i : Instance} (hi : heap.get? h = some i) :
    c.contains heap h = true ↔ c.filed? i.model.name i.keyText = some h := by
  unfold contains isFiled
  simp only [hi, Option.any_some, beq_iff_eq]

theorem contains_missing (c : Cache) {heap : Heap} {h : Handle} (hi : heap.get? h = none) :
    c.contains heap h = false := by
  unfold contains
  rw [hi]
  rfl

theorem contains_congr (c : Cache) {heap heap' : Heap} {h : Handle} (hheap : heap'.get? h = heap.get? h) :
    c.contains heap' h = c.contains heap h := by
  unfold contains
  rw [hheap]

theorem rekey_missing (c : Cache) {heap : Heap} {h : Handle} (hi : heap.get? h = none) (oldKey : List Value) :
    c.rekey heap h oldKey = c := by
  unfold rekey
  rw [hi]

/-! ### Registering, removing and filing anew -/

theorem filed?_register {c : Cache} {heap : Heap} {h : Handle} {i : Instance} (hi : heap.get? h = some i)
    (model key : String) :
    (c.register heap h).filed? model key =
      if model = i.model.name ∧ key = i.keyText then some h else c.filed? model key := by
  unfold register
  rw [hi]
  show Cache.filed? (c.setShelf _ _) model key = _
  rw [filed?_setShelf, Shelf.filed_file, KeyedList.get?_put]
  by_cases hm : model = i.model.name
  · rw [if_pos hm, hm]
    simp only [true_and]
    rfl
  · simp only [hm, false_and, if_false]

/-- What is filed after an instance was filed anew from an old key. -/
theorem filed?_rekey {c : Cache} {heap : Heap} {h : Handle} {i : Instance} (hi : heap.get? h = some i)
    (oldKey : List Value) (model key : String) :
    (c.rekey heap h oldKey).filed? model key =
      if c.filed? i.model.name (Value.keyText oldKey) = some h then
        if model = i.model.name ∧ key = i.keyText then some h
        else if model = i.model.name ∧ key = Value.keyText oldKey then none
        else c.filed? model key
      else c.filed? model key := by
  unfold rekey
  rw [hi]
  simp only [isFiled, beq_iff_eq]
  split
  · rw [filed?_setShelf, Shelf.filed_file, KeyedList.get?_put]
    by_cases hm : model = i.model.name
    · rw [if_pos hm, hm]
      simp only [true_and]
      by_cases hkey : key = i.keyText
      · rw [if_pos hkey, if_pos hkey]
      · rw [if_neg hkey, if_neg hkey]
        split
        · next hold => rw [if_neg (hold ▸ hkey)]; rfl
        · rw [Shelf.filed_drop, KeyedList.get?_erase]; rfl
    · simp only [hm, false_and, if_false]
  · rfl

theorem remove?_eq_some {c c' : Cache} {heap : Heap} {h : Handle} (hr : c.remove? heap h = some c') :
    ∃ i, heap.get? h = some i ∧ c.filed? i.model.name i.keyText = some h ∧
      c' = c.setShelf i.model.name ((c.shelf i.model.name).drop i.keyText) := by
  unfold remove? at hr
  obtain ⟨i, hi, hr⟩ := Option.bind_eq_some_iff.1 hr
  split at hr
  · next hfiled => exact ⟨i, hi, by simpa [isFiled] using hfiled, (Option.some.inj hr).symm⟩
  · cases hr

/-- What can be taken out is cached. -/
theorem contains_of_remove?_eq_some {c c' : Cache} {heap : Heap} {h : Handle} (hr : c.remove? heap h = some c') :
    c.contains heap h = true := by
  obtain ⟨i, hi, hfiled, -⟩ := remove?_eq_some hr
  exact contains_iff.2 ⟨i, hi, hfiled⟩

theorem contains_of_remove?_eq_none {c : Cache} {heap : Heap} {h : Handle} (hr : c.remove? heap h = none) :
    c.contains heap h = false := by
  unfold remove? at hr
  unfold contains
  cases hi : heap.get? h with
  | none => rfl
  | some i =>
    rw [hi] at hr
    cases hf : c.isFiled h i i.keyText with
    | false => simp [hf]
    | true => simp [hf] at hr

theorem mem_handles_of_contains {c : Cache} {heap : Heap} {h : Handle} (hc : c.contains heap h = true) :
    h ∈ c.handles := by
  obtain ⟨i, -, hfiled⟩ := contains_iff.1 hc
  unfold filed? shelf at hfiled
  cases hshelf : KeyedList.get? i.model.name c.shelves with
  | none =>
    rw [hshelf] at hfiled
    cases hfiled
  | some s =>
    rw [hshelf] at hfiled
    exact List.mem_flatMap.2
      ⟨_, KeyedList.mem_of_get? hshelf, List.mem_map.2 ⟨_, KeyedList.mem_of_get? hfiled, rfl⟩⟩

theorem filed?_remove {c : Cache} (i : Instance) (model key : String) :
    (c.setShelf i.model.name ((c.shelf i.model.name).drop i.keyText)).filed? model key =
      if model = i.model.name ∧ key = i.keyText then none else c.filed? model key := by
  rw [filed?_setShelf, Shelf.filed_drop, KeyedList.get?_erase]
  by_cases hm : model = i.model.name
  · rw [if_pos hm, hm]
    simp only [true_and]
    rfl
  · simp only [hm, false_and, if_false]

/-! ### Consistency -/

theorem Consistent.register {c : Cache} (hc : c.Consistent) (heap : Heap) (h : Handle) :
    (c.register heap h).Consistent := by
  unfold Cache.register
  split
  · exact hc.setShelf _ ((hc.shelf _).file _ _ _)
  · exact hc

theorem Consistent.rekey {c : Cache} (hc : c.Consistent) (heap : Heap) (h : Handle)
    (oldKey : List Value) : (c.rekey heap h oldKey).Consistent := by
  unfold Cache.rekey
  split
  · next i _ =>
    dsimp only
    split
    · apply hc.setShelf
      split
      · exact (hc.shelf _).file _ _ _
      · exact ((hc.shelf _).drop _).file _ _ _
    · exact hc
  · exact hc

theorem Consistent.remove {c c' : Cache} (hc : c.Consistent) {heap : Heap} {h : Handle}
    (hr : c.remove? heap h = some c') : c'.Consistent := by
  obtain ⟨i, _, _, rfl⟩ := remove?_eq_some hr
  exact hc.setShelf _ ((hc.shelf _).drop _)

end Cache

namespace Memory

/-- Every cached instance is filed under its model and the key of its row. -/
structure Filed (m : Memory) : Prop where
  consistent : m.cache.Consistent
  under : ∀ {model key : String} {h : Handle}, m.cache.filed? model key = some h →
    ∃ i, m.heap.get? h = some i ∧ i.model.name = model ∧ i.keyText = key

theorem filed_empty : ({} : Memory).Filed := ⟨Cache.consistent_empty, fun h => by cases h⟩

theorem keyText_persistedKey {m : Memory} {h : Handle} {i : Instance} (hi : m.heap.get? h = some i) :
    Value.keyText (m.persistedKey h) = i.keyText := by
  unfold persistedKey
  rw [hi]
  rfl

/-- A cached instance is filed nowhere else. -/
theorem Filed.eq_of_filed {m : Memory} (hm : m.Filed) {model key : String} {h : Handle} {i : Instance}
    (hfiled : m.cache.filed? model key = some h) (hi : m.heap.get? h = some i) :
    model = i.model.name ∧ key = i.keyText := by
  obtain ⟨j, hj, hmodel, hkey⟩ := hm.under hfiled
  obtain rfl : j = i := Option.some.inj (hj.symm.trans hi)
  exact ⟨hmodel.symm, hkey.symm⟩

theorem Filed.contains {m : Memory} (hm : m.Filed) {model key : String} {h : Handle}
    (hfiled : m.cache.filed? model key = some h) : m.cache.contains m.heap h = true := by
  obtain ⟨i, hi, rfl, rfl⟩ := hm.under hfiled
  exact Cache.contains_iff.2 ⟨i, hi, hfiled⟩

/-- A cached instance is the only one that is filed for its row. -/
theorem Filed.eq_of_contains {m : Memory} {h k : Handle} {i j : Instance}
    (hh : m.cache.contains m.heap h = true) (hk : m.cache.contains m.heap k = true)
    (hi : m.heap.get? h = some i) (hj : m.heap.get? k = some j) (hmodel : i.model.name = j.model.name)
    (hkey : i.persistedKey = j.persistedKey) : h = k := by
  have hfiled := (Cache.contains_iff_filed hi).1 hh
  have hfiled' := (Cache.contains_iff_filed hj).1 hk
  rw [hmodel, Instance.keyText, hkey] at hfiled
  exact Option.some.inj (hfiled.symm.trans hfiled')

/-- A registered instance is cached, in place of the one that was filed under its key. -/
theorem Filed.contains_register {m : Memory} (hm : m.Filed) {h : Handle} {i : Instance}
    (hi : m.heap.get? h = some i) (k : Handle) :
    (m.cache.register m.heap h).contains m.heap k = true ↔
      k = h ∨ m.cache.contains m.heap k = true ∧ m.cache.filed? i.model.name i.keyText ≠ some k := by
  by_cases hk : k = h
  · subst hk
    refine ⟨fun _ => .inl rfl, fun _ => Cache.contains_iff.2 ⟨i, hi, ?_⟩⟩
    rw [Cache.filed?_register hi, if_pos ⟨rfl, rfl⟩]
  · simp only [hk, false_or, Cache.contains_iff]
    constructor
    · rintro ⟨j, hj, hfiled⟩
      rw [Cache.filed?_register hi] at hfiled
      split at hfiled
      · exact absurd (Option.some.inj hfiled).symm hk
      · next hne =>
        refine ⟨⟨j, hj, hfiled⟩, fun hheld => hne ?_⟩
        obtain ⟨hmodel, hkey⟩ := hm.eq_of_filed hheld hj
        exact ⟨hmodel.symm, hkey.symm⟩
    · rintro ⟨⟨j, hj, hfiled⟩, hfree⟩
      refine ⟨j, hj, ?_⟩
      rw [Cache.filed?_register hi, if_neg]
      · exact hfiled
      · rintro ⟨hmodel, hkey⟩
        rw [hmodel, hkey] at hfiled
        exact hfree hfiled

/-- An instance that changes and is then filed anew from its old key is filed as the others
are. -/
theorem Filed.moved {m : Memory} (hm : m.Filed) {h : Handle} {heap : Heap}
    (hother : ∀ k, k ≠ h → heap.get? k = m.heap.get? k)
    (hself : ∀ i, m.heap.get? h = some i → ∃ j, heap.get? h = some j ∧ j.model = i.model)
    (hnone : m.heap.get? h = none → heap.get? h = none) :
    (rekey {m with heap} h (m.persistedKey h)).Filed := by
  refine ⟨hm.consistent.rekey _ _ _, ?_⟩
  intro model key k hk
  show ∃ i, heap.get? k = some i ∧ _
  have hk : (m.cache.rekey heap h (m.persistedKey h)).filed? model key = some k := hk
  cases hi : m.heap.get? h with
  | none =>
    rw [m.cache.rekey_missing (hnone hi)] at hk
    obtain ⟨j, hj, hrest⟩ := hm.under hk
    have hne : k ≠ h := fun he => by rw [he, hi] at hj; cases hj
    exact ⟨j, (hother k hne).trans hj, hrest⟩
  | some i =>
    obtain ⟨j, hj, hmodel⟩ := hself i hi
    rw [Cache.filed?_rekey hj, keyText_persistedKey hi, hmodel] at hk
    -- What is filed for another instance is filed as before.
    have hothers : m.cache.filed? model key = some k → k ≠ h →
        ∃ i, heap.get? k = some i ∧ i.model.name = model ∧ i.keyText = key := by
      intro hfiled hne
      obtain ⟨l, hl, hrest⟩ := hm.under hfiled
      exact ⟨l, (hother k hne).trans hl, hrest⟩
    by_cases hfiled : m.cache.filed? i.model.name i.keyText = some h
    · rw [if_pos hfiled] at hk
      by_cases hnew : model = i.model.name ∧ key = j.keyText
      · rw [if_pos hnew] at hk
        obtain rfl := Option.some.inj hk
        exact ⟨j, hj, by rw [hmodel, hnew.1], hnew.2.symm⟩
      · rw [if_neg hnew] at hk
        split at hk
        · cases hk
        · next hnotOld =>
          refine hothers hk fun he => hnotOld ?_
          exact hm.eq_of_filed (he ▸ hk) hi
    · rw [if_neg hfiled] at hk
      refine hothers hk fun he => hfiled ?_
      obtain ⟨rfl, rfl⟩ := hm.eq_of_filed (he ▸ hk) hi
      exact he ▸ hk

/-! ### Who is found -/

theorem Filed.mem_entries {m : Memory} (hm : m.Filed) {h : Handle} {model : String} :
    h ∈ m.cache.entries model ↔
      m.cache.contains m.heap h = true ∧ ∃ i, m.heap.get? h = some i ∧ i.model.name = model := by
  rw [hm.consistent.mem_entries]
  constructor
  · rintro ⟨key, hkey⟩
    obtain ⟨i, hi, hname, -⟩ := hm.under hkey
    exact ⟨hm.contains hkey, i, hi, hname⟩
  · rintro ⟨hc, i, hi, rfl⟩
    exact ⟨i.keyText, (Cache.contains_iff_filed hi).1 hc⟩

theorem Filed.mem_cachedWith {m : Memory} (hm : m.Filed) {h : Handle} {model : String} {p : Instance → Bool} :
    h ∈ m.cachedWith model p ↔
      m.cache.contains m.heap h = true ∧ ∃ i, m.heap.get? h = some i ∧ i.model.name = model ∧ p i = true := by
  unfold cachedWith
  rw [List.mem_filter, hm.mem_entries]
  constructor
  · rintro ⟨⟨hc, i, hi, hname⟩, hp⟩
    refine ⟨hc, i, hi, hname, ?_⟩
    rw [Heap.holds_of_get? hi] at hp
    exact hp
  · rintro ⟨hc, i, hi, hname, hp⟩
    refine ⟨⟨hc, i, hi, hname⟩, ?_⟩
    rw [Heap.holds_of_get? hi]
    exact hp

/-- A cached instance of the owning model has the value that a navigation leads to. -/
theorem Filed.mem_referrers {m : Memory} (hm : m.Filed) {owner : Model} {n : Navigation} {h k : Handle} {g : Instance}
    (hg : m.heap.get? k = some g) :
    h ∈ m.referrers owner n k ↔ ∃ v, g.get? n.targetField = some v ∧ v.isNull = false ∧
      m.cache.contains m.heap h = true ∧
        ∃ i, m.heap.get? h = some i ∧ i.model.name = owner.name ∧ Cache.hasValue n.field v i = true := by
  unfold referrers
  rw [hg, Option.bind_some]
  cases hv : g.get? n.targetField with
  | none => exact ⟨fun h => absurd h List.not_mem_nil, fun ⟨v, hv, _⟩ => nomatch hv⟩
  | some v =>
    dsimp only
    cases hnull : v.isNull with
    | true =>
      refine ⟨fun h => absurd h List.not_mem_nil, fun ⟨w, hw, hn, _⟩ => ?_⟩
      obtain rfl := Option.some.inj hw
      rw [hnull] at hn
      cases hn
    | false =>
      rw [if_neg (by decide), hm.mem_cachedWith]
      constructor
      · exact fun h => ⟨v, rfl, hnull, h⟩
      · rintro ⟨w, hw, -, h⟩
        obtain rfl := Option.some.inj hw
        exact h

end Memory

end RecordMapper
