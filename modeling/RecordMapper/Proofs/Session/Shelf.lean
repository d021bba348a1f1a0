import RecordMapper.Session.Cache

/-! Shelves whose three parts agree.

A shelf keeps its instances under key texts, the key texts in an order, and an index that
leads to key texts. `Consistent` says that the order lists every key once and that the index
leads to nothing else. Filing and dropping keep this, whatever is filed over what; a cache is
consistent when all its shelves are. -/
namespace RecordMapper

namespace Shelf

structure Consistent (s : Shelf) : Prop where
  filed_nodup : (KeyedList.keys s.filed).Nodup
  order_nodup : s.order.Nodup
  mem_order : ∀ key, key ∈ s.order ↔ key ∈ KeyedList.keys s.filed
  index_filed : ∀ e ∈ s.index, e.2 ∈ KeyedList.keys s.filed

theorem consistent_empty : ({} : Shelf).Consistent where
  filed_nodup := .nil
  order_nodup := .nil
  mem_order _ := Iff.rfl
  index_filed _ h := absurd h List.not_mem_nil

/-! ### Filing -/

@[simp] theorem filed_file (s : Shelf) (key : String) (h : Handle) (i : Instance) :
    (s.file key h i).filed = KeyedList.put key h s.filed := rfl

@[simp] theorem filed_drop (s : Shelf) (key : String) :
    (s.drop key).filed = KeyedList.erase key s.filed := rfl

theorem order_file (s : Shelf) (key : String) (h : Handle) (i : Instance) :
    (s.file key h i).order =
      if (KeyedList.get? key s.filed).isSome then s.order else s.order ++ [key] := rfl

/-- The index of a freshly indexed key leads to that key and to the others it led to. -/
theorem mem_index_indexUnder {s : Shelf} {key : String} {i : Instance}
    {e : (String × String) × String} (he : e ∈ (s.indexUnder key i).index) :
    e.2 = key ∨ e ∈ s.index := by
  have hfold : ∀ (texts : List (String × String)) (index : List ((String × String) × String)),
      e ∈ texts.foldl (fun index text => KeyedList.put text key index) index → e.2 = key ∨ e ∈ index := by
    intro texts
    induction texts with
    | nil => exact fun _ h => .inr h
    | cons text rest ih =>
      intro index h
      rcases ih _ h with h | h
      · exact .inl h
      · exact (KeyedList.mem_put h).elim .inr fun h => .inl (h ▸ rfl)
  exact (hfold _ _ he).imp_right fun h => (List.mem_filter.1 h).1

theorem Consistent.file {s : Shelf} (hs : s.Consistent) (key : String) (h : Handle) (i : Instance) :
    (s.file key h i).Consistent where
  filed_nodup := KeyedList.nodup_keys_put hs.filed_nodup
  order_nodup := by
    rw [order_file]
    split
    · exact hs.order_nodup
    · next hnew =>
      have hkey : key ∉ s.order := fun h' =>
        hnew (KeyedList.get?_isSome_iff.2 ((hs.mem_order key).1 h'))
      exact List.nodup_append.2 ⟨hs.order_nodup, List.nodup_cons.2 ⟨List.not_mem_nil, .nil⟩,
        fun a ha b hb he => hkey ((List.mem_singleton.1 hb) ▸ he ▸ ha)⟩
  mem_order other := by
    rw [order_file, filed_file, KeyedList.mem_keys_put, ← hs.mem_order]
    split
    · next hold =>
      have hkey : key ∈ s.order := (hs.mem_order key).2 (KeyedList.get?_isSome_iff.1 hold)
      exact ⟨.inr, fun h => h.elim (fun h => h ▸ hkey) id⟩
    · rw [List.mem_append, List.mem_singleton, or_comm]
  index_filed e he := by
    rw [filed_file, KeyedList.mem_keys_put]
    exact (mem_index_indexUnder he).imp_right fun h => hs.index_filed e h

/-! ### Dropping -/

theorem Consistent.drop {s : Shelf} (hs : s.Consistent) (key : String) : (s.drop key).Consistent where
  filed_nodup := KeyedList.nodup_keys_erase hs.filed_nodup
  order_nodup := hs.order_nodup.filter _
  mem_order other := by
    show other ∈ s.order.filter _ ↔ other ∈ KeyedList.keys (KeyedList.erase key s.filed)
    rw [KeyedList.keys_erase, List.mem_filter, List.mem_filter, hs.mem_order]
  index_filed e he := by
    obtain ⟨hindex, hkey⟩ := List.mem_filter.1 he
    show e.2 ∈ KeyedList.keys (KeyedList.erase key s.filed)
    rw [KeyedList.keys_erase]
    exact List.mem_filter.2 ⟨hs.index_filed e hindex, by simpa using hkey⟩

/-! ### What is filed -/

theorem Consistent.mem_entries {s : Shelf} (hs : s.Consistent) {h : Handle} :
    h ∈ s.entries ↔ ∃ key, KeyedList.get? key s.filed = some h := by
  rw [entries, List.mem_filterMap]
  exact ⟨fun ⟨key, _, hkey⟩ => ⟨key, hkey⟩, fun ⟨key, hkey⟩ =>
    ⟨key, (hs.mem_order key).2 (KeyedList.mem_keys_of_get? hkey), hkey⟩⟩

end Shelf

namespace Cache

/-! ### Caches -/

/-- Every shelf is consistent, and no model has two. -/
structure Consistent (c : Cache) : Prop where
  names_nodup : (KeyedList.keys c.shelves).Nodup
  shelf : ∀ model, (c.shelf model).Consistent

theorem consistent_empty : ({} : Cache).Consistent := ⟨.nil, fun _ => Shelf.consistent_empty⟩

theorem shelf_setShelf (c : Cache) (model other : String) (s : Shelf) :
    (c.setShelf model s).shelf other = if other = model then s else c.shelf other := by
  unfold shelf setShelf
  rw [KeyedList.get?_put]
  split <;> rfl

theorem Consistent.setShelf {c : Cache} (hc : c.Consistent) (model : String) {s : Shelf}
    (hs : s.Consistent) : (c.setShelf model s).Consistent where
  names_nodup := KeyedList.nodup_keys_put hc.names_nodup
  shelf other := by
    rw [shelf_setShelf]
    split
    · exact hs
    · exact hc.shelf other

theorem Consistent.mem_entries {c : Cache} (hc : c.Consistent) {model : String} {h : Handle} :
    h ∈ c.entries model ↔ ∃ key, c.filed? model key = some h := (hc.shelf model).mem_entries

theorem filed?_setShelf (c : Cache) (model model' key : String) (s : Shelf) :
    (c.setShelf model s).filed? model' key =
      if model' = model then KeyedList.get? key s.filed else c.filed? model' key := by
  unfold filed?
  rw [shelf_setShelf]
  split <;> rfl

end Cache

end RecordMapper
