import RecordMapper.Proofs.Session.Reading
import RecordMapper.Proofs.Value.KeyText

/-! Rows, and the rows that instances stand for.

A row has a value for each field of its model, in the form that the field keeps. The committed values of
an instance make such a row; without pending changes they are also what conditions are decided by
(`holdsOf_record`). Taking values over assigns them in the row (`record_takeAll`). -/
namespace RecordMapper

abbrev Record := List (Field × Value)

namespace Record

/-- The value of the named field. -/
def value? (row : Record) (name : String) : Option Value := (row.find? (·.1.name = name)).map (·.2)

/-- The part that identifies the row. -/
def keyPart (row : Record) : Record := row.filter (·.1.primaryKey)

def key (row : Record) : List Value := row.keyPart.map (·.2)

/-- The row after an assignment. -/
def assign (changes : List (String × Value)) (row : Record) : Record :=
  row.map fun e => (e.1, (KeyedList.get? e.1.name changes).getD e.2)

@[simp] theorem assign_nil (row : Record) : row.assign [] = row := List.map_id row

@[simp] theorem fields_assign (changes : List (String × Value)) (row : Record) :
    (row.assign changes).map (·.1) = row.map (·.1) := by
  rw [assign, List.map_map]
  rfl

/-- Assigning the same values once more changes nothing. -/
theorem assign_assign (changes : List (String × Value)) (row : Record) :
    (row.assign changes).assign changes = row.assign changes := by
  rw [assign, assign, List.map_map]
  refine List.map_congr_left fun e _ => Prod.ext rfl ?_
  show (KeyedList.get? e.1.name changes).getD ((KeyedList.get? e.1.name changes).getD e.2) = _
  cases KeyedList.get? e.1.name changes <;> rfl

theorem keyPart_assign (changes : List (String × Value)) (row : Record) :
    (row.assign changes).keyPart = row.keyPart.assign changes := by
  rw [keyPart, assign, List.filter_map]
  rfl

/-- Rows of one model with one key have the same part for it. -/
theorem keyPart_eq {row row' : Record} (hfields : row.map (·.1) = row'.map (·.1)) (hkey : row.key = row'.key) :
    row.keyPart = row'.keyPart := by
  have hparts : ∀ row : Record, row.keyPart.map (·.1) = (row.map (·.1)).filter (·.primaryKey) := fun row => by
    rw [keyPart, List.filter_map]
    rfl
  exact (List.zip_of_prod ((hparts row).trans (hfields ▸ (hparts row').symm)) hkey).trans
    (List.zip_of_prod rfl rfl).symm

/-- A row that has the key of an assigned one has it after the assignment too. -/
theorem key_assign_eq {row row' : Record} (hfields : row.map (·.1) = row'.map (·.1))
    {changes : List (String × Value)} (hkey : row.key = (row'.assign changes).key) :
    (row.assign changes).key = (row'.assign changes).key := by
  have hpart := keyPart_eq (hfields.trans (fields_assign changes row').symm) hkey
  unfold key
  rw [keyPart_assign changes row, hpart, keyPart_assign, assign_assign]

/-- The first of several assignments comes first. -/
theorem assign_cons {name : String} {v : Value} {rest : List (String × Value)} (hn : name ∉ rest.map (·.1))
    (row : Record) : row.assign ((name, v) :: rest) = (row.assign [(name, v)]).assign rest := by
  rw [assign, assign, assign, List.map_map]
  refine List.map_congr_left fun e _ => Prod.ext rfl ?_
  show (KeyedList.get? e.1.name ((name, v) :: rest)).getD e.2 =
    (KeyedList.get? e.1.name rest).getD ((KeyedList.get? e.1.name [(name, v)]).getD e.2)
  by_cases he : name = e.1.name
  · have hnone : KeyedList.get? e.1.name rest = none := by
      cases hget : KeyedList.get? e.1.name rest with
      | none => rfl
      | some w => exact absurd (he ▸ KeyedList.mem_keys_of_get? hget) hn
    simp [KeyedList.get?, he, hnone]
  · simp [KeyedList.get?, he]

end Record

/-- A row has a value for each field, in the form that the field keeps. -/
structure Model.Suits (m : Model) (row : Record) : Prop where
  fields : row.map (·.1) = m.fields
  canonical : ∀ e ∈ row, e.1.coerce e.2 = .ok e.2

theorem Model.Suits.assign {m : Model} (hn : (m.fields.map (·.name)).Nodup) {row : Record} (hrow : m.Suits row)
    {changes : List (String × Value)} (ht : m.Takes changes) : m.Suits (row.assign changes) where
  fields := (Record.fields_assign changes row).trans hrow.fields
  canonical e he := by
    obtain ⟨d, hd, rfl⟩ := List.mem_map.1 he
    show d.1.coerce ((KeyedList.get? d.1.name changes).getD d.2) = .ok ((KeyedList.get? d.1.name changes).getD d.2)
    cases hget : KeyedList.get? d.1.name changes with
    | none => exact hrow.canonical d hd
    | some v =>
      obtain ⟨f, hf, hv⟩ := ht _ (KeyedList.mem_of_get? hget)
      have hfield : d.1 ∈ m.fields := hrow.fields ▸ List.mem_map_of_mem hd
      obtain rfl : d.1 = f := Option.some.inj ((Model.field?_of_mem hn hfield).symm.trans hf)
      exact hv

/-- The keys of rows are known from their texts. -/
theorem Model.Suits.key_inj {m : Model} {row row' : Record} (hrow : m.Suits row) (hrow' : m.Suits row')
    (h : Value.keyText row.key = Value.keyText row'.key) : row.key = row'.key := by
  have hlegible : ∀ {row : Record}, m.Suits row → ∀ v ∈ row.key, v.Legible := fun hrow v hv => by
    obtain ⟨e, he, rfl⟩ := List.mem_map.1 hv
    exact (Field.isScalar_of_coerce (hrow.canonical e (List.mem_filter.1 he).1)).legible
  exact Value.keyText_inj (hlegible hrow) (hlegible hrow') h

/-! ### Conditions -/

namespace Condition

/-- Decides a condition by the values of fields. -/
def holdsOf (value? : String → Option Value) : Condition → Bool
  | comparison _ field op value _ => (value? field).any fun current => comparisonHolds op current value
  | nullCheck _ field negated => ((value? field).all Value.isNull) != negated
  | combination left logic right => logic.apply (left.holdsOf value?) (right.holdsOf value?)

theorem evaluate_eq_holdsOf (i : Instance) (c : Condition) : c.evaluate i = c.holdsOf i.get? := by
  induction c with
  | comparison table field op value literal => rfl
  | nullCheck table field negated => rfl
  | combination left logic right ihl ihr => rw [evaluate, holdsOf, ihl, ihr]

end Condition

/-! ### The row of an instance -/

namespace Instance

/-- The committed values. -/
def record (i : Instance) : Record := i.cells.map fun c => (c.field, c.baseline)

theorem key_record (i : Instance) : i.record.key = i.committedKey := by
  unfold Record.key Record.keyPart record committedKey
  rw [List.filter_map, List.map_map]
  rfl

theorem value?_record (i : Instance) (name : String) : i.record.value? name = i.baseline? name := by
  unfold Record.value? record baseline? cell?
  rw [List.find?_map, Option.map_map]
  rfl

theorem get?_of_not_isDirty {i : Instance} (h : i.isDirty = false) (name : String) :
    i.get? name = i.record.value? name := by
  rw [value?_record, get?, baseline?]
  exact Option.map_congr fun c hc => not_isDirty_iff.1 h c (List.mem_of_find?_eq_some hc)

/-- Without pending changes a condition is decided by the row. -/
theorem evaluate_of_not_isDirty {i : Instance} (h : i.isDirty = false) (c : Condition) :
    c.evaluate i = c.holdsOf i.record.value? := by
  rw [c.evaluate_eq_holdsOf, funext (get?_of_not_isDirty h)]

end Instance

theorem Cell.record_update {cells : List Cell} (hn : (cells.map (·.field.name)).Nodup) (name : String) (v : Value) :
    (Cell.update name (·.settled v) cells).map (fun c => (c.field, c.baseline)) =
      Record.assign [(name, v)] (cells.map fun c => (c.field, c.baseline)) := by
  induction cells with
  | nil => rfl
  | cons c rest ih =>
    obtain ⟨hne, hn⟩ := List.nodup_cons.1 hn
    by_cases hc : c.field.name = name
    · -- No other cell has the name.
      have hrest : Record.assign [(name, v)] (rest.map fun c => (c.field, c.baseline)) =
          rest.map fun c => (c.field, c.baseline) := by
        rw [Record.assign, List.map_map]
        refine List.map_congr_left fun d hd => Prod.ext rfl ?_
        have hd : name ≠ d.field.name := fun he => hne (List.mem_map.2 ⟨d, hd, he.symm.trans hc.symm⟩)
        simp [KeyedList.get?, hd]
      have hfirst : (KeyedList.get? c.field.name [(name, v)]).getD c.baseline = v := by simp [KeyedList.get?, hc]
      rw [update, if_pos hc]
      show (c.field, v) :: rest.map (fun c => (c.field, c.baseline)) = (c.field, _) :: Record.assign _ _
      rw [hfirst, hrest]
    · rw [update, if_neg hc, List.map_cons, ih hn]
      simp [Record.assign, KeyedList.get?, Ne.symm hc]

namespace Instance

/-- Taking values over assigns them in the row. -/
theorem Coherent.record_takeAll {i : Instance} (hi : i.Coherent) (hn : (i.model.fields.map (·.name)).Nodup)
    {changes : List (String × Value)} (ht : i.model.Takes changes) (hc : (changes.map (·.1)).Nodup) :
    (i.takeAll changes).record = i.record.assign changes := by
  have hcells : (i.cells.map (·.field.name)).Nodup := by
    rw [← hi.fields, List.map_map] at hn
    exact hn
  unfold record
  rw [hi.cells_takeAll ht]
  generalize i.cells = cells at hcells
  clear ht
  induction changes generalizing cells with
  | nil => exact (Record.assign_nil _).symm
  | cons change rest ih =>
    obtain ⟨hne, hc⟩ := List.nodup_cons.1 hc
    have hsame : (Cell.update change.1 (·.settled change.2) cells).map (·.field) = cells.map (·.field) :=
      Cell.map_field_update fun _ => rfl
    have hnames : ((Cell.update change.1 (·.settled change.2) cells).map (·.field.name)).Nodup := by
      have hmap := congrArg (List.map Field.name) hsame
      rw [List.map_map, List.map_map] at hmap
      exact hmap ▸ hcells
    rw [List.foldl_cons, ih hc _ hnames, Cell.record_update hcells, ← Record.assign_cons hne]

end Instance

end RecordMapper
