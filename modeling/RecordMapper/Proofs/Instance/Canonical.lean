import Mathlib.Data.List.Forall2
import RecordMapper.Proofs.Fetch.Hydrate
import RecordMapper.Proofs.Field.Order
import RecordMapper.Proofs.Instance.Pending
import RecordMapper.Proofs.Value.KeyText

/-! Instances whose values are in canonical form.

Every value that an instance takes is brought into the form of its field first. So its current values, and those
of the key that it remembers while changes are pending, are in that form (`canonical_performAll`). In that form
values of one field are equal when they compare so, and keys are known from their texts. -/
namespace RecordMapper

/-! ### Canonical values -/

theorem Value.compare?_self {v : Value} (hv : v.IsScalar) (hnull : v.isNull = false) : v.compare? v = some .eq := by
  cases v with
  | null => cases hnull
  | json document => exact hv.elim
  | _ => simp [compare?, asInteger?, Std.ReflCmp.compare_self]

/-- NULL does not compare. -/
theorem Value.isNull_of_compare? {v w : Value} {o : Ordering} (h : v.compare? w = some o) :
    v.isNull = false ∧ w.isNull = false := by
  cases v <;> cases w
  all_goals
    first
    | exact ⟨rfl, rfl⟩
    | cases h

/-- Values in the form of one field are the same when neither comes before the other. -/
theorem FieldKind.eq_of_compare? {kind : FieldKind} {v w : Value} (hv : kind.coerce v = .ok v)
    (hw : kind.coerce w = .ok w) (h : v.compare? w = some .eq) : v = w := by
  obtain ⟨hvnull, hwnull⟩ := Value.isNull_of_compare? h
  exact (kind.totallyOrdered.eq_iff v w (holds_of_coerce hv hvnull) (holds_of_coerce hw hwnull)).1 h

namespace Field

theorem eq_of_compare? {f : Field} {v w : Value} (hv : f.coerce v = .ok v) (hw : f.coerce w = .ok w)
    (h : v.compare? w = some .eq) : v = w :=
  FieldKind.eq_of_compare? (coerce_ok_iff.1 hv) (coerce_ok_iff.1 hw) h

theorem coerce_null (f : Field) : f.coerce .null = .ok .null := coerce_ok_iff.2 (FieldKind.coerce_null f.kind)

end Field

/-- A value for each field of the key, in the form of the field. -/
def Model.FitsKey (m : Model) (key : List Value) : Prop :=
  List.Forall₂ (fun f v => Field.coerce f v = .ok v) m.primaryKey key

namespace Model.FitsKey

theorem legible {m : Model} {key : List Value} (h : m.FitsKey key) : ∀ v ∈ key, v.Legible := by
  unfold Model.FitsKey at h
  generalize m.primaryKey = fields at h
  intro v hv
  induction h with
  | nil => cases hv
  | cons hw _ ih =>
    rcases List.mem_cons.1 hv with rfl | hv
    · exact (Field.isScalar_of_coerce hw).legible
    · exact ih hv

/-- Keys are known from their texts. -/
theorem inj {m m' : Model} {key key' : List Value} (h : m.FitsKey key) (h' : m'.FitsKey key')
    (htext : Value.keyText key = Value.keyText key') : key = key' :=
  Value.keyText_inj h.legible h'.legible htext

end Model.FitsKey

namespace Instance

/-! ### Canonical instances -/

/-- The current values, and the key that is remembered, are in the form of their fields. -/
structure Canonical (i : Instance) : Prop where
  fields : i.cells.map (·.field) = i.model.fields
  current : ∀ c ∈ i.cells, c.field.coerce c.current = .ok c.current
  key : ∀ key, i.keySnapshot = some key → i.model.FitsKey key

namespace Canonical

variable {i j : Instance} {name : String} {v : Value}

theorem primaryKey (hi : i.Canonical) : i.model.FitsKey i.primaryKey := by
  have hkey : i.model.primaryKey = (i.cells.filter (·.field.primaryKey)).map (·.field) := by
    unfold Model.primaryKey
    rw [← hi.fields, List.filter_map]
    rfl
  unfold Model.FitsKey Instance.primaryKey
  rw [hkey, List.forall₂_map_left_iff, List.forall₂_map_right_iff, List.forall₂_same]
  exact fun c hc => hi.current c (List.mem_filter.1 hc).1

theorem persistedKey (hi : i.Canonical) : i.model.FitsKey i.persistedKey := by
  unfold Instance.persistedKey
  cases hkey : i.keySnapshot with
  | none => exact hi.primaryKey
  | some key => exact hi.key key hkey

/-- Rows of canonical instances have one key when they have one text for it. -/
theorem persistedKey_eq (hi : i.Canonical) (hj : j.Canonical) (h : i.keyText = j.keyText) :
    i.persistedKey = j.persistedKey :=
  hi.persistedKey.inj hj.persistedKey h

theorem get? (hi : i.Canonical) {f : Field} (hf : i.model.field? name = some f) (hv : i.get? name = some v) :
    f.coerce v = .ok v := by
  obtain ⟨c, hc, rfl⟩ := Option.map_eq_some_iff.1 hv
  unfold Model.field? at hf
  rw [← hi.fields, List.find?_map] at hf
  obtain ⟨d, hd, rfl⟩ := Option.map_eq_some_iff.1 hf
  obtain rfl : c = d := Option.some.inj (hc.symm.trans hd)
  exact hi.current c (List.mem_of_find?_eq_some hc)

/-! ### Canonical histories -/

theorem new (m : Model) : (Instance.new m).Canonical where
  fields := (coherent_new m).fields
  current c hc := by
    obtain ⟨f, _, rfl⟩ := List.mem_map.1 hc
    exact f.coerce_null
  key := nofun

/-- Other cells, and the key forgotten or remembered as it is. -/
theorem recell (hi : i.Canonical) {cells : List Cell} {key : Option (List Value)}
    (hfields : cells.map (·.field) = i.cells.map (·.field))
    (hcurrent : ∀ c ∈ cells, c.field.coerce c.current = .ok c.current)
    (hkey : ∀ k, key = some k → i.model.FitsKey k) :
    Canonical {i with cells, keySnapshot := key} :=
  ⟨hfields.trans hi.fields, hcurrent, hkey⟩

theorem settle (hi : i.Canonical) : i.settle.Canonical := by
  unfold Instance.settle
  split
  · exact hi
  · exact hi.recell rfl hi.current nofun

/-- One of the cells has another value, in the form of its field. -/
theorem update (hi : i.Canonical) (f : Cell → Cell) {key : Option (List Value)}
    (hfield : ∀ c, (f c).field = c.field)
    (hf : ∀ c, i.cell? name = some c → c.field.coerce (f c).current = .ok (f c).current)
    (hkey : ∀ k, key = some k → i.model.FitsKey k) :
    Canonical {i with cells := Cell.update name f i.cells, keySnapshot := key} := by
  refine hi.recell (Cell.map_field_update hfield) (fun d hd => ?_) hkey
  rcases Cell.mem_update hd with hd | ⟨c, hc, rfl⟩
  · exact hi.current d hd
  · rw [hfield]
    exact hf c hc

theorem set (hi : i.Canonical) (h : i.set name v = .ok j) : j.Canonical := by
  obtain ⟨c, w, hfound, hcoerce, hcases⟩ := set_ok h
  have hw : ∀ d, i.cell? name = some d → d.field.coerce w = .ok w := fun d hd =>
    Option.some.inj (hfound.symm.trans hd) ▸ Field.coerce_coerce hcoerce
  rcases hcases with ⟨-, rfl⟩ | ⟨-, rfl⟩
  · exact (hi.update (fun c => {c with current := w}) (fun _ => rfl) hw fun k hk =>
      Option.some.inj hk ▸ hi.persistedKey).settle
  · exact hi.update (·.settled w) (fun _ => rfl) hw hi.key

theorem settled (hi : i.Canonical) {w : Value} (hw : ∀ c, i.cell? name = some c → c.field.coerce w = .ok w) :
    Canonical (Instance.settle {i with cells := Cell.update name (·.settled w) i.cells}) :=
  (hi.update (·.settled w) (fun _ => rfl) hw hi.key).settle

theorem load (hi : i.Canonical) (h : i.load name v = .ok j) : j.Canonical := by
  obtain ⟨c, w, hfound, hcoerce, rfl⟩ := load_ok h
  exact hi.settled fun d hd => Option.some.inj (hfound.symm.trans hd) ▸ Field.coerce_coerce hcoerce

theorem clear (hi : i.Canonical) (name : String) : (i.clear name).Canonical :=
  hi.settled fun c _ => c.field.coerce_null

theorem commit (hi : i.Canonical) : i.commit.Canonical := by
  refine hi.recell ?_ (fun c hc => ?_) nofun
  · rw [List.map_map]
    rfl
  · obtain ⟨d, hd, rfl⟩ := List.mem_map.1 hc
    exact hi.current d hd

theorem of_unlinked (hi : i.Canonical) (h : j.unlinked = i.unlinked) : j.Canonical := by
  have hj : j.unlinked.Canonical := h ▸ ⟨hi.fields, hi.current, hi.key⟩
  exact ⟨hj.fields, hj.current, hj.key⟩

theorem perform (hi : i.Canonical) (call : InstanceCall) : (i.perform call).Canonical := by
  cases call with
  | set name v =>
    unfold Instance.perform
    dsimp only
    split
    · next h => exact hi.set h
    · exact hi
  | load name v =>
    unfold Instance.perform
    dsimp only
    split
    · next h => exact hi.load h
    · exact hi
  | commit => exact hi.commit

end Canonical

/-- Every instance that came from a new one is canonical. -/
theorem canonical_performAll (m : Model) (calls : List InstanceCall) :
    ((Instance.new m).performAll calls).Canonical :=
  List.foldlRecOn calls Instance.perform (Canonical.new m) fun _ hi call _ => hi.perform call

/-- So is every one that was built from a row. -/
theorem Fresh.canonical {i : Instance} (hi : i.Fresh) : i.Canonical where
  fields := hi.fields
  current c hc := (hi.settled c hc).2.2
  key key hkey := by
    rw [hi.snapshot] at hkey
    cases hkey

end Instance

end RecordMapper
