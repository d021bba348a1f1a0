import RecordMapper.Proofs.Field.Coerce
import RecordMapper.Proofs.Json.RoundTrip
import RecordMapper.Proofs.Json.Tidy
import RecordMapper.Value.Encoded

/-! Values read from their texts, and keys known from theirs.

A value is read from its tagged text as it was written (`Legible.decode?_text`). Of documents this asks that they
have no doubles and do not nest too deep; nothing is asked of other values, and so of no value that a field keeps.
Instances are filed under the texts of their keys, and two keys of such values never share one (`keyText_inj`). -/
namespace RecordMapper

theorem int32?_toInt (n : Int32) : int32? n.toInt = some n := by
  have hlast := n.toInt_lt
  rw [int32?, if_pos ⟨n.le_toInt, by omega⟩, Int32.ofInt_toInt]

theorem int64?_toInt (n : Int64) : int64? n.toInt = some n := by
  have hlast := n.toInt_lt
  rw [int64?, if_pos ⟨n.le_toInt, by omega⟩, Int64.ofInt_toInt]

namespace Value

/-- The values that a field can keep. -/
def IsScalar : Value → Prop
  | json _ => False
  | _ => True

instance : DecidablePred IsScalar := fun v => by
  cases v <;> unfold IsScalar <;> infer_instance

/-- A value that can be read back. A document must be tidy, as all are that are held, and its tagged text must be one
that can be read. -/
def Legible : Value → Prop
  | json document => document.Tidy ∧ (json document).toJson.Legible Json.maxDepth
  | _ => True

theorem IsScalar.legible {v : Value} (h : v.IsScalar) : v.Legible := by
  cases v with
  | json _ => exact h.elim
  | _ => trivial

/-! ### Reading back -/

theorem Legible.toJson {v : Value} (h : v.Legible) : v.toJson.Legible Json.maxDepth := by
  have hobj : ∀ {tag : String} {content : Json}, content.Legible 126 → (Json.obj [(tag, content)]).Legible Json.maxDepth :=
    fun hcontent => .obj fun _ hmember => List.mem_singleton.1 hmember ▸ hcontent
  have hint32 : ∀ n : Int32, (Json.int n.toInt).Legible 126 := fun n => by
    have hlow := n.le_toInt
    have hhigh := n.toInt_lt
    exact .int ⟨by omega, by unfold Json.maxWord; omega⟩
  have hint64 : ∀ n : Int64, (Json.int n.toInt).Legible 126 := fun n => by
    have hlow := n.le_toInt
    have hhigh := n.toInt_lt
    exact .int ⟨by omega, by unfold Json.maxWord; omega⟩
  cases v with
  | null => exact .str _
  | bool b => exact hobj (.bool b)
  | int n => exact hobj (hint32 n)
  | bigInt n => exact hobj (hint64 n)
  | text s => exact hobj (.str s)
  | date days => exact hobj (hint32 days)
  | timestamp micros => exact hobj (hint64 micros)
  | json document => exact h.2

theorem Legible.ofJson?_toJson {v : Value} (h : v.Legible) : ofJson? v.toJson = some v := by
  cases v with
  | null => rfl
  | bool b => rfl
  | int n => exact congrArg (Option.map int) (int32?_toInt n)
  | bigInt n => exact congrArg (Option.map bigInt) (int64?_toInt n)
  | text s => rfl
  | date days => exact congrArg (Option.map date) (int32?_toInt days)
  | timestamp micros => exact congrArg (Option.map timestamp) (int64?_toInt micros)
  | json document => exact congrArg (fun d => some (json d)) h.1.tidy_eq

/-- A value is read from its text. -/
theorem Legible.decode?_text {v : Value} (h : v.Legible) : decode? v.toJson.text = some v := by
  rw [decode?, Json.parseRaw?_text h.toJson, Option.bind_some, h.ofJson?_toJson]

/-- Documents that are read are tidy. -/
theorem isTidy_of_decode? {s : String} {document : Json} (h : decode? s = some (json document)) : document.Tidy := by
  obtain ⟨read, _, h⟩ := Option.bind_eq_some_iff.1 h
  unfold ofJson? at h
  split at h
  · split at h <;> cases h
  · unfold ofTag? at h
    split at h
    case h_8 =>
      cases h
      exact Json.isTidy_tidy _
    all_goals first
      | cases h
      | obtain ⟨_, _, h⟩ := Option.map_eq_some_iff.1 h
        cases h
  · cases h

/-! ### Telling values apart -/

/-- A value that can be read back equals itself and no other one. -/
theorem Legible.equal_iff {v w : Value} (hw : w.Legible) : v.equal w = true ↔ v = w := by
  unfold equal
  split
  · next a b =>
    have hb : b.Legible 126 := by
      cases hw.2 with
      | obj h => exact h _ (.head _)
    rw [hb.equal_iff, json.injEq]
  · exact decide_eq_true_iff

/-- A tuple of values is known from its text. -/
theorem keyText_inj {vs ws : List Value} (hv : ∀ v ∈ vs, v.Legible) (hw : ∀ w ∈ ws, w.Legible)
    (h : keyText vs = keyText ws) : vs = ws := by
  have hlegible : ∀ {vs : List Value}, (∀ v ∈ vs, v.Legible) →
      (Json.arr (vs.map toJson)).Legible (Json.maxDepth + 1) := fun hv => .arr fun item hitem => by
    obtain ⟨v, hmem, rfl⟩ := List.mem_map.1 hitem
    exact (hv v hmem).toJson
  have hback : ∀ {vs : List Value}, (∀ v ∈ vs, v.Legible) → (vs.map toJson).map ofJson? = vs.map some := fun hv => by
    rw [List.map_map]
    exact List.map_congr_left fun v hmem => (hv v hmem).ofJson?_toJson
  have hitems : vs.map toJson = ws.map toJson := Json.arr.inj ((hlegible hv).text_inj (hlegible hw) h)
  have hsome : vs.map some = ws.map some := by rw [← hback hv, hitems, hback hw]
  exact (List.map_inj_right fun _ _ => Option.some.inj).1 hsome

end Value

/-- No field keeps documents. -/
theorem Field.isScalar_of_coerce {f : Field} {v w : Value} (h : f.coerce v = .ok w) : w.IsScalar := by
  have h := coerce_ok_iff.1 h
  unfold FieldKind.coerce at h
  split at h
  case h_12 =>
    obtain ⟨day, _, rfl⟩ := Option.map_eq_some_iff.1 (FieldKind.readOr_ok h)
    trivial
  case h_15 =>
    obtain ⟨micros, _, rfl⟩ := Option.map_eq_some_iff.1 (FieldKind.readOr_ok h)
    trivial
  case h_16 => cases h
  all_goals
    cases h
    trivial

end RecordMapper
