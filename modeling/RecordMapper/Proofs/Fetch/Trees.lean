import RecordMapper.Proofs.Fetch.Attaching
import RecordMapper.Proofs.Json.RoundTrip
import RecordMapper.Proofs.Json.Tidy
import RecordMapper.Proofs.Storage.RoundTrip

/-! Trees that are carried by a row and read from it again.

A tree is a row of the root with a row or none for each single-valued navigation and rows for each collection. The
answer to a fetch carries it in one row: a column for each value, and a document for each collection, which is given
as such or as its text (`Tree.CarriedBy`). Values stand in any of the forms that databases give them in. From such a
row exactly the tree is rebuilt, instance by instance (`rebuilds_carried`). -/
namespace RecordMapper

/-! ### Forms of values -/

namespace Value

/-- What a column can hold for a value: a truth value as itself or as 0 or 1, an integer as wide as it needs to be,
and a date or a moment as its text. -/
def columnForms : Value → List Value
  | bool b => [bool b, int (if b then 1 else 0), bigInt (if b then 1 else 0)]
  | bigInt n => bigInt n :: (int32? n.toInt).toList.map int
  | date days => [text (date days).plainText]
  | timestamp micros => [text (timestamp micros).plainText]
  | other => [other]

/-- What a member of an object can be for a value. Nothing stands for a document, which no field keeps. -/
def memberForms : Value → List Json
  | null => [.null]
  | bool b => [.bool b, .int (if b then 1 else 0)]
  | int n => [.int n.toInt]
  | bigInt n => [.int n.toInt]
  | text s => [.str s]
  | date days => [.str (date days).plainText]
  | timestamp micros => [.str (timestamp micros).plainText]
  | json _ => []

end Value

namespace FieldKind

variable {kind : FieldKind} {w : Value}

/-- The text of an exact date or moment is read as the value again. -/
theorem coerce_plainText_of_isExact (hw : kind.coerce w = .ok w) (hexact : w.IsExact) (hquoted : w.isQuoted = true) :
    kind.coerce (.text w.plainText) = .ok w := by
  have hnull : w.isNull = false := by
    cases w with
    | null => cases hquoted
    | _ => rfl
  exact coerce_plainText ((keeps_iff_isExact hw hnull).2 hexact) hquoted

theorem coerce_columnForm (hw : kind.coerce w = .ok w) (hexact : w.IsExact) {v : Value} (hv : v ∈ w.columnForms) :
    kind.coerce v = .ok w := by
  cases w with
  | bool b =>
    have hkind : kind = .boolean := by cases kind <;> first | rfl | cases hw
    subst hkind
    simp only [Value.columnForms, List.mem_cons, List.not_mem_nil, or_false] at hv
    rcases hv with rfl | rfl | rfl <;> cases b <;> rfl
  | bigInt n =>
    rcases List.mem_cons.1 hv with rfl | hv
    · exact hw
    · obtain ⟨k, hk, rfl⟩ := List.mem_map.1 hv
      have hnarrow := Option.mem_toList.1 hk
      unfold int32? at hnarrow
      split at hnarrow
      · next hbounds =>
        cases hnarrow
        have hwiden : (Int32.ofInt n.toInt).toInt64 = n := by
          rw [← Int64.toInt_inj, Int32.toInt_toInt64, Int32.toInt_ofInt_of_le (by omega) (by omega)]
        cases kind with
        | integer min max => rw [coerce, hwiden]
        | _ => cases hw
      · cases hnarrow
  | date days =>
    obtain rfl := List.mem_singleton.1 hv
    exact coerce_plainText_of_isExact hw hexact rfl
  | timestamp micros =>
    obtain rfl := List.mem_singleton.1 hv
    exact coerce_plainText_of_isExact hw hexact rfl
  | _ =>
    obtain rfl := List.mem_singleton.1 hv
    exact hw

theorem coerce_memberForm (hw : kind.coerce w = .ok w) (hexact : w.IsExact) {json : Json}
    (hjson : json ∈ w.memberForms) : kind.coerce json.toValue = .ok w := by
  cases w with
  | null =>
    obtain rfl := List.mem_singleton.1 hjson
    exact hw
  | bool b =>
    have hkind : kind = .boolean := by cases kind <;> first | rfl | cases hw
    subst hkind
    simp only [Value.memberForms, List.mem_cons, List.not_mem_nil, or_false] at hjson
    rcases hjson with rfl | rfl <;> cases b <;> rfl
  | int n => cases kind <;> cases hw
  | bigInt n =>
    obtain rfl := List.mem_singleton.1 hjson
    have hword : int64? n.toInt = some n := by rw [int64?, if_pos ⟨n.le_toInt, n.toInt_le⟩, Int64.ofInt_toInt]
    rw [Json.toValue, hword]
    exact hw
  | text s =>
    obtain rfl := List.mem_singleton.1 hjson
    exact hw
  | date days =>
    obtain rfl := List.mem_singleton.1 hjson
    exact coerce_plainText_of_isExact hw hexact rfl
  | timestamp micros =>
    obtain rfl := List.mem_singleton.1 hjson
    exact coerce_plainText_of_isExact hw hexact rfl
  | json document => cases hjson

end FieldKind

/-- A member is a scalar, so it can be read from its text. -/
theorem Value.legible_memberForm {w : Value} {json : Json} (hjson : json ∈ w.memberForms) (depth : Nat) :
    json.Legible depth := by
  cases w with
  | null =>
    obtain rfl := List.mem_singleton.1 hjson
    exact .null
  | bool b =>
    simp only [memberForms, List.mem_cons, List.not_mem_nil, or_false] at hjson
    rcases hjson with rfl | rfl
    · exact .bool b
    · cases b <;> exact .int (by decide)
  | int n =>
    obtain rfl := List.mem_singleton.1 hjson
    have hlow := n.le_toInt
    have hhigh := n.toInt_lt
    exact .int ⟨by omega, by unfold Json.maxWord; omega⟩
  | bigInt n =>
    obtain rfl := List.mem_singleton.1 hjson
    have hlow := n.le_toInt
    have hhigh := n.toInt_lt
    exact .int ⟨by omega, by unfold Json.maxWord; omega⟩
  | text s =>
    obtain rfl := List.mem_singleton.1 hjson
    exact .str s
  | date days =>
    obtain rfl := List.mem_singleton.1 hjson
    exact .str _
  | timestamp micros =>
    obtain rfl := List.mem_singleton.1 hjson
    exact .str _
  | json document => cases hjson

theorem Json.Legible.tidy_eq {json : Json} (h : json.Legible 0) : json.tidy = json := by
  cases h <;> rfl

/-! ### Rows that carry a tree -/

/-- A value stands under a label. -/
def Row.Holds (row : Row) (label : String) (v : Value) : Prop := (label, v) ∈ row.columns.zip row.values

instance (row : Row) (label : String) (v : Value) : Decidable (row.Holds label v) :=
  List.instDecidableMemOfLawfulBEq _ _

theorem Row.named?_of_holds {row : Row} (hn : row.columns.Nodup) {label : String} {v : Value} (h : row.Holds label v) :
    row.named? label = some v := by
  obtain ⟨k, hk⟩ := List.mem_iff_getElem?.1 h
  obtain ⟨hlabel, hvalue⟩ := List.getElem?_zip_eq_some.1 hk
  rw [named?, lastIndex?_of_nodup hn hlabel]
  exact hvalue

/-- An object with a member for each value of a row, in any order. -/
def Joined.Writes (j : Joined) : Json → Record → Prop
  | .obj members, row => (KeyedList.keys members).Perm (row.map fun e => j.columnLabel e.1) ∧
    ∀ e ∈ row, ∃ json ∈ e.2.memberForms, (j.columnLabel e.1, json) ∈ members
  | _, _ => False

instance (j : Joined) : ∀ element row, Decidable (j.Writes element row)
  | .obj _, _ => instDecidableAnd
  | .null, _ | .bool _, _ | .int _, _ | .float _, _ | .str _, _ | .arr _, _ => .isFalse id

/-- A row of a model whose values are told by their texts. -/
structure Model.SuitsExactly (m : Model) (row : Record) : Prop extends m.Suits row where
  exact : ∀ e ∈ row, e.2.IsExact

instance (m : Model) (row : Record) : Decidable (m.Suits row) :=
  decidable_of_iff (row.map (·.1) = m.fields ∧ ∀ e ∈ row, e.1.coerce e.2 = .ok e.2)
    ⟨fun h => ⟨h.1, h.2⟩, fun h => ⟨h.fields, h.canonical⟩⟩

instance (m : Model) (row : Record) : Decidable (m.SuitsExactly row) :=
  decidable_of_iff (m.Suits row ∧ ∀ e ∈ row, e.2.IsExact) ⟨fun h => ⟨h.1, h.2⟩, fun h => ⟨h.toSuits, h.exact⟩⟩

namespace Tree

/-- The rows of a tree have values for their fields, and the single targets keys that are not all NULL. -/
structure Fits (t : Tree) (p : FetchPlan) : Prop where
  root : p.root.SuitsExactly t.root
  single : ∀ j ∈ p.singles, ∀ target, t.single j = some target →
    j.target.SuitsExactly target ∧ ∃ v ∈ target.key, v.isNull = false
  targets : ∀ j ∈ p.collections, ∀ target ∈ t.targets j, j.target.SuitsExactly target

/-- A row carries a tree: each value of the root and of a single target stands in its column, there is NULL in all
columns of a target that is not there, and the document of a collection, or its text, lists the rows of the
collection. -/
structure CarriedBy (t : Tree) (p : FetchPlan) (d : Dialect) (row : Row) : Prop where
  columns : row.columns.Perm (p.labels d)
  root : ∀ e ∈ t.root, ∃ v ∈ e.2.columnForms, row.Holds (p.rootLabel e.1) v
  present : ∀ j ∈ p.singles, ∀ target, t.single j = some target →
    ∀ e ∈ target, ∃ v ∈ e.2.columnForms, row.Holds (j.columnLabel e.1) v
  absent : ∀ j ∈ p.singles, t.single j = none → ∀ f ∈ j.target.fields, row.Holds (j.columnLabel f) .null
  documents : ∀ j ∈ p.collections, ∃ elements, List.Forall₂ j.Writes elements (t.targets j) ∧
    (row.Holds (p.documentLabel j) (.json (.arr elements)) ∨
      row.Holds (p.documentLabel j) (.text (Json.arr elements).text))

end Tree

/-! ### Elements of documents -/

namespace Joined

variable {j : Joined} {row : Record} (hrow : j.target.SuitsExactly row) (hn : (j.target.fields.map (·.name)).Nodup)
include hrow hn

theorem nodup_columnLabels : (row.map fun e => j.columnLabel e.1).Nodup := by
  have hlabels := hn.map (f := SelectItem.columnLabel j.reference) fun a b he => by
    simpa [SelectItem.columnLabel] using he
  rw [List.map_map, ← hrow.fields, List.map_map] at hlabels
  exact hlabels

theorem Writes.get? {members : List (String × Json)} (h : j.Writes (.obj members) row) {e : Field × Value}
    (he : e ∈ row) : ∃ json ∈ e.2.memberForms, KeyedList.get? (j.columnLabel e.1) members = some json := by
  obtain ⟨json, hjson, hmem⟩ := h.2 e he
  exact ⟨json, hjson, KeyedList.get?_of_mem (h.1.nodup_iff.2 (nodup_columnLabels hrow hn)) hmem⟩

/-- What is written for a row describes it, as it is and as a reader of its text has it. -/
theorem Writes.describes {element : Json} (h : j.Writes element row) :
    j.Describes element row ∧ j.Describes element.tidy row := by
  cases element with
  | obj members =>
    have hkeys : (KeyedList.keys members).Nodup := h.1.nodup_iff.2 (nodup_columnLabels hrow hn)
    refine ⟨fun e he => ?_, fun e he => ?_⟩
    all_goals
      obtain ⟨json, hjson, hget⟩ := h.get? hrow hn he
      have hvalue := FieldKind.coerce_memberForm (Field.coerce_ok_iff.1 (hrow.canonical e he)) (hrow.exact e he) hjson
    · rw [hget, Option.map_some, hvalue]
    · rw [Json.get?_tidyMembers hkeys, hget, Option.map_some, (Value.legible_memberForm hjson 0).tidy_eq]
      exact congrArg some hvalue
  | _ => exact h.elim

theorem Writes.legible {element : Json} (h : j.Writes element row) (depth : Nat) : element.Legible (depth + 1) := by
  cases element with
  | obj members =>
    refine .obj fun member hmember => ?_
    have hkeys : (KeyedList.keys members).Nodup := h.1.nodup_iff.2 (nodup_columnLabels hrow hn)
    obtain ⟨e, he, hkey⟩ := List.mem_map.1 (h.1.subset (List.mem_map_of_mem hmember))
    obtain ⟨json, hjson, hget⟩ := h.get? hrow hn he
    have hvalue : json = member.2 := by
      rw [hkey, KeyedList.get?_of_mem hkeys hmember] at hget
      exact (Option.some.inj hget).symm
    exact hvalue ▸ Value.legible_memberForm hjson depth
  | _ => exact h.elim

end Joined

/-! ### Reading a tree -/

namespace Tree.CarriedBy

variable {t : Tree} {p : FetchPlan} {d : Dialect} {row : Row} (h : t.CarriedBy p d row) (hlabels : (p.labels d).Nodup)
include h hlabels

theorem named? {label : String} {v : Value} (hv : row.Holds label v) : row.named? label = some v :=
  Row.named?_of_holds (h.columns.nodup_iff.2 hlabels) hv

theorem columnInstance_eq {m : Model} {record : Record} (hrecord : m.SuitsExactly record) {label : Field → String}
    (hcolumns : ∀ e ∈ record, ∃ v ∈ e.2.columnForms, row.Holds (label e.1) v) :
    FetchPlan.columnInstance row m label = .ok (.ofRecord m record) := by
  refine FetchPlan.instance_of_cells hrecord.toSuits fun e he => ?_
  obtain ⟨v, hv, hholds⟩ := hcolumns e he
  simp only [FetchPlan.columnCell, h.named? hlabels hholds]
  exact FetchPlan.loaded_of_coerce
    (FieldKind.coerce_columnForm (Field.coerce_ok_iff.1 (hrecord.canonical e he)) (hrecord.exact e he) hv)

theorem singleInstance_eq (ht : t.Fits p) {j : Joined} (hj : j ∈ p.singles) :
    FetchPlan.singleInstance row j = .ok ((t.single j).map (.ofRecord j.target)) := by
  unfold FetchPlan.singleInstance
  cases htarget : t.single j with
  | none =>
    have habsent : FetchPlan.isAbsent row j = true := List.all_eq_true.2 fun f hf => by
      rw [h.named? hlabels (h.absent j hj htarget f (List.mem_filter.1 hf).1)]
      rfl
    rw [if_pos habsent]
    rfl
  | some target =>
    obtain ⟨hsuits, v, hv, hnull⟩ := ht.single j hj target htarget
    have habsent : ¬FetchPlan.isAbsent row j = true := by
      intro habsent
      obtain ⟨e, he, rfl⟩ := List.mem_map.1 hv
      obtain ⟨hmem, hprimary⟩ := List.mem_filter.1 he
      have hkey : e.1 ∈ j.target.primaryKey :=
        List.mem_filter.2 ⟨hsuits.fields ▸ List.mem_map_of_mem hmem, hprimary⟩
      obtain ⟨w, hw, hholds⟩ := h.present j hj target htarget e hmem
      have hread := List.all_eq_true.1 habsent e.1 hkey
      rw [h.named? hlabels hholds, Option.all_some] at hread
      have hkept := Field.coerce_ok_iff.1 (hsuits.canonical e hmem)
      rw [FieldKind.isNull_coerce (FieldKind.coerce_columnForm hkept (hsuits.exact e hmem) hw), hread] at hnull
      cases hnull
    rw [if_neg habsent, columnInstance_eq h hlabels hsuits (h.present j hj target htarget)]
    rfl

theorem elementsOf_eq (ht : t.Fits p) {j : Joined} (hj : j ∈ p.collections)
    (hn : (j.target.fields.map (·.name)).Nodup) :
    ∃ elements, FetchPlan.elementsOf row (p.documentLabel j) = .ok elements ∧
      List.Forall₂ (fun element target =>
        FetchPlan.elementInstance (p.documentLabel j) j element = .ok (.ofRecord j.target target))
        elements (t.targets j) := by
  obtain ⟨elements, hwrites, hdocument⟩ := h.documents j hj
  have hpairs : ∀ {element target}, (element, target) ∈ elements.zip (t.targets j) →
      j.target.SuitsExactly target ∧ j.Writes element target := fun hpair =>
    ⟨ht.targets j hj _ (List.of_mem_zip hpair).2, (List.forall₂_iff_zip.1 hwrites).2 hpair⟩
  rcases hdocument with hdocument | hdocument
  · refine ⟨elements, ?_, List.forall₂_iff_zip.2 ⟨hwrites.length_eq, fun hpair => ?_⟩⟩
    · rw [FetchPlan.elementsOf, FetchPlan.documentOf, h.named? hlabels hdocument]
      rfl
    · obtain ⟨hsuits, hwritten⟩ := hpairs hpair
      exact FetchPlan.elementInstance_of_describes hsuits.toSuits (hwritten.describes hsuits hn).1
  · have hlegible : Json.Legible (126 + 1) (.arr elements) := .arr fun element helement => by
      obtain ⟨target, htarget, hwritten⟩ := FetchPlan.exists_of_forall₂ hwrites helement
      exact hwritten.legible (ht.targets j hj target htarget) hn 125
    refine ⟨elements.map Json.tidy, ?_, List.forall₂_map_left_iff.2 (List.forall₂_iff_zip.2
      ⟨hwrites.length_eq, fun hpair => ?_⟩)⟩
    · simp only [FetchPlan.elementsOf, FetchPlan.documentOf, h.named? hlabels hdocument, Json.parse?_text hlegible,
        Json.tidy, Json.tidyItems_eq_map]
      rfl
    · obtain ⟨hsuits, hwritten⟩ := hpairs hpair
      exact FetchPlan.elementInstance_of_describes hsuits.toSuits (hwritten.describes hsuits hn).2

theorem hydrate_eq (ht : t.Fits p) (hn : ∀ j ∈ p.collections, (j.target.fields.map (·.name)).Nodup) {σ : Type}
    (keeper : Keeper σ) : p.hydrate keeper row = p.deliver keeper t.root t.single t.targets :=
  FetchPlan.hydrate_eq_deliver (h.columnInstance_eq hlabels ht.root h.root)
    (fun _ hj => h.singleInstance_eq hlabels ht hj) (fun j hj => h.elementsOf_eq hlabels ht hj (hn j hj)) keeper

end Tree.CarriedBy

/-! ### A row for every tree -/

/-- An object for a row, with a member for each value in its order. -/
def Joined.written (j : Joined) (row : Record) : Json :=
  .obj (row.map fun e => (j.columnLabel e.1, e.2.memberForms.headD .null))

theorem Joined.writes_written {j : Joined} {row : Record} (hrow : j.target.Suits row) :
    j.Writes (j.written row) row := by
  refine ⟨by simp [KeyedList.keys, Function.comp_def], fun e he => ⟨_, ?_, List.mem_map_of_mem he⟩⟩
  have hkept := Field.coerce_ok_iff.1 (hrow.canonical e he)
  cases hvalue : e.2 with
  | json document =>
    -- No field keeps a document.
    rw [hvalue] at hkept
    cases e.1.kind <;> cases hkept
  | _ => exact .head _

/-- Columns for the values of a row. -/
def Record.columns (label : Field → String) (record : Record) : List (String × Value) :=
  record.map fun e => (label e.1, e.2.columnForms.headD .null)

theorem Record.labels_columns {m : Model} {record : Record} (h : m.Suits record) (label : Field → String) :
    (record.columns label).map (·.1) = m.fields.map label := by
  rw [columns, ← h.fields, List.map_map, List.map_map]
  rfl

theorem Value.columnForm_mem (w : Value) : w.columnForms.headD .null ∈ w.columnForms := by
  cases w <;> exact .head _

namespace Tree

variable (t : Tree) (p : FetchPlan)

/-- The columns of a single target, which hold NULL if it is not there. -/
def singleColumns (j : Joined) : List (String × Value) :=
  match t.single j with
  | some target => target.columns j.columnLabel
  | none => j.target.fields.map fun f => (j.columnLabel f, .null)

/-- The columns of a row for a tree, each with its value. -/
def columns : List (String × Value) :=
  t.root.columns p.rootLabel ++ p.singles.flatMap t.singleColumns ++
    p.collections.map fun j => (p.documentLabel j, .json (.arr ((t.targets j).map j.written)))

/-- A row for a tree. -/
def row : Row := ⟨(t.columns p).map (·.1), (t.columns p).map (·.2)⟩

variable {t p}

theorem holds_row {label : String} {v : Value} : (t.row p).Holds label v ↔ (label, v) ∈ t.columns p := by
  rw [Row.Holds, row, ← List.zip_of_prod rfl rfl]

theorem holds_row_of_single {j : Joined} (hj : j ∈ p.singles) {label : String} {v : Value}
    (h : (label, v) ∈ t.singleColumns j) : (t.row p).Holds label v :=
  holds_row.2 (List.mem_append_left _ (List.mem_append_right _ (List.mem_flatMap.2 ⟨j, hj, h⟩)))

variable (ht : t.Fits p)
include ht

theorem columns_row (d : Dialect) : (t.row p).columns = p.labels d := by
  have hsingles : ∀ j ∈ p.singles, (t.singleColumns j).map (·.1) = j.target.fields.map j.columnLabel := by
    intro j hj
    unfold singleColumns
    cases htarget : t.single j with
    | none => rw [List.map_map]; rfl
    | some target => exact Record.labels_columns (ht.single j hj target htarget).1.toSuits j.columnLabel
  rw [row, columns, List.map_append, List.map_append, Record.labels_columns ht.root.toSuits, List.map_flatMap,
    List.flatMap_congr hsingles]
  simp only [FetchPlan.labels, FetchPlan.items, List.map_append, List.map_flatMap, List.map_map]
  rfl

theorem carriedBy_row (d : Dialect) : t.CarriedBy p d (t.row p) where
  columns := .of_eq (columns_row ht d)
  root e he := ⟨_, e.2.columnForm_mem,
    holds_row.2 (List.mem_append_left _ (List.mem_append_left _ (List.mem_map_of_mem he)))⟩
  present j hj target htarget e he := by
    refine ⟨_, e.2.columnForm_mem, holds_row_of_single hj ?_⟩
    rw [singleColumns, htarget]
    exact List.mem_map_of_mem he
  absent j hj hnone f hf := by
    refine holds_row_of_single hj ?_
    rw [singleColumns, hnone]
    exact List.mem_map_of_mem hf
  documents j hj := ⟨(t.targets j).map j.written,
    List.forall₂_map_left_iff.2 (List.forall₂_same.2 fun target htarget =>
      Joined.writes_written (ht.targets j hj target htarget).toSuits),
    .inl (holds_row.2 (List.mem_append_right _ (List.mem_map_of_mem hj)))⟩

end Tree

/-- A tree with values for the fields of a plan is carried by some row, and whatever row carries it is hydrated as
the tree: a keeper is given the root, the single targets that there are and the elements of the collections, in this
order, and where it keeps each as a new instance, they are given once and stand there as the tree. -/
theorem FetchPlan.rebuilds_carried {rules : Rules} {decls : List ModelDecl} {r : Registry}
    (hr : Registry.build rules decls = .ok r) {root : Model} {names : List String} {included : List Navigation}
    (hincluded : includeAll root names = .ok included) {p : FetchPlan} (hp : make r root included = .ok p) {d : Dialect}
    (hlabels : (p.labels d).Nodup) {t : Tree} (ht : t.Fits p) :
    (∃ row, t.CarriedBy p d row) ∧ ∀ row, t.CarriedBy p d row →
      (∀ (σ : Type) (keeper : Keeper σ), p.hydrate keeper row = p.deliver keeper t.root t.single t.targets) ∧
      ∀ heap log, ∃ heap', (p.hydrate recorder row).runOn (heap, log) =
          (.ok ⟨heap.size⟩, heap', log ++ t.instances p) ∧
        t.StandsAt p p.singles p.collections ⟨heap.size⟩ heap' ∧ heap.Stays heap' := by
  have hnames : ∀ j ∈ p.collections, (j.target.fields.map (·.name)).Nodup := fun j hj =>
    Registry.nodup_fields hr (Registry.model?_of_model ((make_ok hp).2 j (List.mem_filter.1 hj).1)).2
  refine ⟨⟨t.row p, Tree.carriedBy_row ht d⟩, fun row hrow => ?_⟩
  have hread : ∀ (σ : Type) (keeper : Keeper σ), p.hydrate keeper row = p.deliver keeper t.root t.single t.targets :=
    fun _ keeper => hrow.hydrate_eq hlabels ht hnames keeper
  refine ⟨hread, fun heap log => ?_⟩
  rw [hread]
  exact deliver_recorder (nodup_navigations hincluded hp) heap log

/-! ### A guest with bills and notes -/

/-- Guests were invited by others, stay in a room, and have bills and notes. -/
def guestDecls : List ModelDecl :=
  [ { name := "Guest"
      fields :=
        [ {Field.shortId "ID" with primaryKey := true}, .boolean "Vip", .date "Born", .timestamp "Arrived",
          {Field.shortId "Host" with required := false}, .shortId "Room" ]
      navigations :=
        [ .toPrimary "host" "Host" "Guest", .toPrimary "room" "Room" "Room",
          .fromPrimary "bills" "Bill" "Guest", .fromPrimary "notes" "Note" "Guest" ] },
    {name := "Room", fields := [{Field.shortId "ID" with primaryKey := true}]},
    { name := "Bill"
      fields := [{Field.shortId "ID" with primaryKey := true}, .shortId "Guest", .price "Due", .boolean "Paid"] },
    {name := "Note", fields := [{Field.shortId "ID" with primaryKey := true}, .shortId "Guest", .date "Written"]} ]

def guestRegistry : Registry := (Registry.build (Pattern.rules 0) guestDecls).toOption.getD default

def guestPlan : FetchPlan :=
  (do
    let guest ← guestRegistry.model "Guest"
    FetchPlan.make guestRegistry guest (← includeAll guest ["notes", "host", "bills", "room"])
    : Except Error FetchPlan).toOption.getD default

/-- Ada was invited by nobody, paid one of two bills, and wrote one note. -/
def visit : Tree where
  root := guestPlan.root.fields.zip [.text "ADA01", .bool true, .date 1, .timestamp 0, .null, .text "ROOM1"]
  single j := if j.navigation.name = "room" then some (j.target.fields.zip [.text "ROOM1"]) else none
  targets j :=
    if j.navigation.name = "bills" then
      [ j.target.fields.zip [.text "BILL1", .text "ADA01", .bigInt 120, .bool true],
        j.target.fields.zip [.text "BILL2", .text "ADA01", .bigInt 80, .bool false] ]
    else [j.target.fields.zip [.text "NOTE1", .text "ADA01", .date 2]]

def visitBills : List Json :=
  [ .obj [("Bill.ID", .str "BILL1"), ("Bill.Guest", .str "ADA01"), ("Bill.Due", .int 120), ("Bill.Paid", .int 1)],
    .obj [("Bill.Paid", .bool false), ("Bill.Due", .int 80), ("Bill.Guest", .str "ADA01"), ("Bill.ID", .str "BILL2")] ]

def visitNotes : List Json :=
  [.obj [("Note.ID", .str "NOTE1"), ("Note.Guest", .str "ADA01"), ("Note.Written", .str "1970-01-03")]]

/-- The bills are given as a text and the notes as a document. -/
def visitRow : Row :=
  let cells : List (String × Value) :=
    [ ("Guest.ID", .text "ADA01"), ("Guest.Vip", .int 1), ("Guest.Born", .text "1970-01-02"),
      ("Guest.Arrived", .text "1970-01-01 00:00:00"), ("Guest.Host", .null), ("Guest.Room", .text "ROOM1"),
      ("host.ID", .null), ("host.Vip", .null), ("host.Born", .null), ("host.Arrived", .null), ("host.Host", .null),
      ("host.Room", .null), ("Room.ID", .text "ROOM1"),
      ("Guest.notes", .json (.arr visitNotes)), ("Guest.bills", .text (Json.arr visitBills).text) ]
  ⟨cells.map (·.1), cells.map (·.2)⟩

theorem fits_visit : visit.Fits guestPlan where
  root := by decide +kernel
  single := by
    have h : ∀ j ∈ guestPlan.singles, ∀ target ∈ visit.single j,
        j.target.SuitsExactly target ∧ ∃ v ∈ target.key, v.isNull = false := by decide +kernel
    exact h
  targets := by decide +kernel

theorem carriedBy_visit : visit.CarriedBy guestPlan .sqlite visitRow where
  columns := by decide +kernel
  root := by decide +kernel
  present := by
    have h : ∀ j ∈ guestPlan.singles, ∀ target ∈ visit.single j,
        ∀ e ∈ target, ∃ v ∈ e.2.columnForms, visitRow.Holds (j.columnLabel e.1) v := by decide +kernel
    exact h
  absent := by decide +kernel
  documents := by
    have h : ∀ j ∈ guestPlan.collections, ∃ elements ∈ [visitBills, visitNotes],
        List.Forall₂ j.Writes elements (visit.targets j) ∧
          (visitRow.Holds (guestPlan.documentLabel j) (.json (.arr elements)) ∨
            visitRow.Holds (guestPlan.documentLabel j) (.text (Json.arr elements).text)) := by decide +kernel
    exact fun j hj => (h j hj).imp fun _ => And.right

/-- The visit is rebuilt beside what is in a heap. The target of the first navigation is not there. -/
theorem FetchPlan.rebuilds_visit : (guestPlan.labels .sqlite).Nodup ∧ visit.Fits guestPlan ∧
    visit.CarriedBy guestPlan .sqlite visitRow ∧
    (visit.instances guestPlan).map (·.model.name) = ["Guest", "Room", "Note", "Bill", "Bill"] ∧
    ∀ heap log, ∃ heap', (guestPlan.hydrate recorder visitRow).runOn (heap, log) =
        (.ok ⟨heap.size⟩, heap', log ++ visit.instances guestPlan) ∧
      visit.StandsAt guestPlan guestPlan.singles guestPlan.collections ⟨heap.size⟩ heap' ∧ heap.Stays heap' := by
  have hr : Registry.build (Pattern.rules 0) guestDecls = .ok guestRegistry := rfl
  have hincluded : includeAll guestPlan.root ["notes", "host", "bills", "room"] =
      .ok (guestPlan.joined.map (·.navigation)) := rfl
  have hp : make guestRegistry guestPlan.root (guestPlan.joined.map (·.navigation)) = .ok guestPlan := rfl
  have hlabels : (guestPlan.labels .sqlite).Nodup := by decide +kernel
  exact ⟨hlabels, fits_visit, carriedBy_visit, by decide +kernel,
    ((rebuilds_carried hr hincluded hp hlabels fits_visit).2 visitRow carriedBy_visit).2⟩

end RecordMapper
