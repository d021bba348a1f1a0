import Mathlib.Data.List.Forall2
import RecordMapper.Proofs.Fetch.Joins

/-! What a fetch attaches to the rows of its root.

A database answers the statement of a plan with a row for each group of joined rows. The documents in it list the
rows of the group that are present in the table of their collection (`FetchPlan.Answers`), and values stand in any
form of which their fields make the ones they keep. Such a row is hydrated as a row of the root, with single targets
and with collections of rows (`FetchPlan.Hydrates`). A row that a collection leads to is among them once for every
choice of rows for the other collections (`FetchPlan.hydrates_answers`). -/
namespace RecordMapper

/-- The instance of a row. -/
def Instance.ofRecord (m : Model) (row : Record) : Instance :=
  {model := m, cells := row.map fun e => ({field := e.1} : Cell).settled e.2}

/-! ### Answers -/

/-- The value that a database gives for a column: in some form for its field, NULL where there is no row. -/
def Scope.Gives (scope : Scope) (ref : ColumnRef) (v : Value) : Prop :=
  match (scope.row? ref.table).bind fun row => row.find? (·.1.name = ref.column) with
  | some e => e.1.kind.coerce v = .ok e.2
  | none => v = .null

instance (scope : Scope) (ref : ColumnRef) (v : Value) : Decidable (scope.Gives ref v) := by
  unfold Scope.Gives
  split <;> infer_instance

/-- A document, or its text. -/
def Value.IsDocument (v : Value) (elements : List Json) : Prop :=
  v = .json (.arr elements) ∨ ∃ s, v = .text s ∧ Json.parse? s = some (.arr elements)

namespace Joined

/-- A row as an element of a document: each value is a member, in some form for its field. -/
def Describes (j : Joined) : Json → Record → Prop
  | .obj members, row => ∀ e ∈ row,
    (KeyedList.get? (j.columnLabel e.1) members).map (fun json => e.1.kind.coerce json.toValue) = some (.ok e.2)
  | _, _ => False

instance (j : Joined) : ∀ element row, Decidable (j.Describes element row)
  | .obj members, row => by
    unfold Describes
    infer_instance
  | .null, _ | .bool _, _ | .int _, _ | .float _, _ | .str _, _ | .arr _, _ => .isFalse id

def isPresent (j : Joined) (row : Record) : Bool := !((row.value? j.presentColumn).getD .null).isNull

/-- The rows of a group that a document lists. -/
def listed (j : Joined) (group : List Scope) : List Record :=
  group.filterMap fun scope => (scope.row? j.reference).filter j.isPresent

end Joined

namespace FetchPlan

variable {σ : Type} (p : FetchPlan) (d : Dialect)

/-- The value that a database gives for an item and a group of joined rows: the value of a column in one of them;
for the expression of a collection's document, one that lists rows of the group in some order. -/
def Gives (group : List Scope) : SelectItem → Value → Prop
  | .column ref _ _, v => ∃ scope ∈ group, scope.Gives ref v
  | .expression sql _, v => ∀ j ∈ p.collections, j.document d = sql →
    ∃ elements listed, v.IsDocument elements ∧ listed.Perm (j.listed group) ∧ List.Forall₂ j.Describes elements listed

/-- The row of the answer for a group. -/
structure RowOf (group : List Scope) (row : Row) : Prop where
  columns : row.columns = p.labels d
  values : List.Forall₂ (p.Gives d group) (p.items d) row.values

/-- An answer to the statement of a plan has a row for each group, in some order. -/
def Answers {r : Registry} (s : Stock r) (rows : List Row) : Prop :=
  ∃ groups, groups.Perm ((p.select d).groups s.rowsOf) ∧ List.Forall₂ (p.RowOf d) groups rows

/-- Gives a keeper the target of a single-valued navigation, and attaches it. -/
def deliverSingle (keeper : Keeper σ) (root : Handle) (j : Joined) (target : Option Record) : Attempt σ Unit := do
  let target ← match target with
    | some row => some <$> keeper.resolve (.ofRecord j.target row)
    | none => pure none
  modify (keeper.modify root fun i => i.attachSingle j.navigation.name target)

/-- Gives a keeper the targets of a collection, and attaches them. -/
def deliverCollection (keeper : Keeper σ) (root : Handle) (j : Joined) (targets : List Record) : Attempt σ Unit := do
  let targets ← Attempt.collect targets fun row => keeper.resolve (.ofRecord j.target row)
  modify (keeper.modify root fun i => i.attachCollection j.navigation.name targets)

/-- Gives a keeper a row of the root, and attaches the targets of its navigations. -/
def deliver (keeper : Keeper σ) (root : Record) (single : Joined → Option Record) (targets : Joined → List Record) :
    Attempt σ Handle := do
  let root ← keeper.resolve (.ofRecord p.root root)
  Attempt.forEach p.singles fun j => deliverSingle keeper root j (single j)
  Attempt.forEach p.collections fun j => deliverCollection keeper root j (targets j)
  return root

/-- How a row of the answer is hydrated: as a row of the root with joined rows. In a collection are the rows that
are joined and present, each as often as the rows of the other collections can be chosen. -/
def Hydrates {r : Registry} (s : Stock r) (row : Row) (root : Record) : Prop :=
  ∃ (single : Joined → Option Record) (targets : Joined → List Record),
    (∀ (σ : Type) (keeper : Keeper σ), p.hydrate keeper row = p.deliver keeper root single targets) ∧
    (∀ j ∈ p.singles, ∀ target, single j = some target → target ∈ s.joined j root) ∧
    ∀ j ∈ p.collections, (∀ target ∈ targets j, target ∈ s.joined j root ∧ j.isPresent target) ∧
      ∀ target ∈ s.joined j root, j.isPresent target → (targets j).count target = s.repeats root p.collections j

/-! ### Reading -/

theorem loaded_of_coerce {f : Field} {column : String} {v w : Value} (h : f.kind.coerce v = .ok w) :
    f.loaded column v = .ok (({field := f} : Cell).settled w) := by
  rw [Field.loaded, h]

/-- Cells that are read for the fields of a row make its instance. -/
theorem instance_of_cells {m : Model} {row : Record} (hrow : m.Suits row) {f : Field → Except Error Cell}
    (hf : ∀ e ∈ row, f e.1 = .ok (({field := e.1} : Cell).settled e.2)) :
    (do return {model := m, cells := ← m.fields.mapM f} : Except Error Instance) = .ok (.ofRecord m row) := by
  have hcells : m.fields.mapM f = .ok (row.map fun e => ({field := e.1} : Cell).settled e.2) := by
    refine mapM_ok ?_
    rw [← hrow.fields, List.map_map, List.map_map]
    exact List.map_congr_left hf
  rw [hcells]
  rfl

theorem elementInstance_of_describes {label : String} {j : Joined} {element : Json} {row : Record}
    (hrow : j.target.Suits row) (h : j.Describes element row) :
    elementInstance label j element = .ok (.ofRecord j.target row) := by
  unfold Joined.Describes at h
  split at h
  · refine instance_of_cells hrow fun e he => ?_
    obtain ⟨json, hget, hvalue⟩ := Option.map_eq_some_iff.1 (h e he)
    simp only [memberCell, hget]
    exact loaded_of_coerce hvalue
  · cases h

end FetchPlan

namespace Scope

variable {scope : Scope} {table : String}

theorem gives_of_row? {row : Record} (h : scope.row? table = some row) (hn : (row.map (·.1.name)).Nodup)
    {e : Field × Value} (he : e ∈ row) {v : Value} :
    scope.Gives ⟨table, e.1.name⟩ v ↔ e.1.kind.coerce v = .ok e.2 := by
  have hfound := find?_of_nodup_map hn he
  simp only [Gives, h, Option.bind_some, hfound]

theorem gives_of_row?_none (h : scope.row? table = none) {column : String} {v : Value} :
    scope.Gives ⟨table, column⟩ v ↔ v = .null := by
  simp [Gives, h]

end Scope

namespace FetchPlan

/-! ### Hydrating -/

theorem ofExcept_ok_bind {σ α β : Type} (a : α) (f : α → Attempt σ β) : Attempt.ofExcept (.ok a) >>= f = f a := rfl

theorem forEach_congr {σ α : Type} {f g : α → Attempt σ Unit} {xs : List α} (h : ∀ x ∈ xs, f x = g x) :
    Attempt.forEach xs f = Attempt.forEach xs g := by
  induction xs with
  | nil => rfl
  | cons x rest ih =>
    rw [Attempt.forEach, Attempt.forEach, h x (.head _), ih fun y hy => h y (.tail _ hy)]

theorem collect_congr {σ α β γ : Type} {f : α → Attempt σ γ} {g : β → Attempt σ γ} {xs : List α} {ys : List β}
    (h : List.Forall₂ (fun x y => f x = g y) xs ys) : Attempt.collect xs f = Attempt.collect ys g := by
  induction h with
  | nil => rfl
  | cons hx _ ih => rw [Attempt.collect, Attempt.collect, hx, ih]

theorem hydrateSingle_eq {row : Row} {j : Joined} {target : Option Record}
    (h : singleInstance row j = .ok (target.map (.ofRecord j.target))) {σ : Type} (keeper : Keeper σ) (root : Handle) :
    hydrateSingle keeper row root j = deliverSingle keeper root j target := by
  rw [hydrateSingle, h, ofExcept_ok_bind]
  cases target <;> rfl

theorem hydrateCollection_eq {p : FetchPlan} {row : Row} {j : Joined} {elements : List Json} {targets : List Record}
    (helements : elementsOf row (p.documentLabel j) = .ok elements)
    (hinstances : List.Forall₂ (fun element target =>
      elementInstance (p.documentLabel j) j element = .ok (.ofRecord j.target target)) elements targets)
    {σ : Type} (keeper : Keeper σ) (root : Handle) :
    p.hydrateCollection keeper row root j = deliverCollection keeper root j targets := by
  have hcollect : (Attempt.collect elements fun element => do
      keeper.resolve (← Attempt.ofExcept (elementInstance (p.documentLabel j) j element))) =
      Attempt.collect targets fun row => keeper.resolve (.ofRecord j.target row) := by
    refine collect_congr (hinstances.imp fun element target h => ?_)
    rw [h, ofExcept_ok_bind]
  simp only [hydrateCollection, helements, ofExcept_ok_bind, hcollect]
  rfl

/-- A row that can be read is hydrated as what is read. -/
theorem hydrate_eq_deliver {p : FetchPlan} {row : Row} {root : Record} {single : Joined → Option Record}
    {targets : Joined → List Record} (hroot : columnInstance row p.root p.rootLabel = .ok (.ofRecord p.root root))
    (hsingles : ∀ j ∈ p.singles, singleInstance row j = .ok ((single j).map (.ofRecord j.target)))
    (hcollections : ∀ j ∈ p.collections, ∃ elements, elementsOf row (p.documentLabel j) = .ok elements ∧
      List.Forall₂ (fun element target => elementInstance (p.documentLabel j) j element = .ok (.ofRecord j.target target))
        elements (targets j))
    {σ : Type} (keeper : Keeper σ) : p.hydrate keeper row = p.deliver keeper root single targets := by
  rw [hydrate, deliver, hroot, ofExcept_ok_bind]
  refine congrArg (keeper.resolve _ >>= ·) (funext fun kept => ?_)
  have hall : Attempt.forEach p.collections (p.hydrateCollection keeper row kept) =
      Attempt.forEach p.collections fun j => deliverCollection keeper kept j (targets j) := by
    refine forEach_congr fun j hj => ?_
    obtain ⟨elements, helements, hinstances⟩ := hcollections j hj
    exact hydrateCollection_eq helements hinstances keeper kept
  rw [forEach_congr fun j hj => hydrateSingle_eq (hsingles j hj) keeper kept, hall]

/-! ### Rows of an answer -/

section

variable {p : FetchPlan} {d : Dialect} (hlabels : (p.labels d).Nodup) {group : List Scope} {row : Row}
  (hrow : p.RowOf d group row)
include hlabels hrow

/-- What was given for an item is read by its label. -/
theorem named?_label {item : SelectItem} (hitem : item ∈ p.items d) :
    ∃ v, row.named? item.label = some v ∧ p.Gives d group item v := by
  obtain ⟨columns, values⟩ := row
  obtain ⟨hcolumns, hvalues⟩ := hrow
  obtain rfl : columns = p.labels d := hcolumns
  obtain ⟨k, hk, rfl⟩ := List.getElem_of_mem hitem
  have hk' : k < values.length := hvalues.length_eq ▸ hk
  have hlabel : (p.labels d)[k]? = some (p.items d)[k].label := by simp [labels, hk]
  refine ⟨values[k], ?_, hvalues.get hk hk'⟩
  rw [Row.inPlace_iff.2 hlabels values k _ hlabel, Row.get?, List.getElem?_eq_getElem hk']

/-- A document that was given is read element by element. -/
theorem elementsOf_documentLabel {j : Joined} (hj : j ∈ p.collections) : ∃ elements listed,
    elementsOf row (p.documentLabel j) = .ok elements ∧ listed.Perm (j.listed group) ∧
      List.Forall₂ j.Describes elements listed := by
  have hitem : .expression (j.document d) (p.documentLabel j) ∈ p.items d :=
    List.mem_append_right _ (List.mem_map_of_mem hj)
  obtain ⟨v, hread, hgives⟩ := named?_label hlabels hrow hitem
  obtain ⟨elements, listed, hdocument, hlisted, helements⟩ := hgives j hj rfl
  refine ⟨elements, listed, ?_, hlisted, helements⟩
  have hread : row.named? (p.documentLabel j) = some v := hread
  obtain rfl | ⟨text, rfl, hparse⟩ := hdocument
  · rw [elementsOf, documentOf, hread]
    rfl
  · simp only [elementsOf, documentOf, hread, hparse]
    rfl

section

variable {table : String} {m : Model}
  (hitems : ∀ f ∈ m.fields, SelectItem.ofColumn table f.name f.isEnum ∈ p.items d)
include hitems

theorem named?_null (hscopes : ∀ scope ∈ group, scope.row? table = none) {f : Field} (hf : f ∈ m.fields) :
    row.named? (SelectItem.columnLabel table f.name) = some .null := by
  obtain ⟨v, hread, scope, hscope, hgives⟩ := named?_label hlabels hrow (hitems f hf)
  rw [← (Scope.gives_of_row?_none (hscopes scope hscope)).1 hgives]
  exact hread

variable {target : Record} (htarget : m.Suits target) (hn : (m.fields.map (·.name)).Nodup)
  (hscopes : ∀ scope ∈ group, scope.row? table = some target)
include htarget hn hscopes

theorem named?_value {e : Field × Value} (he : e ∈ target) :
    ∃ v, row.named? (SelectItem.columnLabel table e.1.name) = some v ∧ e.1.kind.coerce v = .ok e.2 := by
  have hf : e.1 ∈ m.fields := htarget.fields ▸ List.mem_map_of_mem he
  obtain ⟨v, hread, scope, hscope, hgives⟩ := named?_label hlabels hrow (hitems e.1 hf)
  exact ⟨v, hread, (Scope.gives_of_row? (hscopes scope hscope) (htarget.nodup_names hn) he).1 hgives⟩

/-- The columns of a table are read as its row in the group. -/
theorem columnInstance_eq :
    columnInstance row m (fun f => SelectItem.columnLabel table f.name) = .ok (.ofRecord m target) := by
  refine instance_of_cells htarget fun e he => ?_
  obtain ⟨v, hread, hvalue⟩ := named?_value hlabels hrow hitems htarget hn hscopes he
  simp only [columnCell, hread]
  exact loaded_of_coerce hvalue

end

/-- The target of a single-valued navigation is read as the row that is joined, unless its key is NULL. -/
theorem singleInstance_eq {j : Joined} (hj : j ∈ p.singles) (hn : (j.target.fields.map (·.name)).Nodup)
    {partner : Option Record} (hpartner : ∀ target, partner = some target → j.target.Suits target)
    (hscopes : ∀ scope ∈ group, scope.row? j.reference = partner) :
    singleInstance row j =
      .ok ((partner.filter fun target => !target.key.all Value.isNull).map (.ofRecord j.target)) := by
  have hitems : ∀ f ∈ j.target.fields, SelectItem.ofColumn j.reference f.name f.isEnum ∈ p.items d := fun f hf =>
    List.mem_append_left _ (List.mem_append_right _ (List.mem_flatMap.2 ⟨j, hj, List.mem_map_of_mem hf⟩))
  cases partner with
  | none =>
    have habsent : isAbsent row j = true := List.all_eq_true.2 fun f hf => by
      have hread := named?_null hlabels hrow hitems hscopes (List.mem_filter.1 hf).1
      simp only [Joined.columnLabel, hread]
      rfl
    rw [singleInstance, if_pos habsent]
    rfl
  | some target =>
    have htarget := hpartner target rfl
    have habsent : isAbsent row j = target.key.all Value.isNull := by
      unfold isAbsent Record.key Record.keyPart
      rw [Model.primaryKey, ← htarget.fields, List.filter_map, List.all_map, List.all_map, Bool.eq_iff_iff,
        List.all_eq_true, List.all_eq_true]
      refine forall₂_congr fun e he => ?_
      obtain ⟨v, hread, hvalue⟩ := named?_value hlabels hrow hitems htarget hn hscopes (List.mem_filter.1 he).1
      simp only [Function.comp_apply, Joined.columnLabel, hread, Option.all_some, FieldKind.isNull_coerce hvalue]
    have hread : columnInstance row j.target j.columnLabel = .ok (.ofRecord j.target target) :=
      columnInstance_eq hlabels hrow hitems htarget hn hscopes
    rw [singleInstance, habsent, hread]
    cases h : target.key.all Value.isNull <;> simp [Option.filter, h, Except.map]

end

/-! ### Rows and groups -/

theorem exists_of_forall₂ {α β : Type} {R : α → β → Prop} {xs : List α} {ys : List β} (h : List.Forall₂ R xs ys)
    {x : α} (hx : x ∈ xs) : ∃ y ∈ ys, R x y := by
  induction h with
  | nil => cases hx
  | cons hfirst _ ih =>
    rcases List.mem_cons.1 hx with rfl | hx
    · exact ⟨_, .head _, hfirst⟩
    · obtain ⟨y, hy, h⟩ := ih hx
      exact ⟨y, .tail _ hy, h⟩

section

variable {r : Registry} {s : Stock r} {p : FetchPlan} (hreferences : p.references.Nodup) (hp : p.Over r)
include hreferences hp

/-- A row that is joined is listed for every choice of rows for the other collections. -/
theorem count_listed {root : Record} {single : Scope} (hsingle : single ∈ s.tails root p.singles) {j : Joined}
    (hj : j ∈ p.collections) (target : Record) : (j.listed (s.group p root single)).count target =
      if target ∈ s.joined j root ∧ j.isPresent target then s.repeats root p.collections j else 0 := by
  have hn := Stock.nodup_collections hreferences
  have hpartners : (s.partners j root).Nodup := Stock.nodup_partners (hp.joined j (List.mem_filter.1 hj).1)
  have hlisted : ∀ more, ((Scope.row? ((p.root.table, some root) :: (single ++ more)) j.reference).filter j.isPresent ==
      some target) = (decide (KeyedList.get? j.reference more = some (some target)) && j.isPresent target) := by
    intro more
    rw [Stock.row?_collection hreferences hsingle hj, Scope.row?]
    rcases KeyedList.get? j.reference more with _ | _ | row
    · rfl
    · rfl
    · by_cases hrow : row = target
      · cases hpresent : j.isPresent target <;> simp [Option.filter, hrow, hpresent]
      · cases hpresent : j.isPresent row <;> simp [Option.filter, hrow, hpresent]
  rw [Joined.listed, Stock.group, List.count_filterMap, List.countP_map]
  simp only [Function.comp_def, hlisted]
  cases hpresent : j.isPresent target with
  | false => simp
  | true =>
    simp only [Bool.and_true, Stock.countP_tails hn hj, hpartners.count, Stock.mem_partners_some, and_true]
    split <;> simp

theorem of_mem_listed {root : Record} {single : Scope} (hsingle : single ∈ s.tails root p.singles) {j : Joined}
    (hj : j ∈ p.collections) {target : Record} (htarget : target ∈ j.listed (s.group p root single)) :
    target ∈ s.joined j root ∧ j.isPresent target := by
  have hcount := List.count_pos_iff.2 htarget
  rw [count_listed hreferences hp hsingle hj] at hcount
  by_contra hnot
  rw [if_neg hnot] at hcount
  cases hcount

variable {d : Dialect} (hlabels : (p.labels d).Nodup) {root : Record} {single : Scope}
  (hsingle : single ∈ s.tails root p.singles) {row : Row} (hrow : p.RowOf d (s.group p root single) row)
include hlabels hsingle hrow

/-- The rows that the document of a collection lists, and what is read of it. -/
theorem exists_targets {j : Joined} (hj : j ∈ p.collections) :
    ∃ targets, targets.Perm (j.listed (s.group p root single)) ∧
      ∃ elements, elementsOf row (p.documentLabel j) = .ok elements ∧ List.Forall₂ (fun element target =>
        elementInstance (p.documentLabel j) j element = .ok (.ofRecord j.target target)) elements targets := by
  obtain ⟨elements, targets, hread, htargets, helements⟩ := elementsOf_documentLabel hlabels hrow hj
  have hsuits : ∀ target ∈ targets, j.target.Suits target := fun target htarget => by
    have hjoined := (of_mem_listed hreferences hp hsingle hj (htargets.subset htarget)).1
    exact s.suits _ (hp.joined j (List.mem_filter.1 hj).1) _ (List.mem_filter.1 hjoined).1
  refine ⟨targets, htargets, elements, hread, List.forall₂_iff_zip.2 ⟨helements.length_eq, fun hzip => ?_⟩⟩
  exact elementInstance_of_describes (hsuits _ (List.of_mem_zip hzip).2) ((List.forall₂_iff_zip.1 helements).2 hzip)

/-- The row of the answer for a row of the root with its single targets. -/
theorem hydrates_of_group {rules : Rules} {decls : List ModelDecl} (hr : Registry.build rules decls = .ok r)
    (hroot : root ∈ s.rows p.root) : p.Hydrates s row root := by
  have hdocuments : ∀ j, ∃ targets, j ∈ p.collections → targets.Perm (j.listed (s.group p root single)) ∧
      ∃ elements, elementsOf row (p.documentLabel j) = .ok elements ∧ List.Forall₂ (fun element target =>
        elementInstance (p.documentLabel j) j element = .ok (.ofRecord j.target target)) elements targets := by
    intro j
    by_cases hj : j ∈ p.collections
    · obtain ⟨targets, htargets⟩ := exists_targets hreferences hp hlabels hsingle hrow hj
      exact ⟨targets, fun _ => htargets⟩
    · exact ⟨[], fun h => absurd h hj⟩
  choose targets htargets using hdocuments
  -- What is read of the root, of its single targets and of the documents, and then what the latter list.
  refine ⟨fun j => (single.row? j.reference).filter fun target => !target.key.all Value.isNull, targets,
    fun σ keeper => hydrate_eq_deliver ?_ (fun j hj => ?_) (fun j hj => (htargets j hj).2) keeper,
    fun j hj target htarget => ?_, fun j hj => ⟨fun target htarget => ?_, fun target htarget hpresent => ?_⟩⟩
  · have hitems : ∀ f ∈ p.root.fields, SelectItem.ofColumn p.root.table f.name f.isEnum ∈ p.items d := fun f hf =>
      List.mem_append_left _ (List.mem_append_left _ (List.mem_map_of_mem hf))
    exact columnInstance_eq hlabels hrow hitems (s.suits _ hp.root _ hroot) (Registry.nodup_fields hr hp.root)
      fun scope hscope => Stock.row?_root hscope
  · have hmodel := hp.joined j (List.mem_filter.1 hj).1
    refine singleInstance_eq hlabels hrow hj (Registry.nodup_fields hr hmodel) (fun target htarget => ?_)
      fun scope hscope => Stock.row?_single hreferences hsingle hscope hj
    have hjoined := Stock.mem_joined_of_single hreferences hsingle hj htarget
    exact s.suits _ hmodel _ (List.mem_filter.1 hjoined).1
  · exact Stock.mem_joined_of_single hreferences hsingle hj (Option.eq_some_of_filter_eq_some htarget)
  · exact of_mem_listed hreferences hp hsingle hj ((htargets j hj).1.subset htarget)
  · rw [(htargets j hj).1.count_eq, count_listed hreferences hp hsingle hj, if_pos ⟨htarget, hpresent⟩]

end

/-- A row of the answer stands for a row of the root, and every row of the root has one. In the collections of each
every row is as often as the rows of the other collections can be chosen, which is once where none of them has more
than one row. -/
theorem hydrates_answers {rules : Rules} {decls : List ModelDecl} {r : Registry}
    (hr : Registry.build rules decls = .ok r) {root : Model} (hroot : root ∈ r.models) {included : List Navigation}
    {p : FetchPlan} (hp : make r root included = .ok p) (hreferences : p.references.Nodup) {d : Dialect} (hlabels : (p.labels d).Nodup)
    {s : Stock r} {rows : List Row} (hrows : p.Answers d s rows) :
    (∀ row ∈ rows, ∃ record ∈ s.rows root, p.Hydrates s row record) ∧
    (∀ record ∈ s.rows root, ∃ row ∈ rows, p.Hydrates s row record) ∧
    ∀ record, ∀ j ∈ p.collections, s.repeats record p.collections j = 1 ↔
      ∀ other ∈ p.collections, other ≠ j → (s.joined other record).length ≤ 1 := by
  have hover := over_of_make hroot hp
  obtain rfl := (make_ok hp).1
  obtain ⟨groups, hgroups, hrows⟩ := hrows
  have hmem : ∀ group, group ∈ groups ↔ _ := fun group =>
    hgroups.mem_iff.trans (Stock.mem_groups_select hreferences hr hover d)
  refine ⟨fun row hrow => ?_, fun record hrecord => ?_, fun record j _ => Stock.repeats_eq_one_iff⟩
  · obtain ⟨group, hgroup, hrow⟩ := exists_of_forall₂ hrows.flip hrow
    obtain ⟨record, hrecord, single, hsingle, rfl⟩ := (hmem group).1 hgroup
    exact ⟨record, hrecord, hydrates_of_group hreferences hover hlabels hsingle hrow hr hrecord⟩
  · obtain ⟨single, hsingle⟩ := List.exists_mem_of_ne_nil (s.tails record p.singles) (Stock.tails_ne_nil _)
    obtain ⟨row, hrow, hgroup⟩ := exists_of_forall₂ hrows ((hmem _).2 ⟨record, hrecord, single, hsingle, rfl⟩)
    exact ⟨row, hrow, hydrates_of_group hreferences hover hlabels hsingle hgroup hr hrecord⟩

/-! ### An author with two collections -/

def libraryRow (m : Model) (values : List String) : Record := m.fields.zip (values.map .text)

def libraryRows (m : Model) : List Record :=
  (if m.name = "Author" then [["ADA01"], ["EVE01"]]
    else [["EMMA1", "ADA01", "BOB01"], ["DUNE1", "ADA01", "BOB01"], ["IVAN1", "EVE01", "ADA01"],
      ["JANE1", "EVE01", "ADA01"]]).map (libraryRow m)

/-- Ada wrote two books and reviewed the two that Eve wrote. -/
def library : Stock libraryRegistry where
  rows := libraryRows
  suits m hm row hrow := by
    have hall : ∀ m ∈ libraryRegistry.models, ∀ row ∈ libraryRows m,
        row.map (·.1) = m.fields ∧ ∀ e ∈ row, e.1.coerce e.2 = .ok e.2 := by decide +kernel
    exact ⟨(hall m hm row hrow).1, (hall m hm row hrow).2⟩
  distinct := by decide +kernel

def libraryPlan : FetchPlan :=
  (do
    let author ← libraryRegistry.model "Author"
    make libraryRegistry author (← includeAll author ["books", "reviewed"]) : Except Error FetchPlan).toOption.getD default

def bookElement (reference : String) (values : List String) : Json :=
  .obj ((["ID", "Author", "Reviewer"].zip values).map fun e => (SelectItem.columnLabel reference e.1, .str e.2))

/-- Each book stands in the documents for every book of the other one. -/
def libraryAnswer : List Row :=
  [ { columns := ["Author.ID", "Author.books", "Author.reviewed"]
      values :=
        [ .text "ADA01",
          .json (.arr ([["EMMA1", "ADA01", "BOB01"], ["EMMA1", "ADA01", "BOB01"], ["DUNE1", "ADA01", "BOB01"],
            ["DUNE1", "ADA01", "BOB01"]].map (bookElement "Book"))),
          .json (.arr ([["IVAN1", "EVE01", "ADA01"], ["JANE1", "EVE01", "ADA01"], ["IVAN1", "EVE01", "ADA01"],
            ["JANE1", "EVE01", "ADA01"]].map (bookElement "reviewed"))) ] },
    { columns := ["Author.ID", "Author.books", "Author.reviewed"]
      values :=
        [ .text "EVE01",
          .json (.arr ([["IVAN1", "EVE01", "ADA01"], ["JANE1", "EVE01", "ADA01"]].map (bookElement "Book"))),
          .json (.arr []) ] } ]

/-- A document that lists the rows of a group in their order. -/
theorem gives_document {p : FetchPlan} {d : Dialect} {group : List Scope} {j : Joined} {label : String}
    (hinj : ∀ k ∈ p.collections, k.document d = j.document d → k = j) {elements : List Json}
    (h : List.Forall₂ j.Describes elements (j.listed group)) :
    p.Gives d group (.expression (j.document d) label) (.json (.arr elements)) := by
  intro k hk hdocument
  obtain rfl := hinj k hk hdocument
  exact ⟨elements, _, .inl rfl, .refl _, h⟩

theorem answers_library : libraryPlan.Answers .postgres library libraryAnswer := by
  have hgroups : (libraryPlan.select .postgres).groups library.rowsOf =
      (library.rows libraryPlan.root).map fun row => library.group libraryPlan row [] := by decide +kernel
  refine ⟨_, .of_eq hgroups.symm, .cons ⟨by decide +kernel, .cons ?_ (.cons ?_ (.cons ?_ .nil))⟩
    (.cons ⟨by decide +kernel, .cons ?_ (.cons ?_ (.cons ?_ .nil))⟩ .nil)⟩
  · show ∃ scope ∈ _, Scope.Gives scope ⟨"Author", "ID"⟩ _
    decide +kernel
  · exact gives_document (by decide +kernel) (by decide +kernel)
  · exact gives_document (by decide +kernel) (by decide +kernel)
  · show ∃ scope ∈ _, Scope.Gives scope ⟨"Author", "ID"⟩ _
    decide +kernel
  · exact gives_document (by decide +kernel) (by decide +kernel)
  · exact gives_document (by decide +kernel) (by decide +kernel)

theorem hydrates_library :
    libraryPlan.references.Nodup ∧ (libraryPlan.labels .postgres).Nodup ∧
      libraryPlan.Answers .postgres library libraryAnswer ∧
      (∀ row ∈ libraryAnswer, ∃ record ∈ library.rows libraryPlan.root, libraryPlan.Hydrates library row record) ∧
      ∀ record ∈ library.rows libraryPlan.root, ∃ row ∈ libraryAnswer, libraryPlan.Hydrates library row record := by
  have hreferences : libraryPlan.references.Nodup := by decide +kernel
  have hlabels : (libraryPlan.labels .postgres).Nodup := by decide +kernel
  have hr : Registry.build (Pattern.rules 0) libraryDecls = .ok libraryRegistry := rfl
  have hp : make libraryRegistry libraryPlan.root (libraryPlan.joined.map (·.navigation)) = .ok libraryPlan := rfl
  obtain ⟨hrows, hrecords, -⟩ := hydrates_answers hr (by decide +kernel) hp hreferences hlabels answers_library
  exact ⟨hreferences, hlabels, answers_library, hrows, hrecords⟩

/-- Keeps every instance as a new one. -/
def heapKeeper : Keeper Heap where
  resolve i := Attempt.change (·.add i)
  modify h f heap := heap.modify h f

/-- The rows in a collection of the root that a row of the answer is hydrated as. -/
def attached (p : FetchPlan) (row : Row) (name : String) : List Record :=
  match (p.hydrate heapKeeper row).runOn {} with
  | (.ok root, heap) => ((heap.get? root).bind fun i => KeyedList.get? name i.collections).elim [] fun targets =>
    targets.filterMap fun target => (heap.get? target).map Instance.record
  | (.error _, _) => []

/-- Each book is attached twice to the author who wrote two and reviewed two. -/
theorem not_once_library : libraryPlan.references.Nodup ∧ libraryPlan.Answers .postgres library libraryAnswer ∧
    ¬∀ row ∈ libraryAnswer, ∃ record ∈ library.rows libraryPlan.root, ∀ j ∈ libraryPlan.collections,
      (∀ target ∈ libraryPlan.attached row j.navigation.name, target ∈ library.joined j record) ∧
      ∀ target ∈ library.joined j record, (libraryPlan.attached row j.navigation.name).count target = 1 := by
  refine ⟨by decide +kernel, answers_library, fun h => ?_⟩
  obtain ⟨record, -, honce⟩ := h _ (.head _)
  have htwice : ∃ j ∈ libraryPlan.collections, ∃ target ∈ library.rows j.target,
      (libraryPlan.attached (libraryAnswer.headD default) j.navigation.name).count target = 2 := by decide +kernel
  obtain ⟨j, hj, target, -, htwice⟩ := htwice
  obtain ⟨hjoined, honce⟩ := honce j hj
  have hattached : target ∈ libraryPlan.attached (libraryAnswer.headD default) j.navigation.name :=
    List.count_pos_iff.1 (htwice ▸ Nat.zero_lt_two)
  exact absurd (htwice.symm.trans (honce target (hjoined target hattached))) (by decide)

end FetchPlan

end RecordMapper
