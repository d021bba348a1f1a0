import RecordMapper.Proofs.Instance.Record
import RecordMapper.Proofs.Model.Registry

/-! The rows of all models, and what a delete does to them.

A delete removes the rows that satisfy its condition, and with them the rows that refer to removed ones by a
Cascade navigation, and so on (`Stock.Gone`). In the others it sets to NULL what refers to a removed row by a
SetNull navigation (`Stock.Deletes`). Both are given by what a database does, not by how it finds the rows;
for rows that are listed they can be checked (`Stock.deletes_of_rows`). -/
namespace RecordMapper

/-! ### Rows of all models -/

/-- The rows of the models of a registry. -/
structure Stock (r : Registry) where
  rows : Model → List Record
  suits : ∀ m ∈ r.models, ∀ row ∈ rows m, m.Suits row
  distinct : ∀ m ∈ r.models, ((rows m).map Record.key).Nodup

/-- The row with NULL in some fields. -/
def Record.nulled (names : List String) (row : Record) : Record :=
  row.map fun e => if e.1.name ∈ names then (e.1, .null) else e

/-- What is lost outside of the key leaves the key as it is. -/
theorem Record.key_nulled {names : List String} {row : Record}
    (h : ∀ e ∈ row, e.1.primaryKey = true → e.1.name ∉ names) : (row.nulled names).key = row.key := by
  have hkey : (fun e : Field × Value => e.1.primaryKey) ∘ (fun e => if e.1.name ∈ names then (e.1, .null) else e) =
      fun e => e.1.primaryKey := by
    funext e
    simp only [Function.comp_apply]
    split <;> rfl
  unfold key keyPart nulled
  rw [List.filter_map, hkey, List.map_map]
  refine List.map_congr_left fun e he => ?_
  obtain ⟨he, hprimary⟩ := List.mem_filter.1 he
  rw [Function.comp_apply, if_neg (h e he hprimary)]

/-- Whether a row has the value that a navigation leads to from it. NULL leads to nothing. -/
def Navigation.leads (n : Navigation) (row target : Record) : Bool :=
  (target.value? n.targetField).any fun v => !v.isNull && (row.value? n.field).any (·.equal v)

theorem Navigation.leads_iff {n : Navigation} {row target : Record} :
    n.leads row target = true ↔ ∃ v, target.value? n.targetField = some v ∧ v.isNull = false ∧
      (row.value? n.field).any (·.equal v) = true := by
  unfold leads
  rw [Option.any_eq_true]
  simp only [Bool.and_eq_true, Bool.not_eq_true']

namespace Stock

variable {r : Registry}

/-- The rows that a delete removes. -/
inductive Gone (s : Stock r) (m : Model) (condition : Condition) : Model → Record → Prop
  | matched {row : Record} (hrow : row ∈ s.rows m) (h : condition.holdsOf row.value? = true) : Gone s m condition m row
  | follows {target : Model} {parent row : Record} (hparent : Gone s m condition target parent)
    {d : Model × Navigation} (hd : d ∈ r.dependents target.name) (haction : d.2.onDelete = .cascade)
    (hrow : row ∈ s.rows d.1) (hleads : d.2.leads row parent = true) : Gone s m condition d.1 row

/-- A row refers to a removed one by a field that a delete sets to NULL. -/
def Loses (s : Stock r) (m : Model) (condition : Condition) (owner : Model) (row : Record) (field : String) : Prop :=
  ∃ target parent, s.Gone m condition target parent ∧ ∃ d ∈ r.dependents target.name,
    d.2.onDelete = .setNull ∧ d.1 = owner ∧ d.2.field = field ∧ d.2.leads row parent = true

/-- The rows after a delete are the others, with NULL in what they lose. -/
def Deletes (before : Stock r) (m : Model) (condition : Condition) (after : Stock r) : Prop :=
  ∀ owner ∈ r.models, ∀ row', row' ∈ after.rows owner ↔
    ∃ row ∈ before.rows owner, ¬before.Gone m condition owner row ∧
      ∃ names, (∀ field, field ∈ names ↔ before.Loses m condition owner row field) ∧ row' = row.nulled names

theorem Gone.mem {s : Stock r} {m : Model} {condition : Condition} {owner : Model} {row : Record}
    (h : s.Gone m condition owner row) : row ∈ s.rows owner := by
  cases h with
  | matched hrow _ => exact hrow
  | follows _ _ _ hrow _ => exact hrow

end Stock

/-! ### Deletes that can be checked -/

namespace Stock

variable {r : Registry} {s : Stock r} {m : Model} {condition : Condition} {gone : List (Model × Record)}

/-- Each row of a list satisfies the condition or follows a later row of the list. -/
def Derives (s : Stock r) (m : Model) (condition : Condition) : List (Model × Record) → Prop
  | [] => True
  | e :: rest => s.Derives m condition rest ∧ e.2 ∈ s.rows e.1 ∧
      (e.1 = m ∧ condition.holdsOf e.2.value? = true ∨
        ∃ parent ∈ rest, ∃ d ∈ r.dependents parent.1.name,
          d.1 = e.1 ∧ d.2.onDelete = .cascade ∧ d.2.leads e.2 parent.2 = true)

/-- No row outside of a list satisfies the condition or follows a row of the list. -/
def Closes (s : Stock r) (m : Model) (condition : Condition) (gone : List (Model × Record)) : Prop :=
  (∀ row ∈ s.rows m, condition.holdsOf row.value? = true → (m, row) ∈ gone) ∧
    ∀ parent ∈ gone, ∀ d ∈ r.dependents parent.1.name, ∀ row ∈ s.rows d.1,
      d.2.onDelete = .cascade ∧ d.2.leads row parent.2 = true → (d.1, row) ∈ gone

instance Derives.decidable (s : Stock r) (m : Model) (condition : Condition) :
    ∀ gone, Decidable (s.Derives m condition gone)
  | [] => .isTrue trivial
  | _ :: rest => @instDecidableAnd _ _ (Derives.decidable s m condition rest) inferInstance

instance (s : Stock r) (m : Model) (condition : Condition) (gone : List (Model × Record)) :
    Decidable (s.Closes m condition gone) := by
  unfold Closes
  infer_instance

theorem Derives.all_gone (h : s.Derives m condition gone) : ∀ e ∈ gone, s.Gone m condition e.1 e.2 := by
  induction gone with
  | nil => exact fun _ he => nomatch he
  | cons first rest ih =>
    obtain ⟨hrest, hrow, hfirst⟩ := h
    intro e he
    rcases List.mem_cons.1 he with rfl | he
    · rcases hfirst with ⟨hmodel, hholds⟩ | ⟨parent, hparent, d, hd, howner, haction, hleads⟩
      · subst hmodel
        exact .matched hrow hholds
      · rw [← howner] at hrow ⊢
        exact .follows (ih hrest parent hparent) hd haction hrow hleads
    · exact ih hrest e he

/-- A list of this kind has the rows that a delete removes. -/
theorem gone_iff (hd : s.Derives m condition gone) (hc : s.Closes m condition gone) {owner : Model} {row : Record} :
    s.Gone m condition owner row ↔ (owner, row) ∈ gone := by
  refine ⟨fun h => ?_, hd.all_gone (owner, row)⟩
  induction h with
  | matched hrow hholds => exact hc.1 _ hrow hholds
  | follows _ hdependent haction hrow hleads ih => exact hc.2 _ ih _ hdependent _ hrow ⟨haction, hleads⟩

/-- The fields by which a row refers to a removed one through a SetNull navigation. -/
def lost (r : Registry) (gone : List (Model × Record)) (owner : Model) (row : Record) : List String :=
  gone.flatMap fun parent => ((r.dependents parent.1.name).filter fun d =>
    d.2.onDelete = .setNull ∧ d.1 = owner ∧ d.2.leads row parent.2 = true).map (·.2.field)

theorem mem_lost (hd : s.Derives m condition gone) (hc : s.Closes m condition gone) {owner : Model} {row : Record}
    {field : String} : field ∈ lost r gone owner row ↔ s.Loses m condition owner row field := by
  simp only [lost, List.mem_flatMap, List.mem_map, List.mem_filter, decide_eq_true_eq]
  constructor
  · rintro ⟨parent, hparent, d, ⟨hdependent, haction, howner, hleads⟩, hfield⟩
    exact ⟨parent.1, parent.2, (gone_iff hd hc).2 hparent, d, hdependent, haction, howner, hfield, hleads⟩
  · rintro ⟨target, parent, hparent, d, hdependent, haction, howner, hfield, hleads⟩
    exact ⟨(target, parent), (gone_iff hd hc).1 hparent, d, ⟨hdependent, haction, howner, hleads⟩, hfield⟩

/-- A delete carried out row by row. -/
theorem deletes_of_rows (hd : s.Derives m condition gone) (hc : s.Closes m condition gone) {after : Stock r}
    (hafter : ∀ owner ∈ r.models, after.rows owner =
      ((s.rows owner).filter fun row => (owner, row) ∉ gone).map fun row => row.nulled (lost r gone owner row)) :
    s.Deletes m condition after := by
  have hnulled : ∀ {row : Record} {names names' : List String}, (∀ field, field ∈ names ↔ field ∈ names') →
      row.nulled names = row.nulled names' := fun h => by
    unfold Record.nulled
    exact List.map_congr_left fun e _ => by simp only [h]
  intro owner howner row'
  rw [hafter owner howner, List.mem_map]
  constructor
  · rintro ⟨row, hrow, rfl⟩
    obtain ⟨hrow, hkept⟩ := List.mem_filter.1 hrow
    exact ⟨row, hrow, fun h => of_decide_eq_true hkept ((gone_iff hd hc).1 h), _, fun _ => mem_lost hd hc, rfl⟩
  · rintro ⟨row, hrow, hkept, names, hnames, rfl⟩
    refine ⟨row, List.mem_filter.2 ⟨hrow, decide_eq_true fun h => hkept ((gone_iff hd hc).2 h)⟩, hnulled fun field => ?_⟩
    rw [mem_lost hd hc, hnames]

end Stock

end RecordMapper
