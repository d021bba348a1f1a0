import RecordMapper.Pattern.Reader
import RecordMapper.Proofs.Condition.Compile
import RecordMapper.Proofs.Instance.Pending
import RecordMapper.Proofs.Storage.Comparison
import RecordMapper.Proofs.Storage.Constant

/-! Conditions as clauses of a statement.

The database reads a condition by cells and in three truth values, memory reads it by values and in
two. On the row that an instance of plain values is stored as, a compiled condition is read without
fail, and it holds in the database exactly when it holds in memory (`clause_holds_iff_evaluate`); where
memory says no, the database may not know. -/
namespace RecordMapper
open Storage (Stored)

/-! ### Reading a clause -/

/-- The cell that the right side of a comparison stands for. -/
def Literal.cell? (v : Value) : Literal → Option Stored
  | .inlined sql => Stored.ofConstant? sql
  | .bound => some (Stored.ofValue v)

/-- What a condition comes to on a row, given by table and column; it cannot be read without the
columns, or with a literal that is no constant. -/
def Condition.truth? (row : String → String → Option Stored) : Condition → Option Truth
  | comparison table field op value literal => do
    let cell ← row table field
    let constant ← literal.cell? value
    cell.compared? op.sql constant
  | nullCheck table field negated => (row table field).map fun cell => .ofBool (cell.isNull != negated)
  | combination left logic right => do
    let s ← left.truth? row
    let t ← right.truth? row
    let connective ← Truth.connective? logic.sql
    return connective s t

/-- The row that an instance is stored as. -/
def Instance.row (i : Instance) (table column : String) : Option Stored :=
  if table = i.model.name then (i.get? column).map Stored.ofValue else none

/-! ### Instances of plain values -/

/-- The call gives no other than plain values. -/
def InstanceCall.IsPlain : InstanceCall → Prop
  | .set _ v => v.IsPlain
  | .load _ v => v.IsPlain
  | .commit => True

namespace Instance

/-- Each field holds what it made of a plain value. -/
structure OfPlain (i : Instance) : Prop where
  fields : i.cells.map (·.field) = i.model.fields
  plain : ∀ c ∈ i.cells, ∃ u : Value, u.IsPlain ∧ c.field.coerce u = .ok c.current

theorem ofPlain_new (m : Model) : (Instance.new m).OfPlain where
  fields := (coherent_new m).fields
  plain := by
    intro c hc
    obtain ⟨f, _, rfl⟩ := List.mem_map.1 hc
    exact ⟨.null, trivial, Field.coerce_ok_iff.2 f.kind.coerce_null⟩

/-- One field takes what it makes of another plain value. -/
theorem OfPlain.update {i j : Instance} (hi : i.OfPlain) {name : String} {v w : Value} {c : Cell} {f : Cell → Cell}
    (hv : v.IsPlain) (hfound : i.cell? name = some c) (hw : c.field.coerce v = .ok w) (hmodel : j.model = i.model)
    (hcells : j.cells = Cell.update name f i.cells) (hf : ∀ d, (f d).field = d.field ∧ (f d).current = w) :
    j.OfPlain where
  fields := by rw [hcells, hmodel, Cell.map_field_update fun d => (hf d).1, hi.fields]
  plain := by
    intro d hd
    rw [hcells] at hd
    rcases Cell.mem_update_of_find hfound hd with hd | rfl
    · exact hi.plain d hd
    · refine ⟨v, hv, ?_⟩
      rw [(hf c).1, (hf c).2, hw]

theorem OfPlain.set {i j : Instance} (hi : i.OfPlain) {name : String} {v : Value} (hv : v.IsPlain)
    (h : i.set name v = .ok j) : j.OfPlain := by
  obtain ⟨c, w, hfound, hw, ⟨_, rfl⟩ | ⟨_, rfl⟩⟩ := set_ok h
  · exact hi.update hv hfound hw (model_settle _) (cells_settle _) fun _ => ⟨rfl, rfl⟩
  · exact hi.update hv hfound hw rfl rfl fun _ => ⟨rfl, rfl⟩

theorem OfPlain.load {i j : Instance} (hi : i.OfPlain) {name : String} {v : Value} (hv : v.IsPlain)
    (h : i.load name v = .ok j) : j.OfPlain := by
  obtain ⟨c, w, hfound, hw, rfl⟩ := load_ok h
  exact hi.update hv hfound hw (model_settle _) (cells_settle _) fun _ => ⟨rfl, rfl⟩

theorem OfPlain.commit {i : Instance} (hi : i.OfPlain) : i.commit.OfPlain where
  fields := by
    rw [Instance.commit, List.map_map]
    exact hi.fields
  plain := by
    intro c hc
    obtain ⟨d, hd, rfl⟩ := List.mem_map.1 hc
    exact hi.plain d hd

theorem OfPlain.perform {i : Instance} (hi : i.OfPlain) {call : InstanceCall} (hcall : call.IsPlain) :
    (i.perform call).OfPlain := by
  cases call with
  | set name v =>
    unfold Instance.perform
    dsimp only
    split
    · next h => exact hi.set hcall h
    · exact hi
  | load name v =>
    unfold Instance.perform
    dsimp only
    split
    · next h => exact hi.load hcall h
    · exact hi
  | commit => exact hi.commit

/-- An instance that was only given plain values is one of plain values. -/
theorem ofPlain_performAll (m : Model) (calls : List InstanceCall) (h : ∀ call ∈ calls, call.IsPlain) :
    ((Instance.new m).performAll calls).OfPlain := by
  suffices ∀ i : Instance, i.OfPlain → (i.performAll calls).OfPlain from this _ (ofPlain_new m)
  induction calls with
  | nil => exact fun _ hi => hi
  | cons call rest ih =>
    intro i hi
    exact ih (fun d hd => h d (.tail _ hd)) _ (hi.perform (h call (.head _)))

/-- A field of the model has a cell with what it made of a plain value. -/
theorem OfPlain.get? {i : Instance} (hi : i.OfPlain) {name : String} {f : Field}
    (hf : i.model.field? name = some f) :
    ∃ u v : Value, u.IsPlain ∧ f.kind.coerce u = .ok v ∧ i.get? name = some v := by
  have hfind := hf
  unfold Model.field? at hfind
  rw [← hi.fields, List.find?_map] at hfind
  obtain ⟨c, hc, rfl⟩ := Option.map_eq_some_iff.1 hfind
  obtain ⟨u, hu, hcoerce⟩ := hi.plain c (List.mem_of_find?_eq_some hc)
  exact ⟨u, c.current, hu, Field.coerce_ok_iff.1 hcoerce, congrArg (Option.map _) hc⟩

theorem row_of_get? {i : Instance} {column : String} {v : Value} (h : i.get? column = some v) :
    i.row i.model.name column = some (Stored.ofValue v) := by
  rw [row, if_pos rfl, h]
  rfl

end Instance

/-! ### Literals -/

/-- A written literal is read as the cell that its value is stored in. -/
theorem FieldKind.Keeps.ofConstant? {kind : FieldKind} {v : Value} (h : kind.Keeps v) {sql : String}
    (hsql : kind.inlineText? v = some sql) : Stored.ofConstant? sql = some (Stored.ofValue v) := by
  cases h with
  | text hkind s =>
    have hquoted : Text.quoted '\'' s = sql := by
      cases kind with
      | id => exact Option.some.inj hsql
      | text => exact Option.some.inj hsql
      | email => exact Option.some.inj hsql
      | enum => exact Option.some.inj hsql
      | integer => cases hkind
      | boolean => cases hkind
      | date => cases hkind
      | timestamp => cases hkind
    rw [← hquoted, Stored.ofConstant?_quoted]
    rfl
  | integer min max n =>
    obtain rfl := Option.some.inj hsql
    rw [Stored.ofConstant?_ofInt ⟨n.le_toInt, n.toInt_le⟩, Int64.ofInt_toInt]
    rfl
  | boolean b =>
    obtain rfl := Option.some.inj hsql
    cases b <;> rfl
  | date hd =>
    obtain rfl := Option.some.inj hsql
    exact Stored.ofConstant?_quoted _
  | timestamp hm =>
    obtain rfl := Option.some.inj hsql
    exact Stored.ofConstant?_quoted _

theorem Field.cell?_literal {f : Field} {v : Value} (h : f.kind.Keeps v) :
    (f.literal v).cell? v = some (Stored.ofValue v) := by
  unfold Field.literal
  split
  · next hsql =>
    split
    · exact h.ofConstant? hsql
    · rfl
  · rfl

/-! ### Conditions -/

namespace Condition

/-- With NULL a comparison is unknown, and does not hold in memory. -/
theorem compared?_null (op : Operator) (v : Value) :
    (Stored.ofValue .null).compared? op.sql (Stored.ofValue v) = some .unknown ∧
      comparisonHolds op .null v = false := by
  refine ⟨?_, ?_⟩
  · unfold Stored.compared?
    rw [op.relation?_sql]
    rfl
  · cases v <;> rfl

theorem ComparesField.truth?_iff_evaluate {i : Instance} {rules : Rules} {name : String} {op : Operator} {v : Value}
    {literal : Literal} {f : Field} (h : ComparesField Value.IsPlain i.model rules name op v literal f)
    (hi : i.OfPlain) :
    ∃ t, (comparison i.model.name name op v literal).truth? i.row = some t ∧
      (t = .holds ↔ (comparison i.model.name name op v literal).evaluate i = true) := by
  obtain ⟨u, hu, hcoerce⟩ := h.coerced
  have hkept : f.kind.Keeps v := FieldKind.keeps_of_coerce hu (Field.coerce_ok_iff.1 hcoerce) h.notNull
  obtain ⟨w, current, hw, hcurrent, hget⟩ := hi.get? h.found
  have hread : (comparison i.model.name name op v literal).truth? i.row =
      (Stored.ofValue current).compared? op.sql (Stored.ofValue v) := by
    rw [truth?, Instance.row_of_get? hget, h.literal, Field.cell?_literal hkept]
    rfl
  have hevaluate : (comparison i.model.name name op v literal).evaluate i = comparisonHolds op current v := by
    rw [evaluate, hget]
    rfl
  rw [hread, hevaluate]
  cases hnull : current.isNull with
  | true =>
    obtain rfl := Value.isNull_iff.1 hnull
    obtain ⟨hunknown, hfalse⟩ := compared?_null op v
    refine ⟨.unknown, hunknown, ?_⟩
    rw [hfalse]
    exact ⟨nofun, nofun⟩
  | false =>
    have hkeeps := FieldKind.keeps_of_coerce hw hcurrent hnull
    exact ⟨_, hkeeps.compared? hkept h.ordered, Truth.ofBool_eq_holds⟩

theorem truth?_nullCheck {i : Instance} (hi : i.OfPlain) {name : String} {f : Field}
    (hf : i.model.field? name = some f) (negated : Bool) :
    ∃ t, (nullCheck i.model.name name negated).truth? i.row = some t ∧
      (t = .holds ↔ (nullCheck i.model.name name negated).evaluate i = true) := by
  obtain ⟨_, current, _, _, hget⟩ := hi.get? hf
  refine ⟨.ofBool (current.isNull != negated), ?_, ?_⟩
  · rw [truth?, Instance.row_of_get? hget, Option.map_some, Value.isNull_ofValue]
  · rw [evaluate, hget]
    exact Truth.ofBool_eq_holds

/-- A connective is written as the word for what it means in memory. -/
theorem connective?_sql (logic : Connective) : ∃ connective, Truth.connective? logic.sql = some connective ∧
    ∀ {s t : Truth} {a b : Bool}, (s = .holds ↔ a = true) → (t = .holds ↔ b = true) →
      (connective s t = .holds ↔ logic.apply a b = true) := by
  cases logic with
  | and =>
    refine ⟨Truth.and, rfl, fun {s t a b} ha hb => ?_⟩
    rw [Truth.and_eq_holds, ha, hb]
    exact (Bool.and_eq_true_iff).symm
  | or =>
    refine ⟨Truth.or, rfl, fun {s t a b} ha hb => ?_⟩
    rw [Truth.or_eq_holds, ha, hb]
    exact (Bool.or_eq_true_iff).symm

theorem CompiledFor.truth?_iff_evaluate {i : Instance} (hi : i.OfPlain) {rules : Rules} {c : Condition}
    (hc : c.CompiledFor Value.IsPlain i.model rules) :
    ∃ t, c.truth? i.row = some t ∧ (t = .holds ↔ c.evaluate i = true) := by
  induction c with
  | comparison table name op v literal =>
    obtain ⟨rfl, f, hf⟩ := hc
    exact hf.truth?_iff_evaluate hi
  | nullCheck table name negated =>
    obtain ⟨rfl, f, hf, _⟩ := hc
    exact truth?_nullCheck hi hf negated
  | combination left logic right ihl ihr =>
    obtain ⟨s, hs, hsiff⟩ := ihl hc.1
    obtain ⟨t, ht, htiff⟩ := ihr hc.2
    obtain ⟨connective, hconnective, hiff⟩ := connective?_sql logic
    refine ⟨connective s t, ?_, hiff hsiff htiff⟩
    rw [truth?, hs, ht, hconnective]
    rfl

/-- A predicate of plain literals, compiled and read as a clause over the row of an instance of plain
values, holds exactly when it holds of the instance in memory. -/
theorem clause_holds_iff_evaluate {i : Instance} (hi : i.OfPlain) {rules : Rules} {p : Predicate} {c : Condition}
    (hp : p.Literals Value.IsPlain) (hc : compile i.model rules p = .ok c) :
    ∃ t, c.truth? i.row = some t ∧ (t = .holds ↔ c.evaluate i = true) :=
  (compiledFor_of_compile hp hc).truth?_iff_evaluate hi

/-! ### A member -/

def member : Model where
  name := "Member"
  fields :=
    [ .enumeration "Rank" "Rank" ["User", "Owner's"],
      .title "Name",
      .int "Credit" 0 9999,
      .boolean "Verified",
      {Field.date "Joined" with required := false},
      {Field.timestamp "LastSeen" with required := false} ]

/-- A member who was never seen. -/
def unseen : Instance :=
  (Instance.new member).performAll
    [ .set "Rank" (.text "Owner's"),
      .set "Name" (.text "Ada"),
      .set "Credit" (.int 900),
      .set "Verified" (.int 1),
      .set "Joined" (.text "2019-03-02") ]

/-- Verified owners but for one name, who joined early or were seen late. -/
def longStanding : Predicate :=
  .and (.and (.equals "Verified" (.bool true)) (.equals "Rank" (.text "Owner's")))
    (.and (.compare "Name" .ne (.text "Bob"))
      (.or (.compare "LastSeen" .ge (.text "2022-09-01 08:30:00"))
        (.compare "Joined" .lt (.text "2020-07-21"))))

/-- Whether the member was seen late is unknown to the database, but that does not matter. -/
theorem clause_holds_longStanding :
    unseen.OfPlain ∧ longStanding.Literals Value.IsPlain ∧
      ∃ c, compile unseen.model (Pattern.rules 19000) longStanding = .ok c ∧ c.evaluate unseen = true ∧
        c.truth? unseen.row = some .holds := by
  have hplain : unseen.OfPlain := Instance.ofPlain_performAll member _ (by simp [InstanceCall.IsPlain, Value.IsPlain])
  have hp : longStanding.Literals Value.IsPlain := by
    simp [longStanding, Predicate.Literals, Predicate.and, Predicate.or, Predicate.equals, Value.IsPlain]
  have hall : ∀ c, compile unseen.model (Pattern.rules 19000) longStanding = .ok c → c.evaluate unseen = true := by
    decide +kernel
  obtain ⟨c, hc⟩ := Option.isSome_iff_exists.1
    (show (compile unseen.model (Pattern.rules 19000) longStanding).toOption.isSome = true by decide +kernel)
  have hc := ok_of_toOption hc
  have hholds := hall c hc
  obtain ⟨t, ht, hiff⟩ := clause_holds_iff_evaluate hplain hp hc
  exact ⟨hplain, hp, c, hc, hholds, by rw [ht, hiff.2 hholds]⟩

end Condition

end RecordMapper
