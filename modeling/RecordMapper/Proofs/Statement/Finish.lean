import RecordMapper.Pattern.Reader
import RecordMapper.Proofs.Statement.Places
import RecordMapper.Session.Read

/-! Finished statements.

A query is what a session asks of its database: a fetch, a count, an insertion, an update or a
delete. It is built as the fragment of a template whose text is balanced. So once it is built it
is finished: no text takes a marker for its own or hides one, the n-th marker stands at the n-th
place, and the values are the written ones followed by the literals of the condition
(`finish_build`). -/
namespace RecordMapper

/-! ### Templates -/

def SelectQuery.template (q : SelectQuery) (d : Dialect) : Template :=
  [.text (q.start d)] ++ whereTemplate d q.filter ++ [.text (q.ending d)]

def InsertQuery.template (q : InsertQuery) (d : Dialect) : Template :=
  [.text (q.start d)] ++ Template.joined ", " (q.values.map fun a => [a.valuePiece q.table d]) ++ [.text ")"]

def UpdateQuery.template (q : UpdateQuery) (d : Dialect) : Template :=
  [.text ("UPDATE " ++ d.quoteIdentifier q.table ++ " SET ")] ++
    Template.joined ", " (q.assignments.map fun a => a.setTemplate q.table d) ++ whereTemplate d q.filter

def DeleteQuery.template (q : DeleteQuery) (d : Dialect) : Template :=
  [.text ("DELETE FROM " ++ d.quoteIdentifier q.table)] ++ whereTemplate d q.filter

/-- What is asked of a database. -/
inductive Query where
  /-- A fetch by a plan, with the limit that it is read with. -/
  | fetch (f : Fetch) (plan : FetchPlan) (filter : Option Condition) (limit : Nat)
  | count (plan : FetchPlan) (filter : Option Condition)
  | insert (q : InsertQuery)
  | update (q : UpdateQuery)
  | delete (q : DeleteQuery)

namespace Query

def build (d : Dialect) : Query → Except Error Fragment
  | fetch f plan filter limit => (f.query plan filter limit d).build d
  | count plan filter => SelectQuery.build {plan.count with filter} d
  | insert q => q.build d
  | update q => q.build d
  | delete q => q.build d

def template (d : Dialect) : Query → Template
  | fetch f plan filter limit => (f.query plan filter limit d).template d
  | count plan filter => SelectQuery.template {plan.count with filter} d
  | insert q => q.template d
  | update q => q.template d
  | delete q => q.template d

def filter : Query → Option Condition
  | fetch _ _ filter _ => filter
  | count _ filter => filter
  | insert _ => none
  | update q => q.filter
  | delete q => q.filter

/-- The written values. -/
def assignments : Query → List Assignment
  | insert q => q.values
  | update q => q.assignments
  | _ => []

/-- The written values that are bound, then the bound literals of the condition. -/
def boundValues (q : Query) (d : Dialect) : List Value :=
  q.assignments.filterMap (·.bound? d) ++ q.filter.toList.flatMap Condition.boundValues

/-- Why a query cannot be built. -/
def fault? : Query → Option SessionFault
  | insert q =>
    if q.table.isEmpty then some .noTable else if q.values.isEmpty then some .noColumns else none
  | update q =>
    if q.table.isEmpty then some .noTable else if q.assignments.isEmpty then some .noAssignments else none
  | delete q => if q.table.isEmpty then some .noTable else none
  | _ => none

end Query

/-! ### What is built -/

theorem SelectQuery.fragment_template (q : SelectQuery) (d : Dialect) :
    Template.fragment (q.template d) = .raw (q.start d) ++ whereClause d q.filter ++ .raw (q.ending d) := by
  simp only [template, Template.fragment_append, Template.fragment_text, fragment_whereTemplate]

theorem InsertQuery.fragment_template (q : InsertQuery) (d : Dialect) :
    Template.fragment (q.template d) =
      .raw (q.start d) ++ .joined ", " (q.values.map fun a => a.valueFragment q.table d) ++ .raw ")" := by
  simp only [template, Template.fragment_append, Template.fragment_text, Template.fragment_joined,
    List.map_map, Function.comp_def, Assignment.fragment_valuePiece]

theorem UpdateQuery.fragment_template (q : UpdateQuery) (d : Dialect) :
    Template.fragment (q.template d) =
      .raw ("UPDATE " ++ d.quoteIdentifier q.table ++ " SET ") ++
        .joined ", " (q.assignments.map fun a => a.setFragment q.table d) ++ whereClause d q.filter := by
  simp only [template, Template.fragment_append, Template.fragment_text, Template.fragment_joined,
    List.map_map, Function.comp_def, Assignment.fragment_setTemplate, fragment_whereTemplate]

theorem DeleteQuery.fragment_template (q : DeleteQuery) (d : Dialect) :
    Template.fragment (q.template d) =
      .raw ("DELETE FROM " ++ d.quoteIdentifier q.table) ++ whereClause d q.filter := by
  simp only [template, Template.fragment_append, Template.fragment_text, fragment_whereTemplate]

namespace Query

/-- A query without fault is built as the fragment of its template. -/
theorem build_eq (q : Query) (d : Dialect) :
    q.build d = match q.fault? with
      | some fault => .error (.consistency fault)
      | none => .ok (Template.fragment (q.template d)) := by
  cases q with
  | fetch f plan filter limit => exact congrArg Except.ok (SelectQuery.fragment_template _ d).symm
  | count plan filter => exact congrArg Except.ok (SelectQuery.fragment_template _ d).symm
  | insert q =>
    simp only [build, InsertQuery.build, fault?, template, InsertQuery.fragment_template]
    split
    · rfl
    · split <;> rfl
  | update q =>
    simp only [build, UpdateQuery.build, fault?, template, UpdateQuery.fragment_template]
    split
    · rfl
    · split <;> rfl
  | delete q =>
    simp only [build, DeleteQuery.build, fault?, template, DeleteQuery.fragment_template]
    split <;> rfl

/-- The places of a query are for the written values, then for the literals of its condition. -/
theorem values_template (q : Query) (d : Dialect) : Template.values (q.template d) = q.boundValues d := by
  have hwritten : ∀ {α : Type} (f : α → Template) (g : α → Option Value) (xs : List α),
      (∀ x, Template.values (f x) = (g x).toList) → (xs.map f).flatMap Template.values = xs.filterMap g := by
    intro α f g xs h
    induction xs with
    | nil => rfl
    | cons x rest ih =>
      rw [List.map_cons, List.flatMap_cons, ih, h]
      cases hx : g x <;> simp [hx]
  have hselect : ∀ q : SelectQuery, Template.values (q.template d) = q.filter.toList.flatMap Condition.boundValues := by
    intro q
    simp [SelectQuery.template, Template.values_append, Template.values, values_whereTemplate]
  cases q with
  | fetch f plan filter limit => exact hselect _
  | count plan filter => exact hselect _
  | insert q =>
    simp [template, InsertQuery.template, boundValues, assignments, filter, Template.values_append,
      Template.values, Template.values_joined, hwritten _ _ _ fun a => Assignment.values_valuePiece a q.table d]
  | update q =>
    simp [template, UpdateQuery.template, boundValues, assignments, filter, Template.values_append,
      Template.values, Template.values_joined, values_whereTemplate,
      hwritten _ _ _ fun a => Assignment.values_setTemplate a q.table d]
  | delete q =>
    simp [template, DeleteQuery.template, boundValues, assignments, filter, Template.values,
      values_whereTemplate]

end Query

/-! ### Balance -/

namespace SelectQuery

section

variable (d : Dialect)

theorem balanced_alias (alias? : Option String) : Dialect.Balanced (match alias? with
    | some name => " " ++ d.quoteIdentifier name
    | none => "") := by
  split
  · exact Dialect.Balanced.append (by decide) (d.balanced_quoteIdentifier _)
  · decide

theorem balanced_join (j : Join) : Dialect.Balanced (j.sql d) := by
  have hkind : Dialect.Balanced j.kind.sql := by
    cases j.kind <;> decide
  exact ((((((hkind.append (by decide)).append (d.balanced_quoteIdentifier j.table)).append (balanced_alias d _)).append
    (by decide)).append (d.balanced_qualify _ _)).append (by decide)).append (d.balanced_qualify _ _)

theorem balanced_clause {keyword : String} (hk : Dialect.Balanced keyword) {terms : List String}
    (h : ∀ term ∈ terms, Dialect.Balanced term) : Dialect.Balanced (clause keyword terms) := by
  unfold clause
  split
  · decide
  · exact ((Dialect.Balanced.append (by decide) hk).append (by decide)).append
      (Dialect.balanced_intercalate (by decide) h)

theorem balanced_paging (q : SelectQuery) : Dialect.Balanced (q.paging d) := by
  unfold paging
  refine Dialect.Balanced.append ?_ ?_
  · split
    · exact Dialect.Balanced.append (by decide) (Dialect.balanced_ofInt _)
    · split
      · cases d <;> decide
      · decide
  · split
    · exact Dialect.Balanced.append (by decide) (Dialect.balanced_ofInt _)
    · decide

theorem balanced_template (q : SelectQuery) (hp : Dialect.Balanced (q.projection.sql d))
    (h : ∀ c ∈ q.filter, ∃ m rules, c.CompiledFor (fun _ => True) m rules) : (q.template d).Balanced := by
  have hstart : Dialect.Balanced (q.start d) := by
    refine (((Dialect.Balanced.append (by decide) hp).append (by decide)).append ?_).append ?_
    · refine Dialect.balanced_intercalate (by decide) fun piece hpiece => ?_
      obtain ⟨name, _, rfl⟩ := List.mem_map.1 hpiece
      exact d.balanced_quoteIdentifier name
    · refine Dialect.balanced_join fun piece hpiece => ?_
      obtain ⟨j, _, rfl⟩ := List.mem_map.1 hpiece
      exact Dialect.Balanced.append (by decide) (balanced_join d j)
  have hending : Dialect.Balanced (q.ending d) := by
    refine (Dialect.Balanced.append ?_ ?_).append (balanced_paging d q)
    · refine balanced_clause (by decide) fun piece hpiece => ?_
      obtain ⟨c, _, rfl⟩ := List.mem_map.1 hpiece
      exact d.balanced_qualify c.table c.column
    · refine balanced_clause (by decide) fun piece hpiece => ?_
      obtain ⟨o, _, rfl⟩ := List.mem_map.1 hpiece
      refine (d.balanced_qualify o.ref.table o.ref.column).append ?_
      split <;> decide
  exact ((Template.balanced_text hstart).append (balanced_whereTemplate d h)).append
    (Template.balanced_text hending)

end

end SelectQuery

namespace FetchPlan

/-- Columns and documents are balanced. -/
theorem balanced_items (p : FetchPlan) (d : Dialect) : ∀ item ∈ p.items d, Dialect.Balanced (item.sql d) := by
  have hcolumn : ∀ table column isEnum, Dialect.Balanced ((SelectItem.ofColumn table column isEnum).sql d) := by
    intro table column isEnum
    refine (((d.balanced_qualify table column).append ?_).append (by decide)).append
      (d.balanced_quoteIdentifier _)
    split <;> decide
  intro item hitem
  rcases List.mem_append.1 hitem with hitem | hitem
  · rcases List.mem_append.1 hitem with hroot | hsingle
    · obtain ⟨f, _, rfl⟩ := List.mem_map.1 hroot
      exact hcolumn _ _ _
    · obtain ⟨j, _, hf⟩ := List.mem_flatMap.1 hsingle
      obtain ⟨f, _, rfl⟩ := List.mem_map.1 hf
      exact hcolumn _ _ _
  · obtain ⟨j, _, rfl⟩ := List.mem_map.1 hitem
    refine (Dialect.Balanced.append ?_ (by decide)).append (d.balanced_quoteIdentifier _)
    refine d.balanced_aggregate (fun c hc => ?_) (d.balanced_qualify _ _)
    obtain ⟨f, _, rfl⟩ := List.mem_map.1 hc
    exact d.balanced_qualify _ _

end FetchPlan

theorem InsertQuery.balanced_template (q : InsertQuery) (d : Dialect) : (q.template d).Balanced := by
  have hcolumns : Dialect.Balanced (String.intercalate ", " (q.values.map fun a => d.quoteIdentifier a.column)) := by
    refine Dialect.balanced_intercalate (by decide) fun piece hpiece => ?_
    obtain ⟨a, _, rfl⟩ := List.mem_map.1 hpiece
    exact d.balanced_quoteIdentifier a.column
  have hstart : Dialect.Balanced (q.start d) :=
    (((Dialect.Balanced.append (by decide) (d.balanced_quoteIdentifier q.table)).append (by decide)).append
      hcolumns).append (by decide)
  refine ((Template.balanced_text hstart).append ?_).append (Template.balanced_text (by decide))
  refine Template.balanced_joined (by decide) fun t ht => ?_
  obtain ⟨a, _, rfl⟩ := List.mem_map.1 ht
  exact a.balanced_valuePiece q.table d

theorem UpdateQuery.balanced_template (q : UpdateQuery) (d : Dialect)
    (h : ∀ c ∈ q.filter, ∃ m rules, c.CompiledFor (fun _ => True) m rules) : (q.template d).Balanced := by
  have hstart : Dialect.Balanced ("UPDATE " ++ d.quoteIdentifier q.table ++ " SET ") :=
    (Dialect.Balanced.append (by decide) (d.balanced_quoteIdentifier q.table)).append (by decide)
  refine ((Template.balanced_text hstart).append ?_).append (balanced_whereTemplate d h)
  refine Template.balanced_joined (by decide) fun t ht => ?_
  obtain ⟨a, _, rfl⟩ := List.mem_map.1 ht
  exact a.balanced_setTemplate q.table d

theorem DeleteQuery.balanced_template (q : DeleteQuery) (d : Dialect)
    (h : ∀ c ∈ q.filter, ∃ m rules, c.CompiledFor (fun _ => True) m rules) : (q.template d).Balanced :=
  (Template.balanced_text (Dialect.Balanced.append (by decide) (d.balanced_quoteIdentifier q.table))).append
    (balanced_whereTemplate d h)

namespace Query

theorem balanced_template (q : Query) (d : Dialect)
    (h : ∀ c ∈ q.filter, ∃ m rules, c.CompiledFor (fun _ => True) m rules) : (q.template d).Balanced := by
  cases q with
  | fetch f plan filter limit =>
    refine SelectQuery.balanced_template d _ (Dialect.balanced_intercalate (by decide) fun piece hpiece => ?_) h
    obtain ⟨item, hitem, rfl⟩ := List.mem_map.1 hpiece
    exact plan.balanced_items d item hitem
  | count plan filter =>
    have hcount : Dialect.Balanced "COUNT(*)" := by decide
    exact SelectQuery.balanced_template d _ hcount h
  | insert q => exact q.balanced_template d
  | update q => exact q.balanced_template d h
  | delete q => exact q.balanced_template d h

/-- A query that can be built is finished, whatever names and literals it has: the n-th place of its
template gets the n-th marker, and the values are those that stand at the places, which are the bound
ones among the written values, then those among the literals of the condition. -/
theorem finish_build (q : Query) (d : Dialect)
    (hq : ∀ c ∈ q.filter, ∃ m rules p, Condition.compile m rules p = .ok c) :
    (do (← q.build d).finish d) = (match q.fault? with
      | some fault => .error (.consistency fault)
      | none => .ok ⟨Template.numbered d 0 (q.template d), q.boundValues d⟩) ∧
    Template.values (q.template d) = q.boundValues d := by
  refine ⟨?_, q.values_template d⟩
  have hbalanced : (q.template d).Balanced := q.balanced_template d fun c hc => by
    obtain ⟨m, rules, p, hp⟩ := hq c hc
    exact ⟨m, rules, Condition.compiledFor_of_compile p.literals_true hp⟩
  rw [build_eq]
  cases q.fault? with
  | some fault => rfl
  | none =>
    rw [← q.values_template d]
    exact Template.finish_fragment hbalanced d

/-- A model with quotes and question marks in all of its names. -/
def questions : Model :=
  { name := "what's \"this\"?"
    fields := [.text "why?" 1 20, .enumeration "`how`?" "How" ["who's there?", "\"?\""]] }

/-- The text of all rows with a variant, or with a text, is changed, together with the variant. -/
def answered : Query :=
  .update
    { table := questions.table
      assignments := [⟨"`how`?", .text "\"?\"", true⟩, ⟨"why?", .text "because?", false⟩]
      filter := some (.combination
        (.comparison questions.name "`how`?" .eq (.text "who's there?") (.inlined "'who''s there?'")) .or
        (.comparison questions.name "why?" .ne (.text "why not?") .bound)) }

def answeredStatement : Statement where
  sql := "UPDATE \"what's \"\"this\"\"?\" SET \"`how`?\" = '\"?\"'::\"what's \"\"this\"\"?_`how`?\", \"why?\" = $1 " ++
    "WHERE \"what's \"\"this\"\"?\".\"`how`?\" = 'who''s there?' OR \"what's \"\"this\"\"?\".\"why?\" != $2"
  params := [.text "because?", .text "why not?"]

theorem finish_answered :
    (do (← answered.build .postgres).finish .postgres) = .ok answeredStatement := by
  have hcompile : Condition.compile questions (Pattern.rules 0) (.or (.equals "`how`?" (.text "who's there?"))
      (.compare "why?" .ne (.text "why not?"))) = .ok (answered.filter.getD default) := rfl
  have hq : ∀ c ∈ answered.filter, ∃ m rules p, Condition.compile m rules p = .ok c := by
    intro c hc
    obtain rfl := Option.some.inj hc
    exact ⟨questions, _, _, hcompile⟩
  have hread : (⟨Template.numbered .postgres 0 (answered.template .postgres), answered.boundValues .postgres⟩ :
      Statement) = answeredStatement := by
    decide +kernel
  exact (finish_build answered .postgres hq).1.trans (congrArg Except.ok hread)

end Query

end RecordMapper
