import RecordMapper.Pattern.Reader
import RecordMapper.Proofs.Condition.Compile

/-! Which predicates are compiled, and to which conditions.

A leaf is acceptable when it asks of an optional field whether it is NULL, or compares a field with a value that suits
it, by an operator that the kind of the field allows. Any other leaf is refused for one reason, the first that applies
of those in `Leaf.Refused`. So a predicate is compiled exactly if all its leaves are acceptable, and else fails like
the first one from the left that is not; and its condition has its shape, leaf by leaf (`compile_leafwise`). -/
namespace RecordMapper

/-- A comparison in a predicate. -/
structure Leaf where
  field : String
  op : Operator
  value : Value

/-- The comparisons from left to right. -/
def Predicate.leaves : Predicate → List Leaf
  | compare field op value => [⟨field, op, value⟩]
  | combine left _ right => left.leaves ++ right.leaves

/-- The kinds whose values are compared by their order. -/
inductive FieldKind.Ordered : FieldKind → Prop
  | integer (min max : Int) : Ordered (.integer min max)
  | date : Ordered .date
  | timestamp : Ordered .timestamp

theorem FieldKind.isOrdered_iff {kind : FieldKind} : kind.isOrdered = true ↔ kind.Ordered := by
  constructor
  · intro h
    cases kind with
    | integer min max => exact .integer min max
    | date => exact .date
    | timestamp => exact .timestamp
    | _ => cases h
  · rintro (_ | _ | _) <;> rfl

theorem Operator.isRelational_eq_false_iff {op : Operator} : op.isRelational = false ↔ op = .eq ∨ op = .ne := by
  cases op <;> simp [isRelational]

/-- Every value that a field keeps can be written into SQL text. -/
theorem FieldKind.exists_inlineText {kind : FieldKind} {w : Value} (h : kind.coerce w = .ok w)
    (hnull : w.isNull = false) : ∃ sql, kind.inlineText? w = some sql := by
  cases w with
  | null => cases hnull
  | _ =>
    cases kind
    all_goals first
      | exact ⟨_, rfl⟩
      | cases h

namespace Leaf

/-! ### Leaves -/

section

variable (m : Model) (rules : Rules)

/-- The operator can compare values of the kind. -/
def Compares (leaf : Leaf) (kind : FieldKind) : Prop := leaf.op = .eq ∨ leaf.op = .ne ∨ kind.Ordered

/-- The field may be NULL and is asked whether it is, or a value that suits it is compared with it. -/
def Acceptable (leaf : Leaf) : Prop :=
  ∃ f, m.field? leaf.field = some f ∧
    (leaf.value = .null ∧ (leaf.op = .eq ∨ leaf.op = .ne) ∧ f.required = false ∨
      leaf.value ≠ .null ∧ leaf.Compares f.kind ∧
        ∃ w, f.coerce leaf.value = .ok w ∧ f.check rules w = .ok ())

/-- Why a leaf is not acceptable. Each reason supposes that those before it do not apply. -/
inductive Refused (leaf : Leaf) : Error → Prop
  | unknownField (hf : m.field? leaf.field = none) : Refused leaf (.compilation m.name (.unknownField leaf.field))
  | nullOperator {f : Field} (hf : m.field? leaf.field = some f) (hnull : leaf.value = .null)
      (hop : ¬(leaf.op = .eq ∨ leaf.op = .ne)) :
      Refused leaf (.compilation m.name (.nullOperator leaf.op leaf.field))
  | neverNull {f : Field} (hf : m.field? leaf.field = some f) (hnull : leaf.value = .null)
      (hop : leaf.op = .eq ∨ leaf.op = .ne) (hrequired : f.required = true) :
      Refused leaf (.validation [⟨leaf.field, .isNull⟩])
  | unordered {f : Field} (hf : m.field? leaf.field = some f) (hnull : leaf.value ≠ .null)
      (hop : ¬leaf.Compares f.kind) : Refused leaf (.compilation m.name (.unsupportedOperator leaf.op leaf.field))
  | unreadable {f : Field} (hf : m.field? leaf.field = some f) (hnull : leaf.value ≠ .null)
      (hop : leaf.Compares f.kind) {e : FieldError} (he : f.coerce leaf.value = .error e) :
      Refused leaf (.validation [e])
  | unsuitable {f : Field} (hf : m.field? leaf.field = some f) (hnull : leaf.value ≠ .null)
      (hop : leaf.Compares f.kind) {w : Value} (hw : f.coerce leaf.value = .ok w) {e : FieldError}
      (he : f.check rules w = .error e) : Refused leaf (.validation [e])

/-- What a leaf becomes: a NULL check, negated for `!=`, or the comparison with the value in the field's form. Only
fields whose literals may not be written into the text have a parameter. -/
inductive Becomes (leaf : Leaf) : Condition → Prop
  | nullCheck {c : Condition} (hnull : leaf.value = .null)
      (hc : c = .nullCheck m.name leaf.field (leaf.op = .ne)) (params : ∀ d, (c.render d).params = []) :
      Becomes leaf c
  | inlined {c : Condition} {f : Field} {w : Value} {sql : String} (hf : m.field? leaf.field = some f)
      (hnull : leaf.value ≠ .null) (hw : f.coerce leaf.value = .ok w) (embeddable : f.embeddable = true)
      (hsql : f.kind.inlineText? w = some sql) (hc : c = .comparison m.name leaf.field leaf.op w (.inlined sql))
      (params : ∀ d, (c.render d).params = []) : Becomes leaf c
  | bound {c : Condition} {f : Field} {w : Value} (hf : m.field? leaf.field = some f)
      (hnull : leaf.value ≠ .null) (hw : f.coerce leaf.value = .ok w) (embeddable : f.embeddable = false)
      (hc : c = .comparison m.name leaf.field leaf.op w .bound) (params : ∀ d, (c.render d).params = [w]) :
      Becomes leaf c

end

variable {m : Model} {rules : Rules} {leaf : Leaf}

theorem requireField_eq {f : Field} (hf : m.field? leaf.field = some f) :
    m.requireField leaf.field = .ok f ∧ f.name = leaf.field := by
  refine ⟨?_, by simpa using List.find?_some hf⟩
  rw [Model.requireField, hf]

theorem isNull_iff {v : Value} : v.isNull = true ↔ v = .null := by
  cases v <;> simp [Value.isNull]

theorem compares_iff {kind : FieldKind} :
    leaf.Compares kind ↔ (leaf.op.isRelational && !kind.isOrdered) = false := by
  rw [Compares, ← or_assoc, ← Operator.isRelational_eq_false_iff, ← FieldKind.isOrdered_iff]
  cases leaf.op.isRelational <;> cases kind.isOrdered <;> simp

/-- A comparison of a field that was found with a value other than NULL. -/
theorem compileLeaf_eq {f : Field} (hf : m.field? leaf.field = some f) (hnull : leaf.value ≠ .null)
    (hop : leaf.Compares f.kind) :
    Condition.compileLeaf m rules leaf.field leaf.op leaf.value = (do
      let w ← (f.coerce leaf.value).mapError .ofField
      (f.check rules w).mapError .ofField
      return .comparison m.name leaf.field leaf.op w (f.literal w)) := by
  obtain ⟨hfound, hname⟩ := requireField_eq hf
  have hnull : ¬leaf.value.isNull = true := mt isNull_iff.1 hnull
  rw [Condition.compileLeaf, hfound]
  show (if leaf.value.isNull then _ else _) = _
  rw [if_neg hnull, compares_iff.1 hop, if_neg Bool.false_ne_true, hname]

theorem compileLeaf_of_acceptable (h : leaf.Acceptable m rules) :
    ∃ c, Condition.compileLeaf m rules leaf.field leaf.op leaf.value = .ok c ∧ leaf.Becomes m c := by
  obtain ⟨f, hf, ⟨hnull, hop, hrequired⟩ | ⟨hnull, hop, w, hw, hchecked⟩⟩ := h
  · obtain ⟨hfound, hname⟩ := requireField_eq hf
    refine ⟨.nullCheck m.name leaf.field (leaf.op = .ne), ?_, .nullCheck hnull rfl fun d => rfl⟩
    rw [Condition.compileLeaf, hfound, hnull]
    show Condition.compileNull m f leaf.op = _
    rw [Condition.compileNull, Operator.isRelational_eq_false_iff.2 hop, hrequired, hname]
    rfl
  · have hwnull : w.isNull = false := by
      rw [Field.isNull_coerce hw, ← Bool.not_eq_true]
      exact mt isNull_iff.1 hnull
    obtain ⟨sql, hsql⟩ := FieldKind.exists_inlineText (Field.coerce_ok_iff.1 (Field.coerce_coerce hw)) hwnull
    refine ⟨.comparison m.name leaf.field leaf.op w (f.literal w), ?_, ?_⟩
    · rw [compileLeaf_eq hf hnull hop, hw]
      show (f.check rules w).mapError Error.ofField >>= _ = _
      rw [hchecked]
      rfl
    · cases hembeddable : f.embeddable with
      | true =>
        have hliteral : f.literal w = .inlined sql := by rw [Field.literal, hsql, hembeddable]; rfl
        refine .inlined hf hnull hw hembeddable hsql (by rw [hliteral]) fun d => ?_
        rw [hliteral]
        rfl
      | false =>
        have hliteral : f.literal w = .bound := by rw [Field.literal, hsql, hembeddable]; rfl
        refine .bound hf hnull hw hembeddable (by rw [hliteral]) fun d => ?_
        rw [hliteral]
        rfl

theorem compileLeaf_of_refused {e : Error} (h : leaf.Refused m rules e) :
    Condition.compileLeaf m rules leaf.field leaf.op leaf.value = .error e := by
  cases h with
  | unknownField hf =>
    rw [Condition.compileLeaf, Model.requireField, hf]
    rfl
  | nullOperator hf hnull hop =>
    obtain ⟨hfound, hname⟩ := requireField_eq hf
    have hop : leaf.op.isRelational = true := by
      rw [← Bool.not_eq_false]
      exact mt Operator.isRelational_eq_false_iff.1 hop
    rw [Condition.compileLeaf, hfound, hnull]
    show Condition.compileNull m _ leaf.op = _
    rw [Condition.compileNull, hop, hname]
    rfl
  | neverNull hf hnull hop hrequired =>
    obtain ⟨hfound, hname⟩ := requireField_eq hf
    rw [Condition.compileLeaf, hfound, hnull]
    show Condition.compileNull m _ leaf.op = _
    rw [Condition.compileNull, Operator.isRelational_eq_false_iff.2 hop, hrequired, hname]
    rfl
  | @unordered f hf hnull hop =>
    obtain ⟨hfound, hname⟩ := requireField_eq hf
    have hop : (leaf.op.isRelational && !f.kind.isOrdered) = true := by
      rw [← Bool.not_eq_false]
      exact mt compares_iff.2 hop
    rw [Condition.compileLeaf, hfound]
    show (if leaf.value.isNull then _ else _) = _
    rw [if_neg (mt isNull_iff.1 hnull), if_pos hop, hname]
    rfl
  | unreadable hf hnull hop he =>
    rw [compileLeaf_eq hf hnull hop, he]
    rfl
  | unsuitable hf hnull hop hw he =>
    rw [compileLeaf_eq hf hnull hop, hw]
    show (Field.check _ rules _).mapError Error.ofField >>= _ = _
    rw [he]
    rfl

theorem acceptable_or_refused (m : Model) (rules : Rules) (leaf : Leaf) :
    leaf.Acceptable m rules ∨ ∃ e, leaf.Refused m rules e := by
  cases hf : m.field? leaf.field with
  | none => exact .inr ⟨_, .unknownField hf⟩
  | some f =>
    by_cases hnull : leaf.value = .null
    · by_cases hop : leaf.op = .eq ∨ leaf.op = .ne
      · cases hrequired : f.required with
        | true => exact .inr ⟨_, .neverNull hf hnull hop hrequired⟩
        | false => exact .inl ⟨f, hf, .inl ⟨hnull, hop, hrequired⟩⟩
      · exact .inr ⟨_, .nullOperator hf hnull hop⟩
    · by_cases hop : leaf.Compares f.kind
      · cases hw : f.coerce leaf.value with
        | error e => exact .inr ⟨_, .unreadable hf hnull hop hw⟩
        | ok w =>
          cases hchecked : f.check rules w with
          | error e => exact .inr ⟨_, .unsuitable hf hnull hop hw hchecked⟩
          | ok _ => exact .inl ⟨f, hf, .inr ⟨hnull, hop, w, hw, hchecked⟩⟩
      · exact .inr ⟨_, .unordered hf hnull hop⟩

end Leaf

/-! ### Predicates -/

namespace Predicate

/-- A condition of the same shape with the same connectives, whose leaves are as related. -/
def Matches (R : Leaf → Condition → Prop) : Predicate → Condition → Prop
  | compare field op value, c => R ⟨field, op, value⟩ c
  | combine left logic right, .combination left' logic' right' =>
    logic' = logic ∧ left.Matches R left' ∧ right.Matches R right'
  | combine _ _ _, _ => False

end Predicate

namespace Condition

variable {m : Model} {rules : Rules}

/-- Where all leaves are acceptable, the condition matches the predicate. -/
theorem compile_of_acceptable {p : Predicate} (h : ∀ leaf ∈ p.leaves, leaf.Acceptable m rules) :
    ∃ c, compile m rules p = .ok c ∧ p.Matches (Leaf.Becomes m) c := by
  induction p with
  | compare field op value => exact Leaf.compileLeaf_of_acceptable (h _ (.head _))
  | combine left logic right ihl ihr =>
    obtain ⟨l, hl, hleft⟩ := ihl fun leaf hleaf => h leaf (List.mem_append_left _ hleaf)
    obtain ⟨r, hr, hright⟩ := ihr fun leaf hleaf => h leaf (List.mem_append_right _ hleaf)
    refine ⟨combination l logic r, ?_, rfl, hleft, hright⟩
    rw [compile, hl, hr]
    rfl

/-- The first leaf that is refused decides. -/
theorem compile_of_refused {p : Predicate} {before after : List Leaf} {leaf : Leaf} {e : Error}
    (hp : p.leaves = before ++ leaf :: after) (hbefore : ∀ l ∈ before, l.Acceptable m rules)
    (h : leaf.Refused m rules e) : compile m rules p = .error e := by
  induction p generalizing before after with
  | compare field op value =>
    cases before with
    | nil =>
      obtain ⟨rfl, -⟩ := List.cons.inj hp
      exact Leaf.compileLeaf_of_refused h
    | cons l more => exact absurd (List.cons.inj hp).2.symm (by simp)
  | combine left logic right ihl ihr =>
    rcases List.append_eq_append_iff.1 hp with ⟨more, rfl, hright⟩ | ⟨more, hleft, hrest⟩
    · -- All leaves on the left are acceptable, and the leaf is one on the right.
      obtain ⟨l, hl, -⟩ := compile_of_acceptable fun k hk => hbefore k (List.mem_append_left _ hk)
      rw [compile, hl]
      show compile m rules right >>= _ = _
      rw [ihr hright fun k hk => hbefore k (List.mem_append_right _ hk)]
      rfl
    · cases more with
      | nil =>
        rw [List.append_nil] at hleft
        obtain ⟨l, hl, -⟩ := compile_of_acceptable (hleft ▸ hbefore)
        rw [compile, hl]
        show compile m rules right >>= _ = _
        have hright : right.leaves = [] ++ leaf :: after := hrest.symm
        rw [ihr hright fun k hk => absurd hk List.not_mem_nil]
        rfl
      | cons k more =>
        obtain ⟨rfl, -⟩ := List.cons.inj hrest
        rw [compile, ihl hleft hbefore]
        rfl

/-- Either all leaves are acceptable, or there is a first one that is refused. -/
theorem acceptable_or_first (m : Model) (rules : Rules) (leaves : List Leaf) :
    (∀ leaf ∈ leaves, leaf.Acceptable m rules) ∨
      ∃ before leaf after e, leaves = before ++ leaf :: after ∧ (∀ l ∈ before, l.Acceptable m rules) ∧
        leaf.Refused m rules e := by
  induction leaves with
  | nil => exact .inl nofun
  | cons leaf rest ih =>
    rcases leaf.acceptable_or_refused m rules with hleaf | ⟨e, he⟩
    · rcases ih with hrest | ⟨before, l, after, e, rfl, hbefore, he⟩
      · exact .inl (List.forall_mem_cons.2 ⟨hleaf, hrest⟩)
      · exact .inr ⟨leaf :: before, l, after, e, rfl, List.forall_mem_cons.2 ⟨hleaf, hbefore⟩, he⟩
    · exact .inr ⟨[], leaf, rest, e, rfl, nofun, he⟩

/-- A predicate is compiled exactly if all its leaves are acceptable, and to a condition of its shape in which each leaf
has become what it asks for. Otherwise the first leaf from the left that is not acceptable is reported, and why. -/
theorem compile_leafwise (m : Model) (rules : Rules) (p : Predicate) :
    ((∃ c, compile m rules p = .ok c) ↔ ∀ leaf ∈ p.leaves, leaf.Acceptable m rules) ∧
    (∀ c, compile m rules p = .ok c → p.Matches (Leaf.Becomes m) c) ∧
    ∀ e, compile m rules p = .error e ↔
      ∃ before leaf after, p.leaves = before ++ leaf :: after ∧ (∀ l ∈ before, l.Acceptable m rules) ∧
        leaf.Refused m rules e := by
  rcases acceptable_or_first m rules p.leaves with hall | ⟨before, leaf, after, e, hp, hbefore, he⟩
  · obtain ⟨c, hc, hmatches⟩ := compile_of_acceptable hall
    refine ⟨iff_of_true ⟨c, hc⟩ hall, fun c' hc' => ?_, fun e => ⟨fun he => ?_, ?_⟩⟩
    · cases hc.symm.trans hc'
      exact hmatches
    · cases hc.symm.trans he
    · rintro ⟨before, leaf, after, hp, hbefore, he⟩
      exact compile_of_refused hp hbefore he
  · have herror := compile_of_refused hp hbefore he
    refine ⟨iff_of_false ?_ fun hall => ?_, fun c hc => ?_, fun e' => ⟨fun he' => ?_, ?_⟩⟩
    · rintro ⟨c, hc⟩
      cases herror.symm.trans hc
    · obtain ⟨c, hc, -⟩ := compile_of_acceptable hall
      cases herror.symm.trans hc
    · cases herror.symm.trans hc
    · cases herror.symm.trans he'
      exact ⟨before, leaf, after, hp, hbefore, he⟩
    · rintro ⟨before, leaf, after, hp, hbefore, he'⟩
      exact compile_of_refused hp hbefore he'

/-! ### Employees -/

def employee : Model where
  name := "Employee"
  fields :=
    [ {Field.shortId "ID" with primaryKey := true}, Field.title "Name", {Field.date "Left" with required := false} ]

/-- One who is not gone, or is called Ada. -/
def isPresentOrAda : Predicate := (Predicate.isNull "Left").or (.equals "Name" (.text "Ada"))

/-- The second leaf is refused for its operator, and the third one would be for its field. -/
def isEarlyOrMissing : Predicate :=
  isPresentOrAda.and ((Predicate.compare "Name" .lt (.text "Eve")).or (.equals "Missing" (.int 1)))

/-- Of the condition for the employees that are present or called Ada, the leaves are a NULL check and a comparison with
a bound name; a name cannot be compared by order, and the field that there is not is not reached. -/
theorem leafwise_employee :
    (∃ c, compile employee (Pattern.rules 0) isPresentOrAda = .ok c ∧
      isPresentOrAda.Matches (Leaf.Becomes employee) c ∧
      c = .combination (.nullCheck "Employee" "Left" false) .or
        (.comparison "Employee" "Name" .eq (.text "Ada") .bound)) ∧
    ∃ before leaf after, isEarlyOrMissing.leaves = before ++ leaf :: after ∧
      (∀ l ∈ before, l.Acceptable employee (Pattern.rules 0)) ∧
      leaf.Refused employee (Pattern.rules 0) (.compilation "Employee" (.unsupportedOperator .lt "Name")) := by
  obtain ⟨-, hmatches, -⟩ := compile_leafwise employee (Pattern.rules 0) isPresentOrAda
  obtain ⟨-, -, herror⟩ := compile_leafwise employee (Pattern.rules 0) isEarlyOrMissing
  exact ⟨⟨_, rfl, hmatches _ rfl, rfl⟩, (herror _).1 rfl⟩

end Condition

end RecordMapper
