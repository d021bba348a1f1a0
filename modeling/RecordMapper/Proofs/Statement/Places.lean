import RecordMapper.Proofs.Condition.Compile
import RecordMapper.Proofs.Statement.Template
import RecordMapper.Statement.Write

/-! Where the bound values of conditions and written values stand.

Every part of a statement that can bind a value is written here once more as a template, in which
the value stands at its place: on the right of its comparison, or among the written values. What
the parts give is the fragment of their template, and all text in it is balanced, whatever names and
literals it is made of. -/
namespace RecordMapper

/-! ### Conditions -/

namespace Condition

def literalPiece (v : Value) : Literal → Piece
  | .inlined sql => .text sql
  | .bound => .place v

/-- A template between parentheses if it is written for a combination. -/
def operandTemplate (c : Condition) (t : Template) : Template :=
  if c.isCombination then [.text "("] ++ t ++ [.text ")"] else t

def template (d : Dialect) : Condition → Template
  | comparison table field op v literal =>
    [.text (d.qualify table field ++ " " ++ op.sql ++ " "), literalPiece v literal]
  | nullCheck table field negated =>
    [.text (d.qualify table field ++ if negated then " IS NOT NULL" else " IS NULL")]
  | combination left logic right =>
    left.operandTemplate (left.template d) ++ [.text (" " ++ logic.sql ++ " ")] ++
      right.operandTemplate (right.template d)

/-- The literals that are bound, from left to right. -/
def boundValues : Condition → List Value
  | comparison _ _ _ v .bound => [v]
  | comparison _ _ _ _ (.inlined _) => []
  | nullCheck _ _ _ => []
  | combination left _ right => left.boundValues ++ right.boundValues

theorem fragment_operandTemplate (c : Condition) (t : Template) :
    Template.fragment (c.operandTemplate t) = c.operand (Template.fragment t) := by
  unfold operandTemplate operand
  split
  · simp only [Template.fragment_append, Template.fragment_text]
  · rfl

theorem values_operandTemplate (c : Condition) (t : Template) :
    Template.values (c.operandTemplate t) = Template.values t := by
  unfold operandTemplate
  split
  · simp [Template.values_append, Template.values]
  · rfl

theorem balanced_operandTemplate (c : Condition) {t : Template} (h : t.Balanced) :
    (c.operandTemplate t).Balanced := by
  unfold operandTemplate
  split
  · exact ((Template.balanced_text (by decide)).append h).append (Template.balanced_text (by decide))
  · exact h

theorem fragment_template (d : Dialect) (c : Condition) :
    Template.fragment (c.template d) = c.render d := by
  induction c with
  | comparison table field op v literal =>
    cases literal with
    | inlined sql => simp only [template, literalPiece, Template.fragment, Fragment.append_empty]; rfl
    | bound => simp only [template, literalPiece, Template.fragment, Fragment.append_empty]; rfl
  | nullCheck table field negated => exact Template.fragment_text _
  | combination left logic right ihl ihr =>
    simp only [template, render, Template.fragment_append, Template.fragment_text,
      fragment_operandTemplate, ihl, ihr]

theorem values_template (d : Dialect) (c : Condition) : Template.values (c.template d) = c.boundValues := by
  induction c with
  | comparison table field op v literal => cases literal <;> rfl
  | nullCheck table field negated => rfl
  | combination left logic right ihl ihr =>
    simp [template, boundValues, Template.values_append, Template.values, values_operandTemplate, ihl, ihr]

theorem balanced_sqlLiteral {v : Value} {sql : String} (h : v.sqlLiteral? = some sql) :
    Dialect.Balanced sql := by
  unfold Value.sqlLiteral? at h
  split at h
  · cases h
    decide
  · cases h
    split <;> decide
  · cases h
    exact Dialect.balanced_ofInt _
  · cases h
    exact Dialect.balanced_ofInt _
  · cases h
  · cases h
    exact Dialect.balanced_quoted rfl _

/-- Whatever a literal says, its text can stand anywhere. -/
theorem balanced_literal {f : Field} {v : Value} {sql : String} (h : f.literal v = .inlined sql) :
    Dialect.Balanced sql := by
  unfold Field.literal at h
  split at h
  · next inlined hinline =>
    split at h
    · cases h
      unfold FieldKind.inlineText? at hinline
      split at hinline
      · obtain ⟨n, _, rfl⟩ := Option.map_eq_some_iff.1 hinline
        exact Dialect.balanced_ofInt n
      · obtain ⟨b, _, rfl⟩ := Option.map_eq_some_iff.1 hinline
        cases b <;> decide
      · exact balanced_sqlLiteral hinline
    · cases h
  · cases h

theorem balanced_template (d : Dialect) {P : Value → Prop} {m : Model} {rules : Rules} {c : Condition}
    (h : c.CompiledFor P m rules) : (c.template d).Balanced := by
  induction c with
  | comparison table field op v literal =>
    obtain ⟨_, f, hf⟩ := h
    have hstart : Dialect.Balanced (d.qualify table field ++ " " ++ op.sql ++ " ") := by
      refine (((d.balanced_qualify table field).append (by decide)).append ?_).append (by decide)
      cases op <;> decide
    refine Template.Balanced.append (Template.balanced_text hstart) (b := [literalPiece v literal]) ?_
    cases literal with
    | inlined sql => exact Template.balanced_text (balanced_literal hf.literal.symm)
    | bound => exact Template.balanced_place v
  | nullCheck table field negated =>
    refine Template.balanced_text ((d.balanced_qualify table field).append ?_)
    cases negated <;> decide
  | combination left logic right ihl ihr =>
    have hlogic : Dialect.Balanced (" " ++ logic.sql ++ " ") := by
      cases logic <;> decide
    exact ((left.balanced_operandTemplate (ihl h.1)).append (Template.balanced_text hlogic)).append
      (right.balanced_operandTemplate (ihr h.2))

end Condition

/-- The condition of a statement, if it has one. -/
def whereTemplate (d : Dialect) : Option Condition → Template
  | some c => [.text " WHERE "] ++ c.template d
  | none => []

theorem fragment_whereTemplate (d : Dialect) (filter : Option Condition) :
    Template.fragment (whereTemplate d filter) = whereClause d filter := by
  cases filter with
  | some c =>
    simp only [whereTemplate, whereClause, Template.fragment_append, Template.fragment_text,
      Condition.fragment_template]
  | none => rfl

theorem values_whereTemplate (d : Dialect) (filter : Option Condition) :
    Template.values (whereTemplate d filter) = filter.toList.flatMap Condition.boundValues := by
  cases filter with
  | some c => simp [whereTemplate, Template.values, Condition.values_template]
  | none => rfl

theorem balanced_whereTemplate (d : Dialect) {filter : Option Condition}
    (h : ∀ c ∈ filter, ∃ m rules, c.CompiledFor (fun _ => True) m rules) : (whereTemplate d filter).Balanced := by
  cases filter with
  | some c =>
    obtain ⟨m, rules, hc⟩ := h c rfl
    exact (Template.balanced_text (by decide)).append (Condition.balanced_template d hc)
  | none => exact Template.balanced_nil

/-! ### Written values -/

namespace Assignment

def valuePiece (a : Assignment) (table : String) (d : Dialect) : Piece :=
  match a.value with
  | .null => .text "NULL"
  | .text variant =>
    if a.isEnum && d.castsEnums then .text (d.enumLiteral table a.column variant) else .place a.value
  | v => .place v

/-- The written value, if it is bound. -/
def bound? (a : Assignment) (d : Dialect) : Option Value :=
  match a.value with
  | .null => none
  | .text _ => if a.isEnum && d.castsEnums then none else some a.value
  | v => some v

/-- The column and its value as a term of a SET clause. -/
def setTemplate (a : Assignment) (table : String) (d : Dialect) : Template :=
  [.text (d.quoteIdentifier a.column ++ " = ")] ++ [a.valuePiece table d]

section

variable (a : Assignment) (table : String) (d : Dialect)

theorem fragment_valuePiece : Template.fragment [a.valuePiece table d] = a.valueFragment table d := by
  obtain ⟨column, v, isEnum⟩ := a
  cases v with
  | null => exact Template.fragment_text _
  | text variant =>
    unfold valuePiece valueFragment
    dsimp only
    split
    · exact Template.fragment_text _
    · exact Template.fragment_place _
  | _ => exact Template.fragment_place _

theorem values_valuePiece : Template.values [a.valuePiece table d] = (a.bound? d).toList := by
  obtain ⟨column, v, isEnum⟩ := a
  cases v with
  | text variant =>
    unfold valuePiece bound?
    dsimp only
    split <;> rfl
  | _ => rfl

theorem balanced_valuePiece : Template.Balanced [a.valuePiece table d] := by
  unfold valuePiece
  split
  · exact Template.balanced_text (by decide)
  · split
    · exact Template.balanced_text (d.balanced_enumLiteral _ _ _)
    · exact Template.balanced_place _
  · exact Template.balanced_place _

theorem fragment_setTemplate : Template.fragment (a.setTemplate table d) = a.setFragment table d := by
  rw [setTemplate, Template.fragment_append, Template.fragment_text, fragment_valuePiece]
  rfl

theorem values_setTemplate : Template.values (a.setTemplate table d) = (a.bound? d).toList := by
  rw [setTemplate, Template.values_append, values_valuePiece]
  rfl

theorem balanced_setTemplate : Template.Balanced (a.setTemplate table d) :=
  (Template.balanced_text ((d.balanced_quoteIdentifier a.column).append (by decide))).append
    (a.balanced_valuePiece table d)

end

end Assignment

end RecordMapper
