import RecordMapper.Condition.Operator
import RecordMapper.Instance.Basic
import RecordMapper.Statement.Fragment

/-! Conditions on the rows of a model.

One tree is both written as SQL, by `render`, and decided for an instance in memory, by
`evaluate`, so that a database and a cache can agree on which rows are meant. -/
namespace RecordMapper

/-- How the literal of a comparison is written: as SQL text, or as a bound value. -/
inductive Literal where
  | inlined (sql : String)
  | bound
  deriving DecidableEq, Inhabited

inductive Condition where
  | comparison (table field : String) (op : Operator) (value : Value) (literal : Literal)
  | nullCheck (table field : String) (negated : Bool)
  | combination (left : Condition) (logic : Connective) (right : Condition)
  deriving DecidableEq, Inhabited

namespace Condition

def isCombination : Condition → Bool
  | combination _ _ _ => true
  | _ => false

def leafCount : Condition → Nat
  | combination left _ right => left.leafCount + right.leafCount
  | _ => 1

/-! ### As SQL -/

/-- The right side of a comparison. -/
def literalFragment (value : Value) : Literal → Fragment
  | .inlined sql => .raw sql
  | .bound => .param value

/-- A fragment between parentheses if it is written for a combination. -/
def operand (c : Condition) (f : Fragment) : Fragment :=
  if c.isCombination then .raw "(" ++ f ++ .raw ")" else f

/-- A combination inside another one stands between parentheses, nothing else does. -/
def render (d : Dialect) : Condition → Fragment
  | comparison table field op value literal =>
    .raw (d.qualify table field ++ " " ++ op.sql ++ " ") ++ literalFragment value literal
  | nullCheck table field negated =>
    .raw (d.qualify table field ++ if negated then " IS NOT NULL" else " IS NULL")
  | combination left logic right =>
    operand left (render d left) ++ .raw (" " ++ logic.sql ++ " ") ++ operand right (render d right)

/-! ### In memory -/

/-- Whether a comparison holds of a current value; with NULL it never does. -/
def comparisonHolds (op : Operator) (current value : Value) : Bool :=
  (current.compare? value).any op.holds

/-- Decides a condition by the current values of an instance. -/
def evaluate (i : Instance) : Condition → Bool
  | comparison _ field op value _ => (i.get? field).any fun current => comparisonHolds op current value
  | nullCheck _ field negated => ((i.get? field).all Value.isNull) != negated
  | combination left logic right => logic.apply (evaluate i left) (evaluate i right)

end Condition

/-- SQL text for a value, if it can be written without being bound. -/
def Value.sqlLiteral? : Value → Option String
  | .null => some "NULL"
  | .bool b => some (if b then "true" else "false")
  | .int n => some (Text.ofInt n.toInt)
  | .bigInt n => some (Text.ofInt n.toInt)
  | .json _ => none
  | other => some (Text.quoted '\'' other.plainText)

end RecordMapper
