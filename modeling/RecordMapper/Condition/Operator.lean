/-! Comparison operators and boolean connectives. -/
namespace RecordMapper

inductive Operator where
  | eq | ne | lt | le | gt | ge
  deriving DecidableEq, Inhabited

namespace Operator

def sql : Operator → String
  | eq => "="
  | ne => "!="
  | lt => "<"
  | le => "<="
  | gt => ">"
  | ge => ">="

/-- Whether the operator asks for the order of its operands, not for equality. -/
def isRelational : Operator → Bool
  | eq => false
  | ne => false
  | _ => true

/-- Whether a comparison holds when its left side stands in this order to its right side. -/
def holds : Operator → Ordering → Bool
  | eq, o => o == .eq
  | ne, o => o != .eq
  | lt, o => o == .lt
  | le, o => o != .gt
  | gt, o => o == .gt
  | ge, o => o != .lt

end Operator

inductive Connective where
  | and | or
  deriving DecidableEq, Inhabited

namespace Connective

def sql : Connective → String
  | and => "AND"
  | or => "OR"

def apply : Connective → Bool → Bool → Bool
  | and, a, b => a && b
  | or, a, b => a || b

end Connective

end RecordMapper
