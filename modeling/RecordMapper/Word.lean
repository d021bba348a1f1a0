/-! Integers that fit a machine word. -/
namespace RecordMapper

/-- The word of 32 bits that holds an integer, if one does. -/
def int32? (n : Int) : Option Int32 :=
  if -2147483648 ≤ n ∧ n ≤ 2147483647 then some (Int32.ofInt n) else none

/-- The word of 64 bits that holds an integer, if one does. -/
def int64? (n : Int) : Option Int64 :=
  if -9223372036854775808 ≤ n ∧ n ≤ 9223372036854775807 then some (Int64.ofInt n) else none

/-- The word of 64 bits nearest to an integer. -/
def int64Saturated (n : Int) : Int64 :=
  match int64? n with
  | some w => w
  | none => if n < 0 then Int64.minValue else Int64.maxValue

end RecordMapper
