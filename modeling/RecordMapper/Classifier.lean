import RecordMapper.Error
import RecordMapper.KeyedList

/-! What the states reported by a database mean. -/
namespace RecordMapper

/-- A table from states to their meaning. -/
structure Classifier where
  entries : List (String × DatabaseCode)
  deriving DecidableEq, Inhabited

namespace Classifier

def empty : Classifier := ⟨[]⟩

/-- Adds a meaning, in place of an earlier one for the same state. -/
def add (c : Classifier) (state : String) (code : DatabaseCode) : Classifier :=
  ⟨KeyedList.put state code c.entries⟩

/-- The state classes of standard SQL. -/
def postgres : Classifier :=
  ⟨[("00000", .success), ("23505", .duplicateEntry), ("23503", .foreignKeyViolation),
    ("42P01", .invalidModel), ("42703", .invalidField)]⟩

/-- Extended result codes in decimal. -/
def sqlite : Classifier :=
  ⟨[("0", .success), ("2067", .duplicateEntry), ("1555", .duplicateEntry),
    ("787", .foreignKeyViolation)]⟩

/-- The meaning of a state; a missing or unlisted state is unknown. -/
def classify (c : Classifier) (state : Option String) : DatabaseCode :=
  match state with
  | some state => (KeyedList.get? state c.entries).getD .unknown
  | none => .unknown

/-- The error of a failure with a state. -/
def error (c : Classifier) (state : Option String) (message : String) (sql : Option String) : Error :=
  .database {code := c.classify state, state, message, sql}

end Classifier

end RecordMapper
