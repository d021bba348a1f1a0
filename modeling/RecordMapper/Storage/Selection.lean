import RecordMapper.Dialect.Basic
import RecordMapper.Row
import RecordMapper.Storage.Configuration
import RecordMapper.Storage.Literal

/-! Queries of constants and bound values, without any table.

A constant stands in the text of the query as it is written, so the query can fail before
it is run: at a NUL character in the name of a column, at a constant that cannot be read,
or because there are no columns or too many. -/
namespace RecordMapper.Storage

/-- The error of a statement. -/
def statementError (state : Option String) (message sql : String) : Error :=
  Classifier.sqlite.error state message (some sql)

/-- A statement is given as many values as it has parameters. -/
def checkCount (expected given : Nat) : Except Error Unit :=
  if expected = given then .ok () else .error (.consistency (.parameterCount expected given))

/-! ### Terms -/

inductive SelectedTerm where
  | parameter
  /-- A numeric literal. -/
  | number (literal : String)
  /-- Bytes in hexadecimal digits, two to a byte. -/
  | blob (hex : String)
  deriving DecidableEq, Inhabited

namespace SelectedTerm

/-- The bytes that hexadecimal digits stand for. -/
def bytes? : List Char → Option (List Nat)
  | [] => some []
  | a :: b :: rest => do
    return ((← Text.hexValue? a) * 16 + (← Text.hexValue? b)) :: (← bytes? rest)
  | _ => none

/-- A term as it is written. Parameters carry their number. -/
def text (number : Nat) : SelectedTerm → String
  | parameter => Dialect.sqlite.placeholder number
  | .number literal => literal
  | blob hex => "x'" ++ hex ++ "'"

/-- The cell of a constant; a parameter has none of its own. -/
def cell? : SelectedTerm → Option Stored
  | parameter => none
  | number literal => Stored.ofLiteral? literal.toList
  | blob hex => (bytes? hex.toList).map .blob

/-- Whether a term cannot be read. -/
def isUnreadable (term : SelectedTerm) : Bool := term ≠ parameter && term.cell?.isNone

end SelectedTerm

/-- Terms with the names of their columns. -/
abbrev Selection := List (SelectedTerm × String)

namespace Selection

def parameterCount (s : Selection) : Nat := s.countP (·.1 = .parameter)

/-- The columns of the query as they are written, the first parameter having a given number. -/
def columnTexts (number : Nat) : Selection → List String
  | [] => []
  | (term, name) :: rest =>
    let next := if term = .parameter then number + 1 else number
    (term.text number ++ " AS " ++ Dialect.sqlite.quoteIdentifier name) :: columnTexts next rest

def text (s : Selection) : String := "SELECT " ++ String.intercalate ", " (s.columnTexts 1)

/-- A query has at most this many columns. -/
def maxColumns : Nat := 2000

/-- What is wrong with a query before it is run. -/
def fault? (s : Selection) : Option Error :=
  let fault := statementError (some "1")
  if hasNul s.text then some (statementError none "SQL contains null byte" s.text)
  else if s.isEmpty then some (fault "incomplete input" s.text)
  else match s.find? (·.1.isUnreadable) with
    | some (term, _) => some (fault ("unrecognized token: \"" ++ term.text 0 ++ "\"") s.text)
    | none =>
      if maxColumns < s.length then some (fault "too many columns in result set" s.text) else none

/-- The cells of the terms; each parameter takes the next of the bound values. -/
def cells : Selection → List Value → List Stored
  | [], _ => []
  | (.parameter, _) :: rest, v :: params => Stored.ofValue v :: cells rest params
  | (.parameter, _) :: rest, [] => .null :: cells rest []
  | (term, _) :: rest, params => term.cell?.getD .null :: cells rest params

/-- The row that the selection is, with values bound to its parameters in turn. -/
def run (s : Selection) (params : List Value) : Except Error Row := do
  if let some e := s.fault? then throw e
  checkCount s.parameterCount params.length
  return ⟨s.map (·.2), (s.cells params).map Stored.toValue⟩

end Selection

end RecordMapper.Storage
