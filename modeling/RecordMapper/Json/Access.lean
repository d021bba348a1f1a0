import RecordMapper.Json.Basic
import RecordMapper.KeyedList

/-! Taking documents apart.

A member or an item that is not there counts as null, and null counts as an empty list, so
that a document may leave out what it has nothing to say about. -/
namespace RecordMapper.Json

/-- The member under a key. -/
def get (j : Json) (key : String) : Json :=
  match j with
  | obj members => (KeyedList.get? key members).getD null
  | _ => null

/-- The item at a position. -/
def item (j : Json) (index : Nat) : Json :=
  match j with
  | arr items => items[index]?.getD null
  | _ => null

def asText? : Json → Option String
  | str s => some s
  | _ => none

def asInt? : Json → Option Int
  | int n => some n
  | _ => none

def asNat? (j : Json) : Option Nat := j.asInt?.bind Int.toNat?

def asBool? : Json → Option Bool
  | bool b => some b
  | _ => none

def asList? : Json → Option (List Json)
  | arr items => some items
  | null => some []
  | _ => none

/-- Reads what may be left out. -/
def orNull? {α : Type} (read : Json → Option α) : Json → Option (Option α)
  | null => some none
  | j => (read j).map some

/-- Reads all items of a list. -/
def listOf? {α : Type} (read : Json → Option α) (j : Json) : Option (List α) := do
  (← j.asList?).mapM read

/-! ### Members by type -/

def text? (j : Json) (key : String) : Option String := (j.get key).asText?
def int? (j : Json) (key : String) : Option Int := (j.get key).asInt?
def nat? (j : Json) (key : String) : Option Nat := (j.get key).asNat?
def list? {α : Type} (j : Json) (key : String) (read : Json → Option α) : Option (List α) :=
  (j.get key).listOf? read

/-- A text that may be left out. -/
def textOrNull? (j : Json) (key : String) : Option (Option String) := (j.get key).orNull? asText?

/-- A boolean that has a default. -/
def boolOr? (j : Json) (key : String) (default : Bool) : Option Bool :=
  ((j.get key).orNull? asBool?).map (·.getD default)

/-- A number that has a default. -/
def natOr? (j : Json) (key : String) (default : Nat) : Option Nat :=
  ((j.get key).orNull? asNat?).map (·.getD default)

/-! ### Writing -/

def ofNat (n : Nat) : Json := int (Int.ofNat n)
def ofChars (s : List Char) : Json := str (String.ofList s)
def ofTexts (texts : List String) : Json := arr (texts.map str)

/-- What is missing becomes null. -/
def ofOption {α : Type} (write : α → Json) : Option α → Json
  | some a => write a
  | none => null

end RecordMapper.Json
