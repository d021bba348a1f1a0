import RecordMapper.Condition.Predicate
import RecordMapper.Document.Names
import RecordMapper.Document.Values

/-! Predicates and conditions as JSON documents.

A tree is an object: a leaf, or a list of trees under the name of a connective. The trees
of a list are joined from the left, or from the right where the name says so. -/
namespace RecordMapper.Document

/-- Joins trees from the left. -/
def joinLeft? {α : Type} (join : α → α → α) : List α → Option α
  | [] => none
  | a :: rest => some (rest.foldl join a)

/-- Joins trees from the right. -/
def joinRight? {α : Type} (join : α → α → α) : List α → Option α
  | [] => none
  | a :: rest =>
    match joinRight? join rest with
    | some b => some (join a b)
    | none => some a

/-- How the trees of a list are joined, if a name is that of a connective. -/
def joining? {α : Type} (join : Connective → α → α → α) : String → Option (List α → Option α)
  | "and" => some (joinLeft? (join .and))
  | "or" => some (joinLeft? (join .or))
  | "and_r" => some (joinRight? (join .and))
  | "or_r" => some (joinRight? (join .or))
  | _ => none

mutual

/-- Reads a tree, given how leaves are read and how trees are joined. -/
def tree? {α : Type} (leaf : Json → Option α) (join : Connective → α → α → α) : Json → Option α
  | .obj members => joined? leaf join (.obj members) members
  | _ => none

/-- Reads a list of trees from among the members, or else the whole as a leaf. -/
def joined? {α : Type} (leaf : Json → Option α) (join : Connective → α → α → α) (whole : Json) :
    List (String × Json) → Option α
  | [] => leaf whole
  | (key, .arr items) :: rest =>
    match joining? join key with
    | some joinAll => (trees? leaf join items).bind joinAll
    | none => joined? leaf join whole rest
  | _ :: rest => joined? leaf join whole rest

def trees? {α : Type} (leaf : Json → Option α) (join : Connective → α → α → α) :
    List Json → Option (List α)
  | [] => some []
  | j :: rest => do
    let a ← tree? leaf join j
    let more ← trees? leaf join rest
    return a :: more

end

def predicateLeaf? (j : Json) : Option Predicate := do
  let field ← j.text? "f"
  match ← j.text? "op" with
  | "is_null" => return .isNull field
  | "is_not_null" => return .isNotNull field
  | op => return .compare field (← named? operators op) (← value? (j.get "v"))

def predicate? : Json → Option Predicate := tree? predicateLeaf? fun c a b => .combine a c b

def conditionLeaf? (j : Json) : Option Condition := do
  let table ← j.text? "t"
  let field ← j.text? "f"
  match ← (j.get "null_check").orNull? Json.asBool? with
  | some negated => return .nullCheck table field negated
  | none =>
    let literal := match ← j.textOrNull? "inline" with
      | some sql => Literal.inlined sql
      | none => .bound
    return .comparison table field (← named? operators (← j.text? "op")) (← value? (j.get "v")) literal

def condition? : Json → Option Condition := tree? conditionLeaf? fun c a b => .combination a c b

end RecordMapper.Document
