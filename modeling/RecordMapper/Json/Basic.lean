/-! JSON documents.

A document is a tree. Numbers written as integers are kept exactly and apart from
the others, which are doubles. The members of an object are held as a list; in a
`tidy` document they ascend by key and no key occurs twice, and two tidy documents
with the same members are the same tree. -/
namespace RecordMapper

inductive Json where
  | null
  | bool (b : Bool)
  | int (n : Int)
  | float (x : Float)
  | str (s : String)
  | arr (items : List Json)
  | obj (members : List (String × Json))
  deriving Inhabited

namespace Json

/-- The word for the kind of a document in messages. -/
def kind : Json → String
  | null => "null"
  | bool _ => "boolean"
  | int _ => "number"
  | float _ => "number"
  | str _ => "string"
  | arr _ => "array"
  | obj _ => "object"

/-! ### Comparison -/

mutual

/-- Whether two documents have the same tree; doubles are compared by `eq`. -/
def matching (eq : Float → Float → Bool) : Json → Json → Bool
  | null, null => true
  | bool a, bool b => a == b
  | int a, int b => a == b
  | float a, float b => eq a b
  | str a, str b => a == b
  | arr a, arr b => matchingItems eq a b
  | obj a, obj b => matchingMembers eq a b
  | _, _ => false

def matchingItems (eq : Float → Float → Bool) : List Json → List Json → Bool
  | [], [] => true
  | a :: as, b :: bs => matching eq a b && matchingItems eq as bs
  | _, _ => false

def matchingMembers (eq : Float → Float → Bool) : List (String × Json) → List (String × Json) → Bool
  | [], [] => true
  | (k, a) :: as, (l, b) :: bs => k == l && matching eq a b && matchingMembers eq as bs
  | _, _ => false

end

/-- Equal as documents: doubles are compared as numbers, so the two zeros agree. -/
def equal : Json → Json → Bool := matching (· == ·)

/-- Bit for bit the same document. -/
def same : Json → Json → Bool := matching (fun a b => decide (a = b))

mutual

theorem same_iff : (a b : Json) → (matching (fun x y => decide (x = y)) a b = true ↔ a = b)
  | null, b => by cases b <;> simp [matching]
  | bool _, b => by cases b <;> simp [matching]
  | int _, b => by cases b <;> simp [matching]
  | float _, b => by cases b <;> simp [matching]
  | str _, b => by cases b <;> simp [matching]
  | arr a, b => by
    cases b <;> simp [matching]
    exact sameItems_iff a _
  | obj a, b => by
    cases b <;> simp [matching]
    exact sameMembers_iff a _

theorem sameItems_iff :
    (a b : List Json) → (matchingItems (fun x y => decide (x = y)) a b = true ↔ a = b)
  | [], b => by cases b <;> simp [matchingItems]
  | a :: as, b => by
    cases b with
    | nil => simp [matchingItems]
    | cons b bs => simp [matchingItems, same_iff a b, sameItems_iff as bs]

theorem sameMembers_iff :
    (a b : List (String × Json)) →
      (matchingMembers (fun x y => decide (x = y)) a b = true ↔ a = b)
  | [], b => by cases b <;> simp [matchingMembers]
  | (k, a) :: as, b => by
    cases b with
    | nil => simp [matchingMembers]
    | cons b bs =>
      obtain ⟨l, b⟩ := b
      simp [matchingMembers, same_iff a b, sameMembers_iff as bs]

end

instance : DecidableEq Json := fun a b => decidable_of_iff _ (same_iff a b)

/-! ### Members in order -/

/-- Puts a member at its place among ascending ones; a member with the same key gives way. -/
def putMember (key : String) (value : Json) : List (String × Json) → List (String × Json)
  | [] => [(key, value)]
  | (k, v) :: rest =>
    if key = k then (key, value) :: rest
    else if key < k then (key, value) :: (k, v) :: rest
    else (k, v) :: putMember key value rest

mutual

/-- The document with the members of every object ascending and, of those with the
same key, only the last. -/
def tidy : Json → Json
  | arr items => arr (tidyItems items)
  | obj members => obj (tidyMembers [] members)
  | other => other

def tidyItems : List Json → List Json
  | [] => []
  | item :: rest => tidy item :: tidyItems rest

def tidyMembers (done : List (String × Json)) : List (String × Json) → List (String × Json)
  | [] => done
  | (key, value) :: rest => tidyMembers (putMember key (tidy value) done) rest

end

end Json

end RecordMapper
