/-! Patterns for text: the plainest regular expressions.

A pattern is a sequence of items with an optional anchor at each end. An item is a set of
characters, taken once, at most once, at least once, or any number of times. Without an
anchor a pattern may match anywhere in the text. -/
namespace RecordMapper

/-- How often an item is taken. -/
inductive Repetition where
  | once | optional | oneOrMore | zeroOrMore
  deriving DecidableEq, Inhabited

/-- Characters given as closed ranges, and how often one of them is taken. -/
structure PatternItem where
  ranges : List (Char × Char)
  repetition : Repetition
  deriving DecidableEq, Inhabited

structure Pattern where
  atStart : Bool
  items : List PatternItem
  atEnd : Bool
  deriving DecidableEq, Inhabited

namespace PatternItem

def accepts (item : PatternItem) (c : Char) : Bool :=
  item.ranges.any fun range => range.1 ≤ c && c ≤ range.2

/-- What can be left of a text after any number of characters of the item. -/
def repeated (item : PatternItem) : List Char → List (List Char)
  | [] => [[]]
  | c :: rest => (c :: rest) :: if item.accepts c then item.repeated rest else []

/-- What can be left of a text after the item. -/
def rests (item : PatternItem) (s : List Char) : List (List Char) :=
  let afterOne := match s with
    | c :: rest => if item.accepts c then [rest] else []
    | [] => []
  match item.repetition with
  | .once => afterOne
  | .optional => s :: afterOne
  | .oneOrMore => afterOne.flatMap item.repeated
  | .zeroOrMore => item.repeated s

end PatternItem

namespace Pattern

/-- What can be left of a text after all items in turn. -/
def restsOf (items : List PatternItem) (s : List Char) : List (List Char) :=
  items.foldl (fun left item => left.flatMap item.rests) [s]

/-- Whether the pattern matches at the very start of a text. -/
def matchesHere (p : Pattern) (s : List Char) : Bool :=
  (restsOf p.items s).any fun left => !p.atEnd || left.isEmpty

/-- Whether the pattern matches somewhere in a text. -/
def matchesWithin (p : Pattern) : List Char → Bool
  | [] => p.matchesHere []
  | c :: rest => p.matchesHere (c :: rest) || p.matchesWithin rest

/-- Whether the pattern matches a text. -/
def accepts (p : Pattern) (s : String) : Bool :=
  if p.atStart then p.matchesHere s.toList else p.matchesWithin s.toList

end Pattern

end RecordMapper
