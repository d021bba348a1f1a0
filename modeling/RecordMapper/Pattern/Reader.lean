import RecordMapper.Field.Check
import RecordMapper.Pattern.Basic

/-! The written form of patterns.

`^` at the start and `$` at the end are anchors; `+`, `?` and `*` after an item say how
often it is taken; brackets hold a set of characters and ranges; a backslash takes a
character that is no letter or digit as it stands. What is written in this way means the
same to any engine for regular expressions; text in any other form is refused. -/
namespace RecordMapper.Pattern

/-- Characters with a meaning of their own outside brackets. -/
def isSpecial (c : Char) : Bool := c ∈ "^$.|()[]\x7b\x7d+?*\\".toList

/-- Characters that stand for themselves after a backslash. -/
def isEscapable (c : Char) : Bool := c.toNat < 128 && !c.isAlphanum && c ∉ ['<', '>']

/-- The members of a set and the text after its closing bracket. Doubled signs would
combine sets and are refused. -/
def set? : List Char → Option (List (Char × Char) × List Char)
  | [] => none
  | ']' :: rest => some ([], rest)
  | '&' :: '&' :: _ | '~' :: '~' :: _ => none
  | '\\' :: c :: rest =>
    if !isEscapable c then none
    else do
      let r ← set? rest
      return ((c, c) :: r.1, r.2)
  | low :: '-' :: high :: rest =>
    if high ∈ "]-[\\".toList ∨ high < low ∨ low ∈ "-[\\".toList then none
    else do
      let r ← set? rest
      return ((low, high) :: r.1, r.2)
  | c :: rest =>
    if c = '[' ∨ c = '\\' ∨ c = '-' then none
    else do
      let r ← set? rest
      return ((c, c) :: r.1, r.2)

/-- One set of characters and the text after it. -/
def atom? : List Char → Option (List (Char × Char) × List Char)
  | [] => none
  | '[' :: '^' :: _ => none
  | '[' :: rest =>
    match set? rest with
    | some ([], _) => none
    | other => other
  | '\\' :: c :: rest => if isEscapable c then some ([(c, c)], rest) else none
  | c :: rest => if isSpecial c then none else some ([(c, c)], rest)

/-- How often the item before a text is taken, and the text after that mark. -/
def repetition : List Char → Repetition × List Char
  | '+' :: rest => (.oneOrMore, rest)
  | '?' :: rest => (.optional, rest)
  | '*' :: rest => (.zeroOrMore, rest)
  | rest => (.once, rest)

/-- Items up to the end of the text, and whether an anchor ends them. The fuel bounds
their number. -/
def itemsWithin? : Nat → List Char → Option (List PatternItem × Bool)
  | _, [] => some ([], false)
  | _, ['$'] => some ([], true)
  | 0, _ => none
  | fuel + 1, s => do
    let (ranges, rest) ← atom? s
    let (taken, rest) := repetition rest
    let r ← itemsWithin? fuel rest
    return (⟨ranges, taken⟩ :: r.1, r.2)

/-- The pattern that a text denotes, if it is one. -/
def ofText? (s : String) : Option Pattern :=
  let (atStart, rest) := match s.toList with
    | '^' :: rest => (true, rest)
    | rest => (false, rest)
  (itemsWithin? rest.length rest).map fun r => ⟨atStart, r.1, r.2⟩

/-- The engine for patterns in this form. -/
def engine : PatternEngine where
  read text :=
    match ofText? text with
    | some p => .ok p.accepts
    | none => .error "the form of the expression is not supported"

/-- Rules around a day, with this engine. -/
def rules (today : Int32) : Rules := ⟨today, engine⟩

end RecordMapper.Pattern
