import RecordMapper.Json.Number

/-! Reading JSON text.

`parse?` reads one document with blanks around it and refuses everything else: more
text after the document, raw control characters or lone surrogates in strings,
numbers out of range, and arrays and objects nested deeper than a given depth. -/
namespace RecordMapper.Json

/-- Blanks between tokens. -/
def isGap (c : Char) : Bool := c = ' ' || c = '\n' || c = '\r' || c = '\t'

def skipGaps (s : List Char) : List Char := s.dropWhile isGap

/-- The text after a given word, if the text starts with it. -/
def expect? : List Char → List Char → Option (List Char)
  | [], rest => some rest
  | _ :: _, [] => none
  | w :: word, c :: rest => if w = c then expect? word rest else none

/-! ### Strings -/

/-- The value of four hexadecimal digits. -/
def hexUnit? (a b c d : Char) : Option Nat := do
  return (((← Text.hexValue? a) * 16 + (← Text.hexValue? b)) * 16 + (← Text.hexValue? c)) * 16 +
    (← Text.hexValue? d)

/-- The character that a letter stands for after a backslash. -/
def unescapeLetter? (c : Char) : Option Char :=
  if c = '"' then some '"'
  else if c = '\\' then some '\\'
  else if c = '/' then some '/'
  else if c = 'n' then some '\n'
  else if c = 'r' then some '\r'
  else if c = 't' then some '\t'
  else if c = 'b' then some '\x08'
  else if c = 'f' then some '\x0c'
  else none

/-- The character of two units of sixteen bits, if they are a high and a low surrogate. -/
def surrogatePair? (high low : Nat) : Option Char :=
  if 0xD800 ≤ high ∧ high < 0xDC00 ∧ 0xDC00 ≤ low ∧ low < 0xE000 then
    some (Char.ofNat (0x10000 + (high - 0xD800) * 0x400 + (low - 0xDC00)))
  else none

/-- The character of one unit of sixteen bits, if it is no surrogate. -/
def unitChar? (unit : Nat) : Option Char :=
  if 0xD800 ≤ unit ∧ unit < 0xE000 then none else some (Char.ofNat unit)

def isHighSurrogate (unit : Nat) : Bool := 0xD800 ≤ unit && unit < 0xDC00

/-- The rest of a string after its opening quote: its characters, and the text after
the closing quote. A high surrogate waits for the low one that must follow at once. -/
def stringFrom? : Option Nat → List Char → Option (List Char × List Char)
  | none, '"' :: rest => some ([], rest)
  | waiting, '\\' :: 'u' :: a :: b :: c :: d :: rest => do
    let unit ← hexUnit? a b c d
    match waiting with
    | some high =>
      let char ← surrogatePair? high unit
      let r ← stringFrom? none rest
      return (char :: r.1, r.2)
    | none =>
      if isHighSurrogate unit then stringFrom? (some unit) rest
      else
        let char ← unitChar? unit
        let r ← stringFrom? none rest
        return (char :: r.1, r.2)
  | none, '\\' :: letter :: rest => do
    let char ← unescapeLetter? letter
    let r ← stringFrom? none rest
    return (char :: r.1, r.2)
  | none, c :: rest =>
    if c.toNat < 0x20 ∨ c = '\\' then none
    else (stringFrom? none rest).map fun r => (c :: r.1, r.2)
  | _, _ => none

/-- A string after its opening quote. -/
def string? : List Char → Option (List Char × List Char) := stringFrom? none

/-! ### Documents

Each reader below takes fuel, which bounds the number of nested calls, and the depth
that arrays and objects may still have. A text of `n` characters never needs more
than `2 * n + 2` calls. -/

mutual

/-- A document at the start of a text, after blanks. Members are given as written. -/
def value? : Nat → Nat → List Char → Option (Json × List Char)
  | 0, _, _ => none
  | fuel + 1, depth, s =>
    match skipGaps s with
    | 'n' :: rest => (expect? "ull".toList rest).map fun r => (null, r)
    | 't' :: rest => (expect? "rue".toList rest).map fun r => (bool true, r)
    | 'f' :: rest => (expect? "alse".toList rest).map fun r => (bool false, r)
    | '"' :: rest => (string? rest).map fun r => (str (String.ofList r.1), r.2)
    | '[' :: rest =>
      if depth = 0 then none
      else match skipGaps rest with
        | ']' :: after => some (arr [], after)
        | _ => (items? fuel (depth - 1) rest).map fun r => (arr r.1, r.2)
    | '\x7b' :: rest =>
      if depth = 0 then none
      else match skipGaps rest with
        | '\x7d' :: after => some (obj [], after)
        | _ => (members? fuel (depth - 1) rest).map fun r => (obj r.1, r.2)
    | other => number? other

/-- One or more items and the closing bracket. -/
def items? : Nat → Nat → List Char → Option (List Json × List Char)
  | 0, _, _ => none
  | fuel + 1, depth, s => do
    let (item, rest) ← value? fuel depth s
    match skipGaps rest with
    | ',' :: after =>
      let (more, rest) ← items? fuel depth after
      return (item :: more, rest)
    | ']' :: after => return ([item], after)
    | _ => none

/-- One or more members and the closing brace. -/
def members? : Nat → Nat → List Char → Option (List (String × Json) × List Char)
  | 0, _, _ => none
  | fuel + 1, depth, s =>
    match skipGaps s with
    | '"' :: rest => do
      let (key, rest) ← string? rest
      match skipGaps rest with
      | ':' :: rest =>
        let (value, rest) ← value? fuel depth rest
        let member := (String.ofList key, value)
        match skipGaps rest with
        | ',' :: after =>
          let (more, rest) ← members? fuel depth after
          return (member :: more, rest)
        | '\x7d' :: after => return ([member], after)
        | _ => none
      | _ => none
    | _ => none

end

/-- Reads a text as one document whose arrays and objects nest at most `depth` deep,
members as written. -/
def parseWithin? (depth : Nat) (s : List Char) : Option Json :=
  match value? (2 * s.length + 2) depth s with
  | some (j, rest) => if skipGaps rest = [] then some j else none
  | none => none

/-- Arrays and objects nest at most this deep. -/
def maxDepth : Nat := 127

/-- Reads a text as one document, members as written. -/
def parseRaw? (s : String) : Option Json := parseWithin? maxDepth s.toList

/-- Reads a text as one tidy document: of members with one key the last counts. -/
def parse? (s : String) : Option Json := (parseRaw? s).map tidy

end RecordMapper.Json
