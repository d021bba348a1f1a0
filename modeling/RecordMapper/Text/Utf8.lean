/-! Reading bytes as UTF-8 when they may be malformed.

Every maximal part of the bytes that cannot belong to a well-formed sequence
becomes one replacement character, and reading goes on with the next byte. -/
namespace RecordMapper.Text

/-- A sequence that has begun: the value of the bytes so far, how many are still
owed, and the range the next one must lie in. -/
structure Utf8Partial where
  value : Nat
  owed : Nat
  low : Nat
  high : Nat

/-- What a byte means between characters: a character of its own, the start of a
sequence, or nothing. -/
inductive Utf8Lead where
  | single (value : Nat)
  | start (part : Utf8Partial)
  | stray

/-- The ranges of the second byte leave out over-long forms, surrogates and values
above U+10FFFF. -/
def utf8Lead (byte : Nat) : Utf8Lead :=
  if byte < 0x80 then .single byte
  else if byte < 0xC2 then .stray
  else if byte < 0xE0 then .start ⟨byte - 0xC0, 1, 0x80, 0xBF⟩
  else if byte < 0xF0 then
    .start ⟨byte - 0xE0, 2, if byte = 0xE0 then 0xA0 else 0x80, if byte = 0xED then 0x9F else 0xBF⟩
  else if byte < 0xF5 then
    .start ⟨byte - 0xF0, 3, if byte = 0xF0 then 0x90 else 0x80, if byte = 0xF4 then 0x8F else 0xBF⟩
  else .stray

def replacement : Char := Char.ofNat 0xFFFD

/-- A byte between characters: what it completes, and the sequence it starts. -/
def utf8Fresh (byte : Nat) : List Char × Option Utf8Partial :=
  match utf8Lead byte with
  | .single value => ([Char.ofNat value], none)
  | .start part => ([], some part)
  | .stray => ([replacement], none)

/-- A byte inside a sequence continues it, completes it, or shows it malformed and
is then read afresh. -/
def utf8Step (part : Option Utf8Partial) (byte : Nat) : List Char × Option Utf8Partial :=
  match part with
  | none => utf8Fresh byte
  | some p =>
    if p.low ≤ byte ∧ byte ≤ p.high then
      let value := p.value * 64 + (byte - 0x80)
      if p.owed = 1 then ([Char.ofNat value], none) else ([], some ⟨value, p.owed - 1, 0x80, 0xBF⟩)
    else
      let next := utf8Fresh byte
      (replacement :: next.1, next.2)

def utf8From (part : Option Utf8Partial) : List Nat → List Char
  | [] => if part.isSome then [replacement] else []
  | byte :: rest =>
    let next := utf8Step part byte
    next.1 ++ utf8From next.2 rest

/-- The text of a sequence of bytes, malformed parts replaced. -/
def ofUtf8 (bytes : List Nat) : String := String.ofList (utf8From none bytes)

end RecordMapper.Text
