import RecordMapper.Decimal
import RecordMapper.Json.Basic

/-! The compact text of a document: no blanks, and in strings only the quote, the
backslash and the control characters are escaped. -/
namespace RecordMapper.Json

/-- One hexadecimal digit, in lower case. -/
def hexDigit (n : Nat) : Char := if n < 10 then Char.ofNat (48 + n) else Char.ofNat (87 + n)

/-- The letter that stands for a character after a backslash, if it has one. -/
def escapeLetter? (c : Char) : Option Char :=
  if c = '"' then some '"'
  else if c = '\\' then some '\\'
  else if c = '\n' then some 'n'
  else if c = '\r' then some 'r'
  else if c = '\t' then some 't'
  else if c = '\x08' then some 'b'
  else if c = '\x0c' then some 'f'
  else none

/-- A character inside a string. -/
def charText (c : Char) : List Char :=
  match escapeLetter? c with
  | some letter => ['\\', letter]
  | none =>
    if c.toNat < 0x20 then ['\\', 'u', '0', '0', hexDigit (c.toNat / 16), hexDigit (c.toNat % 16)]
    else [c]

/-- A string between its quotes. -/
def stringText (s : List Char) : List Char := '"' :: s.flatMap charText ++ ['"']

mutual

def chars : Json → List Char
  | null => "null".toList
  | bool true => "true".toList
  | bool false => "false".toList
  | int n => Text.padded 0 n
  | float x => Decimal.text x
  | str s => stringText s.toList
  | arr items => '[' :: itemsChars items
  | obj members => '\x7b' :: membersChars members

/-- The items of an array and its closing bracket. -/
def itemsChars : List Json → List Char
  | [] => [']']
  | item :: rest => chars item ++ moreItemsChars rest

def moreItemsChars : List Json → List Char
  | [] => [']']
  | item :: rest => ',' :: chars item ++ moreItemsChars rest

/-- The members of an object and its closing brace. -/
def membersChars : List (String × Json) → List Char
  | [] => ['\x7d']
  | (key, value) :: rest => stringText key.toList ++ ':' :: chars value ++ moreMembersChars rest

def moreMembersChars : List (String × Json) → List Char
  | [] => ['\x7d']
  | (key, value) :: rest =>
    ',' :: stringText key.toList ++ ':' :: chars value ++ moreMembersChars rest

end

/-- The compact text of a document. -/
def text (j : Json) : String := String.ofList j.chars

/-! ### ASCII text -/

/-- An escape for a unit of sixteen bits. -/
def unitEscape (unit : Nat) : List Char :=
  ['\\', 'u', hexDigit (unit / 4096 % 16), hexDigit (unit / 256 % 16), hexDigit (unit / 16 % 16),
    hexDigit (unit % 16)]

/-- A character of a document's text in ASCII: others, which only strings can hold, become
escapes, two of them above U+FFFF. -/
def asciiChar (c : Char) : List Char :=
  let n := c.toNat
  if n < 0x7F then [c]
  else if n < 0x10000 then unitEscape n
  else unitEscape (0xD800 + (n - 0x10000) / 0x400) ++ unitEscape (0xDC00 + (n - 0x10000) % 0x400)

/-- The compact text of a document in ASCII. -/
def asciiText (j : Json) : String := String.ofList (j.chars.flatMap asciiChar)

end RecordMapper.Json
