/-! Digits in text.

Fixed-width fields of dates and times are read by `fixed?` and written by
`padded`. A field has exactly its width in ASCII digits; a written number is
filled with zeros up to its width, and a minus sign takes one of the places. -/
namespace RecordMapper.Text

/-- The value of a run of decimal digits, most significant first. -/
def digitsValue (digits : List Char) : Nat :=
  digits.foldl (fun value c => value * 10 + (c.toNat - 48)) 0

/-- The value of a hexadecimal digit. -/
def hexValue? (c : Char) : Option Nat :=
  if '0' ≤ c ∧ c ≤ '9' then some (c.toNat - 48)
  else if 'a' ≤ c ∧ c ≤ 'f' then some (c.toNat - 87)
  else if 'A' ≤ c ∧ c ≤ 'F' then some (c.toNat - 55)
  else none

/-- Reads a field of exactly `width` ASCII digits. -/
def fixed? (width : Nat) (field : List Char) : Option Nat :=
  if field.length = width ∧ field.all Char.isDigit then some (digitsValue field) else none

/-- The decimal digits of a number, most significant first; zero has one digit. -/
def digits (n : Nat) : List Char := Nat.toDigits 10 n

/-- A number in at least `width` places: the sign first, then zeros, then the digits. -/
def padded (width : Nat) (n : Int) : List Char :=
  let sign := if n < 0 then ['-'] else []
  let places := digits n.natAbs
  sign ++ List.replicate (width - sign.length - places.length) '0' ++ places

/-- The decimal text of an integer. -/
def ofInt (n : Int) : String := String.ofList (padded 0 n)

end RecordMapper.Text
