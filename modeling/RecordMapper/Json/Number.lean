import RecordMapper.Decimal
import RecordMapper.Json.Basic
import RecordMapper.Text.Numeral

/-! Numbers in JSON text.

A numeral without point and exponent is an integer if a word of 64 bits holds it. Every
other numeral is a double: the digits that such a word has room for, scaled by a power of
ten. Both steps are rounded, so that the double is close to what is written, but not
always the closest. -/
namespace RecordMapper.Json

/-! ### Doubles -/

/-- The largest word of 64 bits. -/
def maxWord : Nat := 18446744073709551615

/-- A digit has room if a word holds the number with it. -/
def wordRoom (n digit : Nat) : Bool := n * 10 + digit ≤ maxWord

/-- The greatest power of ten that is a double. -/
def maxPower : Nat := 308

/-- The double nearest to `10^n`, for `n` up to `maxPower`. -/
def powerOfTen (n : Nat) : Float := Float.ofScientific 1 false n

/-- The double `x · 10^exponent`, rounded after each multiplication and division. There is
none if it is out of range; below the smallest double it is zero. -/
def scaled? (x : Float) (exponent : Int) : Option Float :=
  if exponent.natAbs ≤ maxPower then
    if exponent < 0 then some (x / powerOfTen exponent.natAbs)
    else
      let product := x * powerOfTen exponent.natAbs
      if product.isInf then none else some product
  else if x == 0 then some x
  else if 0 < exponent then none
  else scaled? (x / powerOfTen maxPower) (exponent + maxPower)
termination_by exponent.natAbs
decreasing_by simp only [maxPower] at *; omega

/-- The double of a number, if it is in range. -/
def double? (d : Decimal) : Option Float :=
  (scaled? (Float.ofNat d.digits) d.exponent).map fun x => if d.negative then -x else x

/-! ### Numerals -/

/-- The whole part of a number: one zero, or digits that start with no zero. -/
def wholePart? (s : List Char) : Option (List Char × List Char) :=
  match Text.digitRun s with
  | ([], _) => none
  | (run, rest) => if run.head? = some '0' ∧ run.length ≠ 1 then none else some (run, rest)

/-- The digits after a point, if there is one; a point needs at least one digit. -/
def fractionPart? : List Char → Option (List Char × List Char)
  | '.' :: rest =>
    match Text.digitRun rest with
    | ([], _) => none
    | run => some run
  | rest => some ([], rest)

/-- What a numeral denotes. Without point and exponent it is an integer if it lies
between `-2^63` and `2^64 - 1` and is not `-0`; all others are doubles. -/
def numberValue? (negative : Bool) (whole fraction : List Char) (power : Option Int) : Option Json :=
  let magnitude := Text.digitsValue whole
  let isInteger := fraction.isEmpty && power.isNone &&
    (if negative then magnitude != 0 && magnitude ≤ 9223372036854775808 else magnitude ≤ maxWord)
  if isInteger then some (int (if negative then -magnitude else magnitude))
  else (double? (Decimal.ofNumeral wordRoom negative whole fraction (power.getD 0))).map float

/-- A number at the start of a text. -/
def number? (s : List Char) : Option (Json × List Char) := do
  let (negative, rest) := match s with
    | '-' :: r => (true, r)
    | r => (false, r)
  let (whole, rest) ← wholePart? rest
  let (fraction, rest) ← fractionPart? rest
  let (power, rest) ← Text.exponentPart? rest
  return (← numberValue? negative whole fraction power, rest)

end RecordMapper.Json
