import RecordMapper.Storage.Real
import RecordMapper.Storage.Stored
import RecordMapper.Text.Numeral

/-! Numeric literals in statements.

A literal is hexadecimal, after `0x`, or decimal, and may have separators between its
digits. A decimal literal without point and exponent is an integer if a word of 64 bits
holds it; every other one is real. -/
namespace RecordMapper.Storage.Stored

def isHexDigit (c : Char) : Bool := (Text.hexValue? c).isSome

/-- The digits of a literal without separators: each underscore has to stand between two
digits. `afterDigit` says whether a digit has just been read. -/
def withoutSeparators? (isDigit : Char → Bool) (afterDigit : Bool) : List Char → Option (List Char)
  | [] => some []
  | '_' :: rest =>
    if afterDigit && rest.head?.any isDigit then withoutSeparators? isDigit false rest else none
  | c :: rest => (withoutSeparators? isDigit (isDigit c) rest).map (c :: ·)

/-- A written power of ten. One of more than five digits takes every number out of range or
to zero, and counts as one of five. -/
def shortPower (power : Int) : Int :=
  if power.natAbs < 100000 then power else if power < 0 then -10000 else 10000

/-- The cell of a decimal number: an integer if it is written without point and exponent and
a word of 64 bits holds it. -/
def ofNumber (negative : Bool) (whole : List Char) (fraction : Option (List Char))
    (power : Option Int) : Stored :=
  let magnitude := Int.ofNat (Text.digitsValue whole)
  match fraction, power, int64? (if negative then -magnitude else magnitude) with
  | none, none, some n => integer n
  | _, _, _ =>
    real (double (.ofNumeral digitRoom negative whole (fraction.getD []) (shortPower (power.getD 0))))

/-- The cell of a decimal literal. -/
def ofDecimal? (negative : Bool) (s : List Char) : Option Stored := do
  let (whole, rest) := Text.digitRun (← withoutSeparators? Char.isDigit false s)
  let (fraction, rest) := match rest with
    | '.' :: r => ((Text.digitRun r).map some id)
    | r => (none, r)
  let (power, rest) ← Text.exponentPart? rest
  if whole.isEmpty && (fraction.getD []).isEmpty || !rest.isEmpty then none
  else some (ofNumber negative whole fraction power)

/-- The cell of hexadecimal digits: the word with these bits. The least word has no negative. -/
def ofHexadecimal? (negative : Bool) (s : List Char) : Option Stored := do
  let digits ← (← withoutSeparators? isHexDigit false s).mapM Text.hexValue?
  let bits := digits.foldl (fun n digit => n * 16 + digit) 0
  let word := Int64.ofNat bits
  if digits.isEmpty || 18446744073709551616 ≤ bits || negative && word == Int64.minValue then none
  else some (integer (if negative then -word else word))

/-- Whether a literal has a minus sign, and the literal without its sign. -/
def unsigned : List Char → Bool × List Char
  | '-' :: r => (true, r)
  | '+' :: r => (false, r)
  | r => (false, r)

/-- The cell of a numeric literal without its sign. -/
def ofMagnitude? (negative : Bool) : List Char → Option Stored
  | '0' :: 'x' :: digits => ofHexadecimal? negative digits
  | '0' :: 'X' :: digits => ofHexadecimal? negative digits
  | digits => ofDecimal? negative digits

/-- The cell of a numeric literal with its sign. -/
def ofLiteral? (s : List Char) : Option Stored :=
  let (negative, magnitude) := unsigned s
  ofMagnitude? negative magnitude

end RecordMapper.Storage.Stored
