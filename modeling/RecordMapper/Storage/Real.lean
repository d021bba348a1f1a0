import RecordMapper.Decimal

/-! The double of a number in a statement.

A word of 64 bits takes the leading digits, and they are scaled by powers of ten as a sum
of two doubles, which has about twice the digits of one. Only the last step rounds to a
single double. -/
namespace RecordMapper.Storage

/-- The number `high + low`, where `low` holds what `high` is too short for. -/
structure DoublePair where
  high : Float
  low : Float

namespace DoublePair

/-- A double without the lower half of its digits. Products of such halves are exact. -/
def upperHalf (x : Float) : Float := Float.ofBits (x.toBits &&& 0xfffffffffc000000)

/-- The product. Only the product of the two low parts, which is too small to count, is
left out. -/
def mul (x y : DoublePair) : DoublePair :=
  let xUpper := upperHalf x.high
  let xLower := x.high - xUpper
  let yUpper := upperHalf y.high
  let yLower := y.high - yUpper
  let outer := xUpper * yUpper
  let inner := xUpper * yLower + xLower * yUpper
  let product := outer + inner
  let missing := outer - product + inner + xLower * yLower
  let correction := x.high * y.low + x.low * y.high + missing
  let high := product + correction
  ⟨high, product - high + correction⟩

/-- A word: its double, and by how much that misses the word. A double beyond all words
is taken as it is. -/
def ofWord (n : Nat) : DoublePair :=
  let high := Float.ofNat n
  ⟨high, if high < 18446744073709551616 then Float.ofInt (n - Decimal.truncated high) else 0⟩

/-- Multiplies by a factor a number of times. -/
def timesRepeatedly (x factor : DoublePair) (times : Nat) : DoublePair :=
  Nat.repeat (fun product => product.mul factor) times x

/-- Multiplies by `10^exponent`: by powers of a hundred places, of ten and of one, each
known as a pair. -/
def scaled (x : DoublePair) (exponent : Int) : DoublePair :=
  let (hundredPlaces, tenPlaces, onePlace) : DoublePair × DoublePair × DoublePair :=
    if 0 < exponent then (⟨1e100, -1.5902891109759918046e83⟩, ⟨1e10, 0⟩, ⟨10, 0⟩)
    else (⟨1e-100, -1.99918998026028836196e-117⟩, ⟨1e-10, -3.6432197315497741579e-27⟩,
      ⟨1e-1, -5.5511151231257827021e-18⟩)
  let places := exponent.natAbs
  let x := x.timesRepeatedly hundredPlaces (places / 100)
  let x := x.timesRepeatedly tenPlaces (places % 100 / 10)
  x.timesRepeatedly onePlace (places % 10)

/-- The sum as a single double. A product out of range has no sum, and counts as infinite. -/
def toFloat (x : DoublePair) : Float :=
  let sum := x.high + x.low
  if sum.isNaN then 1 / 0 else sum

end DoublePair

/-- There is room for any digit below a tenth of the largest word. -/
def digitRoom (n _digit : Nat) : Bool := n < 1844674407370955160

/-- Moves powers of ten into a word while it can take a zero, at most `power` of them. Gives
the word and the powers that are left. -/
def absorbed (word : Nat) : Nat → Nat × Nat
  | 0 => (word, 0)
  | power + 1 => if word < 1844674407370954956 then absorbed (word * 10) power else (word, power + 1)

/-- The same number with an exponent as close to zero as a word allows. -/
def withShortExponent (digits : Nat) (exponent : Int) : Nat × Int :=
  if 0 < exponent then
    let (word, power) := absorbed digits exponent.toNat
    (word, Int.ofNat power)
  else Decimal.stripZeros digits exponent exponent.natAbs

/-- The double of a number, infinite when it is out of range. -/
def double (d : Decimal) : Float :=
  let (word, exponent) := withShortExponent d.digits d.exponent
  let magnitude := ((DoublePair.ofWord word).scaled exponent).toFloat
  if d.negative then -magnitude else magnitude

end RecordMapper.Storage
