import RecordMapper.Text.Digits

/-! Decimal numbers and their doubles.

A `Decimal` is what a numeral says: a sign, digits and a power of ten. `ofNumeral` keeps
the leading digits of a numeral, as many as there is room for; how the double of such a
number is found is up to the format that the numeral stands in. `shortest` goes back from
a double, to the decimal with the fewest digits that has it as its nearest double. -/
namespace RecordMapper

/-- The number `±digits · 10^exponent`. -/
structure Decimal where
  negative : Bool
  digits : Nat
  exponent : Int
  deriving DecidableEq, Inhabited

namespace Decimal

/-! ### Numerals

The digits of a numeral are taken into a word as long as there is room: `room n digit`
says whether `digit` can still be appended to `n`. -/

/-- The number that digits make, as far as they are kept, and how many are left over. -/
structure Kept where
  number : Nat
  left : Nat
  deriving DecidableEq, Inhabited

namespace Kept

/-- Appends digits to a number, up to the first for which there is no room. -/
def append (room : Nat → Nat → Bool) (number : Nat) : List Char → Kept
  | [] => ⟨number, 0⟩
  | c :: rest =>
    let digit := c.toNat - 48
    if room number digit then append room (number * 10 + digit) rest
    else ⟨number, rest.length + 1⟩

end Kept

/-- What is kept of a numeral. A whole digit that is left over counts as a power of ten,
and a digit after the point that is left over as nothing. -/
def ofNumeral (room : Nat → Nat → Bool) (negative : Bool) (whole fraction : List Char)
    (power : Int) : Decimal :=
  let units := Kept.append room 0 whole
  let all := Kept.append room units.number fraction
  let places := Int.ofNat fraction.length - Int.ofNat all.left
  ⟨negative, all.number, Int.ofNat units.left - places + power⟩

/-! ### Doubles as exact numbers -/

/-- The finite magnitude `significand · 2^exponent`. -/
structure Binary where
  significand : Nat
  exponent : Int
  /-- The gap to the magnitude below is half the gap to the one above. -/
  narrowBelow : Bool

/-- The leading bit of a significand, `2^52`, which is not written out. -/
def hiddenBit : Nat := 4503599627370496

/-- The magnitude that the bits of a finite double stand for. -/
def Binary.ofFloat (x : Float) : Binary :=
  let bits := x.toBits.toNat
  let biased : Nat := bits / hiddenBit % 2048
  let fraction := bits % hiddenBit
  if biased = 0 then ⟨fraction, -1074, false⟩
  else ⟨hiddenBit + fraction, Int.ofNat biased - 1075, fraction = 0 ∧ 1 < biased⟩

def isNegative (x : Float) : Bool := 9223372036854775808 ≤ x.toBits.toNat

/-- The power of a base; one if the exponent is negative. -/
def power (base : Nat) (exponent : Int) : Nat := Nat.pow base exponent.toNat

/-- The magnitude cut down to a whole number. -/
def Binary.floor (b : Binary) : Nat :=
  b.significand * power 2 b.exponent / power 2 (-b.exponent)

/-- A finite double cut toward zero. -/
def truncated (x : Float) : Int :=
  let magnitude := Int.ofNat (Binary.ofFloat x).floor
  if isNegative x then -magnitude else magnitude

/-- Compares `a · 10^i` with `n · 2^j`. -/
def compareScaled (a : Nat) (i : Int) (n : Nat) (j : Int) : Ordering :=
  compare (a * power 10 i * power 2 (-j)) (n * power 2 j * power 10 (-i))

/-- Whether `digits · 10^exponent` lies among the numbers nearest to this magnitude:
within half a gap on each side, the ends included when the significand is even. -/
def Binary.nearest (b : Binary) (digits : Nat) (exponent : Int) : Bool :=
  let low := if b.narrowBelow then 4 * b.significand - 1 else 4 * b.significand - 2
  let high := 4 * b.significand + 2
  let closed := b.significand % 2 == 0
  let above := compareScaled digits exponent low (b.exponent - 2)
  let below := compareScaled digits exponent high (b.exponent - 2)
  (above == .gt || (closed && above == .eq)) && (below == .lt || (closed && below == .eq))

/-! ### The shortest decimal -/

/-- The least `k` from `start` on, within `tries` steps, with the magnitude below `10^k`. -/
def Binary.scale (b : Binary) (start : Int) : Nat → Int
  | 0 => start
  | tries + 1 =>
    if compareScaled 1 start b.significand b.exponent == .gt then start
    else b.scale (start + 1) tries

/-- The point of the grid of multiples of `10^grid` that the magnitude is rounded
to, if a neighbour on the grid has it as its nearest double. Of two such neighbours
the closer is taken, and on a tie the even one. -/
def Binary.onGrid (b : Binary) (grid : Int) : Option Nat :=
  let below := b.significand * power 2 b.exponent * power 10 (-grid) /
    (power 2 (-b.exponent) * power 10 grid)
  match b.nearest below grid, b.nearest (below + 1) grid with
  | true, false => some below
  | false, true => some (below + 1)
  | false, false => none
  | true, true =>
    match compareScaled (2 * below + 1) grid (2 * b.significand) b.exponent with
    | .gt => some below
    | .lt => some (below + 1)
    | .eq => some (if below % 2 = 0 then below else below + 1)

/-- Drops zeros at the end of the digits, at most `tries` of them. -/
def stripZeros (digits : Nat) (exponent : Int) : Nat → Nat × Int
  | 0 => (digits, exponent)
  | tries + 1 =>
    if digits % 10 = 0 ∧ digits ≠ 0 then stripZeros (digits / 10) (exponent + 1) tries
    else (digits, exponent)

/-- The decimal with the fewest digits whose nearest double is `x`. Seventeen digits
are always enough. -/
def shortest (x : Float) : Decimal :=
  let b := Binary.ofFloat x
  let negative := isNegative x
  if b.significand = 0 then ⟨negative, 0, 0⟩
  else
    let scale := b.scale (-330) 650
    let found := (List.range 17).findSome? fun n =>
      let grid := scale - (Int.ofNat n + 1)
      (b.onGrid grid).map fun digits => stripZeros digits grid 20
    match found with
    | some (digits, exponent) => ⟨negative, digits, exponent⟩
    | none => ⟨negative, b.floor, 0⟩

/-- A double as text: positional with a point when the leading digit stands for
`10^-5` up to `10^15`, otherwise with an exponent and its sign after `e`. -/
def text (x : Float) : List Char :=
  let d := shortest x
  let digits := Text.digits d.digits
  let count := Int.ofNat digits.length
  let point := count + d.exponent
  let sign := if d.negative then ['-'] else []
  let body :=
    if d.digits = 0 then "0.0".toList
    else if 0 ≤ d.exponent ∧ point ≤ 16 then
      digits ++ List.replicate d.exponent.toNat '0' ++ ".0".toList
    else if 0 < point ∧ point ≤ 16 then digits.take point.toNat ++ '.' :: digits.drop point.toNat
    else if -5 < point ∧ point ≤ 0 then
      "0.".toList ++ List.replicate (-point).toNat '0' ++ digits
    else
      let fraction := digits.drop 1
      digits.take 1 ++ (if fraction.isEmpty then [] else '.' :: fraction) ++
        'e' :: (if 0 < point then ['+'] else []) ++ Text.padded 0 (point - 1)
  sign ++ body

end Decimal

end RecordMapper
