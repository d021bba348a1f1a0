import RecordMapper.Dialect.Basic

/-! Bound parameters in SQL text.

Statements are put together with a `?` for every bound parameter. `substitute` reads the
finished text once, skips what stands between quotes, and replaces the other `?` by the
markers of a dialect, counting them. -/
namespace RecordMapper.Dialect

/-- The characters that open quoted text; the same character closes it. A doubled quote
closes and opens again. -/
def isQuote (c : Char) : Bool := c = '\'' || c = '"' || c = '\x60'

/-- The text with markers put in, and their number. `inside` is the quote that is open,
`seen` the number of markers so far. -/
def substituteFrom (d : Dialect) (inside : Option Char) (seen : Nat) :
    List Char → List Char × Nat
  | [] => ([], seen)
  | c :: rest =>
    match inside with
    | some quote =>
      let r := substituteFrom d (if c = quote then none else some quote) seen rest
      (c :: r.1, r.2)
    | none =>
      if isQuote c then
        let r := substituteFrom d (some c) seen rest
        (c :: r.1, r.2)
      else if c = '?' then
        let r := substituteFrom d none (seen + 1) rest
        ((d.placeholder (seen + 1)).toList ++ r.1, r.2)
      else
        let r := substituteFrom d none seen rest
        (c :: r.1, r.2)

/-- The text with the dialect's markers, and how many it has. -/
def substitute (d : Dialect) (sql : String) : String × Nat :=
  let r := substituteFrom d none 0 sql.toList
  (String.ofList r.1, r.2)

end RecordMapper.Dialect
