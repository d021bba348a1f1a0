import RecordMapper.Text.Digits

/-! Parts that numerals are made of. Each reader takes its part from the start of a text
and gives back what follows. -/
namespace RecordMapper.Text

/-- The digits at the start of a text and what follows them. -/
def digitRun (s : List Char) : List Char × List Char := (s.takeWhile Char.isDigit, s.dropWhile Char.isDigit)

/-- The power of ten after an `e`, if there is one. -/
def exponentPart? : List Char → Option (Option Int × List Char)
  | e :: rest =>
    if e = 'e' ∨ e = 'E' then
      let signed := match rest with
        | '-' :: r => (true, r)
        | '+' :: r => (false, r)
        | r => (false, r)
      match digitRun signed.2 with
      | ([], _) => none
      | (run, after) =>
        let power := Int.ofNat (Text.digitsValue run)
        some (some (if signed.1 then -power else power), after)
    else some (none, e :: rest)
  | [] => some (none, [])

end RecordMapper.Text
