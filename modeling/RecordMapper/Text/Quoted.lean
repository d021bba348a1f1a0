/-! Quoted text whose quote character is doubled inside.

Identifiers and literals of SQL are written between two quote characters, and a
quote inside is written twice, so nothing in the text can end it early. -/
namespace RecordMapper.Text

/-- Every occurrence of `quote` is written twice, all else once. -/
def doubled (quote : Char) : List Char → List Char
  | [] => []
  | c :: rest => if c = quote then quote :: quote :: doubled quote rest else c :: doubled quote rest

/-- The text between two quotes, with the quotes inside doubled. -/
def quoted (quote : Char) (text : String) : String :=
  String.ofList (quote :: doubled quote text.toList ++ [quote])

@[simp] theorem toList_quoted (quote : Char) (text : String) :
    (quoted quote text).toList = quote :: doubled quote text.toList ++ [quote] := by
  simp [quoted]

end RecordMapper.Text
