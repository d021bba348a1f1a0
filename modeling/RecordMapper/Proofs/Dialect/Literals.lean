import RecordMapper.Condition.Predicate
import RecordMapper.Dialect.Basic
import RecordMapper.Proofs.Calendar.Text
import RecordMapper.Proofs.Text.Escaped

/-! Literals as a database reads them.

A database reads a literal from its opening quote to its closing one, by the rules of its dialect: two quotes
are one in all of them, and in MySQL a backslash escapes the character behind it. Literals are written
with their quotes doubled in every dialect. So what a database reads is the text that was written, and
the literal ends where it should, but for MySQL only if the text keeps its backslashes
(`writes_iff_harmless`). -/
namespace RecordMapper

namespace Dialect

/-- The text of the literal that SQL text starts with, and what stands behind the literal. -/
def literal? (d : Dialect) : List Char → Option (List Char × List Char)
  | [] => none
  | c :: rest =>
    if c = '\'' then
      if d = mysql then Text.escapedPart? rest else Text.quotedPart? '\'' rest
    else none

/-- Whatever follows, the SQL text is read as a literal of this text and what is written behind the literal; only a
further quote would be read as a part of it. -/
def Writes (d : Dialect) (sql text behind : String) : Prop :=
  ∀ rest, (behind.toList ++ rest).head? ≠ some '\'' →
    d.literal? (sql.toList ++ rest) = some (text.toList, behind.toList ++ rest)

/-- The text has no backslash that MySQL takes for the start of an escape. -/
def Harmless (d : Dialect) (text : String) : Prop := d = mysql → Text.KeepsBackslashes text.toList

theorem harmless_of_not_mem {text : String} (h : '\\' ∉ text.toList) (d : Dialect) : d.Harmless text :=
  fun _ => Text.keepsBackslashes_of_not_mem h

/-! ### Quoted text -/

theorem literal?_quoted (d : Dialect) {rest : List Char} (hrest : rest.head? ≠ some '\'') (text : String) :
    d.literal? ((Text.quoted '\'' text).toList ++ rest) = some (text.toList, rest) ↔ d.Harmless text := by
  have hsql : (Text.quoted '\'' text).toList ++ rest =
      '\'' :: (Text.doubled '\'' text.toList ++ '\'' :: rest) := by
    simp
  rw [hsql, literal?, if_pos rfl]
  split
  · next hmysql =>
    rw [Text.escapedPart?_doubled hrest]
    exact ⟨fun h _ => h, fun h => h hmysql⟩
  · next hother =>
    rw [Text.quotedPart?_doubled hrest]
    exact ⟨fun _ hmysql => absurd hmysql hother, fun _ => rfl⟩

/-- Quoted text is read as the text, whatever stands behind it. -/
theorem writes_quoted (d : Dialect) (text : String) {behind : String} (hbehind : behind.toList.head? ≠ some '\'') :
    d.Writes (Text.quoted '\'' text ++ behind) text behind ↔ d.Harmless text := by
  have hsql : ∀ rest, (Text.quoted '\'' text ++ behind).toList ++ rest =
      (Text.quoted '\'' text).toList ++ (behind.toList ++ rest) := by
    simp
  constructor
  · intro h
    have hread := h [] (by simpa using hbehind)
    rw [hsql] at hread
    exact (literal?_quoted d (by simpa using hbehind) text).1 hread
  · intro h rest hrest
    rw [hsql]
    exact (literal?_quoted d hrest text).2 h

/-! ### What is written -/

/-- What is written behind the literal of a variant. -/
def variantCast (d : Dialect) (table field : String) : String :=
  if d.castsEnums then "::" ++ d.quoteIdentifier (table ++ "_" ++ field) else ""

theorem enumLiteral_eq (d : Dialect) (table field variant : String) :
    d.enumLiteral table field variant = Text.quoted '\'' variant ++ d.variantCast table field := by
  unfold enumLiteral variantCast quoteLiteral
  split
  · rw [String.append_assoc]
  · simp

theorem head?_variantCast (d : Dialect) (table field : String) :
    (d.variantCast table field).toList.head? ≠ some '\'' := by
  unfold variantCast
  split
  · simp
  · simp

end Dialect

/-- Whether a value is written between quotes. -/
def Value.isQuoted : Value → Bool
  | text _ => true
  | date _ => true
  | timestamp _ => true
  | _ => false

/-- Such a value has no other literal. -/
theorem Value.readings_of_isQuoted {v : Value} (h : v.isQuoted = true) :
    v.sqlLiteral? = some (Text.quoted '\'' v.plainText) ∧ v.asInteger? = none ∧ v.asBool? = none := by
  cases v with
  | text s => exact ⟨rfl, rfl, rfl⟩
  | date days => exact ⟨rfl, rfl, rfl⟩
  | timestamp micros => exact ⟨rfl, rfl, rfl⟩
  | _ => cases h

/-- The literal of such a value that a field has inlined is its quoted text. -/
theorem Field.literal_of_isQuoted {f : Field} {v : Value} {sql : String} (hv : v.isQuoted = true)
    (h : f.literal v = .inlined sql) : sql = Text.quoted '\'' v.plainText := by
  obtain ⟨hliteral, hinteger, hbool⟩ := Value.readings_of_isQuoted hv
  have hinline : f.kind.inlineText? v = none ∨ f.kind.inlineText? v = some (Text.quoted '\'' v.plainText) := by
    unfold FieldKind.inlineText?
    split
    · simp [hinteger]
    · simp [hbool]
    · exact .inr hliteral
  unfold Field.literal at h
  rcases hinline with hinline | hinline
  · rw [hinline] at h
    cases h
  · rw [hinline] at h
    dsimp only at h
    split at h
    · exact (Literal.inlined.inj h).symm
    · cases h

namespace Dialect

theorem harmless_date (d : Dialect) (days : Int32) : d.Harmless (Value.date days).plainText := by
  refine harmless_of_not_mem (fun h => ?_) d
  rw [Value.plainText, String.toList_ofList] at h
  rcases Calendar.mem_dateText h with h | h
  · cases h
  · cases h

theorem harmless_timestamp (d : Dialect) (micros : Int64) : d.Harmless (Value.timestamp micros).plainText := by
  refine harmless_of_not_mem (fun h => ?_) d
  rw [Value.plainText, String.toList_ofList] at h
  rcases Calendar.mem_momentText h with h | h | h | h
  · cases h
  · cases h
  · cases h
  · cases h

/-- In every dialect, a literal that is written for a text, a variant or a value of a field is read as one
literal of that text, whatever follows, exactly if the text is harmless: in MySQL each of its backslashes has
to stand before `%` or `_`, elsewhere nothing is asked. Dates and moments always are. -/
theorem writes_iff_harmless (d : Dialect) :
    (∀ text, d.Writes (d.quoteLiteral text) text "" ↔ d.Harmless text) ∧
    (∀ table field variant, d.Writes (d.enumLiteral table field variant) variant (d.variantCast table field) ↔
      d.Harmless variant) ∧
    (∀ (f : Field) (v : Value) (sql : String), v.isQuoted = true → f.literal v = .inlined sql →
      (d.Writes sql v.plainText "" ↔ d.Harmless v.plainText)) ∧
    (∀ days, d.Harmless (Value.date days).plainText) ∧ ∀ micros, d.Harmless (Value.timestamp micros).plainText := by
  have hquoted : ∀ text, d.Writes (Text.quoted '\'' text) text "" ↔ d.Harmless text := by
    intro text
    have hwrites := writes_quoted d text (show "".toList.head? ≠ some '\'' by simp)
    rwa [String.append_empty] at hwrites
  refine ⟨hquoted, fun table field variant => ?_, fun f v sql hv h => ?_, ?_⟩
  · rw [enumLiteral_eq]
    exact writes_quoted d variant (head?_variantCast d table field)
  · rw [Field.literal_of_isQuoted hv h]
    exact hquoted v.plainText
  · simp only [harmless_date, harmless_timestamp, implies_true, and_true]

/-- A percentage keeps its backslash in MySQL, and it is inlined. -/
theorem writes_percentage :
    (Field.enumeration "Rate" "Rate" ["5\\%", "it's 10"]).literal (.text "5\\%") = .inlined "'5\\%'" ∧
      Dialect.mysql.Writes "'5\\%'" "5\\%" "" := by
  have hliteral : (Field.enumeration "Rate" "Rate" ["5\\%", "it's 10"]).literal (.text "5\\%") = .inlined "'5\\%'" :=
    rfl
  obtain ⟨-, -, hfields, -⟩ := writes_iff_harmless .mysql
  have hwrites := hfields _ (.text "5\\%") _ rfl hliteral
  rw [Value.plainText] at hwrites
  refine ⟨hliteral, hwrites.2 fun _ => ?_⟩
  simp [Text.KeepsBackslashes]

/-- In MySQL a backslash takes the closing quote into the text, so that the literal has no end; and a
backslash before a quote lets the literal end within the text, so that the remainder is read as SQL. -/
theorem not_writes_backslash :
    ¬ (∀ (d : Dialect) (text : String), d.Writes (d.quoteLiteral text) text "") ∧
      mysql.literal? (mysql.quoteLiteral "\\").toList = none ∧
      mysql.literal? (mysql.quoteLiteral "\\' OR 1 = 1 -- ").toList = some (['\''], " OR 1 = 1 -- '".toList) := by
  have hnone : mysql.literal? (mysql.quoteLiteral "\\").toList = none := by decide
  refine ⟨fun h => ?_, hnone, by decide⟩
  have hread := h mysql "\\" [] (by decide)
  rw [List.append_nil, hnone] at hread
  cases hread

end Dialect

end RecordMapper
