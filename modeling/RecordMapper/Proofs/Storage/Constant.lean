import RecordMapper.Condition.Basic
import RecordMapper.Proofs.Text.Digits
import RecordMapper.Proofs.Text.Quoted
import RecordMapper.Storage.Literal

/-! Constants in SQL text.

A literal that is written into a statement is read by the database: text between quotes, a truth
value, NULL, or a number. It is read as the cell that the value itself is stored in. -/
namespace RecordMapper.Storage.Stored

/-- The cell that a constant in SQL text stands for. Truth values are stored as 0 and 1. -/
def ofConstant? (sql : String) : Option Stored :=
  if sql = "NULL" then some null
  else if sql = "true" then some (integer 1)
  else if sql = "false" then some (integer 0)
  else match sql.toList with
    | '\'' :: rest => (Text.undoubled? '\'' rest).map fun s => text (String.ofList s)
    | numeral => ofLiteral? numeral

/-! ### Numbers -/

theorem withoutSeparators?_digits {s : List Char} (h : ∀ c ∈ s, c.isDigit = true) (afterDigit : Bool) :
    withoutSeparators? Char.isDigit afterDigit s = some s := by
  induction s generalizing afterDigit with
  | nil => rfl
  | cons c rest ih =>
    have hc : c ≠ '_' := fun he => by
      have hdigit := h c (.head _)
      rw [he] at hdigit
      cases hdigit
    rw [withoutSeparators?, ih fun d hd => h d (.tail _ hd)]
    · rfl
    · exact hc

theorem digitRun_digits {s : List Char} (h : ∀ c ∈ s, c.isDigit = true) : Text.digitRun s = (s, []) := by
  unfold Text.digitRun
  induction s with
  | nil => rfl
  | cons c rest ih =>
    have hrest := Prod.mk.inj (ih fun d hd => h d (.tail _ hd))
    have hc := h c (.head _)
    rw [List.takeWhile_cons_of_pos hc, List.dropWhile_cons_of_pos hc, hrest.1, hrest.2]

theorem ofDecimal?_digits {s : List Char} (h : ∀ c ∈ s, c.isDigit = true) (hs : s ≠ []) (negative : Bool) :
    ofDecimal? negative s = some (ofNumber negative s none none) := by
  unfold ofDecimal?
  rw [withoutSeparators?_digits h]
  simp [digitRun_digits h, Text.exponentPart?, hs]

theorem ofNumber_of_lt {negative : Bool} {digits : List Char} {n : Int}
    (hn : (if negative then -(Text.digitsValue digits : Int) else Text.digitsValue digits) = n)
    (hword : -9223372036854775808 ≤ n ∧ n ≤ 9223372036854775807) :
    ofNumber negative digits none none = integer (Int64.ofInt n) := by
  have hfits : int64? n = some (Int64.ofInt n) := if_pos hword
  unfold ofNumber
  dsimp only
  rw [show (if negative = true then -Int.ofNat (Text.digitsValue digits) else Int.ofNat (Text.digitsValue digits)) = n
    from hn, hfits]

theorem unsigned_digits {s : List Char} (h : ∀ c ∈ s, c.isDigit = true) : unsigned s = (false, s) := by
  unfold unsigned
  split
  · cases h '-' (by simp)
  · cases h '+' (by simp)
  · rfl

/-- Digits are read as a decimal number, whatever the first one is. -/
theorem ofMagnitude?_digits {s : List Char} (h : ∀ c ∈ s, c.isDigit = true) (hs : s ≠ []) (negative : Bool) :
    ofMagnitude? negative s = some (ofNumber negative s none none) := by
  unfold ofMagnitude?
  split
  · cases h 'x' (by simp)
  · cases h 'X' (by simp)
  · exact ofDecimal?_digits h hs negative

theorem ofLiteral?_ofInt {n : Int} (hword : -9223372036854775808 ≤ n ∧ n ≤ 9223372036854775807) :
    ofLiteral? (Text.ofInt n).toList = some (integer (Int64.ofInt n)) := by
  have hdigits : ∀ c ∈ Text.digits n.natAbs, c.isDigit = true := fun c => Text.isDigit_of_mem_digits
  have hvalue := Text.digitsValue_digits n.natAbs
  have hread := ofMagnitude?_digits hdigits Nat.toDigits_ne_nil
  by_cases hn : n < 0
  · have htext : (Text.ofInt n).toList = '-' :: Text.digits n.natAbs := by
      simp [Text.ofInt, Text.padded, hn]
    rw [htext, ofLiteral?, unsigned]
    dsimp only
    rw [hread, ofNumber_of_lt (n := n) _ hword]
    rw [hvalue, if_pos rfl]
    omega
  · have htext : (Text.ofInt n).toList = Text.digits n.natAbs := by
      simp [Text.ofInt, Text.padded, hn]
    rw [htext, ofLiteral?, unsigned_digits hdigits]
    dsimp only
    rw [hread, ofNumber_of_lt (n := n) _ hword]
    rw [hvalue, if_neg (by decide)]
    omega

/-! ### Constants -/

theorem ofConstant?_ofInt {n : Int} (hword : -9223372036854775808 ≤ n ∧ n ≤ 9223372036854775807) :
    ofConstant? (Text.ofInt n) = some (integer (Int64.ofInt n)) := by
  have hchars : ∀ c ∈ (Text.ofInt n).toList, c = '-' ∨ c.isDigit = true := by
    intro c hc
    rw [Text.ofInt, String.toList_ofList] at hc
    exact Text.eq_or_isDigit_of_mem_padded hc
  have hother : ∀ {sql : String} {c : Char}, c ∈ sql.toList → c ≠ '-' → c.isDigit = false → Text.ofInt n ≠ sql := by
    rintro sql c hc hsign hdigit rfl
    rcases hchars c hc with h | h
    · exact hsign h
    · rw [hdigit] at h
      cases h
  unfold ofConstant?
  rw [if_neg (hother (c := 'N') (by decide) (by decide) rfl), if_neg (hother (c := 't') (by decide) (by decide) rfl),
    if_neg (hother (c := 'f') (by decide) (by decide) rfl)]
  split
  · next rest hquote =>
    have hfirst : '\'' ∈ (Text.ofInt n).toList := hquote ▸ .head _
    rcases hchars '\'' hfirst with h | h <;> cases h
  · exact ofLiteral?_ofInt hword

theorem ofConstant?_quoted (s : String) : ofConstant? (Text.quoted '\'' s) = some (text s) := by
  have hfirst : (Text.quoted '\'' s).toList = '\'' :: (Text.doubled '\'' s.toList ++ ['\'']) := by
    rw [Text.toList_quoted, List.cons_append]
  have hother : ∀ {sql : String}, sql.toList.head? ≠ some '\'' → Text.quoted '\'' s ≠ sql := by
    rintro sql h rfl
    rw [hfirst] at h
    exact h rfl
  unfold ofConstant?
  rw [if_neg (hother (by decide)), if_neg (hother (by decide)), if_neg (hother (by decide)), hfirst]
  simp [Text.undoubled?_doubled]

end RecordMapper.Storage.Stored
