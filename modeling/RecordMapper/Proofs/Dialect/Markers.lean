import RecordMapper.Dialect.Markers

/-! Text that the scan for markers takes over as it is.

The scan reads a finished statement with the open quote as its only state. A *balanced* text
brings it from outside quotes back outside without a `?` on the way, so it can stand anywhere
between markers: it is copied, and the count goes on behind it (`substituteFrom_append`). Names
and literals are balanced whatever they contain, since a quote inside them is doubled. -/
namespace RecordMapper.Dialect

/-- The quote that is open after a text, if no `?` stood outside quotes. -/
def scan (inside : Option Char) : List Char → Option (Option Char)
  | [] => some inside
  | c :: rest =>
    match inside with
    | some quote => scan (if c = quote then none else some quote) rest
    | none => if isQuote c then scan (some c) rest else if c = '?' then none else scan none rest

def Balanced (sql : String) : Prop := scan none sql.toList = some none

instance (sql : String) : Decidable (Balanced sql) :=
  inferInstanceAs (Decidable (scan none sql.toList = some none))

theorem scan_append (inside : Option Char) (a b : List Char) :
    scan inside (a ++ b) = (scan inside a).bind (scan · b) := by
  induction a generalizing inside with
  | nil => rfl
  | cons c rest ih =>
    cases inside with
    | some quote => exact ih _
    | none =>
      simp only [List.cons_append, scan]
      split
      · exact ih _
      · split
        · rfl
        · exact ih _

/-- What was scanned is copied, and the count goes on behind it. -/
theorem substituteFrom_append (d : Dialect) {inside after : Option Char} {text : List Char}
    (h : scan inside text = some after) (seen : Nat) (rest : List Char) :
    d.substituteFrom inside seen (text ++ rest) =
      (text ++ (d.substituteFrom after seen rest).1, (d.substituteFrom after seen rest).2) := by
  induction text generalizing inside with
  | nil =>
    cases h
    rfl
  | cons c more ih =>
    cases inside with
    | some quote =>
      simp only [List.cons_append, substituteFrom]
      rw [ih h]
    | none =>
      simp only [scan] at h
      simp only [List.cons_append, substituteFrom]
      split at h
      · next hquote => rw [if_pos hquote, ih h]
      · next hquote =>
        split at h
        · cases h
        · next hmark => rw [if_neg hquote, if_neg hmark, ih h]

/-! ### Balanced pieces -/

theorem Balanced.append {a b : String} (ha : Balanced a) (hb : Balanced b) : Balanced (a ++ b) := by
  unfold Balanced at *
  rw [String.toList_append, scan_append, ha]
  exact hb

theorem balanced_of_plain {sql : String} (h : ∀ c ∈ sql.toList, isQuote c = false ∧ c ≠ '?') :
    Balanced sql := by
  unfold Balanced
  generalize sql.toList = text at h
  induction text with
  | nil => rfl
  | cons c rest ih =>
    obtain ⟨hquote, hmark⟩ := h c (.head _)
    simp only [scan, hquote, if_neg hmark]
    exact ih fun c hc => h c (.tail _ hc)

/-- Nothing between two quotes closes them early. -/
theorem scan_doubled {quote : Char} (hq : isQuote quote = true) (text rest : List Char) :
    scan (some quote) (Text.doubled quote text ++ rest) = scan (some quote) rest := by
  induction text with
  | nil => rfl
  | cons c more ih =>
    by_cases hc : c = quote
    · simp [Text.doubled, scan, hc, hq, ih]
    · simp [Text.doubled, scan, hc, ih]

theorem balanced_quoted {quote : Char} (hq : isQuote quote = true) (text : String) :
    Balanced (Text.quoted quote text) := by
  unfold Balanced
  rw [Text.toList_quoted, List.cons_append]
  simp only [scan, hq, if_true, scan_doubled hq]

theorem plain_of_isDigit {c : Char} (hc : c.isDigit = true) : isQuote c = false ∧ c ≠ '?' := by
  have hne : ∀ other : Char, other.isDigit = false → c ≠ other := by
    rintro other ho rfl
    rw [hc] at ho
    cases ho
  simp [isQuote, hne '\'' rfl, hne '"' rfl, hne '\x60' rfl, hne '?' rfl]

theorem balanced_ofInt (n : Int) : Balanced (Text.ofInt n) := by
  refine balanced_of_plain fun c hc => ?_
  simp only [Text.ofInt, Text.padded, String.toList_ofList, List.mem_append] at hc
  rcases hc with (hsign | hzero) | hdigit
  · split at hsign
    · obtain rfl := List.mem_singleton.1 hsign
      decide
    · cases hsign
  · obtain rfl := (List.mem_replicate.1 hzero).2
    decide
  · exact plain_of_isDigit (Nat.isDigit_of_mem_toDigits (by decide) (by decide) hdigit)

theorem balanced_intercalate {separator : String} (hs : Balanced separator) {pieces : List String}
    (h : ∀ piece ∈ pieces, Balanced piece) : Balanced (String.intercalate separator pieces) := by
  induction pieces with
  | nil =>
    rw [String.intercalate_nil]
    decide
  | cons first rest ih =>
    cases rest with
    | nil =>
      rw [String.intercalate_singleton]
      exact h first (.head _)
    | cons second more =>
      rw [String.intercalate_cons_cons]
      exact ((h first (.head _)).append hs).append (ih fun piece hp => h piece (.tail _ hp))

theorem balanced_join {pieces : List String} (h : ∀ piece ∈ pieces, Balanced piece) :
    Balanced (String.join pieces) := by
  induction pieces with
  | nil =>
    rw [String.join_nil]
    decide
  | cons first rest ih =>
    rw [String.join_cons]
    exact (h first (.head _)).append (ih fun piece hp => h piece (.tail _ hp))

/-! ### Names, literals and documents -/

section

variable (d : Dialect)

theorem isQuote_identifierQuote : isQuote d.identifierQuote = true := by
  cases d <;> rfl

theorem balanced_quoteIdentifier (name : String) : Balanced (d.quoteIdentifier name) :=
  balanced_quoted d.isQuote_identifierQuote name

theorem balanced_quoteLiteral (text : String) : Balanced (d.quoteLiteral text) := balanced_quoted rfl text

theorem balanced_qualify (table column : String) : Balanced (d.qualify table column) :=
  ((d.balanced_quoteIdentifier table).append (by decide)).append (d.balanced_quoteIdentifier column)

theorem balanced_enumLiteral (table field variant : String) : Balanced (d.enumLiteral table field variant) := by
  unfold enumLiteral
  split
  · exact ((d.balanced_quoteLiteral variant).append (by decide)).append (d.balanced_quoteIdentifier _)
  · exact d.balanced_quoteLiteral variant

theorem balanced_aggregate {columns : List DocumentColumn} (h : ∀ c ∈ columns, Balanced c.expression)
    {present : String} (hp : Balanced present) : Balanced (d.aggregate columns present) := by
  have hpairs : Balanced (d.documentPairs columns) := by
    refine balanced_intercalate (by decide) fun piece hpiece => ?_
    obtain ⟨c, hc, rfl⟩ := List.mem_map.1 hpiece
    exact ((d.balanced_quoteLiteral c.key).append (by decide)).append (h c hc)
  unfold aggregate
  dsimp only
  split
  · exact (((Balanced.append (by decide) hpairs).append (by decide)).append hp).append (by decide)
  · exact (((Balanced.append (by decide) hpairs).append (by decide)).append hp).append (by decide)
  · exact (((Balanced.append (by decide) hp).append (by decide)).append hpairs).append (by decide)

end

end RecordMapper.Dialect
