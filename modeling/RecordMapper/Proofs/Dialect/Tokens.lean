import RecordMapper.Condition.Operator
import RecordMapper.Dialect.Basic
import RecordMapper.Proofs.Text.Digits
import RecordMapper.Proofs.Text.Quoted

/-! Tokens of SQL text.

A reader of SQL takes a quoted name or literal for one token, whatever stands between the quotes: a
doubled quote is read as one, and there is no other escape. Outside of quotes a run of letters and digits
is a token, and so is a run of the characters that operators are written with. What is written for a
token is read as that token, if nothing that could belong to it follows (`Apart`). -/
namespace RecordMapper

inductive Token where
  | name (text : String)
  | literal (text : String)
  /-- A number or a truth value. -/
  | word (text : String)
  | operator (op : Operator)
  | connective (logic : Connective)
  | is | not | null
  | dot | opening | closing | marker
  deriving DecidableEq

/-- The operator that is written like this. -/
def Operator.ofSql? : String → Option Operator
  | "=" => some eq
  | "!=" => some ne
  | "<" => some lt
  | "<=" => some le
  | ">" => some gt
  | ">=" => some ge
  | _ => none

theorem Operator.ofSql?_sql (op : Operator) : ofSql? op.sql = some op := by
  cases op <;> rfl

namespace Token

/-! ### Reading -/

/-- Letters and digits, and the sign of a number. -/
def isWordChar (c : Char) : Bool := c.isAlphanum || c = '-'

def isOperatorChar (c : Char) : Bool := c = '=' || c = '!' || c = '<' || c = '>'

/-- A run of letters and digits outside of quotes. -/
def ofWord : String → Token
  | "AND" => connective .and
  | "OR" => connective .or
  | "IS" => is
  | "NOT" => not
  | "NULL" => null
  | text => word text

def ofChar? : Char → Option Token
  | '.' => some dot
  | '(' => some opening
  | ')' => some closing
  | '?' => some marker
  | _ => none

/-- The token that a text starts with, and what stands behind it. -/
def next? (d : Dialect) (c : Char) (rest : List Char) : Option (Token × List Char) :=
  if c = d.identifierQuote then
    (Text.quotedPart? c rest).map fun r => (name (String.ofList r.1), r.2)
  else if c = '\'' then
    (Text.quotedPart? c rest).map fun r => (literal (String.ofList r.1), r.2)
  else if isWordChar c then
    some (ofWord (String.ofList (c :: rest.takeWhile isWordChar)), rest.dropWhile isWordChar)
  else if isOperatorChar c then
    (Operator.ofSql? (String.ofList (c :: rest.takeWhile isOperatorChar))).map fun op =>
      (operator op, rest.dropWhile isOperatorChar)
  else (ofChar? c).map fun t => (t, rest)

theorem length_next? {d : Dialect} {c : Char} {rest : List Char} {r : Token × List Char}
    (h : next? d c rest = some r) : r.2.length ≤ rest.length := by
  unfold next? at h
  split at h
  · obtain ⟨q, hq, rfl⟩ := Option.map_eq_some_iff.1 h
    exact Nat.le_of_lt (Text.length_quotedPart? hq)
  split at h
  · obtain ⟨q, hq, rfl⟩ := Option.map_eq_some_iff.1 h
    exact Nat.le_of_lt (Text.length_quotedPart? hq)
  split at h
  · cases h
    exact List.Sublist.length_le (List.dropWhile_sublist _)
  split at h
  · obtain ⟨op, _, rfl⟩ := Option.map_eq_some_iff.1 h
    exact List.Sublist.length_le (List.dropWhile_sublist _)
  · obtain ⟨t, _, rfl⟩ := Option.map_eq_some_iff.1 h
    exact Nat.le_refl _

/-- The tokens of a text; blanks only keep tokens apart. -/
def all? (d : Dialect) : List Char → Option (List Token)
  | [] => some []
  | c :: rest =>
    if c = ' ' then all? d rest
    else match _hnext : next? d c rest with
      | some r => (all? d r.2).map (r.1 :: ·)
      | none => none
termination_by s => s.length
decreasing_by
  · simp
  · exact Nat.lt_succ_of_le (length_next? _hnext)

/-! ### What is read of each token -/

/-- The text does not start with a character that could belong to a token before it. -/
def Apart (rest : List Char) : Prop :=
  ∀ c ∈ rest.head?, isWordChar c = false ∧ isOperatorChar c = false ∧ c ≠ '"' ∧ c ≠ '\x60' ∧ c ≠ '\''

theorem apart_nil : Apart [] := fun _ h => nomatch h

theorem apart_cons {c : Char} {rest : List Char} (h : isWordChar c = false ∧ isOperatorChar c = false ∧ c ≠ '"' ∧
    c ≠ '\x60' ∧ c ≠ '\'') : Apart (c :: rest) := by
  intro other hother
  obtain rfl := Option.some.inj hother
  exact h

section

variable (d : Dialect) {rest : List Char}

theorem all?_nil : all? d [] = some [] := by
  rw [all?]

theorem all?_blank (rest : List Char) : all? d (' ' :: rest) = all? d rest := by
  rw [all?, if_pos rfl]

theorem all?_of_next? {c : Char} {more : List Char} {t : Token} (hc : c ≠ ' ')
    (h : next? d c more = some (t, rest)) : all? d (c :: more) = (all? d rest).map (t :: ·) := by
  rw [all?, if_neg hc]
  split
  · next r hr =>
    obtain rfl := Option.some.inj (hr.symm.trans h)
    rfl
  · next hr =>
    rw [hr] at h
    cases h

theorem ne_identifierQuote {c : Char} (h : c ≠ '"' ∧ c ≠ '\x60') : c ≠ d.identifierQuote := by
  cases d <;> simp [Dialect.identifierQuote, h]

theorem all?_quoteIdentifier (hrest : Apart rest) (text : String) :
    all? d ((d.quoteIdentifier text).toList ++ rest) = (all? d rest).map (name text :: ·) := by
  have hblank : d.identifierQuote ≠ ' ' := by cases d <;> decide
  have hend : rest.head? ≠ some d.identifierQuote := by
    intro h
    obtain ⟨-, -, hdouble, hback, -⟩ := hrest _ h
    exact ne_identifierQuote d ⟨hdouble, hback⟩ rfl
  rw [Dialect.quoteIdentifier, Text.toList_quoted, List.cons_append, List.cons_append, List.append_assoc]
  refine all?_of_next? d hblank ?_
  rw [next?, if_pos rfl, List.singleton_append, Text.quotedPart?_doubled hend]
  simp

theorem all?_quoteLiteral (hrest : Apart rest) (text : String) :
    all? d ((Text.quoted '\'' text).toList ++ rest) = (all? d rest).map (literal text :: ·) := by
  have hname : '\'' ≠ d.identifierQuote := ne_identifierQuote d (by decide)
  have hend : rest.head? ≠ some '\'' := fun h => (hrest _ h).2.2.2.2 rfl
  rw [Text.toList_quoted, List.cons_append, List.cons_append, List.append_assoc]
  refine all?_of_next? d (by decide) ?_
  rw [next?, if_neg hname, if_pos rfl, List.singleton_append, Text.quotedPart?_doubled hend]
  simp

/-- A run of characters of one class is read to its end. -/
theorem span_run {p : Char → Bool} {run : List Char} (hrun : ∀ c ∈ run, p c = true)
    (hrest : ∀ c ∈ rest.head?, p c = false) :
    (run ++ rest).takeWhile p = run ∧ (run ++ rest).dropWhile p = rest := by
  rw [List.takeWhile_append_of_pos hrun, List.dropWhile_append_of_pos hrun]
  cases rest with
  | nil => simp
  | cons c more => simp [hrest c rfl]

theorem all?_word (hrest : Apart rest) {text : String} (hne : text.toList ≠ [])
    (hword : text.toList.all isWordChar = true) :
    all? d (text.toList ++ rest) = (all? d rest).map (ofWord text :: ·) := by
  obtain ⟨c, run, htext⟩ := List.exists_cons_of_ne_nil hne
  rw [htext, List.all_eq_true] at hword
  have hc := hword c (.head _)
  have hother : ∀ other : Char, isWordChar other = false → c ≠ other := by
    rintro other ho rfl
    rw [hc] at ho
    cases ho
  obtain ⟨htake, hdrop⟩ := span_run (fun c h => hword c (.tail _ h)) fun c h => (hrest c h).1
  rw [htext, List.cons_append]
  refine all?_of_next? d (hother ' ' rfl) ?_
  rw [next?, if_neg (ne_identifierQuote d ⟨hother '"' rfl, hother '\x60' rfl⟩), if_neg (hother '\'' rfl), if_pos hc,
    htake, hdrop, ← htext, String.ofList_toList]

theorem all?_operator (hrest : Apart rest) (op : Operator) :
    all? d (op.sql.toList ++ rest) = (all? d rest).map (operator op :: ·) := by
  have hop : op.sql.toList ≠ [] ∧ (op.sql.toList.all fun c => isOperatorChar c && !isWordChar c) = true := by
    cases op <;> decide
  obtain ⟨hne, hrun⟩ := hop
  obtain ⟨c, run, hsql⟩ := List.exists_cons_of_ne_nil hne
  simp only [hsql, List.all_eq_true, Bool.and_eq_true, Bool.not_eq_true'] at hrun
  obtain ⟨hc, hword⟩ := hrun c (.head _)
  have hother : ∀ other : Char, isOperatorChar other = false → c ≠ other := by
    rintro other ho rfl
    rw [hc] at ho
    cases ho
  obtain ⟨htake, hdrop⟩ := span_run (fun c h => (hrun c (.tail _ h)).1) fun c h => (hrest c h).2.1
  rw [hsql, List.cons_append]
  refine all?_of_next? d (hother ' ' rfl) ?_
  rw [next?, if_neg (ne_identifierQuote d ⟨hother '"' rfl, hother '\x60' rfl⟩), if_neg (hother '\'' rfl),
    if_neg (by simp [hword]), if_pos hc, htake, hdrop, ← hsql, String.ofList_toList, Operator.ofSql?_sql]
  rfl

theorem all?_char {c : Char} {t : Token} (h : ofChar? c = some t) (rest : List Char) :
    all? d (c :: rest) = (all? d rest).map (t :: ·) := by
  have hc : c = '.' ∨ c = '(' ∨ c = ')' ∨ c = '?' := by
    unfold ofChar? at h
    split at h <;> simp_all
  refine all?_of_next? d ?_ ?_
  · rcases hc with rfl | rfl | rfl | rfl <;> decide
  · have hname : c ≠ d.identifierQuote := ne_identifierQuote d (by rcases hc with rfl | rfl | rfl | rfl <;> decide)
    rw [next?, if_neg hname]
    rcases hc with rfl | rfl | rfl | rfl
    all_goals
      cases h
      rfl

end

end Token

end RecordMapper
