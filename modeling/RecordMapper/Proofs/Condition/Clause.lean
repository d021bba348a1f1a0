import RecordMapper.Pattern.Reader
import RecordMapper.Proofs.Dialect.Tokens
import RecordMapper.Proofs.Statement.Places

/-! Conditions read back from their text.

A reader takes the text of a condition for tokens, finds the leaves among them, and puts these together by
the rules of SQL: AND binds tighter than OR, both join from the left, and parentheses group. Of a
condition it sees the `Clause`: the columns, the operators, the literals as they are written or the values
that are bound for them, and how AND and OR are nested. That is what it reads from the text of a compiled
condition, whatever stands in names and literals (`read?_render`); the parentheses that `render` writes
leave nothing to the precedence of the connectives. -/
namespace RecordMapper

/-- The right side of a comparison, as it is written or bound. -/
inductive Operand where
  | constant (sql : String)
  | parameter (v : Value)
  deriving DecidableEq

inductive Clause where
  | comparison (table field : String) (op : Operator) (operand : Operand)
  | nullCheck (table field : String) (negated : Bool)
  | combination (left : Clause) (logic : Connective) (right : Clause)
  deriving DecidableEq

namespace Condition

def operandOf (v : Value) : Literal → Operand
  | .inlined sql => .constant sql
  | .bound => .parameter v

/-- What a reader can see of a condition. -/
def clause : Condition → Clause
  | comparison table field op v literal => .comparison table field op (operandOf v literal)
  | nullCheck table field negated => .nullCheck table field negated
  | combination left logic right => .combination left.clause logic right.clause

end Condition

/-! ### Finding the leaves -/

/-- What a clause is put together from. -/
inductive Item where
  | leaf (c : Clause)
  | connective (logic : Connective)
  | opening | closing
  deriving DecidableEq

/-- The operand that a token stands for, and the values that are left for others. -/
def Operand.ofToken? (values : List Value) : Token → Option (Operand × List Value)
  | .word sql => some (.constant sql, values)
  | .literal text => some (.constant (Text.quoted '\'' text), values)
  | .marker =>
    match values with
    | v :: rest => some (.parameter v, rest)
    | [] => none
  | _ => none

/-- The items of a text; each marker takes the next value, and no value may be left. -/
def Item.all? (values : List Value) : List Token → Option (List Item)
  | [] => if values = [] then some [] else none
  | .opening :: rest => (all? values rest).map (opening :: ·)
  | .closing :: rest => (all? values rest).map (closing :: ·)
  | .connective logic :: rest => (all? values rest).map (connective logic :: ·)
  | .name table :: .dot :: .name field :: .is :: .null :: rest =>
    (all? values rest).map (leaf (.nullCheck table field false) :: ·)
  | .name table :: .dot :: .name field :: .is :: .not :: .null :: rest =>
    (all? values rest).map (leaf (.nullCheck table field true) :: ·)
  | .name table :: .dot :: .name field :: .operator op :: t :: rest =>
    match Operand.ofToken? values t with
    | some (operand, values) => (all? values rest).map (leaf (.comparison table field op operand) :: ·)
    | none => none
  | _ => none

namespace Clause

/-! ### Precedence -/

/-- What stands before an operand since the last open parenthesis: terms that end in OR, and after them
terms that end in AND. -/
structure Level where
  sum : Option Clause := none
  product : Option Clause := none

/-- A clause behind one that ends in a connective. -/
def after (logic : Connective) (c : Clause) : Option Clause → Clause
  | some left => combination left logic c
  | none => c

/-- The operand joined to what ends in AND. -/
def Level.conjoin (l : Level) (c : Clause) : Clause := after .and c l.product

/-- All that was read of a level, with its last operand. -/
def Level.total (l : Level) (c : Clause) : Clause := after .or (l.conjoin c) l.sum

/-- A text read in part: the levels around the current one, and the operand that was read last. -/
structure Reading where
  outer : List Level := []
  level : Level := {}
  operand : Option Clause := none

/-- Operands and connectives take turns. AND takes only the operand before it, OR takes all of its level. -/
def Reading.step? (r : Reading) : Item → Option Reading
  | .leaf c =>
    match r.operand with
    | none => some {r with operand := some c}
    | some _ => none
  | .connective logic => r.operand.map fun c =>
    match logic with
    | .and => {r with level := {r.level with product := some (r.level.conjoin c)}, operand := none}
    | .or => {r with level := {sum := some (r.level.total c)}, operand := none}
  | .opening =>
    match r.operand with
    | none => some {outer := r.level :: r.outer}
    | some _ => none
  | .closing =>
    match r.outer, r.operand with
    | level :: outer, some c => some {outer, level, operand := some (r.level.total c)}
    | _, _ => none

/-- The clause that was read, when no parenthesis is open and no connective waits. -/
def Reading.result? (r : Reading) : Option Clause :=
  match r.outer with
  | [] => r.operand.map r.level.total
  | _ :: _ => none

/-- The clause that items make. -/
def ofItems? (items : List Item) : Option Clause := (items.foldlM Reading.step? {}).bind Reading.result?

/-- Reads a condition from its text and its values. -/
def read? (d : Dialect) (f : Fragment) : Option Clause := do
  let tokens ← Token.all? d f.sql.toList
  let items ← Item.all? f.params tokens
  ofItems? items

/-- OR waits for what AND joins, and both join from the left. -/
example : ofItems? ([.leaf (.nullCheck "T" "a" false), .connective .or, .leaf (.nullCheck "T" "b" false),
    .connective .and, .leaf (.nullCheck "T" "c" false), .connective .or, .leaf (.nullCheck "T" "d" false)]) =
      some (.combination
        (.combination (.nullCheck "T" "a" false) .or
          (.combination (.nullCheck "T" "b" false) .and (.nullCheck "T" "c" false)))
        .or (.nullCheck "T" "d" false)) := rfl

end Clause

namespace Condition

/-! ### The tokens of a condition -/

/-- A text that is read as the constant that it is. -/
inductive IsConstant : String → Token → Prop
  | literal (s : String) : IsConstant (Text.quoted '\'' s) (.literal s)
  | word {s : String} (hne : s.toList ≠ []) (hchars : ∀ c ∈ s.toList, Token.isWordChar c = true)
    (hword : Token.ofWord s = .word s) : IsConstant s (.word s)

theorem isConstant_ofInt (n : Int) : IsConstant (Text.ofInt n) (.word (Text.ofInt n)) := by
  have htext : (Text.ofInt n).toList = (if n < 0 then ['-'] else []) ++ Text.digits n.natAbs := by
    rw [Text.ofInt, String.toList_ofList, Text.padded_zero]
  have hchars : ∀ c ∈ (Text.ofInt n).toList, c = '-' ∨ c.isDigit = true := by
    intro c hc
    rw [Text.ofInt, String.toList_ofList] at hc
    exact Text.eq_or_isDigit_of_mem_padded hc
  refine .word ?_ (fun c hc => ?_) ?_
  · rw [htext]
    simp [Text.digits]
  · rcases hchars c hc with rfl | hdigit
    · decide
    · simp [Token.isWordChar, Char.isAlphanum, hdigit]
  · -- A keyword has a letter.
    have hother : ∀ {keyword : String} {c : Char}, c ∈ keyword.toList → c ≠ '-' → c.isDigit = false →
        Text.ofInt n ≠ keyword := by
      rintro keyword c hc hsign hdigit he
      rcases hchars c (he ▸ hc) with h | h
      · exact hsign h
      · rw [hdigit] at h
        cases h
    unfold Token.ofWord
    split
    · next h => exact absurd h (hother (c := 'A') (by decide) (by decide) rfl)
    · next h => exact absurd h (hother (c := 'O') (by decide) (by decide) rfl)
    · next h => exact absurd h (hother (c := 'I') (by decide) (by decide) rfl)
    · next h => exact absurd h (hother (c := 'N') (by decide) (by decide) rfl)
    · next h => exact absurd h (hother (c := 'N') (by decide) (by decide) rfl)
    · rfl

theorem isConstant_bool (b : Bool) : ∃ t, IsConstant (if b then "true" else "false") t := by
  cases b
  · exact ⟨_, .word (by decide) (List.all_eq_true.1 (by decide)) rfl⟩
  · exact ⟨_, .word (by decide) (List.all_eq_true.1 (by decide)) rfl⟩

theorem isConstant_sqlLiteral {v : Value} {sql : String} (hv : v.isNull = false) (h : v.sqlLiteral? = some sql) :
    ∃ t, IsConstant sql t := by
  unfold Value.sqlLiteral? at h
  split at h
  · cases hv
  · cases h
    exact isConstant_bool _
  · cases h
    exact ⟨_, isConstant_ofInt _⟩
  · cases h
    exact ⟨_, isConstant_ofInt _⟩
  · cases h
  · cases h
    exact ⟨_, .literal _⟩

/-- What is written for a literal is one constant. -/
theorem isConstant_literal {f : Field} {v : Value} {sql : String} (hv : v.isNull = false)
    (h : f.literal v = .inlined sql) : ∃ t, IsConstant sql t := by
  unfold Field.literal at h
  split at h
  · next inlined hinline =>
    split at h
    · cases h
      unfold FieldKind.inlineText? at hinline
      split at hinline
      · obtain ⟨n, _, rfl⟩ := Option.map_eq_some_iff.1 hinline
        exact ⟨_, isConstant_ofInt n⟩
      · obtain ⟨b, _, rfl⟩ := Option.map_eq_some_iff.1 hinline
        exact isConstant_bool b
      · exact isConstant_sqlLiteral hv hinline
    · cases h
  · cases h

/-- The items of a part of a condition; those of a combination stand between parentheses. -/
def operandItems (c : Condition) (items : List Item) : List Item :=
  if c.isCombination then [.opening] ++ items ++ [.closing] else items

def items : Condition → List Item
  | comparison table field op v literal => [.leaf (comparison table field op v literal).clause]
  | nullCheck table field negated => [.leaf (nullCheck table field negated).clause]
  | combination left logic right =>
    left.operandItems left.items ++ [.connective logic] ++ right.operandItems right.items

/-- Wherever the fragment stands before what is apart from it, these items are read, and its values are used up. -/
def Reads (d : Dialect) (f : Fragment) (items : List Item) : Prop :=
  ∃ tokens, (∀ rest, Token.Apart rest →
      Token.all? d (f.sql.toList ++ rest) = (Token.all? d rest).map (tokens ++ ·)) ∧
    ∀ values rest, Item.all? (f.params ++ values) (tokens ++ rest) = (Item.all? values rest).map (items ++ ·)

section

variable {d : Dialect}

theorem apart_blank (rest : List Char) : Token.Apart (' ' :: rest) := Token.apart_cons (by decide)

theorem all?_qualify {rest : List Char} (hrest : Token.Apart rest) (table field : String) :
    Token.all? d ((d.qualify table field).toList ++ rest) =
      (Token.all? d rest).map ([.name table, .dot, .name field] ++ ·) := by
  have htext : (d.qualify table field).toList ++ rest =
      (d.quoteIdentifier table).toList ++ '.' :: ((d.quoteIdentifier field).toList ++ rest) := by
    simp [Dialect.qualify]
  rw [htext, Token.all?_quoteIdentifier d (Token.apart_cons (by decide)), Token.all?_char d rfl,
    Token.all?_quoteIdentifier d hrest]
  simp [Function.comp_def]

theorem reads_nullCheck (table field : String) (negated : Bool) :
    Reads d ((nullCheck table field negated).render d) (nullCheck table field negated).items := by
  have hword : ∀ {text : String} {rest : List Char}, Token.Apart rest → text.toList ≠ [] →
      text.toList.all Token.isWordChar = true →
      Token.all? d (' ' :: (text.toList ++ rest)) = (Token.all? d rest).map (Token.ofWord text :: ·) := by
    intro text rest hrest hne hchars
    rw [Token.all?_blank, Token.all?_word d hrest hne hchars]
  cases negated with
  | false =>
    refine ⟨[.name table, .dot, .name field, .is, .null], fun rest hrest => ?_, fun values rest => rfl⟩
    have htext : (render d (nullCheck table field false)).sql.toList ++ rest =
        (d.qualify table field).toList ++ ' ' :: ("IS".toList ++ ' ' :: ("NULL".toList ++ rest)) := by
      simp [render]
    rw [htext, all?_qualify (apart_blank _), hword (apart_blank _) (by decide) (by decide),
      hword hrest (by decide) (by decide)]
    simp [Function.comp_def, Token.ofWord]
  | true =>
    refine ⟨[.name table, .dot, .name field, .is, .not, .null], fun rest hrest => ?_, fun values rest => rfl⟩
    have htext : (render d (nullCheck table field true)).sql.toList ++ rest =
        (d.qualify table field).toList ++ ' ' :: ("IS".toList ++ ' ' :: ("NOT".toList ++
          ' ' :: ("NULL".toList ++ rest))) := by
      simp [render]
    rw [htext, all?_qualify (apart_blank _), hword (apart_blank _) (by decide) (by decide),
      hword (apart_blank _) (by decide) (by decide), hword hrest (by decide) (by decide)]
    simp [Function.comp_def, Token.ofWord]

/-- The right side of a comparison is one token, which stands for its operand. -/
theorem literalFragment_token (v : Value) {literal : Literal}
    (h : ∀ sql, literal = .inlined sql → ∃ t, IsConstant sql t) :
    ∃ t, (∀ rest, Token.Apart rest →
        Token.all? d ((literalFragment v literal).sql.toList ++ rest) = (Token.all? d rest).map (t :: ·)) ∧
      ∀ values, Operand.ofToken? ((literalFragment v literal).params ++ values) t =
        some (operandOf v literal, values) := by
  cases literal with
  | bound =>
    have htext : (literalFragment v .bound).sql.toList = ['?'] := by simp [literalFragment]
    refine ⟨.marker, fun rest _ => ?_, fun values => rfl⟩
    rw [htext]
    exact Token.all?_char d rfl rest
  | inlined sql =>
    obtain ⟨t, ht⟩ := h sql rfl
    refine ⟨t, fun rest hrest => ?_, fun values => ?_⟩
    · cases ht with
      | literal text => exact Token.all?_quoteLiteral d hrest text
      | word hne hchars hword =>
        have := Token.all?_word d hrest hne (List.all_eq_true.2 hchars)
        rwa [hword] at this
    · cases ht <;> rfl

theorem reads_comparison (table field : String) (op : Operator) (v : Value) {literal : Literal}
    (h : ∀ sql, literal = .inlined sql → ∃ t, IsConstant sql t) :
    Reads d ((comparison table field op v literal).render d) (comparison table field op v literal).items := by
  obtain ⟨t, hread, htoken⟩ := literalFragment_token (d := d) v h
  refine ⟨[.name table, .dot, .name field, .operator op, t], fun rest hrest => ?_, fun values rest => ?_⟩
  · have htext : (render d (comparison table field op v literal)).sql.toList ++ rest =
        (d.qualify table field).toList ++ ' ' :: (op.sql.toList ++ ' ' ::
          ((literalFragment v literal).sql.toList ++ rest)) := by
      simp [render]
    rw [htext, all?_qualify (apart_blank _), Token.all?_blank, Token.all?_operator d (apart_blank _),
      Token.all?_blank, hread rest hrest]
    simp [Function.comp_def]
  · have hparams : (render d (comparison table field op v literal)).params = (literalFragment v literal).params := by
      simp [render]
    rw [hparams]
    simp only [List.cons_append, List.nil_append, Item.all?, htoken]
    rfl

/-- Parentheses are read as what they are. -/
theorem Reads.operand {c : Condition} {f : Fragment} {items : List Item} (h : Reads d f items) :
    Reads d (c.operand f) (c.operandItems items) := by
  unfold Condition.operand operandItems
  split
  · obtain ⟨tokens, hread, hitems⟩ := h
    refine ⟨.opening :: (tokens ++ [.closing]), fun rest _ => ?_, fun values rest => ?_⟩
    · have htext : (Fragment.raw "(" ++ f ++ Fragment.raw ")").sql.toList ++ rest =
          '(' :: (f.sql.toList ++ ')' :: rest) := by
        simp
      rw [htext, Token.all?_char d rfl, hread _ (Token.apart_cons (by decide)), Token.all?_char d rfl]
      simp [Function.comp_def]
    · have hparams : (Fragment.raw "(" ++ f ++ Fragment.raw ")").params = f.params := by simp
      have hclosing : Item.all? values ([.closing] ++ rest) = (Item.all? values rest).map (.closing :: ·) := rfl
      rw [hparams, List.cons_append, Item.all?, List.append_assoc, hitems, hclosing]
      simp [Function.comp_def]
  · exact h

theorem Reads.combination {left right : Fragment} {litems ritems : List Item} (hl : Reads d left litems)
    (hr : Reads d right ritems) (logic : Connective) :
    Reads d (left ++ .raw (" " ++ logic.sql ++ " ") ++ right) (litems ++ [.connective logic] ++ ritems) := by
  obtain ⟨ltokens, hlread, hlitems⟩ := hl
  obtain ⟨rtokens, hrread, hritems⟩ := hr
  refine ⟨ltokens ++ .connective logic :: rtokens, fun rest hrest => ?_, fun values rest => ?_⟩
  · have hlogic : ∀ rest, Token.all? d (logic.sql.toList ++ ' ' :: rest) =
        (Token.all? d rest).map (.connective logic :: ·) := by
      intro rest
      have hword : Token.ofWord logic.sql = .connective logic := by cases logic <;> rfl
      rw [Token.all?_word d (apart_blank rest) (by cases logic <;> decide) (by cases logic <;> decide), hword,
        Token.all?_blank]
    have htext : (left ++ Fragment.raw (" " ++ logic.sql ++ " ") ++ right).sql.toList ++ rest =
        left.sql.toList ++ ' ' :: (logic.sql.toList ++ ' ' :: (right.sql.toList ++ rest)) := by
      simp
    rw [htext, hlread _ (apart_blank _), Token.all?_blank, hlogic, hrread rest hrest]
    simp [Function.comp_def]
  · have hparams : (left ++ Fragment.raw (" " ++ logic.sql ++ " ") ++ right).params ++ values =
        left.params ++ (right.params ++ values) := by
      simp
    rw [hparams, List.append_assoc, hlitems, List.cons_append, Item.all?, hritems]
    simp [Function.comp_def]

/-- The leaves, connectives and parentheses of a compiled condition are found in its text. -/
theorem reads_render {P : Value → Prop} {m : Model} {rules : Rules} {c : Condition} (h : c.CompiledFor P m rules) :
    Reads d (c.render d) c.items := by
  induction c with
  | comparison table field op v literal =>
    obtain ⟨-, f, hf⟩ := h
    refine reads_comparison table field op v fun sql hsql => ?_
    exact isConstant_literal hf.notNull (hf.literal.symm.trans hsql)
  | nullCheck table field negated => exact reads_nullCheck table field negated
  | combination left logic right ihl ihr =>
    exact Reads.combination (ihl h.1).operand (ihr h.2).operand logic

end

end Condition

/-! ### The clause of a condition -/

namespace Clause

open Condition (items operandItems)

/-- A part of a condition is the operand that is read next, if its own items make its clause. -/
theorem run_operandItems {c : Condition} (outer : List Level) (level : Level)
    (h : ∀ outer, ∃ inner last, c.items.foldlM Reading.step? {outer} = some ⟨outer, inner, some last⟩ ∧
      inner.total last = c.clause) :
    (operandItems c c.items).foldlM Reading.step? ⟨outer, level, none⟩ = some ⟨outer, level, some c.clause⟩ := by
  cases c with
  | comparison table field op v literal => rfl
  | nullCheck table field negated => rfl
  | combination left logic right =>
    obtain ⟨inner, last, hrun, htotal⟩ := h (level :: outer)
    have hitems : operandItems (.combination left logic right) (items (.combination left logic right)) =
        .opening :: (items (.combination left logic right) ++ [.closing]) := rfl
    rw [hitems, List.foldlM_cons, ← htotal]
    show ((_ ++ [Item.closing]).foldlM Reading.step? {outer := level :: outer}) = _
    rw [List.foldlM_append, hrun]
    rfl

/-- The items of a condition make its clause at whatever depth they stand. -/
theorem run_items (c : Condition) (outer : List Level) :
    ∃ level last, c.items.foldlM Reading.step? {outer} = some ⟨outer, level, some last⟩ ∧
      level.total last = c.clause := by
  induction c generalizing outer with
  | comparison table field op v literal => exact ⟨{}, _, rfl, rfl⟩
  | nullCheck table field negated => exact ⟨{}, _, rfl, rfl⟩
  | combination left logic right ihl ihr =>
    rw [items, List.foldlM_append, List.foldlM_append, run_operandItems outer {} ihl]
    -- The parts are operands already, so that each connective joins just two of them.
    cases logic with
    | and => exact ⟨⟨none, some left.clause⟩, right.clause, run_operandItems outer _ ihr, rfl⟩
    | or => exact ⟨⟨some left.clause, none⟩, right.clause, run_operandItems outer _ ihr, rfl⟩

theorem ofItems?_items (c : Condition) : ofItems? c.items = some c.clause := by
  obtain ⟨level, last, hrun, htotal⟩ := run_items c []
  rw [ofItems?, hrun, ← htotal]
  rfl

/-- From the text of a compiled condition, in whatever dialect, its clause is read: the leaves in their order, each
with its column, its operator and its literal or bound value, and AND and OR nested as they are. So compiled
conditions with the same text and values have the same clause. -/
theorem read?_render {m : Model} {rules : Rules} {p : Predicate} {c : Condition}
    (h : Condition.compile m rules p = .ok c) (d : Dialect) :
    read? d (c.render d) = some c.clause ∧
      ∀ {m' : Model} {rules' : Rules} {p' : Predicate} {c' : Condition}, Condition.compile m' rules' p' = .ok c' →
        c'.render d = c.render d → c'.clause = c.clause := by
  have hread : ∀ {m : Model} {rules : Rules} {p : Predicate} {c : Condition},
      Condition.compile m rules p = .ok c → read? d (c.render d) = some c.clause := by
    intro m rules p c h
    obtain ⟨tokens, htokens, hitems⟩ :=
      Condition.reads_render (d := d) (Condition.compiledFor_of_compile p.literals_true h)
    have htokens := htokens [] Token.apart_nil
    have hitems := hitems [] []
    simp only [List.append_nil, Token.all?_nil, Item.all?, Option.map_some, if_true] at htokens hitems
    rw [read?, htokens]
    show (Item.all? _ tokens).bind ofItems? = _
    rw [hitems]
    exact ofItems?_items c
  refine ⟨hread h, fun h' hsame => ?_⟩
  exact Option.some.inj ((hread h').symm.trans ((congrArg (read? d) hsame).trans (hread h)))

/-- A model with quotes, parentheses, connectives and question marks in its names and variants. -/
def agenda (day : Field) : Model :=
  {name := "a`genda", fields := [day, .text "OR ?" 1 20, .enumeration "`x`) AND (y" "Kind" ["it's (AND ?)", "OR"]]}

def agendaPredicate : Predicate :=
  .and (.or (.equals "`x`) AND (y" (.text "it's (AND ?)")) (.equals "d'ay" (.text "2024-01-01")))
    (.and (.compare "OR ?" .ne (.text "'?' OR 1")) (.compare "`x`) AND (y" .ne (.text "OR")))

def agendaCondition (day : Value) : Condition :=
  .combination
    (.combination
      (.comparison "a`genda" "`x`) AND (y" .eq (.text "it's (AND ?)") (.inlined "'it''s (AND ?)'")) .or
      (.comparison "a`genda" "d'ay" .eq day (.inlined "'2024-01-01'")))
    .and
    (.combination
      (.comparison "a`genda" "OR ?" .ne (.text "'?' OR 1") .bound) .and
      (.comparison "a`genda" "`x`) AND (y" .ne (.text "OR") (.inlined "'OR'")))

def agendaFragment : Fragment where
  sql := "(\x60a\x60\x60genda\x60.\x60\x60\x60x\x60\x60) AND (y\x60 = 'it''s (AND ?)' OR " ++
    "\x60a\x60\x60genda\x60.\x60d'ay\x60 = '2024-01-01') AND (\x60a\x60\x60genda\x60.\x60OR ?\x60 != ? AND " ++
    "\x60a\x60\x60genda\x60.\x60\x60\x60x\x60\x60) AND (y\x60 != 'OR')"
  params := [.text "'?' OR 1"]

/-- A day and a variant that is written like it give conditions that are told apart by no reader. -/
theorem read?_render_agenda :
    Condition.compile (agenda (.date "d'ay")) (Pattern.rules 19723) agendaPredicate =
      .ok (agendaCondition (.date 19723)) ∧
    Condition.compile (agenda (.enumeration "d'ay" "Day" ["2024-01-01"])) (Pattern.rules 19723) agendaPredicate =
      .ok (agendaCondition (.text "2024-01-01")) ∧
    read? .mysql agendaFragment = some (agendaCondition (.date 19723)).clause ∧
    (agendaCondition (.text "2024-01-01")).clause = (agendaCondition (.date 19723)).clause := by
  have hdate : Condition.compile (agenda (.date "d'ay")) (Pattern.rules 19723) agendaPredicate =
      .ok (agendaCondition (.date 19723)) :=
    ok_of_toOption (by decide +kernel)
  have hvariant : Condition.compile (agenda (.enumeration "d'ay" "Day" ["2024-01-01"])) (Pattern.rules 19723)
      agendaPredicate = .ok (agendaCondition (.text "2024-01-01")) :=
    ok_of_toOption (by decide +kernel)
  have htext : (agendaCondition (.date 19723)).render .mysql = agendaFragment ∧
      (agendaCondition (.text "2024-01-01")).render .mysql = agendaFragment := by
    decide +kernel
  obtain ⟨hread, hsame⟩ := read?_render hdate .mysql
  rw [htext.1] at hread
  exact ⟨hdate, hvariant, hread, hsame hvariant (htext.2.trans htext.1.symm)⟩

end Clause

end RecordMapper
