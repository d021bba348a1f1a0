import RecordMapper.Proofs.Dialect.Markers
import RecordMapper.Statement.Fragment

/-! Statements with the places of their values.

A fragment keeps its text and its values apart, and only the scan for markers tells which value
belongs where. A template has both in one list. The fragment of a template whose text is balanced
finishes as the template reads: every piece of text as it is, and the marker of the n-th place
where the n-th value stands (`finish_fragment`). -/
namespace RecordMapper

namespace Fragment

theorem empty_append (f : Fragment) : ({} : Fragment) ++ f = f := by
  show (⟨"" ++ f.sql, [] ++ f.params⟩ : Fragment) = f
  rw [String.empty_append, List.nil_append]

theorem append_empty (f : Fragment) : f ++ ({} : Fragment) = f := by
  show (⟨f.sql ++ "", f.params ++ []⟩ : Fragment) = f
  rw [String.append_empty, List.append_nil]

theorem append_assoc (a b c : Fragment) : a ++ b ++ c = a ++ (b ++ c) := by
  show (⟨a.sql ++ b.sql ++ c.sql, a.params ++ b.params ++ c.params⟩ : Fragment) =
    ⟨a.sql ++ (b.sql ++ c.sql), a.params ++ (b.params ++ c.params)⟩
  rw [String.append_assoc, List.append_assoc]

end Fragment

/-- A piece of a statement: text, or the place of a bound value. -/
inductive Piece where
  | text (sql : String)
  | place (v : Value)

abbrev Template := List Piece

namespace Template

/-- The values, place by place. -/
def values : Template → List Value
  | [] => []
  | .text _ :: rest => values rest
  | .place v :: rest => v :: values rest

/-- The text with a dialect's markers at the places, `seen` of which came before. -/
def numbered (d : Dialect) (seen : Nat) : Template → String
  | [] => ""
  | .text sql :: rest => sql ++ numbered d seen rest
  | .place _ :: rest => d.placeholder (seen + 1) ++ numbered d (seen + 1) rest

/-- The statement that a template reads as. -/
def statement (d : Dialect) (t : Template) : Statement := ⟨t.numbered d 0, t.values⟩

def fragment : Template → Fragment
  | [] => {}
  | .text sql :: rest => .raw sql ++ fragment rest
  | .place v :: rest => .param v ++ fragment rest

/-- Templates one after another with a text between each two. -/
def joined (separator : String) : List Template → Template
  | [] => []
  | [t] => t
  | t :: rest => t ++ .text separator :: joined separator rest

/-- No text has a marker of its own, or leaves a quote open. -/
def Balanced (t : Template) : Prop := ∀ sql, .text sql ∈ t → Dialect.Balanced sql

/-! ### Putting templates together -/

theorem values_append (a b : Template) : values (a ++ b) = values a ++ values b := by
  induction a with
  | nil => rfl
  | cons piece rest ih => cases piece <;> simp [values, ih]

theorem fragment_append (a b : Template) : fragment (a ++ b) = fragment a ++ fragment b := by
  induction a with
  | nil => exact (Fragment.empty_append _).symm
  | cons piece rest ih => cases piece <;> simp only [List.cons_append, fragment, ih, Fragment.append_assoc]

theorem fragment_text (sql : String) : fragment [.text sql] = .raw sql := Fragment.append_empty _

theorem fragment_place (v : Value) : fragment [.place v] = .param v := Fragment.append_empty _

theorem values_joined (separator : String) (ts : List Template) :
    values (joined separator ts) = ts.flatMap values := by
  induction ts with
  | nil => rfl
  | cons t rest ih =>
    cases rest with
    | nil => simp [joined]
    | cons u more =>
      rw [joined, values_append, values, ih]
      · rfl
      · simp

theorem fragment_joined (separator : String) (ts : List Template) :
    fragment (joined separator ts) = .joined separator (ts.map fragment) := by
  induction ts with
  | nil => rfl
  | cons t rest ih =>
    cases rest with
    | nil => rfl
    | cons u more =>
      show fragment (t ++ .text separator :: joined separator (u :: more)) = _
      rw [fragment_append, fragment, ih, ← Fragment.append_assoc]
      rfl

theorem Balanced.append {a b : Template} (ha : a.Balanced) (hb : b.Balanced) : Balanced (a ++ b) :=
  fun sql h => (List.mem_append.1 h).elim (ha sql) (hb sql)

theorem balanced_nil : Balanced [] := fun _ h => absurd h List.not_mem_nil

theorem balanced_text {sql : String} (h : Dialect.Balanced sql) : Balanced [.text sql] := by
  intro other hmem
  obtain rfl := Piece.text.inj (List.mem_singleton.1 hmem)
  exact h

theorem balanced_place (v : Value) : Balanced [.place v] := by
  intro sql h
  cases List.mem_singleton.1 h

theorem balanced_joined {separator : String} (hs : Dialect.Balanced separator) {ts : List Template}
    (h : ∀ t ∈ ts, Balanced t) : Balanced (joined separator ts) := by
  induction ts with
  | nil => exact balanced_nil
  | cons t rest ih =>
    cases rest with
    | nil => exact h t (.head _)
    | cons u more =>
      have hrest := ih fun t ht => h t (.tail _ ht)
      exact (h t (.head _)).append ((balanced_text hs).append hrest)

/-! ### Finishing -/

theorem substituteFrom_fragment {t : Template} (hb : t.Balanced) (d : Dialect) (seen : Nat) :
    d.substituteFrom none seen t.fragment.sql.toList =
      ((t.numbered d seen).toList, seen + t.values.length) := by
  induction t generalizing seen with
  | nil => rfl
  | cons piece rest ih =>
    have hrest : Balanced rest := fun sql h => hb sql (.tail _ h)
    cases piece with
    | text sql =>
      simp only [fragment, numbered, values, Fragment.sql_append, Fragment.sql_raw, String.toList_append]
      rw [d.substituteFrom_append (hb sql (.head _)), ih hrest]
    | place v =>
      have hmark : (fragment (.place v :: rest)).sql.toList = '?' :: (fragment rest).sql.toList := by
        simp only [fragment, Fragment.sql_append, Fragment.sql_param, String.toList_append]
        rfl
      have hstep : d.substituteFrom none seen ('?' :: (fragment rest).sql.toList) =
          ((d.placeholder (seen + 1)).toList ++ (d.substituteFrom none (seen + 1) (fragment rest).sql.toList).1,
            (d.substituteFrom none (seen + 1) (fragment rest).sql.toList).2) := rfl
      rw [hmark, hstep, ih hrest]
      simp only [numbered, values, String.toList_append, List.length_cons]
      rw [show seen + 1 + (values rest).length = seen + ((values rest).length + 1) by omega]

theorem params_fragment (t : Template) : t.fragment.params = t.values := by
  induction t with
  | nil => rfl
  | cons piece rest ih => cases piece <;> simp [fragment, values, ih]

/-- The fragment of a template finishes as the template reads. -/
theorem finish_fragment {t : Template} (hb : t.Balanced) (d : Dialect) :
    t.fragment.finish d = .ok (t.statement d) := by
  have hsubstitute : d.substitute t.fragment.sql = (t.numbered d 0, t.values.length) := by
    simp only [Dialect.substitute, substituteFrom_fragment hb, String.ofList_toList, Nat.zero_add]
  simp only [Fragment.finish, hsubstitute, params_fragment, Nat.lt_irrefl, if_false]
  rfl

end Template

end RecordMapper
