import RecordMapper.Condition.Operator
import RecordMapper.Proofs.Calendar.Order
import RecordMapper.Proofs.Field.Plain
import RecordMapper.Storage.Stored

/-! Comparisons of cells.

A database compares integers as numbers and texts by their bytes, and what it compares with NULL is
unknown. The cells of the values that a field keeps stand in the order of the values wherever the
field's comparisons ask for it (`Keeps.compared?`): truth values are 0 and 1, and dates and moments
are written with the longest period first. -/
namespace RecordMapper
open Storage (Stored)

/-! ### Three truth values -/

/-- What a condition in a statement comes to. -/
inductive Truth where
  | holds | fails | unknown
  deriving DecidableEq

namespace Truth

def ofBool (b : Bool) : Truth := if b then holds else fails

/-- It holds if both hold, and fails if either fails. -/
def and : Truth → Truth → Truth
  | holds, t => t
  | fails, _ => fails
  | unknown, fails => fails
  | unknown, _ => unknown

/-- It holds if either holds, and fails if both fail. -/
def or : Truth → Truth → Truth
  | holds, _ => holds
  | fails, t => t
  | unknown, holds => holds
  | unknown, _ => unknown

/-- The connective that a word between two conditions stands for. -/
def connective? : String → Option (Truth → Truth → Truth)
  | "AND" => some and
  | "OR" => some or
  | _ => none

theorem ofBool_eq_holds {b : Bool} : ofBool b = holds ↔ b = true := by
  cases b <;> simp [ofBool]

theorem and_eq_holds {s t : Truth} : s.and t = holds ↔ s = holds ∧ t = holds := by
  cases s <;> cases t <;> simp [and]

theorem or_eq_holds {s t : Truth} : s.or t = holds ↔ s = holds ∨ t = holds := by
  cases s <;> cases t <;> simp [or]

end Truth

/-! ### Cells -/

namespace Storage.Stored

def isNull : Stored → Bool
  | null => true
  | _ => false

/-- How two cells stand to one another. An integer comes before a text. Values other than NULL are
stored as one or the other. -/
def order? : Stored → Stored → Option Ordering
  | integer m, integer n => some (compare m.toInt n.toInt)
  | integer _, text _ => some .lt
  | text _, integer _ => some .gt
  | text s, text t => some (compare (Text.bytes s) (Text.bytes t))
  | _, _ => none

end Storage.Stored

/-- The relation that a symbol between two terms stands for. -/
def Storage.relation? : String → Option (Ordering → Bool)
  | "=" => some Ordering.isEq
  | "!=" => some Ordering.isNe
  | "<" => some Ordering.isLT
  | "<=" => some Ordering.isLE
  | ">" => some Ordering.isGT
  | ">=" => some Ordering.isGE
  | _ => none

/-- What a comparison of two cells by a written symbol comes to. -/
def Storage.Stored.compared? (symbol : String) (a b : Stored) : Option Truth := do
  let relation ← Storage.relation? symbol
  if a.isNull || b.isNull then return .unknown
  let o ← a.order? b
  return .ofBool (relation o)

/-- Every operator is written as the symbol for what it means in memory. -/
theorem Operator.relation?_sql (op : Operator) : Storage.relation? op.sql = some op.holds := by
  have hholds : ∀ {f : Ordering → Bool}, (∀ o, f o = op.holds o) → some f = some op.holds :=
    fun h => congrArg some (funext h)
  cases op with
  | eq => exact hholds fun o => by cases o <;> rfl
  | ne => exact hholds fun o => by cases o <;> rfl
  | lt => exact hholds fun o => by cases o <;> rfl
  | le => exact hholds fun o => by cases o <;> rfl
  | gt => exact hholds fun o => by cases o <;> rfl
  | ge => exact hholds fun o => by cases o <;> rfl

/-- An operator that does not ask for an order only sees whether there is equality. -/
theorem Operator.holds_congr {op : Operator} (hop : op.isRelational = false) {o o' : Ordering}
    (h : o = .eq ↔ o' = .eq) : op.holds o = op.holds o' := by
  have heq : (o == .eq) = (o' == .eq) := by
    rw [Bool.eq_iff_iff, beq_iff_eq, beq_iff_eq, h]
  cases op with
  | eq => exact heq
  | ne => exact congrArg not heq
  | lt => cases hop
  | le => cases hop
  | gt => cases hop
  | ge => cases hop

/-! ### Values and their cells -/

theorem Value.isNull_iff {v : Value} : v.isNull = true ↔ v = .null := by
  cases v <;> simp [isNull]

theorem Value.isNull_ofValue (v : Value) : (Stored.ofValue v).isNull = v.isNull := by
  cases v <;> rfl

namespace Storage.Stored

/-- The cells of two days stand to one another as the days do. -/
theorem order?_date {a b : Int32} (ha : (Calendar.date a.toInt).Short) (hb : (Calendar.date b.toInt).Short) :
    (ofValue (.date a)).order? (ofValue (.date b)) = some (compare a.toInt b.toInt) := by
  show some (compare (Text.bytes (String.ofList _)) (Text.bytes (String.ofList _))) = _
  rw [Text.bytes_ofList (Calendar.ascii_dateText _), Text.bytes_ofList (Calendar.ascii_dateText _),
    Calendar.compare_dateText ha hb]

/-- The cells of two moments stand to one another as the seconds do in which the moments lie. -/
theorem order?_timestamp {m n : Int64} (hm : (Calendar.date (Calendar.dayOf m.toInt)).Short)
    (hn : (Calendar.date (Calendar.dayOf n.toInt)).Short) :
    (ofValue (.timestamp m)).order? (ofValue (.timestamp n)) =
      some (compare (Calendar.wholeSecond m.toInt) (Calendar.wholeSecond n.toInt)) := by
  show some (compare (Text.bytes (String.ofList _)) (Text.bytes (String.ofList _))) = _
  rw [Text.bytes_ofList (Calendar.ascii_momentText _), Text.bytes_ofList (Calendar.ascii_momentText _),
    Calendar.compare_momentText hm hn]

end Storage.Stored

/-- The cells of two short dates stand to one another as the days do in memory. -/
theorem Calendar.Date.Short.order? {d e : Calendar.Date} (hd : d.Short) (he : e.Short) :
    (Stored.ofValue (.date (Int32.ofInt (Calendar.days d)))).order?
        (Stored.ofValue (.date (Int32.ofInt (Calendar.days e)))) =
      (Value.date (Int32.ofInt (Calendar.days d))).compare? (.date (Int32.ofInt (Calendar.days e))) := by
  have hshort : ∀ {d : Calendar.Date}, d.Short → (Calendar.date (Int32.ofInt (Calendar.days d)).toInt).Short := by
    intro d h
    rwa [h.toInt_days, Calendar.date_days h.valid]
  exact Stored.order?_date (hshort hd) (hshort he)

/-- The cells of two instants stand to one another as the moments do in memory. -/
theorem Calendar.Instant.order? {d e : Calendar.Date} {s t m n : Int} (hm : Calendar.Instant d s m)
    (hn : Calendar.Instant e t n) :
    (Stored.ofValue (.timestamp (Int64.ofInt m))).order? (Stored.ofValue (.timestamp (Int64.ofInt n))) =
      (Value.timestamp (Int64.ofInt m)).compare? (.timestamp (Int64.ofInt n)) := by
  have hshort : ∀ {d s m}, Calendar.Instant d s m → (Calendar.date (Calendar.dayOf (Int64.ofInt m).toInt)).Short := by
    intro d s m h
    rw [h.toInt_micros, h.dayOf_eq, Calendar.date_days h.short.valid]
    exact h.short
  rw [Stored.order?_timestamp (hshort hm) (hshort hn)]
  show some (compare _ _) = some (compare _ _)
  rw [hm.toInt_micros, hn.toInt_micros, hm.compare_wholeSecond hn]

namespace FieldKind

theorem Keeps.isNull {kind : FieldKind} {v : Value} (h : kind.Keeps v) : v.isNull = false := by
  cases h <;> rfl

/-- Kept texts are only compared for equality. -/
theorem not_isRelational_of_isText {kind : FieldKind} (hkind : kind.isText = true) {op : Operator}
    (hop : op.isRelational = true → kind.isOrdered = true) : op.isRelational = false := by
  have hunordered : kind.isOrdered = false := by
    cases kind <;> simp [isOrdered, isText] at hkind ⊢
  cases h : op.isRelational
  · rfl
  · rw [hop h] at hunordered
    cases hunordered

/-- The cells of two values stand in an order that an operator of the kind sees as that of the values. -/
theorem Keeps.order? {kind : FieldKind} {a b : Value} (ha : kind.Keeps a) (hb : kind.Keeps b) {op : Operator}
    (hop : op.isRelational = true → kind.isOrdered = true) :
    ∃ o o', (Stored.ofValue a).order? (Stored.ofValue b) = some o ∧ a.compare? b = some o' ∧
      op.holds o = op.holds o' := by
  -- Two values of one kind are of one type; only a kind of text leaves its constructor open.
  cases ha with
  | text hkind s =>
    cases hb with
    | text _ t =>
      refine ⟨_, _, rfl, rfl, Operator.holds_congr (not_isRelational_of_isText hkind hop) ?_⟩
      show compare (Text.bytes s) (Text.bytes t) = .eq ↔ compare s t = .eq
      rw [Std.compare_eq_iff_eq, Std.compare_eq_iff_eq, Text.bytes_inj]
    | integer => cases hkind
    | boolean => cases hkind
    | date => cases hkind
    | timestamp => cases hkind
  | integer min max m =>
    cases hb with
    | text hkind _ => cases hkind
    | integer _ _ n => exact ⟨_, _, rfl, rfl, rfl⟩
  | boolean p =>
    cases hb with
    | text hkind _ => cases hkind
    | boolean q => exact ⟨_, _, rfl, rfl, by cases p <;> cases q <;> rfl⟩
  | date hd =>
    cases hb with
    | text hkind _ => cases hkind
    | date he => exact ⟨_, _, hd.order? he, rfl, rfl⟩
  | timestamp hm =>
    cases hb with
    | text hkind _ => cases hkind
    | timestamp hn => exact ⟨_, _, hm.order? hn, rfl, rfl⟩

/-- A comparison of cells comes to what the comparison of the values does in memory. -/
theorem Keeps.compared? {kind : FieldKind} {a b : Value} (ha : kind.Keeps a) (hb : kind.Keeps b)
    {op : Operator} (hop : op.isRelational = true → kind.isOrdered = true) :
    (Stored.ofValue a).compared? op.sql (Stored.ofValue b) = some (.ofBool ((a.compare? b).any op.holds)) := by
  obtain ⟨o, o', hcells, hvalues, hholds⟩ := ha.order? hb hop
  unfold Stored.compared?
  rw [op.relation?_sql, Value.isNull_ofValue, Value.isNull_ofValue, ha.isNull, hb.isNull, hcells, hvalues]
  simp [hholds]

end FieldKind

end RecordMapper
