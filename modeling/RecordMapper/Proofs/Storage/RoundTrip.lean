import RecordMapper.Proofs.Calendar.Reading
import RecordMapper.Proofs.Calendar.Window
import RecordMapper.Proofs.Dialect.Literals
import RecordMapper.Proofs.Field.Plain
import RecordMapper.Proofs.Field.Window
import RecordMapper.Proofs.Storage.Constant
import RecordMapper.Proofs.Text.Utf8
import RecordMapper.Storage.Stored

/-! Values that survive storage.

A value that a field keeps is stored in a cell, or written as a literal, and what is read from there is
brought into the field's form again. Integers, truth values and texts come back as they were. Dates and
moments come back from their text, which has four digits for the year and ends with the second, so they
survive exactly if that tells all of them (`survives_iff_isExact`). -/
namespace RecordMapper

namespace Value

/-- The text of a moment leaves nothing out after its second. -/
def IsWholeSecond : Value → Prop
  | timestamp micros => micros.toInt % Calendar.microsPerSecond = 0
  | _ => True

/-- The text of the value tells all of it: the year has four digits, and a moment is a whole second. -/
def IsExact : Value → Prop
  | date days => (Calendar.date days.toInt).Short
  | timestamp micros =>
    (Calendar.date (Calendar.dayOf micros.toInt)).Short ∧ micros.toInt % Calendar.microsPerSecond = 0
  | _ => True

instance : DecidablePred IsExact
  | date days => inferInstanceAs (Decidable (Calendar.date days.toInt).Short)
  | timestamp _ => instDecidableAnd
  | null | bool _ | int _ | bigInt _ | text _ | json _ => .isTrue trivial

end Value

/-! ### Exact values -/

namespace FieldKind

/-- Among the canonical values of a kind, the exact ones are those that it makes of plain values. -/
theorem keeps_iff_isExact {kind : FieldKind} {w : Value} (hw : kind.coerce w = .ok w) (hnull : w.isNull = false) :
    kind.Keeps w ↔ w.IsExact := by
  constructor
  · intro h
    cases h with
    | text _ s => trivial
    | integer min max n => trivial
    | boolean b => trivial
    | date h =>
      rw [Value.IsExact, h.toInt_days, Calendar.date_days h.valid]
      exact h
    | timestamp h =>
      obtain ⟨hdate, hsecond⟩ := h.of_micros
      rw [Value.IsExact, h.toInt_micros, hdate]
      exact ⟨h.short, hsecond⟩
  · intro hexact
    unfold coerce at hw
    split at hw
    case h_1 => cases hnull
    case h_2 => exact .text rfl _
    case h_3 => exact .text rfl _
    case h_4 => exact .text rfl _
    case h_5 => exact .text rfl _
    case h_7 => exact .integer _ _ _
    case h_8 => exact .boolean _
    case h_11 days =>
      have hdays := Keeps.date hexact
      rwa [Calendar.days_date, Int32.ofInt_toInt] at hdays
    case h_12 =>
      obtain ⟨day, -, hday⟩ := Option.map_eq_some_iff.1 (readOr_ok hw)
      cases hday
    case h_13 micros =>
      have hmicros := Keeps.timestamp (Calendar.instant_of_short hexact.1 hexact.2)
      rwa [Int64.ofInt_toInt] at hmicros
    case h_15 =>
      obtain ⟨micros, -, hmicros⟩ := Option.map_eq_some_iff.1 (readOr_ok hw)
      cases hmicros
    all_goals cases hw

/-- What a kind keeps is read again from its text. -/
theorem coerce_plainText {kind : FieldKind} {w : Value} (h : kind.Keeps w) (hquoted : w.isQuoted = true) :
    kind.coerce (.text w.plainText) = .ok w := by
  cases h with
  | text h s =>
    cases kind with
    | id length pool => rfl
    | text min max pattern => rfl
    | email min max => rfl
    | enum typeName variants => rfl
    | _ => cases h
  | integer min max n => cases hquoted
  | boolean b => cases hquoted
  | @date d h =>
    have hread : Value.readDate? (Value.date (Int32.ofInt (Calendar.days d))).plainText =
        some (.date (Int32.ofInt (Calendar.days d))) := by
      rw [Value.plainText, Value.readDate?, String.toList_ofList, h.toInt_days, Calendar.parseDate?_dateText h]
      rfl
    rw [coerce, hread]
    rfl
  | @timestamp _ _ micros h =>
    have hread : Value.readTimestamp? (Value.timestamp (Int64.ofInt micros)).plainText =
        some (.timestamp (Int64.ofInt micros)) := by
      rw [Value.plainText, Value.readTimestamp?, String.toList_ofList, h.toInt_micros,
        Calendar.parseMoment?_momentText h]
      rfl
    rw [coerce, hread]
    rfl

end FieldKind

/-! ### Cells -/

namespace Storage.Stored

/-- The cells in which a value that was put into one can be found again: a text may be given as its bytes. -/
inductive Returns (v : Value) : Stored → Prop
  | cell : Returns v (ofValue v)
  | bytes {s : String} (h : ofValue v = text s) : Returns v (blob ((Text.bytes s).map UInt8.toNat))

theorem Returns.toValue {v : Value} {c : Stored} (h : Returns v c) : c.toValue = (ofValue v).toValue := by
  cases h with
  | cell => rfl
  | bytes h =>
    rw [h, Stored.toValue, Stored.toValue, Text.ofUtf8_bytes]

theorem isPlain_toValue (c : Stored) : c.toValue.IsPlain := by
  unfold toValue
  split
  case h_2 => split <;> trivial
  all_goals trivial

/-- An integer is read back, as narrow as it can be, and widened again. -/
theorem coerce_integer (min max : Int) (n : Int64) :
    (FieldKind.integer min max).coerce (toValue (integer n)) = .ok (.bigInt n) := by
  by_cases hnarrow : -2147483648 ≤ n.toInt ∧ n.toInt ≤ 2147483647
  · have hvalue : toValue (integer n) = .int (Int32.ofInt n.toInt) := by
      simp only [toValue, int32?, if_pos hnarrow]
    have hwiden : (Int32.ofInt n.toInt).toInt64 = n := by
      rw [← Int64.toInt_inj, Int32.toInt_toInt64, Int32.toInt_ofInt_of_le (by omega) (by omega)]
    rw [hvalue, FieldKind.coerce, hwiden]
  · have hvalue : toValue (integer n) = .bigInt n := by
      simp only [toValue, int32?, if_neg hnarrow]
    rw [hvalue, FieldKind.coerce]

/-- What a kind keeps is read again from its cell. -/
theorem coerce_toValue {kind : FieldKind} {w : Value} (h : kind.Keeps w) :
    kind.coerce (ofValue w).toValue = .ok w := by
  cases h with
  | text h s => exact FieldKind.coerce_plainText (.text h s) rfl
  | integer min max n => exact coerce_integer min max n
  | boolean b => cases b <;> rfl
  | date h => exact FieldKind.coerce_plainText (.date h) rfl
  | timestamp h => exact FieldKind.coerce_plainText (.timestamp h) rfl

end Storage.Stored

/-! ### The window -/

/-- Around days of the years 80 to 9919 the window is the exact span, and its bounds in microseconds fit their words. -/
theorem Calendar.momentsFit_of_year {today : Int32}
    (hyear : 80 ≤ (date today.toInt).year ∧ (date today.toInt).year ≤ 9919) :
    Anchors today ∧ MomentsFit (window today) := by
  have hshort : (date today.toInt).Short := short_of_year (by omega)
  have hbounds := hshort.bounds
  rw [days_date] at hbounds
  have hanchors : Anchors today := anchors_of_le (by omega)
  obtain ⟨hfirst, hlast⟩ := toInt_window hanchors
  have hnear := span_near today.toInt
  have haround := span_around today.toInt
  exact ⟨hanchors, momentsFit_iff.2 (by omega)⟩

/-- Where the years around today have four digits, the accepted dates are exact, and so are the accepted moments
that are whole seconds. -/
theorem FieldKind.isExact_iff_of_window {kind : FieldKind} {w : Value} {rules : Rules}
    (hyear : 80 ≤ (Calendar.date rules.today.toInt).year ∧ (Calendar.date rules.today.toInt).year ≤ 9919)
    (hcheck : kind.fault? rules w = none) : w.IsExact ↔ w.IsWholeSecond := by
  obtain ⟨hanchors, hfits⟩ := Calendar.momentsFit_of_year hyear
  obtain ⟨hfirst, hlast⟩ := Calendar.toInt_window hanchors
  have hshort : ∀ day : Int, windowFault? day ((Calendar.window rules.today).1.toInt,
      (Calendar.window rules.today).2.toInt) (Calendar.window rules.today) = none → (Calendar.date day).Short := by
    intro day hday
    have hinside := windowFault?_eq_none_iff.1 hday
    rw [hfirst, hlast] at hinside
    exact Calendar.short_of_span hyear hinside
  cases w with
  | date days =>
    refine ⟨fun _ => trivial, fun _ => ?_⟩
    cases kind with
    | date => exact hshort _ hcheck
    | _ => cases hcheck
  | timestamp micros =>
    refine ⟨And.right, fun hsecond => ⟨?_, hsecond⟩⟩
    cases kind with
    | timestamp => exact hshort _ ((fault?_moment hfits micros).symm.trans hcheck)
    | _ => cases hcheck
  | _ => exact Iff.rfl

/-! ### Storage and literals -/

/-- A value that a field has accepted comes back from the database as it was, and its quoted literal stands for just
this value, exactly if it is no date or moment outside the years of four digits and no moment within a
second. With a day in the years 80 to 9919 as today, only the moments within a second are lost. -/
theorem survives_iff_isExact {f : Field} {v w : Value} {rules : Rules} (hcoerce : f.coerce v = .ok w)
    (hnull : v.isNull = false) (hcheck : f.check rules w = .ok ()) :
    (∀ c, Storage.Stored.Returns w c → (f.coerce c.toValue = .ok w ↔ w.IsExact)) ∧
    (w.isQuoted = true → ∃ sql content, w.sqlLiteral? = some sql ∧
      Storage.Stored.ofConstant? sql = some (.text content) ∧ (f.coerce (.text content) = .ok w ↔ w.IsExact)) ∧
    (80 ≤ (Calendar.date rules.today.toInt).year ∧ (Calendar.date rules.today.toInt).year ≤ 9919 →
      (w.IsExact ↔ w.IsWholeSecond)) := by
  have hwnull : w.isNull = false := (Field.isNull_coerce hcoerce).trans hnull
  have hkeeps := FieldKind.keeps_iff_isExact (Field.coerce_ok_iff.1 (Field.coerce_coerce hcoerce)) hwnull
  have hlost : ∀ u : Value, u.IsPlain → f.coerce u = .ok w → w.IsExact := fun u hu h =>
    hkeeps.1 (FieldKind.keeps_of_coerce hu (Field.coerce_ok_iff.1 h) hwnull)
  refine ⟨fun c hc => ?_, fun hquoted => ?_, fun hyear => ?_⟩
  · rw [hc.toValue]
    refine ⟨hlost _ (Storage.Stored.isPlain_toValue _), fun hexact => Field.coerce_ok_iff.2 ?_⟩
    exact Storage.Stored.coerce_toValue (hkeeps.2 hexact)
  · refine ⟨_, w.plainText, (Value.readings_of_isQuoted hquoted).1, Storage.Stored.ofConstant?_quoted _, ?_⟩
    refine ⟨hlost _ trivial, fun hexact => Field.coerce_ok_iff.2 ?_⟩
    exact FieldKind.coerce_plainText (hkeeps.2 hexact) hquoted
  · have hfault := Field.check_eq_ok_iff.1 hcheck
    rw [Field.fault?_of_notNull hwnull] at hfault
    exact FieldKind.isExact_iff_of_window hyear hfault

/-- A second of a leap day survives, and the literal that a condition compares with is the same second. -/
theorem survives_leapDay :
    (Field.timestamp "Seen").coerce (.text "2024-02-29T12:30:05") = .ok (.timestamp 1709209805000000) ∧
    (Field.timestamp "Seen").check (Pattern.rules 19782) (.timestamp 1709209805000000) = .ok () ∧
    (Field.timestamp "Seen").coerce (Storage.Stored.ofValue (.timestamp 1709209805000000)).toValue =
      .ok (.timestamp 1709209805000000) ∧
    Value.sqlLiteral? (.timestamp 1709209805000000) = some "'2024-02-29 12:30:05'" := by
  have hcoerce : (Field.timestamp "Seen").coerce (.text "2024-02-29T12:30:05") = .ok (.timestamp 1709209805000000) :=
    rfl
  have hcheck : (Field.timestamp "Seen").check (Pattern.rules 19782) (.timestamp 1709209805000000) = .ok () :=
    Field.check_eq_ok_iff.2 (by decide +kernel)
  obtain ⟨hcell, -, hexact⟩ := survives_iff_isExact hcoerce rfl hcheck
  exact ⟨hcoerce, hcheck, (hcell _ .cell).2 ((hexact (by decide)).2 rfl), rfl⟩

/-- A moment within a second comes back as the start of that second; and a day in the year 10000, which is accepted
when today is that day, does not come back at all. -/
theorem not_survives_fraction_farDay :
    ((Field.timestamp "Seen").coerce (.timestamp 1) = .ok (.timestamp 1) ∧
      (Field.timestamp "Seen").check (Pattern.rules 0) (.timestamp 1) = .ok () ∧
      (Field.timestamp "Seen").coerce (Storage.Stored.ofValue (.timestamp 1)).toValue = .ok (.timestamp 0) ∧
      Value.sqlLiteral? (.timestamp 1) = some "'1970-01-01 00:00:00'") ∧
    (Field.date "Day").coerce (.date 2932897) = .ok (.date 2932897) ∧
      (Field.date "Day").check (Pattern.rules 2932897) (.date 2932897) = .ok () ∧
      (Field.date "Day").coerce (Storage.Stored.ofValue (.date 2932897)).toValue =
        .error ⟨"Day", .unreadable "10000-01-01" "date"⟩ :=
  ⟨⟨rfl, Field.check_eq_ok_iff.2 (by decide +kernel), rfl, rfl⟩, rfl, Field.check_eq_ok_iff.2 (by decide +kernel), rfl⟩

end RecordMapper
