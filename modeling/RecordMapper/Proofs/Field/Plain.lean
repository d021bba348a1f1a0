import RecordMapper.Proofs.Calendar.Text
import RecordMapper.Proofs.Field.Coerce

/-! What fields keep of plain values.

Plain values are NULL, truth values, integers and texts. A field of dates or moments keeps only what
it has read from text, so its days have years of four digits and its moments are whole seconds. -/
namespace RecordMapper

/-- Neither a date nor a moment nor a document. -/
def Value.IsPlain : Value → Prop
  | null => True
  | bool _ => True
  | int _ => True
  | bigInt _ => True
  | text _ => True
  | _ => False

/-- Whether values of the kind are kept as text. -/
def FieldKind.isText : FieldKind → Bool
  | id _ _ => true
  | text _ _ _ => true
  | email _ _ => true
  | enum _ _ => true
  | _ => false

/-- The values other than NULL that a kind keeps of plain ones. -/
inductive FieldKind.Keeps : FieldKind → Value → Prop
  | text {kind : FieldKind} (h : kind.isText = true) (s : String) : Keeps kind (.text s)
  | integer (min max : Int) (n : Int64) : Keeps (.integer min max) (.bigInt n)
  | boolean (b : Bool) : Keeps .boolean (.bool b)
  | date {d : Calendar.Date} (h : d.Short) : Keeps .date (.date (Int32.ofInt (Calendar.days d)))
  | timestamp {d : Calendar.Date} {seconds micros : Int} (h : Calendar.Instant d seconds micros) :
    Keeps .timestamp (.timestamp (Int64.ofInt micros))

namespace FieldKind

theorem keeps_of_readDate? {s : String} {v : Value} (h : Value.readDate? s = some v) : Keeps .date v := by
  obtain ⟨day, hday, rfl⟩ := Option.map_eq_some_iff.1 h
  obtain ⟨d, hd, rfl⟩ := Calendar.parseDate?_eq_some hday
  exact .date hd

theorem keeps_of_readTimestamp? {s : String} {v : Value} (h : Value.readTimestamp? s = some v) :
    Keeps .timestamp v := by
  obtain ⟨micros, hmicros, rfl⟩ := Option.map_eq_some_iff.1 h
  obtain ⟨d, seconds, hinstant⟩ := Calendar.parseMoment?_eq_some hmicros
  exact .timestamp hinstant

theorem keeps_of_coerce {kind : FieldKind} {u v : Value} (hu : u.IsPlain) (h : kind.coerce u = .ok v)
    (hv : v.isNull = false) : kind.Keeps v := by
  unfold coerce at h
  split at h
  case h_1 =>
    cases h
    cases hv
  case h_11 => exact hu.elim
  case h_12 => exact keeps_of_readDate? (readOr_ok h)
  case h_13 => exact hu.elim
  case h_14 => exact hu.elim
  case h_15 => exact keeps_of_readTimestamp? (readOr_ok h)
  case h_16 => cases h
  all_goals cases h
  case h_2 => exact .text rfl _
  case h_3 => exact .text rfl _
  case h_4 => exact .text rfl _
  case h_5 => exact .text rfl _
  case h_6 => exact .integer _ _ _
  case h_7 => exact .integer _ _ _
  all_goals exact .boolean _

end FieldKind

/-! ### Numbers in words -/

/-- The day of a short date fits its word. -/
theorem Calendar.Date.Short.toInt_days {d : Calendar.Date} (h : d.Short) :
    (Int32.ofInt (Calendar.days d)).toInt = Calendar.days d := by
  have hbounds := h.bounds
  exact Int32.toInt_ofInt_of_le (by omega) (by omega)

/-- The count of a whole second of such a day fits its word. -/
theorem Calendar.Instant.toInt_micros {d : Calendar.Date} {seconds micros : Int}
    (h : Calendar.Instant d seconds micros) : (Int64.ofInt micros).toInt = micros := by
  have hbounds := h.bounds
  exact Int64.toInt_ofInt_of_le (by omega) (by omega)

end RecordMapper
