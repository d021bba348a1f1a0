import RecordMapper.Field.Coerce

/-! Canonical forms.

What a field makes of a value is a form that it leaves alone: reading text as a date or a
moment, widening an integer or taking a day for its midnight is done once and for all. -/
namespace RecordMapper

namespace FieldKind

theorem readOr_ok {kind : FieldKind} {s : String} {o : Option Value} {v : Value}
    (h : kind.readOr s o = .ok v) : o = some v := by
  unfold readOr at h
  split at h
  · cases h
    rfl
  · cases h

theorem coerce_null (kind : FieldKind) : kind.coerce .null = .ok .null := by
  unfold coerce
  rfl

/-- The canonical form of a value is its own canonical form. -/
theorem coerce_coerce {kind : FieldKind} {v w : Value} (h : kind.coerce v = .ok w) :
    kind.coerce w = .ok w := by
  unfold coerce at h
  split at h
  case h_1 =>
    cases h
    exact coerce_null kind
  case h_12 =>
    obtain ⟨day, _, rfl⟩ := Option.map_eq_some_iff.1 (readOr_ok h)
    rfl
  case h_15 =>
    obtain ⟨micros, _, rfl⟩ := Option.map_eq_some_iff.1 (readOr_ok h)
    rfl
  case h_16 => cases h
  all_goals
    cases h
    rfl

/-- Only NULL becomes NULL. -/
theorem isNull_coerce {kind : FieldKind} {v w : Value} (h : kind.coerce v = .ok w) : w.isNull = v.isNull := by
  unfold coerce at h
  split at h
  case h_12 =>
    obtain ⟨day, _, rfl⟩ := Option.map_eq_some_iff.1 (readOr_ok h)
    rfl
  case h_15 =>
    obtain ⟨micros, _, rfl⟩ := Option.map_eq_some_iff.1 (readOr_ok h)
    rfl
  case h_16 => cases h
  all_goals
    cases h
    rfl

end FieldKind

namespace Field

theorem coerce_ok_iff {f : Field} {v w : Value} : f.coerce v = .ok w ↔ f.kind.coerce v = .ok w := by
  unfold coerce
  cases f.kind.coerce v with
  | ok u => exact ⟨fun h => by cases h; rfl, fun h => by cases h; rfl⟩
  | error e => exact ⟨nofun, nofun⟩

/-- What a field makes of a value, it leaves alone. -/
theorem coerce_coerce {f : Field} {v w : Value} (h : f.coerce v = .ok w) : f.coerce w = .ok w :=
  coerce_ok_iff.2 (FieldKind.coerce_coerce (coerce_ok_iff.1 h))

theorem isNull_coerce {f : Field} {v w : Value} (h : f.coerce v = .ok w) : w.isNull = v.isNull :=
  FieldKind.isNull_coerce (coerce_ok_iff.1 h)

end Field

end RecordMapper
