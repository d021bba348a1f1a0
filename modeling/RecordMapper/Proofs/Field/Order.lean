import RecordMapper.Field.Check
import RecordMapper.Proofs.Field.Plain
import RecordMapper.Proofs.Field.Window
import RecordMapper.Proofs.Value.KeyText

/-! The order of the values that a field keeps.

Each kind keeps values of one type, apart from NULL (`FieldKind.Holds`). So the check of a kept value never finds the
type at fault, and any two kept values compare, in a total order whose equal values are the same. -/
namespace RecordMapper

/-! ### Total orders -/

/-- Any two of these values compare, the order is total, and only the same values stand equal in it. -/
structure Value.TotallyOrdered (P : Value → Prop) : Prop where
  defined : ∀ a b, P a → P b → (a.compare? b).isSome = true
  swap : ∀ a b, P a → P b → b.compare? a = (a.compare? b).map Ordering.swap
  trans : ∀ a b c, P a → P b → P c → a.compare? b ≠ some .gt → b.compare? c ≠ some .gt → a.compare? c ≠ some .gt
  eq_iff : ∀ a b, P a → P b → (a.compare? b = some .eq ↔ a = b)

namespace Value.TotallyOrdered

theorem mono {P Q : Value → Prop} (h : ∀ v, P v → Q v) (hQ : TotallyOrdered Q) : TotallyOrdered P where
  defined a b ha hb := hQ.defined a b (h a ha) (h b hb)
  swap a b ha hb := hQ.swap a b (h a ha) (h b hb)
  trans a b c ha hb hc := hQ.trans a b c (h a ha) (h b hb) (h c hc)
  eq_iff a b ha hb := hQ.eq_iff a b (h a ha) (h b hb)

/-- Values made of the elements of a type are ordered as the elements are, each by its key. -/
theorem of_key {α β : Type} [Ord β] [Std.TransOrd β] [Std.LawfulEqOrd β] (make : α → Value) {key : α → β}
    (hkey : ∀ x y, key x = key y → x = y)
    (hcompare : ∀ x y, compare? (make x) (make y) = some (compare (key x) (key y))) :
    TotallyOrdered fun v => ∃ x, v = make x where
  defined := by
    rintro _ _ ⟨x, rfl⟩ ⟨y, rfl⟩
    rw [hcompare]
    rfl
  swap := by
    rintro _ _ ⟨x, rfl⟩ ⟨y, rfl⟩
    rw [hcompare, hcompare, Option.map_some, Std.OrientedOrd.eq_swap]
  trans := by
    rintro _ _ _ ⟨x, rfl⟩ ⟨y, rfl⟩ ⟨z, rfl⟩ hxy hyz
    rw [hcompare] at hxy hyz ⊢
    have hle : (compare (key x) (key z)).isLE = true :=
      Std.TransCmp.isLE_trans (Ordering.isLE_iff_ne_gt.2 fun h => hxy (congrArg some h))
        (Ordering.isLE_iff_ne_gt.2 fun h => hyz (congrArg some h))
    exact fun h => Ordering.isLE_iff_ne_gt.1 hle (Option.some.inj h)
  eq_iff := by
    rintro _ _ ⟨x, rfl⟩ ⟨y, rfl⟩
    constructor
    · intro h
      rw [hcompare] at h
      rw [hkey x y (Std.LawfulEqOrd.eq_of_compare (Option.some.inj h))]
    · intro h
      rw [← h, hcompare, Std.compare_self]

end Value.TotallyOrdered

/-! ### Kept values -/

/-- The values other than NULL that a kind keeps. -/
inductive FieldKind.Holds : FieldKind → Value → Prop
  | text {kind : FieldKind} (h : kind.isText = true) (s : String) : Holds kind (.text s)
  | integer (min max : Int) (n : Int64) : Holds (.integer min max) (.bigInt n)
  | boolean (b : Bool) : Holds .boolean (.bool b)
  | date (days : Int32) : Holds .date (.date days)
  | timestamp (micros : Int64) : Holds .timestamp (.timestamp micros)

namespace FieldKind

theorem holds_of_coerce {kind : FieldKind} {v w : Value} (h : kind.coerce v = .ok w) (hnull : w.isNull = false) :
    kind.Holds w := by
  unfold coerce at h
  split at h
  case h_1 =>
    cases h
    cases hnull
  case h_12 =>
    obtain ⟨day, _, rfl⟩ := Option.map_eq_some_iff.1 (readOr_ok h)
    exact .date _
  case h_15 =>
    obtain ⟨micros, _, rfl⟩ := Option.map_eq_some_iff.1 (readOr_ok h)
    exact .timestamp _
  case h_16 => cases h
  all_goals cases h
  case h_2 => exact .text rfl _
  case h_3 => exact .text rfl _
  case h_4 => exact .text rfl _
  case h_5 => exact .text rfl _
  case h_6 => exact .integer _ _ _
  case h_7 => exact .integer _ _ _
  case h_11 => exact .date _
  case h_13 => exact .timestamp _
  case h_14 => exact .timestamp _
  all_goals exact .boolean _

theorem totallyOrdered (kind : FieldKind) : Value.TotallyOrdered kind.Holds := by
  have htext : Value.TotallyOrdered fun v => ∃ s, v = .text s := .of_key .text (fun _ _ h => h) fun _ _ => rfl
  cases kind with
  | integer min max =>
    refine .mono (fun v h => ?_) (.of_key .bigInt (fun _ _ h => Int64.toInt_inj.1 h) fun _ _ => rfl)
    cases h with
    | integer _ _ n => exact ⟨n, rfl⟩
    | text h s => cases h
  | boolean =>
    refine .mono (fun v h => ?_) (.of_key .bool (fun _ _ h => h) fun _ _ => rfl)
    cases h with
    | boolean b => exact ⟨b, rfl⟩
    | text h s => cases h
  | date =>
    refine .mono (fun v h => ?_) (.of_key .date (fun _ _ h => Int32.toInt_inj.1 h) fun _ _ => rfl)
    cases h with
    | date days => exact ⟨days, rfl⟩
    | text h s => cases h
  | timestamp =>
    refine .mono (fun v h => ?_) (.of_key .timestamp (fun _ _ h => Int64.toInt_inj.1 h) fun _ _ => rfl)
    cases h with
    | timestamp micros => exact ⟨micros, rfl⟩
    | text h s => cases h
  | _ =>
    -- the kinds that are kept as text
    refine .mono (fun v h => ?_) htext
    cases h
    exact ⟨_, rfl⟩

end FieldKind

/-! ### The check of kept values -/

theorem lengthFault?_rule {length min max : Nat} {fault : FieldFault}
    (h : lengthFault? length min max = some fault) : fault.rule ≠ .type := by
  unfold lengthFault? at h
  split at h
  · cases h
    nofun
  · split at h
    · cases h
      nofun
    · split at h
      · cases h
        nofun
      · cases h

namespace FieldKind

/-- The type of a kept value suits its kind. -/
theorem fault?_rule {kind : FieldKind} {v : Value} (hv : kind.Holds v) {rules : Rules} {fault : FieldFault}
    (h : kind.fault? rules v = some fault) : fault.rule ≠ .type := by
  unfold fault? at h
  cases hv with
  | text htext s =>
    cases kind with
    | id length pool =>
      dsimp only at h
      split at h
      · cases h
        nofun
      · obtain ⟨c, -, rfl⟩ := Option.map_eq_some_iff.1 h
        nofun
    | text min max pattern =>
      dsimp only at h
      split at h
      · next hlength =>
        cases h
        exact lengthFault?_rule hlength
      · obtain ⟨p, -, hp⟩ := Option.bind_eq_some_iff.1 h
        split at hp
        · cases hp
        · cases hp
          nofun
    | email min max =>
      dsimp only at h
      split at h
      · next hlength =>
        cases h
        exact lengthFault?_rule hlength
      · split at h
        · cases h
        · cases h
          nofun
    | enum typeName variants =>
      dsimp only at h
      split at h
      · cases h
      · cases h
        nofun
    | _ => cases htext
  | integer min max n =>
    dsimp only [Value.asInteger?] at h
    split at h
    · cases h
      nofun
    · split at h
      · cases h
        nofun
      · cases h
  | boolean b => cases h
  | date days =>
    rcases windowFault?_rule h with hrule | hrule
    all_goals
      rw [hrule]
      nofun
  | timestamp micros =>
    rcases windowFault?_rule h with hrule | hrule
    all_goals
      rw [hrule]
      nofun

end FieldKind

namespace Field

/-- The values other than NULL that a field makes of the values given to it. -/
def Keeps (f : Field) (w : Value) : Prop := (∃ v, f.coerce v = .ok w) ∧ w.isNull = false

variable {f : Field}

theorem Keeps.holds {w : Value} (h : f.Keeps w) : f.kind.Holds w := by
  obtain ⟨⟨v, hv⟩, hnull⟩ := h
  exact FieldKind.holds_of_coerce (coerce_ok_iff.1 hv) hnull

theorem totallyOrdered_keeps (f : Field) : Value.TotallyOrdered f.Keeps :=
  f.kind.totallyOrdered.mono fun _ => Keeps.holds

/-- Whatever the check of a kept value, or of NULL, finds at fault, it is not the type. -/
theorem rule_of_check {v w : Value} (hv : f.coerce v = .ok w) {rules : Rules} {e : FieldError}
    (he : f.check rules w = .error e) : e.fault.rule ≠ .type := by
  have hfault := (check_eq_error_iff.1 he).2
  unfold fault? at hfault
  split at hfault
  · split at hfault
    · rw [← Option.some.inj hfault]
      nofun
    · cases hfault
  · next hnull =>
    exact FieldKind.fault?_rule (FieldKind.holds_of_coerce (coerce_ok_iff.1 hv) (Bool.eq_false_iff.2 hnull)) hfault

/-- A value equals a kept one when it is the same. -/
theorem Keeps.equal_iff {a b : Value} (hb : f.Keeps b) : a.equal b = true ↔ a = b :=
  (isScalar_of_coerce hb.1.choose_spec).legible.equal_iff

end Field

end RecordMapper
