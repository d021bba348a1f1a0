import RecordMapper.Pattern.Reader

/-! Days and moments against one window.

A field of moments checks microseconds against the start of the first accepted day and the last microsecond of the last
one, and a field of dates checks days. Where the bounds in microseconds fit their words (`MomentsFit`), a moment passes
the first check exactly if its day passes the second, and both name the same bound otherwise
(`check_moment_iff_check_day`). -/
namespace RecordMapper

/-! ### Days of moments -/

/-- The day of a moment is its count of microseconds divided by those of a day, rounded down. -/
theorem Calendar.dayOf_eq (micros : Int) : dayOf micros = micros / 86400000000 := by
  unfold dayOf wholeSecond secondsPerDay microsPerSecond
  omega

theorem Calendar.startOfDay_eq (day : Int) : startOfDay day = day * 86400000000 := by
  unfold startOfDay secondsPerDay microsPerSecond
  omega

/-- A day starts on itself. -/
theorem Calendar.dayOf_startOfDay (day : Int) : dayOf (startOfDay day) = day := by
  rw [dayOf_eq, startOfDay_eq]
  omega

/-- The day on which a moment lies. -/
def Value.dayOf (micros : Int64) : Int32 := Int32.ofInt (Calendar.dayOf micros.toInt)

/-- The day of every moment fits its word. -/
theorem Value.toInt_dayOf (micros : Int64) : (dayOf micros).toInt = Calendar.dayOf micros.toInt := by
  have hlow := micros.le_toInt
  have hhigh := micros.toInt_lt
  have hday := Calendar.dayOf_eq micros.toInt
  exact Int32.toInt_ofInt_of_le (by omega) (by omega)

/-! ### Bounds in words -/

namespace Value

/-- The last midnight of a word is 106751991 days after the start of 1970, the first one as many before. -/
theorem hasMidnight_iff (days : Int32) :
    hasMidnight days = true ↔ -106751991 ≤ days.toInt ∧ days.toInt ≤ 106751991 := by
  unfold hasMidnight int64? Calendar.startOfDay Calendar.secondsPerDay Calendar.microsPerSecond
  split
  · exact ⟨fun _ => by omega, fun _ => rfl⟩
  · exact ⟨nofun, fun h => by omega⟩

/-- The word holds the start of the day exactly if it has room for it. -/
theorem toInt_midnight_iff (days : Int32) :
    (midnight days).toInt = Calendar.startOfDay days.toInt ↔ hasMidnight days = true := by
  constructor
  · intro h
    have hlow := (midnight days).le_toInt
    have hhigh := (midnight days).toInt_lt
    rw [h] at hlow hhigh
    unfold hasMidnight int64?
    rw [if_pos ⟨hlow, by omega⟩]
    rfl
  · intro h
    obtain ⟨hfirst, hlast⟩ := (hasMidnight_iff days).1 h
    unfold midnight Calendar.startOfDay Calendar.secondsPerDay Calendar.microsPerSecond
    exact Int64.toInt_ofInt_of_le (by omega) (by omega)

end Value

/-- An integer that a word of 64 bits holds. -/
def FitsLong (n : Int) : Prop := -9223372036854775808 ≤ n ∧ n ≤ 9223372036854775807

/-- The first and the last microsecond of a window fit their words. -/
structure MomentsFit (window : Int32 × Int32) : Prop where
  first : FitsLong (Calendar.startOfDay window.1.toInt)
  last : FitsLong (Calendar.startOfDay (window.2.toInt + 1) - 1)

theorem momentsFit_iff {window : Int32 × Int32} :
    MomentsFit window ↔ (-106751991 ≤ window.1.toInt ∧ window.1.toInt ≤ 106751991) ∧
      -106751992 ≤ window.2.toInt ∧ window.2.toInt ≤ 106751990 := by
  constructor
  · rintro ⟨⟨hfirst, hfirst'⟩, ⟨hlast, hlast'⟩⟩
    rw [Calendar.startOfDay_eq] at *
    omega
  · rintro ⟨hfirst, hlast⟩
    refine ⟨⟨?_, ?_⟩, ⟨?_, ?_⟩⟩
    all_goals
      rw [Calendar.startOfDay_eq]
      omega

/-- The bounds in words are the exact ones then. -/
theorem MomentsFit.toInt_momentsOf {window : Int32 × Int32} (h : MomentsFit window) :
    (momentsOf window).1.toInt = Calendar.startOfDay window.1.toInt ∧
      (momentsOf window).2.toInt = Calendar.startOfDay (window.2.toInt + 1) - 1 := by
  obtain ⟨hfirst, hlast⟩ := momentsFit_iff.1 h
  have hnext : (window.2 + 1).toInt = window.2.toInt + 1 := by
    have hword : window.2 + 1 = Int32.ofInt (window.2.toInt + 1) := by
      rw [Int32.ofInt_add, Int32.ofInt_toInt]
      rfl
    rw [hword, Int32.toInt_ofInt_of_le (by omega) (by omega)]
  refine ⟨(Value.toInt_midnight_iff _).2 ((Value.hasMidnight_iff _).2 hfirst), ?_⟩
  have hend : Value.midnight (window.2 + 1) - 1 = Int64.ofInt (Calendar.startOfDay (window.2.toInt + 1) - 1) := by
    rw [Int64.ofInt_sub, Value.midnight, hnext]
    rfl
  show (Value.midnight (window.2 + 1) - 1).toInt = _
  rw [hend, Calendar.startOfDay_eq]
  exact Int64.toInt_ofInt_of_le (by omega) (by omega)

/-! ### The checks -/

/-- Bounds in microseconds, from the start of one day to the end of another, leave out the moments whose day the bounds
in days leave out. -/
theorem windowFault?_startOfDay (micros first last : Int) (window : Int32 × Int32) :
    windowFault? micros (Calendar.startOfDay first, Calendar.startOfDay (last + 1) - 1) window =
      windowFault? (Calendar.dayOf micros) (first, last) window := by
  have hfirst : micros < Calendar.startOfDay first ↔ Calendar.dayOf micros < first := by
    rw [Calendar.dayOf_eq, Calendar.startOfDay_eq]
    omega
  have hlast : Calendar.startOfDay (last + 1) - 1 < micros ↔ last < Calendar.dayOf micros := by
    rw [Calendar.dayOf_eq, Calendar.startOfDay_eq]
    omega
  unfold windowFault?
  simp only [hfirst, hlast]

/-- Within its bounds a number has no fault, and outside of them it has that of the bound. -/
theorem windowFault?_cases (value : Int) (bounds : Int × Int) (window : Int32 × Int32) :
    bounds.1 ≤ value ∧ value ≤ bounds.2 ∧ windowFault? value bounds window = none ∨
      value < bounds.1 ∧ windowFault? value bounds window = some (.beforeDay window.1.toInt) ∨
      bounds.2 < value ∧ windowFault? value bounds window = some (.afterDay window.2.toInt) := by
  unfold windowFault?
  split
  · next hlow => exact .inr (.inl ⟨hlow, rfl⟩)
  · next hlow =>
    split
    · next hhigh => exact .inr (.inr ⟨hhigh, rfl⟩)
    · next hhigh => exact .inl ⟨Int.not_lt.1 hlow, Int.not_lt.1 hhigh, rfl⟩

theorem windowFault?_eq_none_iff {value : Int} {bounds : Int × Int} {window : Int32 × Int32} :
    windowFault? value bounds window = none ↔ bounds.1 ≤ value ∧ value ≤ bounds.2 := by
  obtain ⟨hlow, hhigh, hnone⟩ | ⟨hlow, hfault⟩ | ⟨hhigh, hfault⟩ := windowFault?_cases value bounds window
  · exact ⟨fun _ => ⟨hlow, hhigh⟩, fun _ => hnone⟩
  · rw [hfault]
    exact ⟨nofun, fun h => absurd h.1 (Int.not_le.2 hlow)⟩
  · rw [hfault]
    exact ⟨nofun, fun h => absurd h.2 (Int.not_le.2 hhigh)⟩

/-- Such a fault breaks the rule of a bound. -/
theorem windowFault?_rule {value : Int} {bounds : Int × Int} {window : Int32 × Int32} {fault : FieldFault}
    (h : windowFault? value bounds window = some fault) : fault.rule = .min ∨ fault.rule = .max := by
  obtain ⟨-, -, hnone⟩ | ⟨-, hlow⟩ | ⟨-, hhigh⟩ := windowFault?_cases value bounds window
  · cases hnone.symm.trans h
  · cases hlow.symm.trans h
    exact .inl rfl
  · cases hhigh.symm.trans h
    exact .inr rfl

/-- A moment is checked by its day, where the bounds in microseconds fit. -/
theorem FieldKind.fault?_moment {rules : Rules} (hfits : MomentsFit (Calendar.window rules.today)) (micros : Int64) :
    timestamp.fault? rules (.timestamp micros) = windowFault? (Calendar.dayOf micros.toInt)
      ((Calendar.window rules.today).1.toInt, (Calendar.window rules.today).2.toInt) (Calendar.window rules.today) := by
  obtain ⟨hfirst, hlast⟩ := hfits.toInt_momentsOf
  rw [← windowFault?_startOfDay, ← hfirst, ← hlast, fault?]

namespace Field

variable {f g : Field} {rules : Rules}

theorem check_eq_ok_iff {v : Value} : f.check rules v = .ok () ↔ f.fault? rules v = none := by
  unfold check
  cases f.fault? rules v with
  | none => exact ⟨fun _ => rfl, fun _ => rfl⟩
  | some fault => exact ⟨nofun, nofun⟩

theorem check_eq_error_iff {v : Value} {e : FieldError} :
    f.check rules v = .error e ↔ e.field = f.name ∧ f.fault? rules v = some e.fault := by
  unfold check
  obtain ⟨name, fault⟩ := e
  cases f.fault? rules v with
  | none => exact ⟨nofun, nofun⟩
  | some found => simp [eq_comm]

/-- A value other than NULL is checked by the kind of the field. -/
theorem fault?_of_notNull {v : Value} (hnull : v.isNull = false) : f.fault? rules v = f.kind.fault? rules v :=
  if_neg (by simp [hnull])

theorem fault?_day (hg : g.kind = .date) (day : Int32) :
    g.fault? rules (.date day) = windowFault? day.toInt ((Calendar.window rules.today).1.toInt,
      (Calendar.window rules.today).2.toInt) (Calendar.window rules.today) := by
  rw [fault?_of_notNull rfl, hg, FieldKind.fault?]

theorem fault?_moment (hf : f.kind = .timestamp) (hfits : MomentsFit (Calendar.window rules.today)) (micros : Int64) :
    f.fault? rules (.timestamp micros) = windowFault? (Calendar.dayOf micros.toInt)
      ((Calendar.window rules.today).1.toInt, (Calendar.window rules.today).2.toInt) (Calendar.window rules.today) := by
  rw [fault?_of_notNull rfl, hf, FieldKind.fault?_moment hfits]

/-- If the bounds in microseconds fit their words, a moment is accepted exactly if its day is, which is the quotient by
the microseconds of a day, rounded down; and both faults break the same rule with the same message. -/
theorem check_moment_iff_check_day (hf : f.kind = .timestamp) (hg : g.kind = .date) (rules : Rules)
    (hfits : MomentsFit (Calendar.window rules.today)) (micros : Int64) :
    (Value.dayOf micros).toInt = micros.toInt / 86400000000 ∧
    (f.check rules (.timestamp micros) = .ok () ↔ g.check rules (.date (Value.dayOf micros)) = .ok ()) ∧
    ∀ e e', f.check rules (.timestamp micros) = .error e → g.check rules (.date (Value.dayOf micros)) = .error e' →
      (e.fault.rule = .min ∨ e.fault.rule = .max) ∧ e.fault.rule = e'.fault.rule ∧
        e.fault.message = e'.fault.message := by
  have hday := Value.toInt_dayOf micros
  have hsame : f.fault? rules (.timestamp micros) = g.fault? rules (.date (Value.dayOf micros)) := by
    rw [fault?_moment hf hfits, fault?_day hg, hday]
  refine ⟨hday.trans (Calendar.dayOf_eq _), ?_, fun e e' he he' => ?_⟩
  · rw [check_eq_ok_iff, check_eq_ok_iff, hsame]
  · have hfault := (check_eq_error_iff.1 he).2
    have hfault' := (check_eq_error_iff.1 he').2
    have heq : e.fault = e'.fault := Option.some.inj (hfault.symm.trans (hsame.trans hfault'))
    rw [fault?_moment hf hfits] at hfault
    exact ⟨windowFault?_rule hfault, congrArg _ heq, congrArg _ heq⟩

/-- The window around 12 October 2022 starts with 12 October 1942. The last microsecond before that day is left out like
the day on which it lies, and the first microsecond of it is accepted. -/
theorem check_aroundFirstMidnight :
    (timestamp "seenAt").kind = .timestamp ∧ (date "bornOn").kind = .date ∧ MomentsFit (Calendar.window 19277) ∧
    (Value.dayOf (-859075200000001)).toInt = -859075200000001 / 86400000000 ∧
    (timestamp "seenAt").check (Pattern.rules 19277) (.timestamp (-859075200000001)) =
      .error ⟨"seenAt", .beforeDay (-9943)⟩ ∧
    (date "bornOn").check (Pattern.rules 19277) (.date (Value.dayOf (-859075200000001))) =
      .error ⟨"bornOn", .beforeDay (-9943)⟩ ∧
    ((FieldFault.beforeDay (-9943)).rule = .min ∨ (FieldFault.beforeDay (-9943)).rule = .max) ∧
    (timestamp "seenAt").check (Pattern.rules 19277) (.timestamp (-859075200000000)) = .ok () ∧
    (date "bornOn").check (Pattern.rules 19277) (.date (Value.dayOf (-859075200000000))) = .ok () := by
  have hfits : MomentsFit (Calendar.window 19277) := momentsFit_iff.2 (by decide +kernel)
  obtain ⟨hday, -, hsame⟩ := check_moment_iff_check_day (f := timestamp "seenAt") (g := date "bornOn") rfl rfl
    (Pattern.rules 19277) hfits (-859075200000001)
  obtain ⟨-, haccepted, -⟩ := check_moment_iff_check_day (f := timestamp "seenAt") (g := date "bornOn") rfl rfl
    (Pattern.rules 19277) hfits (-859075200000000)
  have hmoment : (timestamp "seenAt").check (Pattern.rules 19277) (.timestamp (-859075200000001)) =
      .error ⟨"seenAt", .beforeDay (-9943)⟩ := check_eq_error_iff.2 ⟨rfl, by decide +kernel⟩
  have hbefore : (date "bornOn").check (Pattern.rules 19277) (.date (Value.dayOf (-859075200000001))) =
      .error ⟨"bornOn", .beforeDay (-9943)⟩ := check_eq_error_iff.2 ⟨rfl, by decide +kernel⟩
  have hfirst : (timestamp "seenAt").check (Pattern.rules 19277) (.timestamp (-859075200000000)) = .ok () :=
    check_eq_ok_iff.2 (by decide +kernel)
  exact ⟨rfl, rfl, hfits, hday, hmoment, hbefore, (hsame _ _ hmoment hbefore).1, hfirst, haccepted.1 hfirst⟩

end Field

end RecordMapper
