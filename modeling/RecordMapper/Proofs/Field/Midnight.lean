import RecordMapper.Field.Coerce
import RecordMapper.Proofs.Field.Window

/-! Days among moments.

A date meets a moment as its midnight: `compare?` orders the two by it, and a field of moments keeps a date as it. The
midnight is computed in a word of 64 bits, which it leaves from about 292 277 years around 1970 on. Up to there the
order is that of exact integers, and where the bounds of the window fit such words too, the kept moment is checked as
the day is. Beyond, the midnight wraps around: some moment is on the wrong side of the day, and a day far outside of the
window may be accepted (`midnight_exact_iff`). -/
namespace RecordMapper

namespace Value

/-- A day and a moment are ordered, on either side, by the exact start of the day. -/
def Chronological (days : Int32) (micros : Int64) : Prop :=
  compare? (.date days) (.timestamp micros) = some (compare (Calendar.startOfDay days.toInt) micros.toInt) ∧
    compare? (.timestamp micros) (.date days) = some (compare micros.toInt (Calendar.startOfDay days.toInt))

/-- The moments tell whether the midnight is exact, as the wrapped one does not equal itself then. -/
theorem chronological_iff (days : Int32) :
    (∀ micros, Chronological days micros) ↔ hasMidnight days = true := by
  rw [← toInt_midnight_iff]
  constructor
  · intro h
    -- the moment that tells is the midnight itself: `compare?` finds the two equal
    have hself : some (compare (midnight days).toInt (midnight days).toInt) =
        some (compare (Calendar.startOfDay days.toInt) (midnight days).toInt) := (h (midnight days)).1
    rw [Std.compare_self] at hself
    exact (Std.LawfulEqOrd.eq_of_compare (Option.some.inj hself).symm).symm
  · intro h micros
    unfold Chronological
    rw [← h]
    exact ⟨rfl, rfl⟩

end Value

/-- Exactly the days up to 106751991 around the start of 1970 have their midnights in a word. These and no others are
ordered with every moment as exact integers are, and become their exact midnights in a field of moments; where they do,
and the bounds of the window in microseconds fit their words, the check accepts them exactly if they lie in the
window. -/
theorem Value.midnight_exact_iff (days : Int32) :
    (hasMidnight days = true ↔ -106751991 ≤ days.toInt ∧ days.toInt ≤ 106751991) ∧
    ((∀ micros, Chronological days micros) ↔ hasMidnight days = true) ∧
    ∀ f : Field, f.kind = .timestamp → ∃ moment, f.coerce (.date days) = .ok (.timestamp moment) ∧
      (moment.toInt = days.toInt * 86400000000 ↔ hasMidnight days = true) ∧
      (hasMidnight days = true → ∀ rules, MomentsFit (Calendar.window rules.today) →
        (f.check rules (.timestamp moment) = .ok () ↔
          (Calendar.window rules.today).1 ≤ days ∧ days ≤ (Calendar.window rules.today).2)) := by
  refine ⟨hasMidnight_iff days, chronological_iff days, fun f hf => ⟨midnight days, ?_, ?_, fun h rules hfits => ?_⟩⟩
  · unfold Field.coerce
    rw [hf]
    rfl
  · rw [← toInt_midnight_iff, Calendar.startOfDay_eq]
  · rw [Field.check_eq_ok_iff, Field.fault?_moment hf hfits, (toInt_midnight_iff days).2 h, Calendar.dayOf_startOfDay,
      windowFault?_eq_none_iff, Int32.le_iff_toInt_le, Int32.le_iff_toInt_le]

/-- The last day of the window around 12 October 2022 is accepted by its midnight on that day, and not a day before. -/
theorem Value.midnight_exact_lastDay :
    (Field.timestamp "seenAt").kind = .timestamp ∧ hasMidnight 48496 = true ∧
    (∀ micros, Chronological 48496 micros) ∧
    ∃ moment, (Field.timestamp "seenAt").coerce (.date 48496) = .ok (.timestamp moment) ∧
      moment.toInt = 48496 * 86400000000 ∧
      (Field.timestamp "seenAt").check (Pattern.rules 19277) (.timestamp moment) = .ok () ∧
      ¬ (Field.timestamp "seenAt").check (Pattern.rules 19276) (.timestamp moment) = .ok () := by
  obtain ⟨hrange, horder, hkept⟩ := Value.midnight_exact_iff 48496
  have hmidnight : hasMidnight 48496 = true := hrange.2 (by decide)
  obtain ⟨moment, hcoerce, hexact, hcheck⟩ := hkept (Field.timestamp "seenAt") rfl
  exact ⟨rfl, hmidnight, horder.2 hmidnight, moment, hcoerce, hexact.2 hmidnight,
    (hcheck hmidnight (Pattern.rules 19277) (momentsFit_iff.2 (by decide +kernel))).2 (by decide +kernel),
    fun h => absurd ((hcheck hmidnight (Pattern.rules 19276) (momentsFit_iff.2 (by decide +kernel))).1 h)
      (by decide +kernel)⟩

/-- The day after the last midnight of a word comes before the start of 1970, and the midnight of a day of the year
586496 is a moment of 1942, which the window around 12 October 2022 accepts. The window around that day wraps around in
microseconds, and accepts the start of 1970. -/
theorem Value.not_chronological_pastLastMidnight :
    Calendar.startOfDay 106751992 = 9223372108800000000 ∧
    compare? (.date 106751992) (.timestamp 0) = some .lt ∧ ¬ Chronological 106751992 0 ∧
    (Field.timestamp "seenAt").coerce (.date 213494040) = .ok (.timestamp (-859017709551616)) ∧
    (-859017709551616 : Int64).toInt ≠ Calendar.startOfDay 213494040 ∧
    (Field.timestamp "seenAt").check (Pattern.rules 19277) (.timestamp (-859017709551616)) = .ok () ∧
    Calendar.window 19277 = (-9943, 48496) ∧
    (Field.timestamp "seenAt").coerce (.date 0) = .ok (.timestamp 0) ∧
    (Field.timestamp "seenAt").check (Pattern.rules 213494040) (.timestamp 0) = .ok () ∧
    Calendar.window 213494040 = (213464820, 213523259) := by
  have hwrapped : compare? (.date 106751992) (.timestamp 0) = some .lt := by decide
  refine ⟨by decide, hwrapped, fun h => ?_, rfl, by decide, Field.check_eq_ok_iff.2 (by decide +kernel),
    by decide +kernel, rfl, Field.check_eq_ok_iff.2 (by decide +kernel), by decide +kernel⟩
  have hlast : some Ordering.lt = some Ordering.gt := hwrapped.symm.trans h.1
  exact absurd hlast (by decide)

end RecordMapper
