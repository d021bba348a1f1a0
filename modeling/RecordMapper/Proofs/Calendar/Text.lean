import RecordMapper.Calendar.Text
import RecordMapper.Proofs.Attempt
import RecordMapper.Proofs.Calendar.Civil
import RecordMapper.Proofs.Text.Digits

/-! Dates and moments as text.

What is read as a date is a valid date whose year has four digits, and what is read as a moment is
such a day with a second of it. The texts have fields for these numbers, which they fill. -/
namespace RecordMapper.Calendar
open Text (padded)

/-- A valid date whose year can be written with four digits. -/
structure Date.Short (d : Date) : Prop where
  valid : d.Valid
  year : 0 ≤ d.year ∧ d.year < 10000

instance (d : Date) : Decidable d.Short :=
  decidable_of_iff (d.Valid ∧ 0 ≤ d.year ∧ d.year < 10000) ⟨fun h => ⟨h.1, h.2⟩, fun h => ⟨h.valid, h.year⟩⟩

theorem short_of_year {day : Int} (h : 0 ≤ (date day).year ∧ (date day).year ≤ 9999) : (date day).Short :=
  ⟨valid_date day, by omega⟩

/-- A whole second of a day with a short date. -/
structure Instant (d : Date) (seconds micros : Int) : Prop where
  short : d.Short
  inDay : 0 ≤ seconds ∧ seconds < secondsPerDay
  counted : micros = startOfDay (days d) + seconds * microsPerSecond

/-! ### Reading -/

theorem parseDate?_eq_some {s : List Char} {day : Int} (h : parseDate? s = some day) :
    ∃ d : Date, d.Short ∧ day = days d := by
  unfold parseDate? at h
  split at h
  · obtain ⟨year, hyear, h⟩ := Option.bind_eq_some_iff.1 h
    obtain ⟨month, _, h⟩ := Option.bind_eq_some_iff.1 h
    obtain ⟨dayOfMonth, _, h⟩ := Option.bind_eq_some_iff.1 h
    split at h
    · cases h
    · next hvalid =>
      have hyear := (Text.fixed?_eq_some hyear).2.2.2
      refine ⟨⟨year, month, dayOfMonth⟩, ⟨⟨?_, ?_⟩, ?_⟩, (Option.some.inj h).symm⟩
      · show (1 : Int) ≤ dayOfMonth
        omega
      · show (dayOfMonth : Int) ≤ daysInMonth year (month : Int).toNat
        rw [Int.toNat_natCast]
        omega
      · show (0 : Int) ≤ year ∧ (year : Int) < 10000
        omega
  · cases h

theorem parseTime?_eq_some {s : List Char} {seconds : Int} (h : parseTime? s = some seconds) :
    0 ≤ seconds ∧ seconds < secondsPerDay := by
  unfold parseTime? at h
  split at h
  · obtain ⟨hour, _, h⟩ := Option.bind_eq_some_iff.1 h
    obtain ⟨minute, _, h⟩ := Option.bind_eq_some_iff.1 h
    obtain ⟨second, _, h⟩ := Option.bind_eq_some_iff.1 h
    split at h
    · cases h
    · have h := Option.some.inj h
      unfold secondsPerDay
      omega
  · cases h

theorem parseMoment?_eq_some {s : List Char} {micros : Int} (h : parseMoment? s = some micros) :
    ∃ d seconds, Instant d seconds micros := by
  obtain ⟨day, hday, h⟩ := Option.bind_eq_some_iff.1 h
  obtain ⟨d, hd, rfl⟩ := parseDate?_eq_some hday
  dsimp only at h
  split at h
  · exact ⟨d, 0, hd, by decide, (Option.some.inj h).symm⟩
  · obtain ⟨seconds, hseconds, h⟩ := Option.bind_eq_some_iff.1 h
    exact ⟨d, seconds, hd, parseTime?_eq_some hseconds, (Option.some.inj h).symm⟩

/-! ### Bounds -/

theorem Date.Short.bounds {d : Date} (h : d.Short) : -719834 ≤ days d ∧ days d < 2932957 := by
  obtain ⟨hfirst, hlast⟩ := h.valid.inYear
  obtain ⟨hlow, hhigh⟩ := h.year
  have hmarch : -1 ≤ d.marchYear ∧ d.marchYear ≤ 9999 := by
    unfold Date.marchYear
    split <;> omega
  have hstart := yearStart_mono hmarch.1
  have hend := yearStart_mono (show d.marchYear + 1 ≤ 10000 by omega)
  rw [show yearStart (-1) = -366 from rfl] at hstart
  rw [show yearStart 10000 = 3652425 from rfl] at hend
  rw [days_eq h.valid]
  omega

theorem Instant.bounds {d : Date} {seconds micros : Int} (h : Instant d seconds micros) :
    -1000000000000000000 < micros ∧ micros < 1000000000000000000 := by
  have hdays := h.short.bounds
  have hseconds := h.inDay
  have hmicros := h.counted
  unfold startOfDay secondsPerDay microsPerSecond at *
  omega

/-! ### Characters -/

/-- Three numbers with separators consist of these, digits and signs. -/
theorem mem_fields {separator c : Char} {width : Nat} {x y z : Int}
    (hc : c ∈ padded width x ++ separator :: padded 2 y ++ separator :: padded 2 z) :
    c = separator ∨ c = '-' ∨ c.isDigit = true := by
  simp only [List.mem_append, List.mem_cons] at hc
  rcases hc with (hx | rfl | hy) | rfl | hz
  · exact .inr (Text.eq_or_isDigit_of_mem_padded hx)
  · exact .inl rfl
  · exact .inr (Text.eq_or_isDigit_of_mem_padded hy)
  · exact .inl rfl
  · exact .inr (Text.eq_or_isDigit_of_mem_padded hz)

theorem mem_dateText {day : Int} {c : Char} (hc : c ∈ dateText day) : c = '-' ∨ c.isDigit = true := by
  rcases mem_fields hc with rfl | h
  · exact .inl rfl
  · exact h

theorem mem_momentText {micros : Int} {c : Char} (hc : c ∈ momentText micros) :
    c = ' ' ∨ c = ':' ∨ c = '-' ∨ c.isDigit = true := by
  rcases List.mem_append.1 hc with hdate | htime
  · exact .inr (.inr (mem_dateText hdate))
  · rcases List.mem_cons.1 htime with rfl | htime
    · exact .inl rfl
    · exact .inr (mem_fields htime)

theorem ascii_dateText (day : Int) : ∀ c ∈ dateText day, c.toNat < 128 := by
  intro c hc
  rcases mem_dateText hc with rfl | hdigit
  · decide
  · have := Text.digit_le_nine hdigit
    omega

theorem ascii_momentText (micros : Int) : ∀ c ∈ momentText micros, c.toNat < 128 := by
  intro c hc
  rcases mem_momentText hc with rfl | rfl | rfl | hdigit
  · decide
  · decide
  · decide
  · have := Text.digit_le_nine hdigit
    omega

/-! ### Fields -/

theorem Date.Short.fields {d : Date} (h : d.Short) :
    (0 ≤ d.year ∧ d.year < 10 ^ 4) ∧ (0 ≤ d.month ∧ d.month < 10 ^ 2) ∧ (0 ≤ d.day ∧ d.day < 10 ^ 2) := by
  have hyear := h.year
  have hmonth := h.valid.month
  have hday := h.valid.lengths
  unfold monthStart at hday
  omega

theorem dateText_eq (day : Int) :
    dateText day =
      padded 4 (date day).year ++ '-' :: (padded 2 (date day).month ++ '-' :: padded 2 (date day).day) := by
  simp [dateText]

theorem dateText_days {d : Date} (h : d.Valid) :
    dateText (days d) = padded 4 d.year ++ '-' :: (padded 2 d.month ++ '-' :: padded 2 d.day) := by
  rw [dateText_eq, date_days h]

theorem timeText_eq (seconds : Int) :
    timeText seconds =
      padded 2 (seconds / 3600) ++ ':' :: (padded 2 (seconds % 3600 / 60) ++ ':' :: padded 2 (seconds % 60)) := by
  simp [timeText]

/-- The hours, minutes and seconds of a time of day. -/
theorem time_fields {seconds : Int} (h : 0 ≤ seconds ∧ seconds < secondsPerDay) :
    (0 ≤ seconds / 3600 ∧ seconds / 3600 < 10 ^ 2) ∧ (0 ≤ seconds % 3600 / 60 ∧ seconds % 3600 / 60 < 10 ^ 2) ∧
      (0 ≤ seconds % 60 ∧ seconds % 60 < 10 ^ 2) := by
  unfold secondsPerDay at h
  omega

namespace Instant

variable {d : Date} {seconds micros : Int}

/-- An instant is the whole second in which it lies. -/
theorem wholeSecond_eq (h : Instant d seconds micros) :
    wholeSecond micros = days d * secondsPerDay + seconds ∧ micros = wholeSecond micros * microsPerSecond := by
  have hcounted := h.counted
  unfold wholeSecond
  unfold startOfDay secondsPerDay microsPerSecond at *
  omega

theorem dayOf_eq (h : Instant d seconds micros) : dayOf micros = days d := by
  have hinDay := h.inDay
  rw [dayOf, h.wholeSecond_eq.1]
  unfold secondsPerDay at *
  omega

theorem momentText (h : Instant d seconds micros) :
    momentText micros = dateText (days d) ++ ' ' :: timeText seconds := by
  have hinDay := h.inDay
  have hsecond : wholeSecond micros % secondsPerDay = seconds := by
    rw [h.wholeSecond_eq.1]
    unfold secondsPerDay at *
    omega
  rw [Calendar.momentText, h.dayOf_eq, hsecond]

end Instant

end RecordMapper.Calendar
