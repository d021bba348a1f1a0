import RecordMapper.Proofs.Calendar.Text

/-! Reading what was written of dates and moments.

A day whose year has four digits is read from its text again, and so is a whole second of such a day
(`parseDate?_dateText`, `parseMoment?_momentText`). No other numbers are read from any text. -/
namespace RecordMapper.Calendar
open Text (padded fixed?)

/-! ### Fields between separators -/

theorem splitOn_fields {separator : Char} {a b c : List Char} (ha : separator ∉ a) (hb : separator ∉ b)
    (hc : separator ∉ c) : (a ++ separator :: (b ++ separator :: c)).splitOn separator = [a, b, c] := by
  rw [List.splitOn_append_cons_self_of_not_mem ha, List.splitOn_append_cons_self_of_not_mem hb,
    List.splitOn_eq_singleton hc]

theorem not_mem_padded {separator : Char} (h : separator.isDigit = false) {width : Nat} {n : Int} (hn : 0 ≤ n) :
    separator ∉ padded width n := by
  obtain ⟨n, rfl⟩ := Int.eq_ofNat_of_zero_le hn
  intro hmem
  rw [Text.isDigit_of_mem_padded _ hmem] at h
  cases h

/-! ### Dates -/

theorem parseDate?_dateText {d : Date} (h : d.Short) : parseDate? (dateText (days d)) = some (days d) := by
  obtain ⟨hyear, hmonth, hday⟩ := h.fields
  obtain ⟨hone, hlast⟩ := h.valid
  rw [dateText_days h.valid, parseDate?, splitOn_fields (not_mem_padded rfl hyear.1) (not_mem_padded rfl hmonth.1)
    (not_mem_padded rfl hday.1)]
  simp only [Text.fixed?_padded (show 0 < 4 by decide) hyear, Text.fixed?_padded (show 0 < 2 by decide) hmonth,
    Text.fixed?_padded (show 0 < 2 by decide) hday, Option.bind_eq_bind, Option.bind_some,
    Int.toNat_of_nonneg hyear.1, Int.toNat_of_nonneg hmonth.1, Int.toNat_of_nonneg hday.1]
  rw [if_neg (by omega)]

theorem parseTime?_timeText {seconds : Int} (h : 0 ≤ seconds ∧ seconds < secondsPerDay) :
    parseTime? (timeText seconds) = some seconds := by
  obtain ⟨hhour, hminute, hsecond⟩ := time_fields h
  rw [timeText_eq, parseTime?, splitOn_fields (not_mem_padded rfl hhour.1) (not_mem_padded rfl hminute.1)
    (not_mem_padded rfl hsecond.1)]
  simp only [Text.fixed?_padded (show 0 < 2 by decide) hhour, Text.fixed?_padded (show 0 < 2 by decide) hminute,
    Text.fixed?_padded (show 0 < 2 by decide) hsecond, Option.bind_eq_bind, Option.bind_some,
    Int.toNat_of_nonneg hhour.1, Int.toNat_of_nonneg hminute.1, Int.toNat_of_nonneg hsecond.1]
  unfold secondsPerDay at h
  rw [if_neg (by omega)]
  exact congrArg some (by omega)

theorem parseMoment?_momentText {d : Date} {seconds micros : Int} (h : Instant d seconds micros) :
    parseMoment? (momentText micros) = some micros := by
  have hdate : ∀ c ∈ dateText (days d), (!isDateEnd c) = true := by
    intro c hc
    rcases mem_dateText hc with rfl | hdigit
    · rfl
    · have hc := Text.digit_le_nine hdigit
      have hblank : c ≠ ' ' := by
        rintro rfl
        exact absurd hc.1 (by decide)
      have hletter : c ≠ 'T' := by
        rintro rfl
        exact absurd hc.2 (by decide)
      simp [isDateEnd, hblank, hletter]
  have htake : (dateText (days d) ++ ' ' :: timeText seconds).takeWhile (!isDateEnd ·) = dateText (days d) := by
    rw [List.takeWhile_append_of_pos hdate]
    exact List.append_nil _
  have hdrop : (dateText (days d) ++ ' ' :: timeText seconds).dropWhile (!isDateEnd ·) = ' ' :: timeText seconds :=
    List.dropWhile_append_of_pos hdate
  rw [h.momentText, parseMoment?, htake, hdrop, parseDate?_dateText h.short, h.counted]
  show (parseTime? (timeText seconds)).bind _ = _
  rw [parseTime?_timeText h.inDay]
  rfl

/-! ### Days and moments that have such a text -/

theorem instant_of_short {micros : Int} (hday : (date (dayOf micros)).Short) (hsecond : micros % microsPerSecond = 0) :
    Instant (date (dayOf micros)) (wholeSecond micros % secondsPerDay) micros := by
  refine ⟨hday, ?_, ?_⟩
  · unfold secondsPerDay
    omega
  · rw [days_date]
    unfold dayOf startOfDay wholeSecond secondsPerDay
    unfold microsPerSecond at *
    omega

theorem Instant.of_micros {d : Date} {seconds micros : Int} (h : Instant d seconds micros) :
    date (dayOf micros) = d ∧ micros % microsPerSecond = 0 := by
  have hwhole := h.wholeSecond_eq.2
  rw [h.dayOf_eq, date_days h.short.valid]
  unfold microsPerSecond at *
  exact ⟨rfl, by omega⟩

end RecordMapper.Calendar
