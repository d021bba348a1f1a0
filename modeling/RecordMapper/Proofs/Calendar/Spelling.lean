import RecordMapper.Proofs.Calendar.Reading

/-! The texts that are read as dates and moments.

A date is read from its digits alone: four for the year and two each for the month and the day, between hyphens
(`parseDate?_eq_some_iff`). There is one such text for each date, so what was read is written in the same way
again. Of a moment, that leaves open only what stands between date and time, and whether midnight is written
(`momentText_of_parseMoment?`). With the round trips the other way, reading and writing are inverse wherever there
is a text (`reads_spelled_and_written`). -/
namespace RecordMapper

/-! ### Fields of digits -/

namespace Text

/-- A number in a field that its digits fill. -/
structure Fills (width : Nat) (s : List Char) (n : Int) : Prop where
  length : s.length = width
  digits : ∀ c ∈ s, c.isDigit = true
  value : digitsValue s = n

/-- Of the texts of one length only one has a value. -/
theorem digitsValue_inj {a b : List Char} (hlen : a.length = b.length) (ha : ∀ c ∈ a, c.isDigit = true)
    (hb : ∀ c ∈ b, c.isDigit = true) (h : digitsValue a = digitsValue b) : a = b := by
  induction a generalizing b with
  | nil => exact (List.length_eq_zero_iff.1 hlen.symm).symm
  | cons x more ih =>
    cases b with
    | nil => cases hlen
    | cons y rest =>
      have hlen : more.length = rest.length := by simpa using hlen
      have hmore : ∀ c ∈ more, c.isDigit = true := fun c hc => ha c (.tail _ hc)
      have hrest : ∀ c ∈ rest, c.isDigit = true := fun c hc => hb c (.tail _ hc)
      have hplace : 0 < 10 ^ rest.length := Nat.pow_pos (by decide)
      have hmoreLt := digitsValue_lt hmore
      have hrestLt := digitsValue_lt hrest
      rw [hlen] at hmoreLt
      rw [digitsValue_cons, digitsValue_cons, hlen] at h
      -- The first digit is the quotient by its place, and the others are the remainder.
      have hfirst := congrArg (· / 10 ^ rest.length) h
      have hothers := congrArg (· % 10 ^ rest.length) h
      simp only [Nat.mul_add_div hplace, Nat.div_eq_of_lt hmoreLt, Nat.div_eq_of_lt hrestLt, Nat.add_zero] at hfirst
      simp only [Nat.mul_add_mod, Nat.mod_eq_of_lt hmoreLt, Nat.mod_eq_of_lt hrestLt] at hothers
      have hx := digit_le_nine (ha x (.head _))
      have hy := digit_le_nine (hb y (.head _))
      rw [Char.toNat_inj.1 (show x.toNat = y.toNat by omega), ih hlen hmore hrest hothers]

theorem fills_of_fixed? {width : Nat} {s : List Char} {n : Nat} (h : fixed? width s = some n) : Fills width s n := by
  obtain ⟨hlength, hdigits, rfl, -⟩ := fixed?_eq_some h
  exact ⟨hlength, hdigits, rfl⟩

namespace Fills

variable {width : Nat} {s : List Char} {n : Int}

theorem fixed? (h : Fills width s n) : Text.fixed? width s = some n.toNat := by
  rw [Text.fixed?, if_pos ⟨h.length, List.all_eq_true.2 h.digits⟩, ← h.value, Int.toNat_natCast]

theorem bounds (h : Fills width s n) : 0 ≤ n ∧ n < 10 ^ width := by
  have hlt := digitsValue_lt h.digits
  rw [h.length] at hlt
  rw [← h.value]
  exact ⟨Int.natCast_nonneg _, by exact_mod_cast hlt⟩

/-- The number is written in just this way. -/
theorem padded (h : Fills width s n) (hw : 0 < width) : Text.padded width n = s := by
  have hlt := digitsValue_lt h.digits
  rw [h.length] at hlt
  rw [← h.value]
  refine digitsValue_inj ?_ isDigit_of_mem_padded h.digits (digitsValue_padded _ _)
  rw [length_padded hw hlt, h.length]

theorem not_mem (h : Fills width s n) {separator : Char} (hs : separator.isDigit = false) : separator ∉ s := by
  intro hmem
  rw [h.digits _ hmem] at hs
  cases hs

end Fills

end Text

namespace Calendar
open Text (Fills)

/-! ### Dates -/

/-- The text names a year with four digits, and a month and a day with two, between hyphens. -/
def Spells (s : List Char) (d : Date) : Prop :=
  ∃ y m k, s = y ++ '-' :: (m ++ '-' :: k) ∧ Fills 4 y d.year ∧ Fills 2 m d.month ∧ Fills 2 k d.day

/-- What was split into three parts consists of them. -/
theorem eq_of_splitOn {separator : Char} {s a b c : List Char} (h : s.splitOn separator = [a, b, c]) :
    s = a ++ separator :: (b ++ separator :: c) := by
  have hjoined : List.intercalate [separator] (s.splitOn separator) = s := List.intercalate_splitOn separator
  rw [h] at hjoined
  rw [← hjoined]
  simp [List.intercalate]

/-- Exactly the texts that spell a valid date are read, and as the day of it. -/
theorem parseDate?_eq_some_iff {s : List Char} {day : Int} :
    parseDate? s = some day ↔ ∃ d : Date, Spells s d ∧ d.Valid ∧ days d = day := by
  constructor
  · intro h
    unfold parseDate? at h
    split at h
    · next y m k hsplit =>
      obtain ⟨year, hyear, h⟩ := Option.bind_eq_some_iff.1 h
      obtain ⟨month, hmonth, h⟩ := Option.bind_eq_some_iff.1 h
      obtain ⟨dayOfMonth, hday, h⟩ := Option.bind_eq_some_iff.1 h
      split at h
      · cases h
      · next hvalid =>
        refine ⟨⟨year, month, dayOfMonth⟩, ⟨y, m, k, eq_of_splitOn hsplit, Text.fills_of_fixed? hyear,
          Text.fills_of_fixed? hmonth, Text.fills_of_fixed? hday⟩, ?_, Option.some.inj h⟩
        constructor
        · show (1 : Int) ≤ dayOfMonth
          omega
        · show (dayOfMonth : Int) ≤ daysInMonth year (month : Int).toNat
          rw [Int.toNat_natCast]
          omega
    · cases h
  · rintro ⟨d, ⟨y, m, k, rfl, hy, hm, hk⟩, hvalid, rfl⟩
    have hyear := Int.toNat_of_nonneg hy.bounds.1
    have hmonth := Int.toNat_of_nonneg hm.bounds.1
    have hday := Int.toNat_of_nonneg hk.bounds.1
    obtain ⟨hone, hlast⟩ := hvalid
    rw [parseDate?, splitOn_fields (hy.not_mem rfl) (hm.not_mem rfl) (hk.not_mem rfl)]
    simp only [hy.fixed?, hm.fixed?, hk.fixed?, Option.bind_eq_bind, Option.bind_some, hyear, hmonth, hday]
    rw [if_neg (by omega)]

/-- A date that was read is written as it was. -/
theorem dateText_of_parseDate? {s : List Char} {day : Int} (h : parseDate? s = some day) : dateText day = s := by
  obtain ⟨d, ⟨y, m, k, rfl, hy, hm, hk⟩, hvalid, rfl⟩ := parseDate?_eq_some_iff.1 h
  rw [dateText_days hvalid, hy.padded (by decide), hm.padded (by decide), hk.padded (by decide)]

/-! ### Moments -/

/-- A time that was read is written as it was. -/
theorem timeText_of_parseTime? {s : List Char} {seconds : Int} (h : parseTime? s = some seconds) :
    timeText seconds = s := by
  unfold parseTime? at h
  split at h
  · next hs m k hsplit =>
    obtain ⟨hour, hhour, h⟩ := Option.bind_eq_some_iff.1 h
    obtain ⟨minute, hminute, h⟩ := Option.bind_eq_some_iff.1 h
    obtain ⟨second, hsecond, h⟩ := Option.bind_eq_some_iff.1 h
    split at h
    · cases h
    · have hcounted := Option.some.inj h
      have hparts : seconds / 3600 = hour ∧ seconds % 3600 / 60 = minute ∧ seconds % 60 = second := by omega
      rw [eq_of_splitOn hsplit, timeText, hparts.1, hparts.2.1, hparts.2.2,
        (Text.fills_of_fixed? hhour).padded (by decide), (Text.fills_of_fixed? hminute).padded (by decide),
        (Text.fills_of_fixed? hsecond).padded (by decide)]
      simp
  · cases h

theorem isDateEnd_iff {c : Char} : isDateEnd c = true ↔ c = ' ' ∨ c = 'T' := by
  simp [isDateEnd]

/-- A moment that was read is written with the same date and the same time, midnight after a date alone. -/
theorem momentText_of_parseMoment? {s : List Char} {micros : Int} (h : parseMoment? s = some micros) :
    ∃ date, (∃ day, parseDate? date = some day) ∧
      (s = date ∧ momentText micros = date ++ " 00:00:00".toList ∨
        ∃ separator time, (separator = ' ' ∨ separator = 'T') ∧ s = date ++ separator :: time ∧
          momentText micros = date ++ ' ' :: time) := by
  have hsplit := s.takeWhile_append_dropWhile (p := (!isDateEnd ·))
  unfold parseMoment? at h
  obtain ⟨day, hday, h⟩ := Option.bind_eq_some_iff.1 h
  obtain ⟨d, hd, hcount⟩ := parseDate?_eq_some hday
  have hdate := dateText_of_parseDate? hday
  refine ⟨_, ⟨day, hday⟩, ?_⟩
  dsimp only at h
  split at h
  · next hrest =>
    have hinstant : Instant d 0 micros := ⟨hd, by decide, hcount ▸ (Option.some.inj h).symm⟩
    rw [hrest, List.append_nil] at hsplit
    refine .inl ⟨hsplit.symm, ?_⟩
    rw [hinstant.momentText, ← hcount, hdate]
    rfl
  · next separator time hrest =>
    obtain ⟨seconds, hseconds, h⟩ := Option.bind_eq_some_iff.1 h
    have hinstant : Instant d seconds micros :=
      ⟨hd, parseTime?_eq_some hseconds, hcount ▸ (Option.some.inj h).symm⟩
    have hend := List.head?_dropWhile_not (!isDateEnd ·) s
    rw [hrest] at hend hsplit
    refine .inr ⟨separator, time, isDateEnd_iff.1 (by simpa using hend), hsplit.symm, ?_⟩
    rw [hinstant.momentText, ← hcount, hdate, timeText_of_parseTime? hseconds]

/-- A moment is read from its text again but for what it has after its last whole second. -/
theorem parseMoment?_momentText_floor {micros : Int} (h : (date (dayOf micros)).Short) :
    parseMoment? (momentText micros) = some (micros - micros % microsPerSecond) := by
  have hsecond : wholeSecond (micros - micros % microsPerSecond) = wholeSecond micros := by
    unfold wholeSecond microsPerSecond
    omega
  have hday : dayOf (micros - micros % microsPerSecond) = dayOf micros := by
    unfold dayOf
    rw [hsecond]
  have htext : momentText (micros - micros % microsPerSecond) = momentText micros := by
    unfold momentText
    rw [hday, hsecond]
  rw [← htext]
  refine parseMoment?_momentText (instant_of_short (hday ▸ h) ?_)
  unfold microsPerSecond
  omega

/-! ### Reading and writing -/

/-- Dates are read exactly from the texts that spell valid ones, and are written in the same way again; and every day
whose year has four digits is read from its text. Of the moments on such days the whole seconds are, and what is
read as a moment is written again as the same date and time. -/
theorem reads_spelled_and_written :
    (∀ s day, parseDate? s = some day ↔ ∃ d : Date, Spells s d ∧ d.Valid ∧ days d = day) ∧
    (∀ s day, parseDate? s = some day → dateText day = s ∧ (Int32.ofInt day).toInt = day) ∧
    (∀ day, 0 ≤ (date day).year ∧ (date day).year ≤ 9999 → parseDate? (dateText day) = some day) ∧
    (∀ micros, 0 ≤ (date (dayOf micros)).year ∧ (date (dayOf micros)).year ≤ 9999 →
      parseMoment? (momentText micros) = some (micros - micros % microsPerSecond)) ∧
    ∀ s micros, parseMoment? s = some micros → (Int64.ofInt micros).toInt = micros ∧
      ∃ date, (∃ day, parseDate? date = some day) ∧
        (s = date ∧ momentText micros = date ++ " 00:00:00".toList ∨
          ∃ separator time, (separator = ' ' ∨ separator = 'T') ∧ s = date ++ separator :: time ∧
            momentText micros = date ++ ' ' :: time) := by
  have hshort : ∀ day, 0 ≤ (date day).year ∧ (date day).year ≤ 9999 → (date day).Short := fun day h =>
    ⟨valid_date day, by omega⟩
  refine ⟨fun s day => parseDate?_eq_some_iff, fun s day h => ?_, fun day h => ?_, fun micros h => ?_,
    fun s micros h => ?_⟩
  · obtain ⟨d, hd, rfl⟩ := parseDate?_eq_some h
    have hbounds := hd.bounds
    exact ⟨dateText_of_parseDate? h, Int32.toInt_ofInt_of_le (by omega) (by omega)⟩
  · have hread := parseDate?_dateText (hshort day h)
    rwa [days_date] at hread
  · exact parseMoment?_momentText_floor (hshort _ h)
  · obtain ⟨d, seconds, hinstant⟩ := parseMoment?_eq_some h
    have hbounds := hinstant.bounds
    exact ⟨Int64.toInt_ofInt_of_le (by omega) (by omega), momentText_of_parseMoment? h⟩

/-- The leap day of year 0 lies before the first of March from which days are counted, and the last microsecond of 1969
lies in a second that is read from either text of it. -/
theorem reads_leapDayOfYearZero :
    (∃ d : Date, Spells "0000-02-29".toList d ∧ d.Valid ∧ days d = -719469) ∧
    dateText (-719469) = "0000-02-29".toList ∧ parseDate? (dateText (-719469)) = some (-719469) ∧
    parseMoment? (momentText (-1)) = some (-1000000) ∧
    parseMoment? "1969-12-31T23:59:59".toList = some (-1000000) ∧
    ∃ date, (∃ day, parseDate? date = some day) ∧
      ("1969-12-31T23:59:59".toList = date ∧ momentText (-1000000) = date ++ " 00:00:00".toList ∨
        ∃ separator time, (separator = ' ' ∨ separator = 'T') ∧
          "1969-12-31T23:59:59".toList = date ++ separator :: time ∧
          momentText (-1000000) = date ++ ' ' :: time) := by
  obtain ⟨hspelled, hwritten, hread, hfloor, hmoment⟩ := reads_spelled_and_written
  have hday : parseDate? "0000-02-29".toList = some (-719469) := rfl
  have hsecond : parseMoment? "1969-12-31T23:59:59".toList = some (-1000000) := by decide +kernel
  have hlast : parseMoment? (momentText (-1)) = some (-1 - -1 % microsPerSecond) := hfloor (-1) (by decide +kernel)
  exact ⟨(hspelled _ _).1 hday, (hwritten _ _ hday).1, hread _ (by decide), hlast.trans (by decide +kernel), hsecond,
    (hmoment _ _ hsecond).2⟩

end Calendar

end RecordMapper
