import RecordMapper.Proofs.Calendar.Text

/-! The order of dates and moments in their texts.

The fields of a text have fixed widths and the longer periods come first, so texts are compared field by field as the
numbers in them are. While years have four digits, the text of a day comes before that of another exactly if the day
does. The text of a moment ends with its second, so it does the same for the seconds in which moments lie
(`precedes_iff_earlier`). -/
namespace RecordMapper.Calendar
open Text (bytes codes padded)

/-! ### Fields -/

/-- Of texts with a separator at the same place, what stands before it decides first. -/
theorem compare_separated {a b : List Char} (h : a.length = b.length) (separator : Char) (s t : List Char) :
    compare (codes (a ++ separator :: s)) (codes (b ++ separator :: t)) =
      (compare (codes a) (codes b)).then (compare (codes s) (codes t)) := by
  have hsplit : ∀ a s, codes (a ++ separator :: s) = codes a ++ UInt8.ofNat separator.toNat :: codes s :=
    fun _ _ => List.map_append
  have hlen : (codes a).length = (codes b).length := by
    simpa [codes] using h
  rw [hsplit, hsplit, Text.compare_append hlen, List.compare_cons_cons, Std.compare_self, Ordering.eq_then]

theorem length_padded_of_lt {width : Nat} (hw : 0 < width) {n : Int} (hn : 0 ≤ n ∧ n < 10 ^ width) :
    (padded width n).length = width := by
  obtain ⟨n, rfl⟩ := Int.eq_ofNat_of_zero_le hn.1
  exact Text.length_padded hw (by exact_mod_cast hn.2)

/-- A number before a text decides first, and then comes the text behind the separator. -/
theorem compare_field {width : Nat} (hw : 0 < width) {m n : Int} (hm : 0 ≤ m ∧ m < 10 ^ width)
    (hn : 0 ≤ n ∧ n < 10 ^ width) (separator : Char) (s t : List Char) :
    compare (codes (padded width m ++ separator :: s)) (codes (padded width n ++ separator :: t)) =
      (compare m n).then (compare (codes s) (codes t)) := by
  have hlen := (length_padded_of_lt hw hm).trans (length_padded_of_lt hw hn).symm
  rw [compare_separated hlen, Text.compare_padded hw hm hn]

/-! ### Dates -/

theorem length_dateText {day : Int} (h : (date day).Short) : (dateText day).length = 10 := by
  obtain ⟨hyear, hmonth, hday⟩ := h.fields
  have hy := length_padded_of_lt (by decide) hyear
  have hm := length_padded_of_lt (by decide) hmonth
  have hd := length_padded_of_lt (by decide) hday
  rw [dateText_eq]
  simp [hy, hm, hd]

/-- The bytes of dates are in the order of their days. -/
theorem compare_dateText {a b : Int} (ha : (date a).Short) (hb : (date b).Short) :
    compare (codes (dateText a)) (codes (dateText b)) = compare a b := by
  obtain ⟨hay, ham, had⟩ := ha.fields
  obtain ⟨hby, hbm, hbd⟩ := hb.fields
  have hdays := compare_days ha.valid hb.valid
  rw [days_date, days_date] at hdays
  rw [dateText_eq, dateText_eq, compare_field (by decide) hay hby, compare_field (by decide) ham hbm,
    Text.compare_padded (by decide) had hbd, hdays]

/-! ### Moments -/

/-- The bytes of times of day are in the order of their seconds. -/
theorem compare_timeText {s t : Int} (hs : 0 ≤ s ∧ s < secondsPerDay) (ht : 0 ≤ t ∧ t < secondsPerDay) :
    compare (codes (timeText s)) (codes (timeText t)) = compare s t := by
  obtain ⟨hsh, hsm, hss⟩ := time_fields hs
  obtain ⟨hth, htm, hts⟩ := time_fields ht
  have hplaces : ∀ s : Int, s = 3600 * (s / 3600) + (60 * (s % 3600 / 60) + s % 60) := by
    intro s
    omega
  rw [timeText_eq, timeText_eq, compare_field (by decide) hsh hth, compare_field (by decide) hsm htm,
    Text.compare_padded (by decide) hss hts]
  conv =>
    rhs
    rw [hplaces s, hplaces t]
  rw [Text.compare_place (by omega) (by omega), Text.compare_place (by omega) (by omega)]

/-- The bytes of moments are in the order of the seconds in which they lie. -/
theorem compare_momentText {m n : Int} (hm : (date (dayOf m)).Short) (hn : (date (dayOf n)).Short) :
    compare (codes (momentText m)) (codes (momentText n)) = compare (wholeSecond m) (wholeSecond n) := by
  have hlen := (length_dateText hm).trans (length_dateText hn).symm
  have hinDay : ∀ second : Int, 0 ≤ second % secondsPerDay ∧ second % secondsPerDay < secondsPerDay := by
    intro second
    unfold secondsPerDay
    omega
  have hplaces : ∀ micros, secondsPerDay * dayOf micros + wholeSecond micros % secondsPerDay = wholeSecond micros :=
    fun micros => Int.mul_ediv_add_emod (wholeSecond micros) secondsPerDay
  calc
    compare (codes (momentText m)) (codes (momentText n)) =
        (compare (dayOf m) (dayOf n)).then
          (compare (wholeSecond m % secondsPerDay) (wholeSecond n % secondsPerDay)) := by
      unfold momentText
      rw [compare_separated hlen, compare_dateText hm hn, compare_timeText (hinDay _) (hinDay _)]
    _ = compare (secondsPerDay * dayOf m + wholeSecond m % secondsPerDay)
          (secondsPerDay * dayOf n + wholeSecond n % secondsPerDay) :=
      (Text.compare_place (hinDay _) (hinDay _)).symm
    _ = compare (wholeSecond m) (wholeSecond n) := by
      rw [hplaces, hplaces]

/-- Instants are in the order of their seconds. -/
theorem Instant.compare_wholeSecond {d e : Date} {s t m n : Int} (hm : Instant d s m) (hn : Instant e t n) :
    compare (wholeSecond m) (wholeSecond n) = compare m n := by
  have hm := hm.wholeSecond_eq.2
  have hn := hn.wholeSecond_eq.2
  unfold microsPerSecond at *
  exact Text.compare_congr (by omega) (by omega)

/-! ### Years of four digits -/

/-- The moment lies in a second, which has its number from the start of 1970 on. -/
structure InSecond (micros second : Int) : Prop where
  begun : second * microsPerSecond ≤ micros
  lasting : micros < (second + 1) * microsPerSecond

/-- Every moment lies in one second. -/
theorem inSecond_iff {micros second : Int} : InSecond micros second ↔ wholeSecond micros = second := by
  constructor
  · rintro ⟨hbegun, hlasting⟩
    unfold wholeSecond
    unfold microsPerSecond at *
    omega
  · rintro rfl
    unfold wholeSecond microsPerSecond
    exact ⟨Int.ediv_mul_le micros (by decide), Int.lt_ediv_add_one_mul_self micros (by decide)⟩

theorem wholeSecond_lt_iff {s t : Int} :
    wholeSecond s < wholeSecond t ↔ ∃ j k, InSecond s j ∧ InSecond t k ∧ j < k := by
  constructor
  · intro h
    exact ⟨_, _, inSecond_iff.2 rfl, inSecond_iff.2 rfl, h⟩
  · rintro ⟨j, k, hj, hk, h⟩
    rwa [inSecond_iff.1 hj, inSecond_iff.1 hk]

/-- For days in the years 0 to 9999, the bytes of one date come before those of another exactly if the day is earlier.
For moments on such days they do so exactly if the second in which the one moment lies is before that of the other. -/
theorem precedes_iff_earlier :
    (∀ a b, 0 ≤ (date a).year ∧ (date a).year ≤ 9999 → 0 ≤ (date b).year ∧ (date b).year ≤ 9999 →
      (bytes (String.ofList (dateText a)) < bytes (String.ofList (dateText b)) ↔ a < b)) ∧
    ∀ s t, 0 ≤ (date (dayOf s)).year ∧ (date (dayOf s)).year ≤ 9999 →
      0 ≤ (date (dayOf t)).year ∧ (date (dayOf t)).year ≤ 9999 →
      (bytes (String.ofList (momentText s)) < bytes (String.ofList (momentText t)) ↔
        ∃ j k, InSecond s j ∧ InSecond t k ∧ j < k) := by
  constructor
  · intro a b ha hb
    rw [Text.bytes_ofList (ascii_dateText a), Text.bytes_ofList (ascii_dateText b), ← Text.compare_eq_lt_iff,
      compare_dateText (short_of_year ha) (short_of_year hb), Int.compare_eq_lt]
  · intro s t hs ht
    rw [Text.bytes_ofList (ascii_momentText s), Text.bytes_ofList (ascii_momentText t), ← Text.compare_eq_lt_iff,
      compare_momentText (short_of_year hs) (short_of_year ht), Int.compare_eq_lt, wholeSecond_lt_iff]

/-- The leap day of year 0 comes before the first of March, and the last microsecond of 1969 before the start of 1970,
but the start of the last second of 1969 does not come before its last microsecond. -/
theorem precedes_leapDay_midnight :
    dateText (-719469) = "0000-02-29".toList ∧ dateText (-719468) = "0000-03-01".toList ∧
    bytes (String.ofList (dateText (-719469))) < bytes (String.ofList (dateText (-719468))) ∧
    bytes (String.ofList (momentText (-1))) < bytes (String.ofList (momentText 0)) ∧
    ¬ bytes (String.ofList (momentText (-1000000))) < bytes (String.ofList (momentText (-1))) := by
  obtain ⟨hdates, hmoments⟩ := precedes_iff_earlier
  have hlast : 0 ≤ (date (dayOf (-1))).year ∧ (date (dayOf (-1))).year ≤ 9999 := by decide
  refine ⟨by decide, by decide, (hdates _ _ (by decide) (by decide)).2 (by decide), ?_, ?_⟩
  · exact (hmoments _ _ hlast (by decide)).2 ⟨-1, 0, ⟨by decide, by decide⟩, ⟨by decide, by decide⟩, by decide⟩
  · rw [hmoments _ _ (by decide) hlast]
    rintro ⟨j, k, hj, hk, hlt⟩
    rw [← inSecond_iff.1 hj, ← inSecond_iff.1 hk] at hlt
    exact absurd hlt (by decide)

/-- A fifth digit puts the year 10000 before 9999, and the sign the year -1 before -2. -/
example : codes (dateText 2932897) < codes (dateText 2932896) ∧
    codes (dateText (-719529)) < codes (dateText (-719894)) := by
  decide

end RecordMapper.Calendar
