import RecordMapper.Calendar.WordDate
import RecordMapper.Proofs.Calendar.Words

/-! Dates in words against dates in integers.

Words that hold integers add, subtract and multiply as the integers do, and they divide and compare as these do where
the integers fit. So each step of the conversions in words holds the step in integers: a date is found in words
wherever the days before 1970 can be added to its count (`WordDate.ofDays_eq`), and a count that fits is found from its
date (`Date.Valid.days_words`). -/
namespace RecordMapper.Calendar

/-! ### Words that hold integers -/

theorem toInt_ofInt {n : Int} (h : FitsWord n) : (Int32.ofInt n).toInt = n :=
  Int32.toInt_ofInt_of_le h.1 (Int.lt_add_one_of_le h.2)

theorem ofInt_tdiv {a b : Int} (ha : FitsWord a) (hb : FitsWord b) :
    Int32.ofInt (a.tdiv b) = Int32.ofInt a / Int32.ofInt b :=
  Int32.ofInt_tdiv ha.1 ha.2 hb.1 hb.2

theorem ofInt_lt_iff {a b : Int} (ha : FitsWord a) (hb : FitsWord b) : Int32.ofInt a < Int32.ofInt b ↔ a < b :=
  Int32.ofInt_lt_iff_lt ha.1 ha.2 hb.1 hb.2

/-- The era of a count, of which the one before the first is moved down. -/
theorem ofInt_era {a k l : Int} (ha : FitsWord a) (hl : FitsWord (a - l)) (hk : FitsWord k) :
    Int32.ofInt ((if 0 ≤ a then a else a - l).tdiv k) =
      (if 0 ≤ Int32.ofInt a then Int32.ofInt a else Int32.ofInt a - Int32.ofInt l) / Int32.ofInt k := by
  have hzero : FitsWord 0 := ⟨by decide, by decide⟩
  have hsign : 0 ≤ Int32.ofInt a ↔ 0 ≤ a := Int32.ofInt_le_iff_le hzero.1 hzero.2 ha.1 ha.2
  simp only [hsign]
  split
  · exact ofInt_tdiv ha hk
  · rw [← Int32.ofInt_sub, ofInt_tdiv hl hk]

theorem ofInt_yearOfEra {dayOfEra : Int} (h : 0 ≤ dayOfEra ∧ dayOfEra < 146097) :
    Int32.ofInt ((dayOfEra - dayOfEra.tdiv 1460 + dayOfEra.tdiv 36524 - dayOfEra.tdiv 146096).tdiv 365) =
      (Int32.ofInt dayOfEra - Int32.ofInt dayOfEra / 1460 + Int32.ofInt dayOfEra / 36524 -
        Int32.ofInt dayOfEra / 146096) / 365 := by
  have hcycles := tdiv_between (k := 1460) h.1 (by decide)
  have hcenturies := tdiv_between (k := 36524) h.1 (by decide)
  have heras := tdiv_between (k := 146096) h.1 (by decide)
  have hfits : FitsWord dayOfEra := ⟨by omega, by omega⟩
  rw [ofInt_tdiv ⟨by omega, by omega⟩ ⟨by decide, by decide⟩, Int32.ofInt_sub, Int32.ofInt_add, Int32.ofInt_sub,
    ofInt_tdiv hfits ⟨by decide, by decide⟩, ofInt_tdiv hfits ⟨by decide, by decide⟩,
    ofInt_tdiv hfits ⟨by decide, by decide⟩]
  rfl

theorem ofInt_yearStart {year : Int} (h : 0 ≤ year ∧ year < 400) :
    Int32.ofInt (365 * year + year.tdiv 4 - year.tdiv 100) =
      365 * Int32.ofInt year + Int32.ofInt year / 4 - Int32.ofInt year / 100 := by
  have hfits : FitsWord year := ⟨by omega, by omega⟩
  rw [Int32.ofInt_sub, Int32.ofInt_add, Int32.ofInt_mul, ofInt_tdiv hfits ⟨by decide, by decide⟩,
    ofInt_tdiv hfits ⟨by decide, by decide⟩]
  rfl

theorem ofInt_month {dayOfYear : Int} (h : 0 ≤ dayOfYear ∧ dayOfYear < 366) :
    Int32.ofInt ((5 * dayOfYear + 2).tdiv 153) = (5 * Int32.ofInt dayOfYear + 2) / 153 := by
  rw [ofInt_tdiv ⟨by omega, by omega⟩ ⟨by decide, by decide⟩, Int32.ofInt_add, Int32.ofInt_mul]
  rfl

theorem ofInt_monthStart {month : Int} (h : 0 ≤ month ∧ month < 12) :
    Int32.ofInt ((153 * month + 2).tdiv 5) = (153 * Int32.ofInt month + 2) / 5 := by
  rw [ofInt_tdiv ⟨by omega, by omega⟩ ⟨by decide, by decide⟩, Int32.ofInt_add, Int32.ofInt_mul]
  rfl

/-- The month of the calendar, of one counted from March. -/
theorem ofInt_civilMonth {month : Int} (h : 0 ≤ month ∧ month < 12) :
    Int32.ofInt (if month < 10 then month + 3 else month - 9) =
      if Int32.ofInt month < 10 then Int32.ofInt month + 3 else Int32.ofInt month - 9 := by
  have hten : Int32.ofInt month < 10 ↔ month < 10 :=
    ofInt_lt_iff (b := 10) ⟨by omega, by omega⟩ ⟨by decide, by decide⟩
  simp only [hten, apply_ite Int32.ofInt, Int32.ofInt_add, Int32.ofInt_sub]
  rfl

/-- The month counted from March, of one of the calendar. -/
theorem ofInt_marchMonth {month : Int} (h : 1 ≤ month ∧ month ≤ 12) :
    Int32.ofInt (if 2 < month then month - 3 else month + 9) =
      if 2 < Int32.ofInt month then Int32.ofInt month - 3 else Int32.ofInt month + 9 := by
  have htwo : 2 < Int32.ofInt month ↔ 2 < month :=
    ofInt_lt_iff (a := 2) ⟨by decide, by decide⟩ ⟨by omega, by omega⟩
  simp only [htwo, apply_ite Int32.ofInt, Int32.ofInt_add, Int32.ofInt_sub]
  rfl

/-! ### Months and days without a sign -/

/-- What holds of the numbers up to 31 holds of months and days. -/
theorem forall_small {P : Int → Prop} (h : ∀ k : Fin 32, P k) {k : Int} (hk : 0 ≤ k ∧ k ≤ 31) : P k := by
  obtain ⟨k, rfl⟩ := Int.eq_ofNat_of_zero_le hk.1
  exact h ⟨k, by omega⟩

theorem toUInt32_ofInt {k : Int} (hk : 0 ≤ k ∧ k ≤ 31) : (Int32.ofInt k).toUInt32 = UInt32.ofInt k :=
  forall_small (P := fun k => (Int32.ofInt k).toUInt32 = UInt32.ofInt k) (by decide) hk

theorem toInt32_ofInt {k : Int} (hk : 0 ≤ k ∧ k ≤ 31) : (UInt32.ofInt k).toInt32 = Int32.ofInt k :=
  forall_small (P := fun k => (UInt32.ofInt k).toInt32 = Int32.ofInt k) (by decide) hk

theorem ofInt_le_two_iff {k : Int} (hk : 0 ≤ k ∧ k ≤ 31) : UInt32.ofInt k ≤ 2 ↔ k ≤ 2 :=
  forall_small (P := fun k => UInt32.ofInt k ≤ 2 ↔ k ≤ 2) (by decide) hk

theorem toUInt32_dayOfMonth {day start : Int} (h : 0 ≤ day - start ∧ day - start < 31) :
    (Int32.ofInt day - Int32.ofInt start + 1).toUInt32 = UInt32.ofInt (day - start + 1) := by
  rw [← toUInt32_ofInt ⟨by omega, by omega⟩, Int32.ofInt_add, Int32.ofInt_sub]
  rfl

/-- The year counted from March. -/
theorem ofInt_marchYear {d : Date} (h : 0 ≤ d.month ∧ d.month ≤ 31) :
    (if UInt32.ofInt d.month ≤ 2 then Int32.ofInt d.year - 1 else Int32.ofInt d.year) = Int32.ofInt d.marchYear := by
  simp only [Date.marchYear, ofInt_le_two_iff h, apply_ite Int32.ofInt, Int32.ofInt_sub]
  rfl

/-! ### The conversions -/

/-- The words that hold a date. -/
def Date.words (d : Date) : WordDate where
  year := Int32.ofInt d.year
  month := UInt32.ofInt d.month
  day := UInt32.ofInt d.day

theorem LiesAt.ofDays {n era year day month : Int} (h : LiesAt n era year day month) (hfirst : -2147483648 ≤ n)
    (hlast : n + 719468 ≤ 2147483647) : WordDate.ofDays (Int32.ofInt n) = (date n).words := by
  obtain ⟨hday, hmonth, hmonthStart, hyearStart⟩ := h.bounds
  have hdayOfEra := h.dayOfEra
  obtain ⟨hcount, hinEra, ⟨hfirstDay, -⟩, hfrom, hinMonth⟩ := id h
  -- In the order of the conversion: each step in words gives the word of the step in integers.
  have hshifted : Int32.ofInt n + 719468 = Int32.ofInt (n + 719468) := (Int32.ofInt_add n 719468).symm
  have hera : (if 0 ≤ Int32.ofInt (n + 719468) then Int32.ofInt (n + 719468)
      else Int32.ofInt (n + 719468) - 146096) / 146097 = Int32.ofInt era := by
    rw [← h.era_eq]
    exact (ofInt_era (a := n + 719468) (k := 146097) (l := 146096) ⟨by omega, by omega⟩ ⟨by omega, by omega⟩
      ⟨by decide, by decide⟩).symm
  have hinDay : Int32.ofInt (n + 719468) - Int32.ofInt era * 146097 = Int32.ofInt (yearStart year + day) := by
    rw [← h.dayOfEra_eq, Int32.ofInt_sub, Int32.ofInt_mul]
    rfl
  have hyearOfEra := ofInt_yearOfEra hdayOfEra
  rw [h.yearOfEra_eq] at hyearOfEra
  have hyear := ofInt_yearStart hinEra
  rw [h.yearStart_eq] at hyear
  have hdayOfYear : Int32.ofInt (yearStart year + day) - Int32.ofInt (yearStart year) = Int32.ofInt day := by
    rw [← Int32.ofInt_sub]
    exact congrArg Int32.ofInt (by omega)
  have hmonthOfYear := ofInt_month ⟨hfirstDay, hday⟩
  rw [h.month_eq] at hmonthOfYear
  have hstart := ofInt_monthStart ⟨hfrom, hmonth⟩
  rw [h.monthStart_eq] at hstart
  have hcivilMonth := ofInt_civilMonth ⟨hfrom, hmonth⟩
  have hsmall : 0 ≤ (if month < 10 then month + 3 else month - 9) ∧
      (if month < 10 then month + 3 else month - 9) ≤ 31 := by
    split <;> omega
  have hcivilDay : (Int32.ofInt day - Int32.ofInt (monthStart month) + 1).toUInt32 =
      UInt32.ofInt (day - monthStart month + 1) := by
    refine toUInt32_dayOfMonth ?_
    unfold monthStart at *
    omega
  unfold WordDate.ofDays
  dsimp only
  rw [hshifted, hera, hinDay, ← hyearOfEra, ← hyear, hdayOfYear, ← hmonthOfYear, ← hstart, ← hcivilMonth,
    toUInt32_ofInt hsmall, h.date_eq]
  simp only [Date.words, ofInt_le_two_iff hsmall, apply_ite Int32.ofInt, Int32.ofInt_add, Int32.ofInt_mul]
  rw [hcivilDay]
  rfl

/-- Where the days before 1970 can be added to a count, its date is found in words. -/
theorem WordDate.ofDays_eq {n : Int32} (h : n.toInt + 719468 ≤ 2147483647) : ofDays n = (date n.toInt).words := by
  have hlies := (valid_date n.toInt).liesAt
  rw [days_date] at hlies
  have hwords := hlies.ofDays n.le_toInt h
  rwa [Int32.ofInt_toInt] at hwords

/-- A count that fits is found in words. -/
theorem Date.Valid.days_words {d : Date} (h : d.Valid) (hfits : FitsWord (Calendar.days d)) :
    d.words.days = Int32.ofInt (Calendar.days d) := by
  have hlies := h.liesAt
  obtain ⟨hday, hmonth, hmonthStart, hyearStart⟩ := hlies.bounds
  have hdayOfEra := hlies.dayOfEra
  obtain ⟨hcount, hinEra, ⟨hfirstDay, -⟩, hfrom, -⟩ := id hlies
  obtain ⟨hfirst, hlast⟩ := hfits
  have hsmallMonth : 0 ≤ d.month ∧ d.month ≤ 31 := by
    have hcivil := h.month
    omega
  have hsmallDay : 0 ≤ d.day ∧ d.day ≤ 31 := by
    have hcivil := h.day
    omega
  have hera : (if 0 ≤ Int32.ofInt d.marchYear then Int32.ofInt d.marchYear else Int32.ofInt d.marchYear - 399) / 400 =
      Int32.ofInt (d.marchYear / 400) := by
    rw [← tdiv_eraDividend d.marchYear (k := 400) (l := 399) (by decide) rfl]
    exact (ofInt_era (a := d.marchYear) (k := 400) (l := 399) ⟨by omega, by omega⟩ ⟨by omega, by omega⟩
      ⟨by decide, by decide⟩).symm
  have hyearOfEra : Int32.ofInt d.marchYear - Int32.ofInt (d.marchYear / 400) * 400 =
      Int32.ofInt (d.marchYear - d.marchYear / 400 * 400) := by
    rw [Int32.ofInt_sub, Int32.ofInt_mul]
    rfl
  have hmarchMonth : Int32.ofInt d.marchMonth = _ := ofInt_marchMonth h.month
  have hstart := ofInt_monthStart ⟨hfrom, hmonth⟩
  rw [hlies.monthStart_eq] at hstart
  have hyear := ofInt_yearStart hinEra
  rw [hlies.yearStart_eq, Int32.mul_comm] at hyear
  have hcount' : Calendar.days d = d.marchYear / 400 * 146097 +
      (yearStart (d.marchYear - d.marchYear / 400 * 400) + (monthStart d.marchMonth + d.day - 1)) - 719468 := by
    unfold Date.dayOfYear at hcount
    omega
  unfold WordDate.days Date.words
  dsimp only
  rw [ofInt_marchYear hsmallMonth, hera, hyearOfEra, toInt32_ofInt hsmallMonth, toInt32_ofInt hsmallDay, ← hmarchMonth,
    ← hstart, ← hyear, hcount']
  simp only [Int32.ofInt_add, Int32.ofInt_sub, Int32.ofInt_mul]
  rfl

end RecordMapper.Calendar
