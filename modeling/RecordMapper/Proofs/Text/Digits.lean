import Mathlib.Algebra.Group.Int.Defs
import Mathlib.Algebra.Group.Nat.Defs
import RecordMapper.Proofs.Text.Bytes
import RecordMapper.Text.Digits

/-! Written numbers and their values.

The digits of a number have its value, and zeros before them do not change it. A number that
fits a field of a fixed width fills it, so the order of such fields, digit by digit, is the
order of the numbers (`compare_codes`). -/
namespace RecordMapper.Text

theorem digitsValue_eq (s : List Char) : digitsValue s = Nat.ofDigitChars 10 s 0 := by
  rw [Nat.ofDigitChars_eq_foldl, digitsValue]
  congr 1
  funext value c
  rw [Nat.mul_comm]
  rfl

theorem digitsValue_digits (n : Nat) : digitsValue (digits n) = n := by
  rw [digitsValue_eq, digits, Nat.ofDigitChars_ten_toDigits]

theorem digitsValue_cons (c : Char) (s : List Char) :
    digitsValue (c :: s) = 10 ^ s.length * (c.toNat - 48) + digitsValue s := by
  rw [digitsValue_eq, digitsValue_eq, Nat.ofDigitChars_cons, Nat.ofDigitChars_eq_ofDigitChars_zero,
    Nat.mul_zero, Nat.zero_add]
  rfl

theorem digit_le_nine {c : Char} (h : c.isDigit = true) : 48 ≤ c.toNat ∧ c.toNat ≤ 57 := by
  simp only [Char.isDigit, Bool.and_eq_true, decide_eq_true_eq] at h
  exact ⟨h.1, h.2⟩

theorem isDigit_of_mem_digits {n : Nat} {c : Char} (h : c ∈ digits n) : c.isDigit = true :=
  Nat.isDigit_of_mem_toDigits (by decide) (by decide) h

theorem digitsValue_lt {s : List Char} (h : ∀ c ∈ s, c.isDigit = true) : digitsValue s < 10 ^ s.length := by
  induction s with
  | nil => decide
  | cons c rest ih =>
    have hc := digit_le_nine (h c (.head _))
    have hrest := ih fun c hc => h c (.tail _ hc)
    have hdigit : c.toNat - 48 ≤ 9 := by omega
    have hmul := Nat.mul_le_mul_left (10 ^ rest.length) hdigit
    rw [digitsValue_cons, List.length_cons, Nat.pow_succ]
    omega

/-! ### Fields of a fixed width -/

/-- A written number consists of digits, but for the sign. -/
theorem eq_or_isDigit_of_mem_padded {width : Nat} {n : Int} {c : Char} (h : c ∈ padded width n) :
    c = '-' ∨ c.isDigit = true := by
  simp only [padded, List.mem_append] at h
  rcases h with (hsign | hzero) | hdigit
  · split at hsign
    · exact .inl (List.mem_singleton.1 hsign)
    · cases hsign
  · rw [(List.mem_replicate.1 hzero).2]
    exact .inr (by decide)
  · exact .inr (isDigit_of_mem_digits hdigit)

theorem padded_ofNat (width n : Nat) :
    padded width n = List.replicate (width - (digits n).length) '0' ++ digits n := by
  have hsign : ¬(n : Int) < 0 := by omega
  simp [padded, hsign]

theorem isDigit_of_mem_padded {width n : Nat} : ∀ c ∈ padded width n, c.isDigit = true := by
  intro c hc
  rw [padded_ofNat] at hc
  rcases List.mem_append.1 hc with hzero | hdigit
  · rw [(List.mem_replicate.1 hzero).2]
    decide
  · exact isDigit_of_mem_digits hdigit

theorem digitsValue_padded (width n : Nat) : digitsValue (padded width n) = n := by
  rw [padded_ofNat, digitsValue_eq, Nat.ofDigitChars_append, Nat.ofDigitChars_replicate_zero, Nat.mul_zero,
    ← digitsValue_eq, digitsValue_digits]

/-- Without a width there is nothing but the sign before the digits. -/
theorem padded_zero (n : Int) : padded 0 n = (if n < 0 then ['-'] else []) ++ digits n.natAbs := by
  simp [padded]

/-- A number that fits a field fills it. -/
theorem length_padded {width n : Nat} (hw : 0 < width) (h : n < 10 ^ width) : (padded width n).length = width := by
  have hfits : (digits n).length ≤ width := (Nat.length_toDigits_le_iff (by decide) hw).2 h
  rw [padded_ofNat, List.length_append, List.length_replicate]
  omega

/-- What a field of digits is read as fits it. -/
theorem fixed?_eq_some {width : Nat} {s : List Char} {n : Nat} (h : fixed? width s = some n) :
    s.length = width ∧ (∀ c ∈ s, c.isDigit = true) ∧ n = digitsValue s ∧ n < 10 ^ width := by
  unfold fixed? at h
  split at h
  · next hfield =>
    cases h
    have hdigits : ∀ c ∈ s, c.isDigit = true := List.all_eq_true.1 hfield.2
    exact ⟨hfield.1, hdigits, rfl, hfield.1 ▸ digitsValue_lt hdigits⟩
  · cases h

/-- A number that fits a field is read from it again. -/
theorem fixed?_padded {width : Nat} (hw : 0 < width) {n : Int} (hn : 0 ≤ n ∧ n < 10 ^ width) :
    fixed? width (padded width n) = some n.toNat := by
  obtain ⟨n, rfl⟩ := Int.eq_ofNat_of_zero_le hn.1
  have hlength := length_padded hw (show n < 10 ^ width by exact_mod_cast hn.2)
  rw [fixed?, if_pos ⟨hlength, List.all_eq_true.2 isDigit_of_mem_padded⟩, digitsValue_padded, Int.toNat_natCast]

/-! ### Order -/

/-- Fields of one width are in the order of their values. -/
theorem compare_codes {a b : List Char} (hlen : a.length = b.length) (ha : ∀ c ∈ a, c.isDigit = true)
    (hb : ∀ c ∈ b, c.isDigit = true) :
    compare (codes a) (codes b) = compare (digitsValue a : Int) (digitsValue b) := by
  induction a generalizing b with
  | nil =>
    rw [List.length_eq_zero_iff.1 hlen.symm]
    rfl
  | cons x more ih =>
    cases b with
    | nil => cases hlen
    | cons y rest =>
      have hlen : more.length = rest.length := by simpa using hlen
      have hmore : ∀ c ∈ more, c.isDigit = true := fun c hc => ha c (.tail _ hc)
      have hrest : ∀ c ∈ rest, c.isDigit = true := fun c hc => hb c (.tail _ hc)
      have hx := digit_le_nine (ha x (.head _))
      have hy := digit_le_nine (hb y (.head _))
      have hfirst : compare (UInt8.ofNat x.toNat) (UInt8.ofNat y.toNat) =
          compare ((x.toNat - 48 : Nat) : Int) ((y.toNat - 48 : Nat) : Int) := by
        rw [compare_ofNat (by omega) (by omega)]
        exact compare_congr (by omega) (by omega)
      have hmoreLt := digitsValue_lt hmore
      have hrestLt := digitsValue_lt hrest
      rw [hlen] at hmoreLt
      rw [digitsValue_cons, digitsValue_cons, hlen, Int.natCast_add, Int.natCast_add, Int.natCast_mul,
        Int.natCast_mul, compare_place ⟨by omega, by exact_mod_cast hmoreLt⟩ ⟨by omega, by exact_mod_cast hrestLt⟩,
        ← ih hlen hmore hrest, ← hfirst]
      exact List.compare_cons_cons

/-- Written numbers that fit their fields are in their own order. -/
theorem compare_padded {width : Nat} (hw : 0 < width) {m n : Int} (hm : 0 ≤ m ∧ m < 10 ^ width)
    (hn : 0 ≤ n ∧ n < 10 ^ width) : compare (codes (padded width m)) (codes (padded width n)) = compare m n := by
  obtain ⟨m, rfl⟩ := Int.eq_ofNat_of_zero_le hm.1
  obtain ⟨n, rfl⟩ := Int.eq_ofNat_of_zero_le hn.1
  have hm : m < 10 ^ width := by exact_mod_cast hm.2
  have hn : n < 10 ^ width := by exact_mod_cast hn.2
  rw [compare_codes ((length_padded hw hm).trans (length_padded hw hn).symm) isDigit_of_mem_padded
    isDigit_of_mem_padded, digitsValue_padded, digitsValue_padded]

end RecordMapper.Text
