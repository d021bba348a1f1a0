/-! Texts as bytes.

A database compares texts byte by byte. The bytes of a text tell it apart from all others, those of
ASCII text are its codes, and the first difference decides an order. -/
namespace RecordMapper.Text

/-- The bytes of a text. -/
def bytes (s : String) : List UInt8 := s.toByteArray.data.toList

/-- The bytes of characters of ASCII. -/
def codes (s : List Char) : List UInt8 := s.map fun c => UInt8.ofNat c.toNat

theorem bytes_inj {a b : String} : bytes a = bytes b ↔ a = b := by
  refine ⟨fun h => ?_, fun h => h ▸ rfl⟩
  exact String.toByteArray_inj.1 (ByteArray.ext (Array.toList_inj.1 h))

/-- The bytes of a text are those of its characters. -/
theorem bytes_eq_flatMap (s : List Char) : bytes (String.ofList s) = s.flatMap String.utf8EncodeChar := by
  rw [bytes, String.toByteArray_ofList, List.utf8Encode, List.toList_data_toByteArray]

theorem bytes_ofList {s : List Char} (h : ∀ c ∈ s, c.toNat < 128) : bytes (String.ofList s) = codes s := by
  rw [bytes_eq_flatMap, codes]
  induction s with
  | nil => rfl
  | cons c rest ih =>
    have hc : c.val.toNat ≤ 127 := Nat.le_of_lt_succ (h c (.head _))
    have hchar : String.utf8EncodeChar c = [UInt8.ofNat c.toNat] := if_pos hc
    rw [List.flatMap_cons, List.map_cons, hchar, ih fun c hc => h c (.tail _ hc)]
    rfl

/-! ### Order -/

/-- The comparison of bytes is that of the lexicographic order. -/
theorem compare_eq_lt_iff {a b : List UInt8} : compare a b = .lt ↔ a < b := by
  induction a generalizing b with
  | nil =>
    cases b with
    | nil => exact iff_of_false nofun (List.lt_irrefl [])
    | cons y rest => exact iff_of_true List.compare_nil_cons (List.nil_lt_cons y rest)
  | cons x more ih =>
    cases b with
    | nil => exact iff_of_false nofun (List.not_lt_nil _)
    | cons y rest =>
      rw [List.compare_cons_cons, Ordering.then_eq_lt, Std.compare_eq_lt, Std.compare_eq_iff_eq, ih,
        List.cons_lt_cons_iff]

theorem compare_append {a b s t : List UInt8} (h : a.length = b.length) :
    compare (a ++ s) (b ++ t) = (compare a b).then (compare s t) := by
  induction a generalizing b with
  | nil =>
    rw [List.length_eq_zero_iff.1 h.symm, Std.compare_self]
    rfl
  | cons x more ih =>
    cases b with
    | nil => cases h
    | cons y rest =>
      have hlen : more.length = rest.length := by simpa using h
      rw [List.cons_append, List.cons_append, List.compare_cons_cons, List.compare_cons_cons, ih hlen,
        Ordering.then_assoc]

/-- Numbers that stand in the same order. -/
theorem compare_congr {a b c d : Int} (hlt : a < b ↔ c < d) (hgt : b < a ↔ d < c) :
    compare a b = compare c d := by
  rcases Int.lt_trichotomy a b with h | h | h
  · rw [Int.compare_eq_lt.2 h, Int.compare_eq_lt.2 (hlt.1 h)]
  · rw [Int.compare_eq_eq.2 h, Int.compare_eq_eq.2 (by omega)]
  · rw [Int.compare_eq_gt.2 h, Int.compare_eq_gt.2 (hgt.1 h)]

/-- The higher place decides, then the lower one. -/
theorem compare_place {place p q m n : Int} (hm : 0 ≤ m ∧ m < place) (hn : 0 ≤ n ∧ n < place) :
    compare (place * p + m) (place * q + n) = (compare p q).then (compare m n) := by
  have hlt : ∀ {p q m n : Int}, m < place → 0 ≤ n → p < q → place * p + m < place * q + n := by
    intro p q m n hm hn h
    have hplace := Int.mul_le_mul_of_nonneg_left (show p + 1 ≤ q by omega) (show 0 ≤ place by omega)
    rw [Int.mul_add, Int.mul_one] at hplace
    omega
  rcases Int.lt_trichotomy p q with h | h | h
  · rw [Int.compare_eq_lt.2 h, Int.compare_eq_lt.2 (hlt hm.2 hn.1 h)]
    rfl
  · rw [h, Std.compare_self, Ordering.eq_then]
    exact compare_congr (by omega) (by omega)
  · rw [Int.compare_eq_gt.2 h, Int.compare_eq_gt.2 (hlt hn.2 hm.1 h)]
    rfl

theorem compare_ofNat {m n : Nat} (hm : m < 256) (hn : n < 256) :
    compare (UInt8.ofNat m) (UInt8.ofNat n) = compare (m : Int) n := by
  have hlt : ∀ {k l : Nat}, k < 256 → l < 256 → k < l → UInt8.ofNat k < UInt8.ofNat l := by
    intro k l hk hl h
    rw [UInt8.lt_iff_toNat_lt, UInt8.toNat_ofNat_of_lt' hk, UInt8.toNat_ofNat_of_lt' hl]
    exact h
  rcases Nat.lt_trichotomy m n with h | h | h
  · rw [Std.compare_eq_lt.2 (hlt hm hn h), Int.compare_eq_lt.2 (by omega)]
  · rw [h, Std.compare_self, Std.compare_self]
  · rw [Std.compare_eq_gt.2 (hlt hn hm h), Int.compare_eq_gt.2 (by omega)]

end RecordMapper.Text
