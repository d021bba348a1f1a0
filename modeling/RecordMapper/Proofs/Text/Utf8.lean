import RecordMapper.Proofs.Text.Bytes
import RecordMapper.Text.Utf8

/-! Reading the bytes of a text.

The bytes of a character are one to four: a first one that tells how many follow, and six bits of its
value in each of the others. Reading them completes the character with the last of them, so from the
bytes of a text that text is read (`ofUtf8_bytes`). -/
namespace RecordMapper.Text

/-! ### First bytes -/

theorem utf8Lead_two {byte : Nat} (h : 0xC2 ≤ byte ∧ byte < 0xE0) :
    utf8Lead byte = .start ⟨byte - 0xC0, 1, 0x80, 0xBF⟩ := by
  rw [utf8Lead, if_neg (by omega), if_neg (by omega), if_pos (by omega)]

theorem utf8Lead_three {byte : Nat} (h : 0xE0 ≤ byte ∧ byte < 0xF0) :
    utf8Lead byte =
      .start ⟨byte - 0xE0, 2, if byte = 0xE0 then 0xA0 else 0x80, if byte = 0xED then 0x9F else 0xBF⟩ := by
  rw [utf8Lead, if_neg (by omega), if_neg (by omega), if_neg (by omega), if_pos (by omega)]

theorem utf8Lead_four {byte : Nat} (h : 0xF0 ≤ byte ∧ byte < 0xF5) :
    utf8Lead byte =
      .start ⟨byte - 0xF0, 3, if byte = 0xF0 then 0x90 else 0x80, if byte = 0xF4 then 0x8F else 0xBF⟩ := by
  rw [utf8Lead, if_neg (by omega), if_neg (by omega), if_neg (by omega), if_neg (by omega), if_pos (by omega)]

/-! ### Sequences -/

/-- The start of a sequence. -/
theorem utf8From_start {byte : Nat} {part : Utf8Partial} (h : utf8Lead byte = .start part) (rest : List Nat) :
    utf8From none (byte :: rest) = utf8From (some part) rest := by
  simp [utf8From, utf8Step, utf8Fresh, h]

/-- A byte within a sequence that more bytes are owed to. -/
theorem utf8From_continue {part : Utf8Partial} {byte : Nat} (howed : part.owed ≠ 1)
    (hrange : part.low ≤ byte ∧ byte ≤ part.high) (rest : List Nat) :
    utf8From (some part) (byte :: rest) =
      utf8From (some ⟨part.value * 64 + (byte - 0x80), part.owed - 1, 0x80, 0xBF⟩) rest := by
  simp [utf8From, utf8Step, hrange, howed]

/-- The last byte of a sequence. -/
theorem utf8From_complete {part : Utf8Partial} {byte : Nat} (howed : part.owed = 1)
    (hrange : part.low ≤ byte ∧ byte ≤ part.high) (rest : List Nat) :
    utf8From (some part) (byte :: rest) =
      Char.ofNat (part.value * 64 + (byte - 0x80)) :: utf8From none rest := by
  simp [utf8From, utf8Step, hrange, howed]

/-- The bytes of a character, as numbers. -/
def charBytes (v : Nat) : List Nat :=
  if v ≤ 0x7F then [v]
  else if v ≤ 0x7FF then [v / 64 + 0xC0, v % 64 + 0x80]
  else if v ≤ 0xFFFF then [v / 4096 + 0xE0, v / 64 % 64 + 0x80, v % 64 + 0x80]
  else [v / 262144 + 0xF0, v / 4096 % 64 + 0x80, v / 64 % 64 + 0x80, v % 64 + 0x80]

theorem toNat_utf8EncodeChar (c : Char) : (String.utf8EncodeChar c).map UInt8.toNat = charBytes c.toNat := by
  have hvalid : c.toNat < 0x110000 := by
    have h : c.toNat.isValidChar := c.valid
    unfold Nat.isValidChar at h
    omega
  have hbyte : ∀ {n : Nat}, n < 256 → (UInt8.ofNat n).toNat = n := UInt8.toNat_ofNat_of_lt'
  have hval : c.val.toNat = c.toNat := rfl
  simp only [String.utf8EncodeChar, charBytes, hval]
  split
  · simp only [List.map_cons, List.map_nil]
    rw [hbyte (by omega)]
  split
  · simp only [List.map_cons, List.map_nil]
    rw [hbyte (by omega), hbyte (by omega)]
    congr 1
    omega
  split
  · simp only [List.map_cons, List.map_nil]
    rw [hbyte (by omega), hbyte (by omega), hbyte (by omega)]
    congr 1
    omega
  · simp only [List.map_cons, List.map_nil]
    rw [hbyte (by omega), hbyte (by omega), hbyte (by omega), hbyte (by omega)]
    congr 1
    omega

/-- From the bytes of a character it is read, and then what follows. -/
theorem utf8From_charBytes (c : Char) (rest : List Nat) :
    utf8From none (charBytes c.toNat ++ rest) = c :: utf8From none rest := by
  have hvalid : c.toNat < 0xD800 ∨ 0xDFFF < c.toNat ∧ c.toNat < 0x110000 := c.valid
  have hchar : ∀ {n}, n = c.toNat → Char.ofNat n = c := fun h => h ▸ Char.ofNat_toNat c
  unfold charBytes
  split
  · have hlead : utf8Lead c.toNat = .single c.toNat := if_pos (by omega)
    simp [utf8From, utf8Step, utf8Fresh, hlead]
  split
  · rw [List.cons_append, utf8From_start (utf8Lead_two (by omega)), List.cons_append,
      utf8From_complete rfl (by dsimp only; omega), hchar (by dsimp only; omega)]
    rfl
  split
  · rw [List.cons_append, utf8From_start (utf8Lead_three (by omega)), List.cons_append,
      utf8From_continue (show 2 ≠ 1 by decide) (by dsimp only; split <;> split <;> omega), List.cons_append,
      utf8From_complete rfl (by dsimp only; omega), hchar (by dsimp only; omega)]
    rfl
  · rw [List.cons_append, utf8From_start (utf8Lead_four (by omega)), List.cons_append,
      utf8From_continue (show 3 ≠ 1 by decide) (by dsimp only; split <;> split <;> omega), List.cons_append,
      utf8From_continue (show 2 ≠ 1 by decide) (by dsimp only; omega), List.cons_append,
      utf8From_complete rfl (by dsimp only; omega), hchar (by dsimp only; omega)]
    rfl

/-- A text is read from its bytes. -/
theorem ofUtf8_bytes (s : String) : ofUtf8 ((bytes s).map UInt8.toNat) = s := by
  have hread : ∀ chars : List Char,
      utf8From none ((chars.flatMap String.utf8EncodeChar).map UInt8.toNat) = chars := by
    intro chars
    induction chars with
    | nil => rfl
    | cons c rest ih =>
      rw [List.flatMap_cons, List.map_append, toNat_utf8EncodeChar, utf8From_charBytes, ih]
  have hbytes := bytes_eq_flatMap s.toList
  rw [String.ofList_toList] at hbytes
  rw [ofUtf8, hbytes, hread, String.ofList_toList]

end RecordMapper.Text
