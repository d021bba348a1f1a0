import RecordMapper.Text.Quoted

/-! Reading quoted text.

A reader of quoted text takes a doubled quote for one, and a single one for the end. What it reads
between quotes is the text that was written there. -/
namespace RecordMapper.Text

/-- The text up to the closing quote, which has to come last. -/
def undoubled? (quote : Char) : List Char → Option (List Char)
  | [] => none
  | [c] => if c = quote then some [] else none
  | c :: d :: rest =>
    if c = quote then
      if d = quote then (undoubled? quote rest).map (quote :: ·) else none
    else (undoubled? quote (d :: rest)).map (c :: ·)

theorem undoubled?_doubled (quote : Char) (text : List Char) :
    undoubled? quote (doubled quote text ++ [quote]) = some text := by
  induction text with
  | nil => simp [doubled, undoubled?]
  | cons c rest ih =>
    by_cases hc : c = quote
    · simp [doubled, undoubled?, hc, ih]
    · have hnext : ∃ d more, doubled quote rest ++ [quote] = d :: more :=
        List.exists_cons_of_ne_nil (by simp)
      obtain ⟨d, more, hmore⟩ := hnext
      rw [hmore] at ih
      simp [doubled, undoubled?, hc, hmore, ih]

/-- The text up to the closing quote, and what stands behind that. -/
def quotedPart? (quote : Char) : List Char → Option (List Char × List Char)
  | [] => none
  | [c] => if c = quote then some ([], []) else none
  | c :: d :: rest =>
    if c = quote then
      if d = quote then (quotedPart? quote rest).map fun r => (quote :: r.1, r.2) else some ([], d :: rest)
    else (quotedPart? quote (d :: rest)).map fun r => (c :: r.1, r.2)

theorem length_quotedPart? {quote : Char} {s text rest : List Char} (h : quotedPart? quote s = some (text, rest)) :
    rest.length < s.length := by
  fun_induction quotedPart? quote s generalizing text with
  | case1 => cases h
  | case2 => cases h; simp
  | case3 => cases h
  | case4 _ ih =>
    obtain ⟨r, hr, h⟩ := Option.map_eq_some_iff.1 h
    cases h
    have := ih hr
    simp only [List.length_cons] at this ⊢
    omega
  | case5 => cases h; simp
  | case6 c d _ _ ih =>
    obtain ⟨r, hr, h⟩ := Option.map_eq_some_iff.1 h
    cases h
    have := ih hr
    simp only [List.length_cons] at this ⊢
    omega

/-- Quoted text is read to its end, unless a quote follows. -/
theorem quotedPart?_doubled {quote : Char} {rest : List Char} (hrest : rest.head? ≠ some quote) (text : List Char) :
    quotedPart? quote (doubled quote text ++ quote :: rest) = some (text, rest) := by
  induction text with
  | nil =>
    cases rest with
    | nil => simp [doubled, quotedPart?]
    | cons c more =>
      have hc : c ≠ quote := fun he => hrest (he ▸ rfl)
      simp [doubled, quotedPart?, hc]
  | cons c more ih =>
    by_cases hc : c = quote
    · simp [doubled, quotedPart?, hc, ih]
    · have hnext : ∃ d after, doubled quote more ++ quote :: rest = d :: after :=
        List.exists_cons_of_ne_nil (by simp)
      obtain ⟨d, after, hafter⟩ := hnext
      rw [hafter] at ih
      simp [doubled, quotedPart?, hc, hafter, ih]

end RecordMapper.Text
