import RecordMapper.Proofs.Text.Quoted

/-! Reading quoted text with escapes.

Where a backslash in quoted text escapes the character behind it, doubling the quotes does not keep a text:
its backslashes are read as the start of an escape, and one before the closing quote takes that quote for a
part of the text. A backslash only stands for itself before `%` and `_`, which keep it for the patterns
of a search. -/
namespace RecordMapper.Text

/-- What a backslash and a character stand for. -/
def unescaped : Char → List Char
  | '0' => ['\x00']
  | 'b' => ['\x08']
  | 'n' => ['\n']
  | 'r' => ['\r']
  | 't' => ['\t']
  | 'Z' => ['\x1a']
  | '%' => ['\\', '%']
  | '_' => ['\\', '_']
  | c => [c]

/-- The text up to the closing single quote, and what stands behind that; two quotes are one, and a backslash
escapes the character behind it. -/
def escapedPart? : List Char → Option (List Char × List Char)
  | [] => none
  | [c] => if c = '\'' then some ([], []) else none
  | c :: d :: rest =>
    if c = '\'' then
      if d = '\'' then (escapedPart? rest).map fun r => ('\'' :: r.1, r.2) else some ([], d :: rest)
    else if c = '\\' then (escapedPart? rest).map fun r => (unescaped d ++ r.1, r.2)
    else (escapedPart? (d :: rest)).map fun r => (c :: r.1, r.2)

/-- Every backslash stands before `%` or `_`. -/
def KeepsBackslashes : List Char → Prop
  | [] => True
  | c :: rest => (c = '\\' → rest.head? = some '%' ∨ rest.head? = some '_') ∧ KeepsBackslashes rest

theorem keepsBackslashes_of_not_mem {text : List Char} (h : '\\' ∉ text) : KeepsBackslashes text := by
  induction text with
  | nil => trivial
  | cons c rest ih =>
    obtain ⟨hc, hrest⟩ := not_or.1 (mt List.mem_cons.2 h)
    exact ⟨fun he => absurd he.symm hc, ih hrest⟩

/-! ### One character -/

section

variable {rest : List Char}

theorem escapedPart?_quote (hrest : rest.head? ≠ some '\'') : escapedPart? ('\'' :: rest) = some ([], rest) := by
  cases rest with
  | nil => rfl
  | cons c more =>
    have hc : c ≠ '\'' := fun he => hrest (he ▸ rfl)
    simp [escapedPart?, hc]

theorem escapedPart?_quotes (rest : List Char) :
    escapedPart? ('\'' :: '\'' :: rest) = (escapedPart? rest).map fun r => ('\'' :: r.1, r.2) := by
  simp [escapedPart?]

theorem escapedPart?_escape (c : Char) (rest : List Char) :
    escapedPart? ('\\' :: c :: rest) = (escapedPart? rest).map fun r => (unescaped c ++ r.1, r.2) := by
  simp [escapedPart?]

theorem escapedPart?_char {c : Char} (hquote : c ≠ '\'') (hescape : c ≠ '\\') (hrest : rest ≠ []) :
    escapedPart? (c :: rest) = (escapedPart? rest).map fun r => (c :: r.1, r.2) := by
  obtain ⟨d, more, rfl⟩ := List.exists_cons_of_ne_nil hrest
  simp [escapedPart?, hquote, hescape]

end

/-! ### Whole texts -/

/-- What is read once for two characters makes at most two, where a quote counts twice. -/
theorem length_unescaped (c : Char) : (unescaped c).length + (unescaped c).count '\'' ≤ 2 := by
  unfold unescaped
  split
  all_goals first | decide | simp [List.count_singleton]; split <;> omega

theorem length_doubled (quote : Char) (text : List Char) :
    (doubled quote text).length = text.length + text.count quote := by
  induction text with
  | nil => rfl
  | cons c rest ih =>
    by_cases hc : c = quote
    · simp [doubled, hc, ih]
      omega
    · simp [doubled, hc, ih]
      omega

/-- A text that is read took at least as many characters as it has with its quotes doubled. -/
theorem length_escapedPart? {s text rest : List Char} (h : escapedPart? s = some (text, rest)) :
    text.length + text.count '\'' + 1 + rest.length ≤ s.length := by
  fun_induction escapedPart? s generalizing text with
  | case1 => cases h
  | case2 => cases h; simp
  | case3 => cases h
  | case4 more ih =>
    obtain ⟨r, hr, h⟩ := Option.map_eq_some_iff.1 h
    cases h
    have := ih hr
    simp only [List.length_cons, List.count_cons_self]
    omega
  | case5 => cases h; simp; omega
  | case6 d more _ ih =>
    obtain ⟨r, hr, h⟩ := Option.map_eq_some_iff.1 h
    cases h
    have := ih hr
    have hd := length_unescaped d
    simp only [List.length_cons, List.length_append, List.count_append]
    omega
  | case7 c d more hquote _ ih =>
    obtain ⟨r, hr, h⟩ := Option.map_eq_some_iff.1 h
    cases h
    have := ih hr
    have hc : (c :: r.1).count '\'' = r.1.count '\'' := by simp [hquote]
    rw [hc]
    simp only [List.length_cons] at this ⊢
    omega

/-- A backslash before `%` or `_` is read like any other character. -/
theorem escapedPart?_backslash {text : List Char} (h : text.head? = some '%' ∨ text.head? = some '_')
    (rest : List Char) :
    escapedPart? ('\\' :: (doubled '\'' text ++ '\'' :: rest)) =
      (escapedPart? (doubled '\'' text ++ '\'' :: rest)).map fun r => ('\\' :: r.1, r.2) := by
  cases text with
  | nil => simp at h
  | cons c more =>
    have hc : c = '%' ∨ c = '_' := by simpa using h
    have hchar : c ≠ '\'' ∧ c ≠ '\\' ∧ unescaped c = ['\\', c] := by
      rcases hc with rfl | rfl <;> decide
    obtain ⟨hquote, hescape, hun⟩ := hchar
    have hdoubled : doubled '\'' (c :: more) = c :: doubled '\'' more := by simp [doubled, hquote]
    rw [hdoubled, List.cons_append, escapedPart?_escape, escapedPart?_char hquote hescape (by simp), Option.map_map,
      hun]
    rfl

/-- An escape that stands for a backslash keeps the `%` or `_` that it escapes, or takes a second backslash. -/
theorem unescaped_backslash {c : Char} {s text : List Char} (h : unescaped c ++ s = '\\' :: text) :
    (text.head? = some '%' ∨ text.head? = some '_') ∨ s = text := by
  unfold unescaped at h
  split at h
  case h_7 =>
    cases h
    exact .inl (.inl rfl)
  case h_8 =>
    cases h
    exact .inl (.inr rfl)
  all_goals exact .inr (List.cons.inj h).2

/-- A backslash is read as itself only before `%` or `_`. -/
theorem head?_of_escapedPart?_backslash {text rest : List Char}
    (h : escapedPart? ('\\' :: (doubled '\'' text ++ '\'' :: rest)) = some ('\\' :: text, rest)) :
    text.head? = some '%' ∨ text.head? = some '_' := by
  obtain ⟨d, after, hafter⟩ : ∃ d after, doubled '\'' text ++ '\'' :: rest = d :: after :=
    List.exists_cons_of_ne_nil (by simp)
  rw [hafter, escapedPart?_escape] at h
  obtain ⟨r, hr, h⟩ := Option.map_eq_some_iff.1 h
  obtain ⟨htext, rfl⟩ := Prod.mk.inj h
  refine (unescaped_backslash htext).resolve_right fun hsame => ?_
  -- The escape of a second backslash takes two characters for one, and too few are left for the text.
  have hlength : text.length + text.count '\'' + r.2.length = after.length := by
    have := congrArg List.length hafter
    simp only [List.length_append, List.length_cons, length_doubled] at this
    omega
  have hread := length_escapedPart? (show escapedPart? after = some (r.1, r.2) from hr)
  rw [hsame] at hread
  omega

/-- Between quotes, with its own quotes doubled, a text is read as what it is exactly if its backslashes are kept. -/
theorem escapedPart?_doubled {rest : List Char} (hrest : rest.head? ≠ some '\'') (text : List Char) :
    escapedPart? (doubled '\'' text ++ '\'' :: rest) = some (text, rest) ↔ KeepsBackslashes text := by
  have hmap : ∀ (c : Char) (text : List Char) (o : Option (List Char × List Char)),
      (o.map fun r => (c :: r.1, r.2)) = some (c :: text, rest) ↔ o = some (text, rest) := by
    rintro c text (_ | ⟨s, t⟩)
    · simp
    · simp
  induction text with
  | nil => simp [doubled, escapedPart?_quote hrest, KeepsBackslashes]
  | cons c more ih =>
    have hne : doubled '\'' more ++ '\'' :: rest ≠ [] := by simp
    by_cases hquote : c = '\''
    · subst hquote
      simp [doubled, escapedPart?_quotes, hmap, ih, KeepsBackslashes]
    by_cases hescape : c = '\\'
    · subst hescape
      have hdoubled : doubled '\'' ('\\' :: more) = '\\' :: doubled '\'' more := by simp [doubled]
      rw [hdoubled, List.cons_append, KeepsBackslashes]
      constructor
      · intro h
        have hhead := head?_of_escapedPart?_backslash h
        rw [escapedPart?_backslash hhead, hmap] at h
        exact ⟨fun _ => hhead, ih.1 h⟩
      · rintro ⟨hhead, hmore⟩
        rw [escapedPart?_backslash (hhead rfl), hmap]
        exact ih.2 hmore
    · simp [doubled, hquote, escapedPart?_char hquote hescape hne, hmap, ih, KeepsBackslashes, hescape]

end RecordMapper.Text
