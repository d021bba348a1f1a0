import RecordMapper.Json.Parser
import RecordMapper.Json.Printer
import RecordMapper.Proofs.Dialect.Tokens

/-! Documents read from their text.

The compact text of a document is read as that document (`parseRaw?_text`), if its integers are in range, it has no
doubles, and it does not nest too deep (`Legible`). Each reader takes what was written from the start of a longer text
and leaves the rest; a number needs to know that it has ended there. The fuel of the readers is counted in characters,
of which every call consumes one in two. So a document is known from its text (`Legible.text_inj`). -/
namespace RecordMapper.Json

/-! ### Strings -/

/-- The characters with a letter of their own. -/
def escapes : List (Char × Char) :=
  [('"', '"'), ('\\', '\\'), ('\n', 'n'), ('\r', 'r'), ('\t', 't'), ('\x08', 'b'), ('\x0c', 'f')]

theorem mem_escapes {c letter : Char} (h : escapeLetter? c = some letter) : (c, letter) ∈ escapes := by
  unfold escapeLetter? at h
  repeat' split at h
  all_goals cases h
  all_goals simp [escapes, *]

/-- No letter begins a number. -/
theorem ne_of_escapeLetter? {c letter : Char} (h : escapeLetter? c = some letter) : letter ≠ 'u' := by
  have hall : ∀ e ∈ escapes, e.2 ≠ 'u' := by decide
  exact hall _ (mem_escapes h)

theorem escapeLetter?_eq_none {c : Char} (h : escapeLetter? c = none) : c ≠ '"' ∧ c ≠ '\\' := by
  constructor
  · rintro rfl
    cases h
  · rintro rfl
    cases h

theorem hexValue?_hexDigit {n : Nat} (h : n < 16) : Text.hexValue? (hexDigit n) = some n := by
  have hall : ∀ n < 16, Text.hexValue? (hexDigit n) = some n := by decide
  exact hall n h

theorem unescapeLetter?_of_escapeLetter? {c letter : Char} (h : escapeLetter? c = some letter) :
    unescapeLetter? letter = some c := by
  have hall : ∀ e ∈ escapes, unescapeLetter? e.2 = some e.1 := by decide
  exact hall _ (mem_escapes h)

/-- A control character is read from its number. -/
theorem unitChar?_hexUnit? {c : Char} (h : c.toNat < 32) :
    hexUnit? '0' '0' (hexDigit (c.toNat / 16)) (hexDigit (c.toNat % 16)) = some c.toNat ∧
      isHighSurrogate c.toNat = false ∧ unitChar? c.toNat = some c := by
  have hzero : Text.hexValue? '0' = some 0 := rfl
  refine ⟨?_, ?_, ?_⟩
  · rw [hexUnit?, hzero, hexValue?_hexDigit (by omega), hexValue?_hexDigit (by omega)]
    refine congrArg some ?_
    omega
  · rw [isHighSurrogate, Bool.and_eq_false_iff]
    exact .inl (decide_eq_false (by omega))
  · rw [unitChar?, if_neg (by omega), Char.ofNat_toNat]

theorem stringFrom?_charText (c : Char) (rest : List Char) :
    stringFrom? none (charText c ++ rest) = (stringFrom? none rest).map fun r => (c :: r.1, r.2) := by
  unfold charText
  split
  · next letter h =>
    have hletter := ne_of_escapeLetter? h
    show stringFrom? none ('\\' :: letter :: rest) = _
    rw [stringFrom?, unescapeLetter?_of_escapeLetter? h]
    · cases stringFrom? none rest <;> rfl
    · exact fun _ _ _ _ _ he => absurd he hletter
  · next h =>
    split
    · next hsmall =>
      obtain ⟨hunit, hhigh, hchar⟩ := unitChar?_hexUnit? hsmall
      show stringFrom? none ('\\' :: 'u' :: '0' :: '0' :: hexDigit _ :: hexDigit _ :: rest) = _
      rw [stringFrom?, hunit]
      simp only [Option.bind_eq_bind, Option.bind_some, hhigh, hchar]
      cases stringFrom? none rest <;> rfl
    · next hlarge =>
      obtain ⟨hquote, hback⟩ := escapeLetter?_eq_none h
      show stringFrom? none (c :: rest) = _
      rw [stringFrom?, if_neg (by simp [hback, hlarge])]
      · exact fun he => absurd he hquote
      · exact fun _ _ _ _ _ he => absurd he hback
      · exact fun _ _ he => absurd he hback

theorem string?_flatMap_charText (s rest : List Char) :
    string? (s.flatMap charText ++ '"' :: rest) = some (s, rest) := by
  unfold string?
  induction s with
  | nil => rw [List.flatMap_nil, List.nil_append, stringFrom?]
  | cons c more ih =>
    rw [List.flatMap_cons, List.append_assoc, stringFrom?_charText, ih]
    rfl

/-! ### Numbers -/

/-- No number goes on here: there is nothing more, or an array or an object goes on. -/
def Ended (rest : List Char) : Prop := ∀ c ∈ rest.head?, c = ',' ∨ c = ']' ∨ c = '\x7d'

theorem Ended.not_isDigit {rest : List Char} (h : Ended rest) : ∀ c ∈ rest.head?, c.isDigit = false := by
  intro c hc
  rcases h c hc with rfl | rfl | rfl <;> rfl

theorem Ended.fractionPart? {rest : List Char} (h : Ended rest) : fractionPart? rest = some ([], rest) := by
  unfold Json.fractionPart?
  split
  · exact absurd (h '.' rfl) (by decide)
  · rfl

theorem Ended.exponentPart? {rest : List Char} (h : Ended rest) : Text.exponentPart? rest = some (none, rest) := by
  unfold Text.exponentPart?
  split
  · next c more =>
    rw [if_neg]
    rcases h c rfl with rfl | rfl | rfl <;> decide
  · rfl

theorem exists_cons_digits (n : Nat) : ∃ c more, Text.digits n = c :: more ∧ c.isDigit = true := by
  have hne : Text.digits n ≠ [] := Nat.toDigits_ne_nil
  obtain ⟨c, more, h⟩ := List.exists_cons_of_ne_nil hne
  exact ⟨c, more, h, Text.isDigit_of_mem_digits (n := n) (h ▸ .head _)⟩

/-- A number of more than one digit starts with no zero. -/
theorem head_digits (n : Nat) : ¬((Text.digits n).head? = some '0' ∧ (Text.digits n).length ≠ 1) := by
  rintro ⟨hhead, hlength⟩
  have hvalue := Text.digitsValue_digits n
  cases hdigits : Text.digits n with
  | nil => exact Nat.toDigits_ne_nil hdigits
  | cons c more =>
    rw [hdigits] at hhead hlength hvalue
    obtain rfl := Option.some.inj hhead
    have hlt := Text.digitsValue_lt (s := more) fun c hc => Text.isDigit_of_mem_digits (n := n) (hdigits ▸ .tail _ hc)
    rw [Text.digitsValue_cons] at hvalue
    have hfits : n < 10 ^ more.length := by simpa [← hvalue] using hlt
    have hmore : 0 < more.length := by simpa [List.length_pos_iff] using hlength
    have hshort := (Nat.length_toDigits_le_iff (by decide) hmore).2 hfits
    rw [show Nat.toDigits 10 n = '0' :: more from hdigits, List.length_cons] at hshort
    omega

theorem wholePart?_digits (n : Nat) {rest : List Char} (h : Ended rest) :
    wholePart? (Text.digits n ++ rest) = some (Text.digits n, rest) := by
  have hrun : Text.digitRun (Text.digits n ++ rest) = (Text.digits n, rest) := by
    obtain ⟨htake, hdrop⟩ := Token.span_run (fun _ => Text.isDigit_of_mem_digits (n := n)) h.not_isDigit
    rw [Text.digitRun, htake, hdrop]
  unfold wholePart?
  rw [hrun]
  split
  · next hnil => exact absurd (Prod.mk.inj hnil).1 Nat.toDigits_ne_nil
  · next he =>
    obtain ⟨rfl, rfl⟩ := Prod.mk.inj he
    rw [if_neg (head_digits n)]

/-- The sign is taken off, if there is one. -/
theorem number?_digits (negative : Bool) (n : Nat) {rest : List Char} (h : Ended rest) :
    number? ((if negative then ['-'] else []) ++ (Text.digits n ++ rest)) =
      (numberValue? negative (Text.digits n) [] none).map (·, rest) := by
  have hread := wholePart?_digits n h
  unfold number?
  split
  next signed s he =>
    have hsigned : signed = negative ∧ s = Text.digits n ++ rest := by
      cases negative with
      | true =>
        cases he
        exact ⟨rfl, rfl⟩
      | false =>
        split at he
        · next hminus =>
          obtain ⟨c, more, hdigits, hc⟩ := exists_cons_digits n
          rw [hdigits] at hminus
          obtain rfl : c = '-' := (List.cons.inj hminus).1
          cases hc
        · cases he
          exact ⟨rfl, rfl⟩
    obtain ⟨rfl, rfl⟩ := hsigned
    simp only [hread, h.fractionPart?, h.exponentPart?, Option.bind_eq_bind, Option.bind_some]
    cases numberValue? signed (Text.digits n) [] none <;> rfl

theorem number?_padded {n : Int} (hn : -9223372036854775808 ≤ n ∧ n ≤ maxWord) {rest : List Char} (h : Ended rest) :
    number? (Text.padded 0 n ++ rest) = some (int n, rest) := by
  have htext : Text.padded 0 n ++ rest =
      (if decide (n < 0) then ['-'] else []) ++ (Text.digits n.natAbs ++ rest) := by
    rw [Text.padded_zero, List.append_assoc]
    simp
  have hvalue : numberValue? (decide (n < 0)) (Text.digits n.natAbs) [] none = some (int n) := by
    unfold numberValue?
    rw [Text.digitsValue_digits]
    unfold maxWord at *
    by_cases hneg : n < 0
    · have hbounds : n.natAbs ≠ 0 ∧ n.natAbs ≤ 9223372036854775808 := by omega
      have hback : -(n.natAbs : Int) = n := by omega
      simp only [decide_eq_true hneg, if_true, hback]
      simp [hbounds]
    · have hbound : n.natAbs ≤ 18446744073709551615 := by omega
      have hback : (n.natAbs : Int) = n := by omega
      simp only [decide_eq_false hneg, Bool.false_eq_true, if_false, hback]
      simp [hbound]
  rw [htext, number?_digits _ _ h, hvalue]
  rfl

/-! ### Documents -/

/-- What can be read back from its text: integers fit their words, no number is a double, and arrays and objects nest
at most `depth` deep. -/
inductive Legible : Nat → Json → Prop
  | null {depth : Nat} : Legible depth null
  | bool {depth : Nat} (b : Bool) : Legible depth (bool b)
  | int {depth : Nat} {n : Int} (h : -9223372036854775808 ≤ n ∧ n ≤ maxWord) : Legible depth (int n)
  | str {depth : Nat} (s : String) : Legible depth (str s)
  | arr {depth : Nat} {items : List Json} (h : ∀ item ∈ items, Legible depth item) : Legible (depth + 1) (arr items)
  | obj {depth : Nat} {members : List (String × Json)} (h : ∀ member ∈ members, Legible depth member.2) :
    Legible (depth + 1) (obj members)

theorem skipGaps_cons {c : Char} (h : isGap c = false) (s : List Char) : skipGaps (c :: s) = c :: s := by
  rw [skipGaps, List.dropWhile_cons_of_neg (by simp [h])]

/-- A written number starts with its sign or a digit, and neither is anything else. -/
theorem exists_cons_padded (n : Int) :
    ∃ c more, Text.padded 0 n = c :: more ∧ ∀ d, d ≠ '-' → d.isDigit = false → c ≠ d := by
  obtain ⟨c, more, hdigits, hc⟩ := exists_cons_digits n.natAbs
  by_cases hneg : n < 0
  · exact ⟨'-', Text.digits n.natAbs, by simp [Text.padded_zero, hneg], fun d hminus _ he => hminus he.symm⟩
  · refine ⟨c, more, by simp [Text.padded_zero, hneg, hdigits], fun d _ hdigit he => ?_⟩
    rw [← he, hc] at hdigit
    cases hdigit

theorem isGap_of_ne {c : Char} (h : ∀ d, d ≠ '-' → d.isDigit = false → c ≠ d) : isGap c = false := by
  simp [isGap, h]

/-- A document starts with a character of its own, which ends no array. -/
theorem Legible.exists_cons {depth : Nat} {j : Json} (hj : Legible depth j) :
    ∃ c more, j.chars = c :: more ∧ isGap c = false ∧ c ≠ ']' := by
  cases hj with
  | null => exact ⟨_, _, rfl, rfl, by decide⟩
  | bool b => cases b <;> exact ⟨_, _, rfl, rfl, by decide⟩
  | @int _ n h =>
    obtain ⟨c, more, htext, hc⟩ := exists_cons_padded n
    exact ⟨c, more, htext, isGap_of_ne hc, hc _ (by decide) rfl⟩
  | str s => exact ⟨_, _, rfl, rfl, by decide⟩
  | arr h => exact ⟨_, _, rfl, rfl, by decide⟩
  | obj h => exact ⟨_, _, rfl, rfl, by decide⟩

theorem value?_padded {fuel depth : Nat} {n : Int} (hn : -9223372036854775808 ≤ n ∧ n ≤ maxWord) {rest : List Char}
    (h : Ended rest) : value? (fuel + 1) depth (Text.padded 0 n ++ rest) = some (int n, rest) := by
  obtain ⟨c, more, htext, hc⟩ := exists_cons_padded n
  have hread := number?_padded hn h
  rw [htext, List.cons_append] at hread ⊢
  rw [value?, skipGaps_cons (isGap_of_ne hc)]
  -- None of the words and brackets starts like a number.
  split
  case h_7 => exact hread
  all_goals
    next he =>
      exact absurd (List.cons.inj he).1 (hc _ (by decide) rfl)

theorem ended_comma (rest : List Char) : Ended (',' :: rest) := fun _ hc => .inl (Option.some.inj hc).symm

theorem ended_bracket (rest : List Char) : Ended (']' :: rest) := fun _ hc => .inr (.inl (Option.some.inj hc).symm)

theorem ended_brace (rest : List Char) : Ended ('\x7d' :: rest) := fun _ hc => .inr (.inr (Option.some.inj hc).symm)

/-- A reader of documents takes this one from the start of a text, with enough fuel for its characters. -/
def ReadsAt (depth : Nat) (j : Json) : Prop :=
  ∀ (fuel : Nat) (rest : List Char), 2 * j.chars.length ≤ fuel → Ended rest →
    value? fuel depth (j.chars ++ rest) = some (j, rest)

theorem items?_itemsChars {depth : Nat} {items : List Json} (hne : items ≠ [])
    (hitems : ∀ item ∈ items, ReadsAt depth item) (fuel : Nat) (rest : List Char)
    (hfuel : 2 * (itemsChars items).length < fuel) :
    items? fuel depth (itemsChars items ++ rest) = some (items, rest) := by
  induction items generalizing fuel with
  | nil => exact absurd rfl hne
  | cons item more ih =>
    obtain ⟨fuel, rfl⟩ := Nat.exists_eq_succ_of_ne_zero (Nat.ne_of_gt (Nat.zero_lt_of_lt hfuel))
    rw [itemsChars, List.length_append] at hfuel
    rw [itemsChars, List.append_assoc]
    cases more with
    | nil =>
      have hread := hitems item (.head _) fuel (']' :: rest) (by omega) (ended_bracket rest)
      simp only [moreItemsChars, List.cons_append, List.nil_append, items?, hread, Option.bind_eq_bind,
        Option.bind_some, skipGaps_cons (c := ']') rfl]
      rfl
    | cons next more =>
      have htext : moreItemsChars (next :: more) = ',' :: itemsChars (next :: more) := rfl
      rw [htext, List.length_cons] at hfuel
      rw [htext, List.cons_append]
      have hread := hitems item (.head _) fuel (',' :: (itemsChars (next :: more) ++ rest)) (by omega) (ended_comma _)
      have hmore := ih (List.cons_ne_nil _ _) (fun i hi => hitems i (.tail _ hi)) fuel (by omega)
      simp only [items?, hread, Option.bind_eq_bind, Option.bind_some, skipGaps_cons (c := ',') rfl, hmore]
      rfl

theorem members?_membersChars {depth : Nat} {members : List (String × Json)} (hne : members ≠ [])
    (hmembers : ∀ member ∈ members, ReadsAt depth member.2) (fuel : Nat) (rest : List Char)
    (hfuel : 2 * (membersChars members).length < fuel) :
    members? fuel depth (membersChars members ++ rest) = some (members, rest) := by
  induction members generalizing fuel with
  | nil => exact absurd rfl hne
  | cons member more ih =>
    obtain ⟨key, value⟩ := member
    obtain ⟨fuel, rfl⟩ := Nat.exists_eq_succ_of_ne_zero (Nat.ne_of_gt (Nat.zero_lt_of_lt hfuel))
    have htext : ∀ after, membersChars ((key, value) :: more) ++ after =
        '"' :: (key.toList.flatMap charText ++ '"' :: ':' :: (value.chars ++ (moreMembersChars more ++ after))) := by
      intro after
      simp [membersChars, stringText]
    have hlength : value.chars.length + (moreMembersChars more).length + 3 ≤
        (membersChars ((key, value) :: more)).length := by
      have hcount := congrArg List.length (htext [])
      simp only [List.append_nil, List.length_cons, List.length_append] at hcount
      omega
    rw [htext]
    cases more with
    | nil =>
      have hread := hmembers _ (.head _) fuel ('\x7d' :: rest) (by dsimp only; omega) (ended_brace rest)
      simp only [moreMembersChars, List.cons_append, List.nil_append, members?, skipGaps_cons (c := '"') rfl,
        string?_flatMap_charText, Option.bind_eq_bind, Option.bind_some, skipGaps_cons (c := ':') rfl, hread,
        skipGaps_cons (c := '\x7d') rfl, String.ofList_toList]
      rfl
    | cons next more =>
      have hmoreText : moreMembersChars (next :: more) = ',' :: membersChars (next :: more) := rfl
      rw [hmoreText, List.length_cons] at hlength
      rw [hmoreText, List.cons_append]
      have hread := hmembers _ (.head _) fuel (',' :: (membersChars (next :: more) ++ rest))
        (by dsimp only; omega) (ended_comma _)
      have hmore := ih (List.cons_ne_nil _ _) (fun i hi => hmembers i (.tail _ hi)) fuel (by omega)
      simp only [members?, skipGaps_cons (c := '"') rfl, string?_flatMap_charText, Option.bind_eq_bind,
        Option.bind_some, skipGaps_cons (c := ':') rfl, hread, skipGaps_cons (c := ',') rfl, hmore,
        String.ofList_toList]
      rfl

/-- A document has characters, so there is fuel for the first call. -/
theorem Legible.readsAt_of_succ {depth : Nat} {j : Json} (hj : Legible depth j)
    (h : ∀ {fuel : Nat} {rest : List Char}, 2 * j.chars.length ≤ fuel + 1 → Ended rest →
      value? (fuel + 1) depth (j.chars ++ rest) = some (j, rest)) : ReadsAt depth j := by
  intro fuel rest hfuel hrest
  obtain ⟨c, more, hchars, -⟩ := hj.exists_cons
  cases fuel with
  | zero =>
    rw [hchars] at hfuel
    cases hfuel
  | succ fuel => exact h hfuel hrest

/-- A document is read from the start of a text. -/
theorem Legible.readsAt {depth : Nat} {j : Json} (hj : Legible depth j) : ReadsAt depth j := by
  induction hj with
  | null => exact readsAt_of_succ .null fun _ _ => rfl
  | bool b => exact readsAt_of_succ (.bool b) fun _ _ => by cases b <;> rfl
  | int h => exact readsAt_of_succ (.int h) fun _ hrest => value?_padded h hrest
  | str s =>
    refine readsAt_of_succ (.str s) fun {fuel rest} _ _ => ?_
    have htext : (Json.str s).chars ++ rest = '"' :: (s.toList.flatMap charText ++ '"' :: rest) := by
      simp [chars, stringText]
    simp only [htext, value?, skipGaps_cons (c := '"') rfl, string?_flatMap_charText, Option.map_some,
      String.ofList_toList]
  | @arr depth items h ih =>
    refine readsAt_of_succ (.arr h) fun {fuel rest} hfuel _ => ?_
    rw [chars, List.length_cons] at hfuel
    show value? (fuel + 1) (depth + 1) ('[' :: (itemsChars items ++ rest)) = _
    rw [value?, skipGaps_cons rfl]
    cases items with
    | nil => rfl
    | cons item more =>
      have hread := items?_itemsChars (List.cons_ne_nil item more) ih fuel rest (by omega)
      -- The first item does not start like the end of the array.
      obtain ⟨c, after, hchars, hgap, hc⟩ := (h item (.head _)).exists_cons
      have htext : itemsChars (item :: more) ++ rest = c :: (after ++ moreItemsChars more ++ rest) := by
        rw [itemsChars, hchars]
        rfl
      rw [htext] at hread ⊢
      simp only [Nat.add_one_ne_zero, if_false, Nat.add_sub_cancel, skipGaps_cons hgap, hread]
      split
      · next he => exact absurd (List.cons.inj he).1 hc
      · rfl
  | @obj depth members h ih =>
    refine readsAt_of_succ (.obj h) fun {fuel rest} hfuel _ => ?_
    rw [chars, List.length_cons] at hfuel
    show value? (fuel + 1) (depth + 1) ('\x7b' :: (membersChars members ++ rest)) = _
    rw [value?, skipGaps_cons rfl]
    cases members with
    | nil => rfl
    | cons member more =>
      have hread := members?_membersChars (List.cons_ne_nil member more) ih fuel rest (by omega)
      obtain ⟨after, htext⟩ : ∃ after, membersChars (member :: more) ++ rest = '"' :: after := ⟨_, rfl⟩
      rw [htext] at hread ⊢
      simp only [Nat.add_one_ne_zero, if_false, Nat.add_sub_cancel, skipGaps_cons (c := '"') rfl, hread]
      rfl

theorem parseWithin?_chars {depth : Nat} {j : Json} (hj : Legible depth j) : parseWithin? depth j.chars = some j := by
  have hread := hj.readsAt (2 * j.chars.length + 2) [] (by omega) nofun
  rw [List.append_nil] at hread
  rw [parseWithin?, hread]
  rfl

/-- A document is read from its text, as it was written. -/
theorem parseRaw?_text {j : Json} (hj : Legible maxDepth j) : parseRaw? j.text = some j := by
  rw [parseRaw?, text, String.toList_ofList]
  exact parseWithin?_chars hj

theorem parse?_text {j : Json} (hj : Legible maxDepth j) : parse? j.text = some j.tidy := by
  rw [parse?, parseRaw?_text hj]
  rfl

/-- Documents are known from their texts, however deep they nest. -/
theorem Legible.text_inj {depth : Nat} {j k : Json} (hj : Legible depth j) (hk : Legible depth k)
    (h : j.text = k.text) : j = k := by
  have hread := parseWithin?_chars hj
  rw [show j.chars = k.chars from String.ofList_inj.1 h, parseWithin?_chars hk] at hread
  exact (Option.some.inj hread).symm

/-! ### Comparing documents -/

section

variable {eq eq' : Float → Float → Bool}

theorem matchingItems_congr {items : List Json} (h : ∀ item ∈ items, ∀ j, matching eq j item = matching eq' j item)
    (others : List Json) : matchingItems eq others items = matchingItems eq' others items := by
  induction items generalizing others with
  | nil => cases others <;> rfl
  | cons item rest ih =>
    cases others with
    | nil => rfl
    | cons other more =>
      rw [matchingItems, matchingItems, h item (.head _), ih fun i hi => h i (.tail _ hi)]

theorem matchingMembers_congr {members : List (String × Json)}
    (h : ∀ member ∈ members, ∀ j, matching eq j member.2 = matching eq' j member.2)
    (others : List (String × Json)) : matchingMembers eq others members = matchingMembers eq' others members := by
  induction members generalizing others with
  | nil => cases others <;> rfl
  | cons member rest ih =>
    cases others with
    | nil => rfl
    | cons other more =>
      rw [matchingMembers, matchingMembers, h member (.head _), ih fun m hm => h m (.tail _ hm)]

/-- Where there are no doubles it does not matter how they are compared. -/
theorem Legible.matching_eq {depth : Nat} {k : Json} (hk : Legible depth k) (j : Json) :
    matching eq j k = matching eq' j k := by
  induction hk generalizing j with
  | arr _ ih =>
    cases j with
    | arr others => exact matchingItems_congr ih others
    | _ => rfl
  | obj _ ih =>
    cases j with
    | obj others => exact matchingMembers_congr ih others
    | _ => rfl
  | _ => cases j <;> rfl

end

/-- A document without doubles equals itself and no other one. -/
theorem Legible.equal_iff {depth : Nat} {k : Json} (hk : Legible depth k) (j : Json) : j.equal k = true ↔ j = k := by
  rw [equal, hk.matching_eq]
  exact same_iff j k

end RecordMapper.Json
