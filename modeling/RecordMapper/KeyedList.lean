/-! Lists of entries under keys.

Entries stand in the order in which their keys came. Putting an entry under a key that
is there replaces the entry in its place, and a new key goes to the end, so that keys
once distinct stay distinct. -/
namespace RecordMapper.KeyedList

variable {κ α : Type} [DecidableEq κ]

/-- The first entry under a key. -/
def get? (key : κ) : List (κ × α) → Option α
  | [] => none
  | e :: rest => if e.1 = key then some e.2 else get? key rest

/-- Puts an entry under a key. -/
def put (key : κ) (a : α) : List (κ × α) → List (κ × α)
  | [] => [(key, a)]
  | e :: rest => if e.1 = key then (key, a) :: rest else e :: put key a rest

/-- Drops the entries under a key. -/
def erase (key : κ) (entries : List (κ × α)) : List (κ × α) := entries.filter fun e => e.1 ≠ key

def keys (entries : List (κ × α)) : List κ := entries.map (·.1)

/-! ### What each operation does to the entries found -/

@[simp] theorem get?_put_self (key : κ) (a : α) (entries : List (κ × α)) :
    get? key (put key a entries) = some a := by
  induction entries with
  | nil => simp [put, get?]
  | cons e rest ih => by_cases h : e.1 = key <;> simp [put, get?, h, ih]

theorem get?_put_of_ne {key other : κ} (h : other ≠ key) (a : α) (entries : List (κ × α)) :
    get? other (put key a entries) = get? other entries := by
  induction entries with
  | nil => simp [put, get?, h.symm]
  | cons e rest ih =>
    by_cases he : e.1 = key
    · have : ¬e.1 = other := fun h' => h (h'.symm.trans he)
      simp [put, get?, he, h.symm]
    · simp [put, get?, he, ih]

@[simp] theorem get?_erase_self (key : κ) (entries : List (κ × α)) :
    get? key (erase key entries) = none := by
  induction entries with
  | nil => rfl
  | cons e rest ih =>
    simp only [erase, ne_eq, decide_not] at ih ⊢
    by_cases h : e.1 = key <;> simp [get?, h, ih]

theorem get?_erase_of_ne {key other : κ} (h : other ≠ key) (entries : List (κ × α)) :
    get? other (erase key entries) = get? other entries := by
  induction entries with
  | nil => rfl
  | cons e rest ih =>
    simp only [erase, ne_eq, decide_not] at ih ⊢
    by_cases he : e.1 = key
    · have : ¬key = other := fun h' => h h'.symm
      simp [get?, he, this, ih]
    · simp [get?, he, ih]

theorem get?_put (key other : κ) (a : α) (entries : List (κ × α)) :
    get? other (put key a entries) = if other = key then some a else get? other entries := by
  split
  · next h => rw [h, get?_put_self]
  · next h => exact get?_put_of_ne h a entries

theorem get?_erase (key other : κ) (entries : List (κ × α)) :
    get? other (erase key entries) = if other = key then none else get? other entries := by
  split
  · next h => rw [h, get?_erase_self]
  · next h => exact get?_erase_of_ne h entries

/-- The entries in front come first. -/
theorem get?_append (key : κ) (entries more : List (κ × α)) :
    get? key (entries ++ more) = (get? key entries).or (get? key more) := by
  induction entries with
  | nil => rfl
  | cons e rest ih =>
    by_cases he : e.1 = key
    · simp [get?, he]
    · simpa [get?, he] using ih

/-- What is there after an entry was put was there before, or is that entry. -/
theorem mem_put {key : κ} {a : α} {e : κ × α} {entries : List (κ × α)} (h : e ∈ put key a entries) :
    e ∈ entries ∨ e = (key, a) := by
  induction entries with
  | nil => exact .inr (List.mem_singleton.1 h)
  | cons d rest ih =>
    by_cases hd : d.1 = key
    · rw [put, if_pos hd, List.mem_cons] at h
      exact h.elim .inr fun h => .inl (.tail _ h)
    · rw [put, if_neg hd, List.mem_cons] at h
      exact h.elim (fun h => .inl (h ▸ .head _)) fun h => (ih h).imp_left (.tail _)

theorem mem_of_get? {key : κ} {a : α} {entries : List (κ × α)} (h : get? key entries = some a) :
    (key, a) ∈ entries := by
  induction entries with
  | nil => cases h
  | cons d rest ih =>
    by_cases hd : d.1 = key
    · rw [get?, if_pos hd] at h
      cases h
      exact hd ▸ .head _
    · rw [get?, if_neg hd] at h
      exact .tail _ (ih h)

/-! ### What each operation does to the keys -/

theorem mem_keys_of_get? {key : κ} {a : α} {entries : List (κ × α)} (h : get? key entries = some a) :
    key ∈ keys entries := by
  induction entries with
  | nil => cases h
  | cons e rest ih =>
    by_cases he : e.1 = key
    · simp [keys, he]
    · simp only [get?, he, if_false] at h
      exact List.mem_cons_of_mem _ (ih h)

theorem get?_isSome_iff {key : κ} {entries : List (κ × α)} :
    (get? key entries).isSome = true ↔ key ∈ keys entries := by
  constructor
  · intro h
    obtain ⟨a, ha⟩ := Option.isSome_iff_exists.1 h
    exact mem_keys_of_get? ha
  · induction entries with
    | nil => exact fun h => absurd h List.not_mem_nil
    | cons e rest ih =>
      intro h
      by_cases he : e.1 = key
      · simp [get?, he]
      · rw [get?, if_neg he]
        exact ih ((List.mem_cons.1 h).resolve_left fun h => he h.symm)

/-- Under distinct keys every entry is found. -/
theorem get?_of_mem {key : κ} {a : α} {entries : List (κ × α)} (hn : (keys entries).Nodup)
    (h : (key, a) ∈ entries) : get? key entries = some a := by
  induction entries with
  | nil => cases h
  | cons e rest ih =>
    obtain ⟨hne, hrest⟩ := List.nodup_cons.1 hn
    rcases List.mem_cons.1 h with rfl | h
    · simp [get?]
    · have hkey : key ∈ keys rest := List.mem_map.2 ⟨_, h, rfl⟩
      have he : e.1 ≠ key := fun he => hne (show e.1 ∈ keys rest from he.symm ▸ hkey)
      rw [get?, if_neg he, ih hrest h]

theorem mem_keys_put {key other : κ} {a : α} {entries : List (κ × α)} :
    other ∈ keys (put key a entries) ↔ other = key ∨ other ∈ keys entries := by
  induction entries with
  | nil => simp [put, keys]
  | cons e rest ih =>
    unfold keys at ih ⊢
    by_cases he : e.1 = key
    · simp [put, he]
    · simp only [put, he, if_false, List.map_cons, List.mem_cons, ih]
      exact ⟨fun h => h.elim (fun h => .inr (.inl h)) fun h => h.imp_right .inr,
        fun h => h.elim (fun h => .inr (.inl h)) fun h => h.imp_right .inr⟩

theorem keys_erase (key : κ) (entries : List (κ × α)) :
    keys (erase key entries) = (keys entries).filter (· ≠ key) := by
  simp [keys, erase, List.filter_map, Function.comp_def]

theorem nodup_keys_put {key : κ} {a : α} {entries : List (κ × α)} (h : (keys entries).Nodup) :
    (keys (put key a entries)).Nodup := by
  induction entries with
  | nil => simp [put, keys]
  | cons e rest ih =>
    have hr : (keys rest).Nodup := (List.nodup_cons.1 h).2
    by_cases he : e.1 = key
    · simpa [put, he, keys] using h
    · have : e.1 ∉ keys (put key a rest) := fun hm =>
        (mem_keys_put.1 hm).elim he (List.nodup_cons.1 h).1
      simp only [put, he, if_false]
      exact List.nodup_cons.2 ⟨this, ih hr⟩

theorem nodup_keys_erase {key : κ} {entries : List (κ × α)} (h : (keys entries).Nodup) :
    (keys (erase key entries)).Nodup := by
  rw [keys_erase]
  exact h.filter _

end RecordMapper.KeyedList
