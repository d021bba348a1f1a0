import Mathlib.Data.String.Basic
import RecordMapper.Json.Basic
import RecordMapper.KeyedList

/-! Tidy documents.

Documents are held with the members of every object ascending under distinct keys (`Tidy`). Putting the members in
one after the other brings every document into this form, in whatever order they were written (`isTidy_tidy`), and
leaves a document alone that has it (`Tidy.tidy_eq`). -/
namespace RecordMapper.Json

/-- Members under keys that ascend, so that none occurs twice. -/
def Ascending (members : List (String × Json)) : Prop := (KeyedList.keys members).Pairwise (· < ·)

/-- The members of every object in the document ascend. -/
inductive Tidy : Json → Prop
  | null : Tidy null
  | bool (b : Bool) : Tidy (bool b)
  | int (n : Int) : Tidy (int n)
  | float (x : Float) : Tidy (float x)
  | str (s : String) : Tidy (str s)
  | arr {items : List Json} (h : ∀ item ∈ items, Tidy item) : Tidy (arr items)
  | obj {members : List (String × Json)} (hkeys : Ascending members) (h : ∀ member ∈ members, Tidy member.2) :
    Tidy (obj members)

/-! ### Putting members in -/

theorem mem_keys_putMember {key other : String} {value : Json} {members : List (String × Json)} :
    other ∈ KeyedList.keys (putMember key value members) ↔ other = key ∨ other ∈ KeyedList.keys members := by
  unfold KeyedList.keys
  induction members with
  | nil => simp [putMember]
  | cons member rest ih =>
    obtain ⟨k, v⟩ := member
    unfold putMember
    split
    · next he => simp [he]
    · split
      · simp
      · simp only [List.map_cons, List.mem_cons, ih]
        exact or_left_comm

/-- Members ascend after one was put in. -/
theorem Ascending.putMember {members : List (String × Json)} (h : Ascending members) (key : String) (value : Json) :
    Ascending (putMember key value members) := by
  induction members with
  | nil => exact List.pairwise_singleton _ _
  | cons member rest ih =>
    obtain ⟨k, v⟩ := member
    obtain ⟨hfirst, hrest⟩ := List.pairwise_cons.1 h
    unfold Json.putMember
    split
    · next he => exact he ▸ h
    · next hne =>
      split
      · next hlt =>
        refine List.pairwise_cons.2 ⟨fun other hother => ?_, h⟩
        rcases List.mem_cons.1 hother with rfl | hother
        · exact hlt
        · exact hlt.trans (hfirst other hother)
      · next hge =>
        refine List.pairwise_cons.2 ⟨fun other hother => ?_, ih hrest⟩
        rcases mem_keys_putMember.1 hother with rfl | hother
        · exact lt_of_le_of_ne (le_of_not_gt hge) (Ne.symm hne)
        · exact hfirst other hother

theorem mem_putMember {key : String} {value : Json} {member : String × Json} {members : List (String × Json)}
    (h : member ∈ putMember key value members) : member = (key, value) ∨ member ∈ members := by
  induction members with
  | nil => exact .inl (List.mem_singleton.1 h)
  | cons first rest ih =>
    unfold putMember at h
    split at h
    · exact (List.mem_cons.1 h).imp_right (.tail _)
    · split at h
      · exact List.mem_cons.1 h
      · rcases List.mem_cons.1 h with rfl | h
        · exact .inr (.head _)
        · exact (ih h).imp_right (.tail _)

/-- The greatest key comes last. -/
theorem putMember_of_last {key : String} {value : Json} {members : List (String × Json)}
    (h : ∀ k ∈ KeyedList.keys members, k < key) : putMember key value members = members ++ [(key, value)] := by
  induction members with
  | nil => rfl
  | cons member rest ih =>
    have hlt : member.1 < key := h _ (.head _)
    rw [putMember, if_neg hlt.ne', if_neg hlt.not_gt, ih fun k hk => h k (.tail _ hk)]
    rfl

theorem get?_putMember (key other : String) (value : Json) (members : List (String × Json)) :
    KeyedList.get? other (putMember key value members) =
      if other = key then some value else KeyedList.get? other members := by
  induction members with
  | nil =>
    unfold putMember
    simp only [KeyedList.get?, eq_comm]
  | cons member rest ih =>
    obtain ⟨k, v⟩ := member
    unfold putMember
    split
    · next hk =>
      subst hk
      by_cases hother : other = key
      · simp [KeyedList.get?, hother]
      · simp [KeyedList.get?, hother, Ne.symm hother]
    · next hk =>
      split
      · simp only [KeyedList.get?, eq_comm]
      · by_cases hother : other = key
        · subst hother
          simp [KeyedList.get?, Ne.symm hk, ih]
        · simp only [KeyedList.get?, ih, if_neg hother]

/-- Under distinct keys every member is found in the tidy object, tidied itself. -/
theorem get?_tidyMembers {members : List (String × Json)} (hn : (KeyedList.keys members).Nodup)
    (done : List (String × Json)) (key : String) :
    KeyedList.get? key (tidyMembers done members) =
      ((KeyedList.get? key members).map tidy).or (KeyedList.get? key done) := by
  induction members generalizing done with
  | nil => rfl
  | cons member rest ih =>
    obtain ⟨k, v⟩ := member
    obtain ⟨hk, hn⟩ := List.nodup_cons.1 hn
    rw [tidyMembers, ih hn, get?_putMember]
    by_cases hkey : key = k
    · subst hkey
      have hrest : KeyedList.get? key rest = none := by
        rw [← Option.not_isSome_iff_eq_none, KeyedList.get?_isSome_iff]
        exact hk
      simp [KeyedList.get?, hrest]
    · simp [KeyedList.get?, hkey, Ne.symm hkey]

/-! ### Documents in order -/

theorem tidyItems_eq_map (items : List Json) : tidyItems items = items.map tidy := by
  induction items with
  | nil => rfl
  | cons item more ih => rw [tidyItems, ih, List.map_cons]

theorem tidyMembers_of_ascending (done : List (String × Json)) {members : List (String × Json)}
    (h : Ascending (done ++ members)) (htidy : ∀ member ∈ members, member.2.tidy = member.2) :
    tidyMembers done members = done ++ members := by
  induction members generalizing done with
  | nil => exact (List.append_nil done).symm
  | cons member rest ih =>
    obtain ⟨key, value⟩ := member
    have hlast : ∀ k ∈ KeyedList.keys done, k < key := by
      unfold Ascending KeyedList.keys at h
      rw [List.map_append] at h
      exact fun k hk => (List.pairwise_append.1 h).2.2 k hk key (.head _)
    have happend : done ++ (key, value) :: rest = done ++ [(key, value)] ++ rest := List.append_cons ..
    rw [tidyMembers, htidy _ (.head _), putMember_of_last hlast, happend]
    exact ih _ (happend ▸ h) fun member hmember => htidy member (.tail _ hmember)

/-- A tidy document stays as it is. -/
theorem Tidy.tidy_eq {j : Json} (h : j.Tidy) : j.tidy = j := by
  induction h with
  | @arr items _ ih => rw [tidy, tidyItems_eq_map, List.map_congr_left ih, List.map_id']
  | obj hkeys _ ih => rw [tidy, tidyMembers_of_ascending [] hkeys ih, List.nil_append]
  | _ => rfl

mutual

theorem isTidy_tidy : (j : Json) → j.tidy.Tidy
  | null => .null
  | bool b => .bool b
  | int n => .int n
  | float x => .float x
  | str s => .str s
  | arr items => .arr (isTidy_tidyItems items)
  | obj members =>
    have h := isTidy_tidyMembers members [] List.Pairwise.nil fun _ h => absurd h List.not_mem_nil
    .obj h.1 h.2

theorem isTidy_tidyItems : (items : List Json) → ∀ item ∈ tidyItems items, item.Tidy
  | [], _, h => absurd h List.not_mem_nil
  | first :: rest, item, h => by
    rcases List.mem_cons.1 h with rfl | h
    · exact isTidy_tidy first
    · exact isTidy_tidyItems rest item h

theorem isTidy_tidyMembers : (members done : List (String × Json)) → Ascending done →
    (∀ member ∈ done, member.2.Tidy) →
    Ascending (tidyMembers done members) ∧ ∀ member ∈ tidyMembers done members, member.2.Tidy
  | [], _, hdone, htidy => ⟨hdone, htidy⟩
  | (key, value) :: rest, _, hdone, htidy =>
    isTidy_tidyMembers rest _ (hdone.putMember key value.tidy) fun _ hmember =>
      (mem_putMember hmember).elim (fun he => he ▸ isTidy_tidy value) (htidy _)

end

instance : DecidablePred Tidy := fun j => decidable_of_iff (j.tidy = j) ⟨fun h => h ▸ isTidy_tidy j, Tidy.tidy_eq⟩

end RecordMapper.Json
