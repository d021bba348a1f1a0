import RecordMapper.Proofs.Condition.Compile
import RecordMapper.Proofs.Instance.Canonical
import RecordMapper.Proofs.Instance.Record

/-! The condition that a row has a key.

It compares each field of the primary key with its part of the key, or asks whether the field is NULL, and joins
these from the left. On rows with canonical values it holds of those that have the key, and of no others
(`holdsOf_compileKey`). -/
namespace RecordMapper

/-- Where a value stands once, a row has it under its name. -/
theorem Model.Suits.value?_of_mem {m : Model} {row : Record} (hrow : m.Suits row)
    (hn : (m.fields.map (·.name)).Nodup) {e : Field × Value} (he : e ∈ row) : row.value? e.1.name = some e.2 := by
  have hnames : (row.map (·.1.name)).Nodup := by
    rw [← hrow.fields, List.map_map] at hn
    exact hn
  unfold Record.value?
  rw [find?_of_nodup_map hnames he]
  rfl

/-- A row has a key if it has each part of it under the name of its field. -/
theorem Model.Suits.key_eq_iff {m : Model} {row : Record} (hrow : m.Suits row) (hn : (m.fields.map (·.name)).Nodup)
    {key : List Value} :
    row.key = key ↔ List.Forall₂ (fun f v => row.value? (Field.name f) = some v) m.primaryKey key := by
  have hparts : m.primaryKey = row.keyPart.map (·.1) := by
    unfold Model.primaryKey Record.keyPart
    rw [← hrow.fields, List.filter_map]
    rfl
  have hvalues : ∀ e ∈ row.keyPart, row.value? e.1.name = some e.2 := fun e he =>
    hrow.value?_of_mem hn (List.mem_filter.1 he).1
  rw [hparts, List.forall₂_map_left_iff]
  unfold Record.key
  generalize row.keyPart = part at hvalues
  clear hparts
  induction part generalizing key with
  | nil =>
    rw [List.map_nil, List.forall₂_nil_left_iff]
    exact eq_comm
  | cons e rest ih =>
    cases key with
    | nil => exact ⟨nofun, nofun⟩
    | cons v more =>
      rw [List.map_cons, List.cons_eq_cons, List.forall₂_cons, hvalues e (.head _), Option.some.injEq]
      exact and_congr_right' (ih fun d hd => hvalues d (.tail _ hd))

namespace Condition

variable {m : Model} {rules : Rules}

/-- A field equal to a canonical value. -/
theorem holdsOf_compile_equals {f : Field} (hf : m.field? f.name = some f) {v w : Value} (hv : f.coerce v = .ok v)
    (hw : f.coerce w = .ok w) {c : Condition} (h : compile m rules (.equals f.name v) = .ok c)
    {value? : String → Option Value} (hvalue : value? f.name = some w) : c.holdsOf value? = true ↔ w = v := by
  obtain ⟨g, hg, hleaf⟩ := bind_ok (show compileLeaf m rules f.name .eq v = .ok c from h)
  clear h
  obtain rfl : f = g := by
    unfold Model.requireField at hg
    rw [hf] at hg
    exact Except.ok.inj hg
  split at hleaf
  · -- NULL is asked for, and only NULL is NULL.
    next hnull =>
    obtain rfl : v = .null := by
      cases v with
      | null => rfl
      | _ => cases hnull
    unfold compileNull at hleaf
    rw [if_neg (by decide)] at hleaf
    split at hleaf
    · cases hleaf
    · cases hleaf
      unfold holdsOf
      rw [hvalue]
      cases w <;> simp [Value.isNull]
  · next hnull =>
    rw [if_neg (by simp [Operator.isRelational])] at hleaf
    obtain ⟨u, hu, hleaf⟩ := bind_ok hleaf
    obtain rfl : v = u := Except.ok.inj (hv.symm.trans (mapError_ok hu))
    obtain ⟨_, _, hleaf⟩ := bind_ok hleaf
    cases hleaf
    unfold holdsOf comparisonHolds
    rw [hvalue, Option.any_some, Option.any_eq_true]
    constructor
    · rintro ⟨o, ho, heq⟩
      obtain rfl : o = .eq := eq_of_beq heq
      exact Field.eq_of_compare? hw hv ho
    · rintro rfl
      exact ⟨.eq, Value.compare?_self (Field.isScalar_of_coerce hv) (by simpa using hnull), rfl⟩

/-- What is joined from the left holds where each part does. -/
theorem holdsOf_compile_and {first : Predicate} {rest : List Predicate} {c : Condition}
    (h : compile m rules (rest.foldl Predicate.and first) = .ok c) (value? : String → Option Value) :
    (∀ p ∈ first :: rest, ∃ part, compile m rules p = .ok part) ∧
      (c.holdsOf value? = true ↔
        ∀ p ∈ first :: rest, ∀ part, compile m rules p = .ok part → part.holdsOf value? = true) := by
  induction rest generalizing first with
  | nil => exact ⟨fun p hp => ⟨c, List.mem_singleton.1 hp ▸ h⟩, by simp [show compile m rules first = .ok c from h]⟩
  | cons p rest ih =>
    have h : compile m rules (rest.foldl Predicate.and (first.and p)) = .ok c := h
    obtain ⟨hparts, hholds⟩ := ih h
    obtain ⟨both, hboth⟩ := hparts _ (.head _)
    obtain ⟨left, hleft, hjoined⟩ := bind_ok hboth
    obtain ⟨right, hright, hjoined⟩ := bind_ok hjoined
    cases hjoined
    have hand : ((combination left .and right).holdsOf value? = true) ↔
        left.holdsOf value? = true ∧ right.holdsOf value? = true := Bool.and_eq_true_iff
    simp only [List.forall_mem_cons] at hparts hholds ⊢
    refine ⟨⟨⟨left, hleft⟩, ⟨right, hright⟩, hparts.2⟩, ?_⟩
    rw [hholds, hboth, hleft, hright]
    simp only [Except.ok.injEq, forall_eq', hand, and_assoc]

/-- The parts of a key's condition all hold where each field has its part of the key. -/
theorem holdsOf_parts_iff {value? : String → Option Value} {fields : List Field} {key : List Value}
    (hfields : ∀ f ∈ fields, m.field? f.name = some f ∧ ∃ w, f.coerce w = .ok w ∧ value? f.name = some w)
    (hkey : List.Forall₂ (fun f v => Field.coerce f v = .ok v) fields key)
    (hcompiled : ∀ p ∈ List.zipWith (fun (f : Field) v => Predicate.equals f.name v) fields key,
      ∃ part, compile m rules p = .ok part) :
    (∀ p ∈ List.zipWith (fun (f : Field) v => Predicate.equals f.name v) fields key,
      ∀ part, compile m rules p = .ok part → part.holdsOf value? = true) ↔
      List.Forall₂ (fun f v => value? (Field.name f) = some v) fields key := by
  induction hkey with
  | nil => simp
  | @cons f v fields key hv _ ih =>
    rw [List.zipWith_cons_cons, List.forall_mem_cons] at hcompiled ⊢
    rw [List.forall₂_cons, ih (fun g hg => hfields g (.tail _ hg)) hcompiled.2]
    obtain ⟨hf, w, hw, hvalue⟩ := hfields f (.head _)
    obtain ⟨part, hpart⟩ := hcompiled.1
    refine and_congr_left' ?_
    rw [hpart, hvalue, Option.some.injEq, ← holdsOf_compile_equals hf hv hw hpart hvalue]
    simp

/-- The condition for a key holds of the rows that have it. -/
theorem holdsOf_compileKey (hn : (m.fields.map (·.name)).Nodup) {key : List Value} (hkey : m.FitsKey key)
    {c : Condition} (h : compileKey m rules key = .ok c) {row : Record} (hrow : m.Suits row) :
    c.holdsOf row.value? = true ↔ row.key = key := by
  have hfields : ∀ f ∈ m.primaryKey, m.field? f.name = some f ∧
      ∃ w, f.coerce w = .ok w ∧ row.value? f.name = some w := by
    intro f hf
    have hmem : f ∈ m.fields := (List.mem_filter.1 hf).1
    obtain ⟨e, he, rfl⟩ := List.mem_map.1 (hrow.fields ▸ hmem)
    exact ⟨Model.field?_of_mem hn hmem, e.2, hrow.canonical e he, hrow.value?_of_mem hn he⟩
  unfold compileKey keyPredicate? at h
  split at h
  · next p hp =>
    split at hp
    · cases hp
    · next first rest hparts =>
      cases hp
      obtain ⟨hcompiled, hholds⟩ := holdsOf_compile_and h row.value?
      rw [← hparts] at hcompiled hholds
      exact hholds.trans ((holdsOf_parts_iff hfields hkey hcompiled).trans (hrow.key_eq_iff hn).symm)
  · cases h

end Condition

end RecordMapper
