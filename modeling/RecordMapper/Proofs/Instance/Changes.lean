import RecordMapper.Attempt
import RecordMapper.Proofs.Instance.Pending

/-! Changes as they are listed.

A call works on an instance in place, one change after the other (`InstanceCall.attempt`), and yet one that fails has
changed nothing. Whatever calls there were, a key snapshot is there exactly while changes are listed, and a field that
was set before is listed after an assignment exactly if its value is not the committed one, beside what was listed of
the other fields (`Instance.tracks_changes`). -/
namespace RecordMapper

/-! ### Calls in place -/

/-- A call as it is carried out. -/
def InstanceCall.attempt : InstanceCall → Attempt Instance Unit
  | .set name v => do
    let i : Instance ← get
    let (c, v) ← Attempt.ofExcept (i.prepare name v)
    if c.isSet then
      modify fun i => if i.keySnapshot.isNone then {i with keySnapshot := some i.primaryKey} else i
      modify fun i => {i with cells := Cell.update name (fun c => {c with current := v}) i.cells}
      modify Instance.settle
    else modify fun i => {i with cells := Cell.update name (·.settled v) i.cells}
  | .load name v => do
    let i : Instance ← get
    let (_, v) ← Attempt.ofExcept (i.prepare name v)
    modify fun i => {i with cells := Cell.update name (·.settled v) i.cells}
    modify Instance.settle
  | .commit => do
    modify fun i => {i with cells := i.cells.map Cell.committed}
    modify fun i => {i with keySnapshot := none}

namespace Instance

/-- An instance that becomes what a call makes of it, if the call succeeds. -/
def replaced (i : Instance) : Except Error Instance → Except Error Unit × Instance
  | .ok j => (.ok (), j)
  | .error e => (.error e, i)

theorem eq_of_replaced_error {i j : Instance} {r : Except Error Instance} {e : Error}
    (h : i.replaced r = (.error e, j)) : j = i := by
  cases r with
  | ok k => cases h
  | error e => exact (congrArg Prod.snd h).symm

/-- The snapshot that an assignment leaves is the one there was, or else the key. -/
theorem with_snapshot_eq (i : Instance) :
    (if i.keySnapshot.isNone then {i with keySnapshot := some i.primaryKey} else i) =
      {i with keySnapshot := some i.persistedKey} := by
  obtain ⟨m, cells, snapshot, singles, collections, owner⟩ := i
  cases snapshot <;> rfl

theorem runOn_attempt_set (i : Instance) (name : String) (v : Value) :
    (InstanceCall.set name v).attempt.runOn i = i.replaced (i.set name v) := by
  unfold InstanceCall.attempt set
  rw [Attempt.runOn_bind, Attempt.runOn_get]
  dsimp only
  rw [Attempt.runOn_bind, Attempt.runOn_ofExcept]
  cases i.prepare name v with
  | error e => rfl
  | ok r =>
    obtain ⟨c, w⟩ := r
    cases hs : c.isSet with
    | true =>
      simp only [hs, if_true, Attempt.runOn_bind, Attempt.runOn_modify, with_snapshot_eq]
      simp only [bind, Except.bind, hs, if_true]
      rfl
    | false =>
      simp only [hs, Bool.false_eq_true, if_false, Attempt.runOn_modify]
      simp only [bind, Except.bind, hs, Bool.false_eq_true, if_false]
      rfl

theorem runOn_attempt_load (i : Instance) (name : String) (v : Value) :
    (InstanceCall.load name v).attempt.runOn i = i.replaced (i.load name v) := by
  unfold InstanceCall.attempt load
  rw [Attempt.runOn_bind, Attempt.runOn_get]
  dsimp only
  rw [Attempt.runOn_bind, Attempt.runOn_ofExcept]
  cases i.prepare name v with
  | error e => rfl
  | ok r => rfl

/-- A call that is carried out in place does what it does to a copy. -/
theorem runOn_attempt (i : Instance) (call : InstanceCall) : (call.attempt.runOn i).2 = i.perform call := by
  cases call with
  | set name v =>
    rw [runOn_attempt_set, perform]
    cases i.set name v <;> rfl
  | load name v =>
    rw [runOn_attempt_load, perform]
    cases i.load name v <;> rfl
  | commit => rfl

/-- Whatever a call does before it fails, nothing has changed when it has. -/
theorem eq_of_attempt_error {i j : Instance} {call : InstanceCall} {e : Error}
    (h : call.attempt.runOn i = (.error e, j)) : j = i := by
  cases call with
  | set name v => exact eq_of_replaced_error (runOn_attempt_set i name v ▸ h)
  | load name v => exact eq_of_replaced_error (runOn_attempt_load i name v ▸ h)
  | commit => cases h

/-! ### Listed changes -/

/-- The changes that cells contribute. -/
def changesOf (cells : List Cell) : List (String × Value) :=
  (cells.filter (·.isChanged)).map fun c => (c.field.name, c.current)

@[simp] theorem changesOf_append (cells more : List Cell) :
    changesOf (cells ++ more) = changesOf cells ++ changesOf more := by
  rw [changesOf, List.filter_append, List.map_append]
  rfl

theorem changesOf_cons (c : Cell) (rest : List Cell) :
    changesOf (c :: rest) =
      (if c.current = c.baseline then [] else [(c.field.name, c.current)]) ++ changesOf rest := by
  by_cases hc : c.current = c.baseline <;> simp [changesOf, Cell.isChanged, hc]

/-- What a cell contributes stands between what the cells around it do. -/
theorem changesOf_around (before : List Cell) (c : Cell) (after : List Cell) :
    changesOf (before ++ c :: after) =
      changesOf before ++ (if c.current = c.baseline then [] else [(c.field.name, c.current)]) ++ changesOf after := by
  rw [changesOf_append, changesOf_cons, List.append_assoc]

theorem changes_eq_nil_iff {i : Instance} : i.changes = [] ↔ i.isDirty = false := by
  rw [changes, isDirty, List.map_eq_nil_iff, List.filter_eq_nil_iff, List.any_eq_false]

/-- Nothing is listed under a name that is not there. -/
theorem get?_changesOf_eq_none {name : String} {cells : List Cell} (h : name ∉ cells.map (·.field.name)) :
    KeyedList.get? name (changesOf cells) = none := by
  rw [← Option.not_isSome_iff_eq_none, KeyedList.get?_isSome_iff]
  intro hlisted
  obtain ⟨e, he, rfl⟩ := List.mem_map.1 hlisted
  obtain ⟨c, hc, rfl⟩ := List.mem_map.1 he
  exact h (List.mem_map_of_mem (List.mem_filter.1 hc).1)

theorem get?_changesOf_cons_of_ne {name : String} {c : Cell} (h : c.field.name ≠ name) (rest : List Cell) :
    KeyedList.get? name (changesOf (c :: rest)) = KeyedList.get? name (changesOf rest) := by
  rw [changesOf_cons]
  split
  · rfl
  · exact if_neg h

/-- `j` is `i` with a value assigned to a field that was set before, which stands in the cell `c`. -/
structure Reassigns (i j : Instance) (name : String) (c : Cell) (w : Value) : Prop where
  cells : ∃ before after, i.cells = before ++ c :: after ∧ j.cells = before ++ {c with current := w} :: after ∧
    i.changes = changesOf before ++ (if c.current = c.baseline then [] else [(name, c.current)]) ++ changesOf after ∧
    j.changes = changesOf before ++ (if w = c.baseline then [] else [(name, w)]) ++ changesOf after
  others : ∀ other, other ≠ name → KeyedList.get? other j.changes = KeyedList.get? other i.changes
  listed : (i.model.fields.map (·.name)).Nodup →
    KeyedList.get? name j.changes = if w = c.baseline then none else some w

theorem Coherent.reassigns {i j : Instance} (hi : i.Coherent) {name : String} {v : Value} (h : i.set name v = .ok j)
    (hset : i.isSet name = true) :
    ∃ c w, i.cell? name = some c ∧ c.field.coerce v = .ok w ∧ i.Reassigns j name c w := by
  obtain ⟨c, w, hfound, hcoerce, ⟨-, rfl⟩ | ⟨hunset, -⟩⟩ := set_ok h
  case inr =>
    rw [isSet, hfound] at hset
    exact absurd (hset.symm.trans hunset) (by decide)
  refine ⟨c, w, hfound, hcoerce, ?_⟩
  obtain ⟨before, after, hcells, hupdate⟩ := Cell.update_of_find (f := fun c => {c with current := w}) hfound
  have hname : c.field.name = name := by simpa using List.find?_some hfound
  generalize hj : settle _ = j
  have hcells' : j.cells = before ++ {c with current := w} :: after := by
    rw [← hj, cells_settle]
    exact hupdate
  have hlist : j.changes = changesOf before ++ (if w = c.baseline then [] else [(name, w)]) ++ changesOf after := by
    rw [← hname]
    exact (congrArg changesOf hcells').trans (changesOf_around before _ after)
  refine ⟨⟨before, after, hcells, hcells', ?_, hlist⟩, fun other hother => ?_, fun hn => ?_⟩
  · rw [← hname]
    exact (congrArg changesOf hcells).trans (changesOf_around before c after)
  · show KeyedList.get? other (changesOf j.cells) = KeyedList.get? other (changesOf i.cells)
    have hne : c.field.name ≠ other := fun he => hother (he.symm.trans hname)
    have hne' : ({c with current := w} : Cell).field.name ≠ other := hne
    rw [hcells', hcells, changesOf_append, changesOf_append, KeyedList.get?_append, KeyedList.get?_append,
      get?_changesOf_cons_of_ne hne, get?_changesOf_cons_of_ne hne']
  · -- no other cell has the name
    rw [← hi.fields, List.map_map, hcells, List.map_append, List.map_cons, List.nodup_append] at hn
    obtain ⟨-, hafter, hbefore⟩ := hn
    have hbefore : name ∉ before.map (·.field.name) := fun hm => hbefore name hm name (hname ▸ .head _) rfl
    have hafter : name ∉ after.map (·.field.name) := hname ▸ (List.nodup_cons.1 hafter).1
    rw [hlist, KeyedList.get?_append, KeyedList.get?_append, get?_changesOf_eq_none hbefore,
      get?_changesOf_eq_none hafter]
    split <;> simp [KeyedList.get?]

/-- After any calls on a new instance, there is a key snapshot exactly if something differs from its baseline, which is
to say that changes are listed. A field that was never set is NULL, a call that fails changes nothing, and assigning a
field that is set leaves what is listed of other fields and lists the field if its value is not the committed one. -/
theorem tracks_changes (m : Model) (calls : List InstanceCall) :
    let i := (Instance.new m).performAll calls
    (i.keySnapshot.isSome = true ↔ i.isDirty = true) ∧ (i.isDirty = true ↔ i.changes ≠ []) ∧
      i.cells.map (·.field) = m.fields ∧ (∀ c ∈ i.cells, c.isSet = false → c.current = .null ∧ c.baseline = .null) ∧
      (∀ call, (call.attempt.runOn i).2 = i.perform call ∧ ∀ e j, call.attempt.runOn i = (.error e, j) → j = i) ∧
      ∀ name v j, i.set name v = .ok j → i.isSet name = true →
        ∃ c w, i.cell? name = some c ∧ c.field.coerce v = .ok w ∧ i.Reassigns j name c w := by
  intro i
  have hi : i.Coherent := coherent_performAll m calls
  have hfields : i.cells.map (·.field) = m.fields := hi.fields.trans (congrArg _ (model_performAll _ calls))
  refine ⟨by rw [hi.snapshot], by rw [Ne, changes_eq_nil_iff, Bool.not_eq_false], hfields, hi.unset, fun call => ?_,
    fun name v j hset hisSet => hi.reassigns hset hisSet⟩
  exact ⟨runOn_attempt i call, fun e j h => eq_of_attempt_error h⟩

/-- Customers with a balance. -/
def customers : Model :=
  { name := "Customer"
    fields := [{Field.shortId "ID" with primaryKey := true, unique := true}, .title "Name", .price "Credit"] }

/-- A customer is renamed and credited, the name is read anew, and one more value is refused. -/
def crediting : List InstanceCall :=
  [ .set "ID" (.text "ADA01"), .set "Name" (.text "Ada"), .set "Credit" (.int 10), .set "Name" (.text "Eve"),
    .set "Credit" (.int 20), .load "Name" (.text "Ann"), .set "Credit" (.text "much") ]

theorem tracks_changes_crediting :
    let i := (Instance.new customers).performAll crediting
    ∃ j, i.set "Name" (.text "Eve") = .ok j ∧ i.isSet "Name" = true ∧
      i.changes = [("Credit", .bigInt 20)] ∧ j.changes = [("Name", .text "Eve"), ("Credit", .bigInt 20)] ∧
      ∃ c w, i.cell? "Name" = some c ∧ c.field.coerce (.text "Eve") = .ok w ∧ i.Reassigns j "Name" c w := by
  intro i
  obtain ⟨j, hj⟩ : ∃ j, i.set "Name" (.text "Eve") = .ok j := ⟨_, rfl⟩
  have hset : i.isSet "Name" = true := by decide +kernel
  obtain ⟨-, -, -, -, -, hall⟩ := tracks_changes customers crediting
  exact ⟨j, hj, hset, by decide +kernel, by cases hj; decide +kernel, hall _ _ j hj hset⟩

end Instance

end RecordMapper
