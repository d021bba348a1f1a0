import RecordMapper.Session.Reconcile

/-! Instances under assignment, and what pending changes leave alone.

A value of an instance changes in one of four ways: it is assigned, it is taken over from
the database, it is cleared because the row it refers to is gone, or all values are
committed. Two facts hold of every instance there is (`Coherent`): a key snapshot is there
exactly while a value differs from its baseline, and a field never set is NULL. An instance
is `Anchored` when the key its row is stored under is the committed one; assignments never
move an anchored instance (`Anchored.set`), because its key fields are set and only their
baselines count. -/
namespace RecordMapper

/-! ### One cell among the others -/

namespace Cell

variable {f : Cell → Cell} {name : String} {cells : List Cell}

/-- The updated cell stands where the one that was found stood. -/
theorem update_of_find {c : Cell} (h : cells.find? (·.field.name = name) = some c) :
    ∃ before after, cells = before ++ c :: after ∧ update name f cells = before ++ f c :: after := by
  induction cells with
  | nil => cases h
  | cons d rest ih =>
    by_cases hd : d.field.name = name
    · obtain rfl : d = c := by simpa [hd] using h
      exact ⟨[], rest, rfl, by simp [update, hd]⟩
    · obtain ⟨before, after, hcells, hupdate⟩ := ih (by simpa [hd] using h)
      refine ⟨d :: before, after, by rw [hcells]; rfl, ?_⟩
      rw [update, if_neg hd, hupdate]
      rfl

/-- A cell after the update is an old one or the updated one. -/
theorem mem_update {d : Cell} (hd : d ∈ update name f cells) :
    d ∈ cells ∨ ∃ c, cells.find? (·.field.name = name) = some c ∧ d = f c := by
  induction cells with
  | nil => cases hd
  | cons c rest ih =>
    by_cases hc : c.field.name = name
    · rw [update, if_pos hc, List.mem_cons] at hd
      rcases hd with rfl | hd
      · exact .inr ⟨c, by simp [hc], rfl⟩
      · exact .inl (.tail _ hd)
    · rw [update, if_neg hc, List.mem_cons] at hd
      rcases hd with rfl | hd
      · exact .inl (.head _)
      · exact (ih hd).imp (.tail _) fun ⟨e, he, hde⟩ => ⟨e, by simpa [hc] using he, hde⟩

/-- The same when the cell is known. -/
theorem mem_update_of_find {c d : Cell} (h : cells.find? (·.field.name = name) = some c)
    (hd : d ∈ update name f cells) : d ∈ cells ∨ d = f c :=
  (mem_update hd).imp_right fun ⟨_, he, hde⟩ => Option.some.inj (he.symm.trans h) ▸ hde

theorem map_field_update (hf : ∀ c, (f c).field = c.field) :
    (update name f cells).map (·.field) = cells.map (·.field) := by
  induction cells with
  | nil => rfl
  | cons c rest ih =>
    by_cases hc : c.field.name = name
    · simp only [update, if_pos hc, List.map_cons, hf]
    · simp only [update, if_neg hc, List.map_cons, ih]

theorem not_isChanged_iff {c : Cell} : c.isChanged = false ↔ c.current = c.baseline := by
  simp [isChanged]

@[simp] theorem isChanged_settled (c : Cell) (v : Value) : (c.settled v).isChanged = false := by
  simp [isChanged, settled]

@[simp] theorem isChanged_committed (c : Cell) : c.committed.isChanged = false := by
  simp [isChanged, committed]

end Cell

namespace Instance

/-! ### The committed key -/

/-- The committed values of the primary key. -/
def committedKey (i : Instance) : List Value :=
  (i.cells.filter (·.field.primaryKey)).map (·.baseline)

/-- Every field of the primary key is set. -/
def KeySet (i : Instance) : Prop := ∀ c ∈ i.cells, c.field.primaryKey = true → c.isSet = true

/-- What holds of every instance: it has a cell for each field, there is a key snapshot
exactly while something is pending, and a field that was never set is NULL. -/
structure Coherent (i : Instance) : Prop where
  fields : i.cells.map (·.field) = i.model.fields
  snapshot : i.keySnapshot.isSome = i.isDirty
  unset : ∀ c ∈ i.cells, c.isSet = false → c.current = .null ∧ c.baseline = .null

/-- The row is stored under the committed key, and every field of the key is set. -/
structure Anchored (i : Instance) : Prop where
  keySet : i.KeySet
  key : i.persistedKey = i.committedKey

theorem not_isDirty_iff {i : Instance} :
    i.isDirty = false ↔ ∀ c ∈ i.cells, c.current = c.baseline := by
  simp only [isDirty, List.any_eq_false, Bool.not_eq_true, Cell.not_isChanged_iff]

/-- Without pending changes the current key is the committed one. -/
theorem primaryKey_of_not_isDirty {i : Instance} (h : i.isDirty = false) :
    i.primaryKey = i.committedKey := by
  unfold primaryKey committedKey
  apply List.map_congr_left
  intro c hc
  exact not_isDirty_iff.1 h c (List.mem_filter.1 hc).1

theorem Coherent.snapshot_none {i : Instance} (hi : i.Coherent) (h : i.isDirty = false) :
    i.keySnapshot = none := by
  have := hi.snapshot
  rw [h] at this
  exact Option.isNone_iff_eq_none.1 (by simpa using this)

/-- Without pending changes the row is stored under the committed key. -/
theorem Coherent.persistedKey_of_not_isDirty {i : Instance} (hi : i.Coherent) (h : i.isDirty = false) :
    i.persistedKey = i.committedKey := by
  rw [persistedKey, hi.snapshot_none h, ← primaryKey_of_not_isDirty h]
  rfl

theorem Coherent.not_isChanged {i : Instance} (hi : i.Coherent) {c : Cell} (hc : c ∈ i.cells)
    (hs : c.isSet = false) : c.isChanged = false := by
  obtain ⟨hcurrent, hbaseline⟩ := hi.unset c hc hs
  rw [Cell.not_isChanged_iff, hcurrent, hbaseline]

@[simp] theorem isDirty_settle (i : Instance) : i.settle.isDirty = i.isDirty := by
  unfold settle
  split <;> rfl

@[simp] theorem cells_settle (i : Instance) : i.settle.cells = i.cells := by
  unfold settle
  split <;> rfl

@[simp] theorem model_settle (i : Instance) : i.settle.model = i.model := by
  unfold settle
  split <;> rfl

theorem keySnapshot_settle (i : Instance) :
    i.settle.keySnapshot = if i.isDirty then i.keySnapshot else none := by
  unfold settle
  split <;> rfl

/-! ### New instances -/

theorem coherent_new (m : Model) : (Instance.new m).Coherent where
  fields := by simp [new, Function.comp_def]
  snapshot := by simp [new, isDirty, Cell.isChanged, List.any_map, Function.comp_def]
  unset := by simp [new]

/-! ### Assigning -/

theorem prepare_ok {i : Instance} {name : String} {v w : Value} {c : Cell}
    (h : i.prepare name v = .ok (c, w)) : i.cell? name = some c ∧ c.field.coerce v = .ok w := by
  unfold prepare at h
  split at h
  · cases h
  · next found hfound =>
    split at h
    · next hcoerce =>
      cases h
      exact ⟨hfound, hcoerce⟩
    · cases h

/-- What a successful assignment does. -/
theorem set_ok {i j : Instance} {name : String} {v : Value} (h : i.set name v = .ok j) :
    ∃ c w, i.cell? name = some c ∧ c.field.coerce v = .ok w ∧
      (c.isSet = true ∧ j = settle { i with
          keySnapshot := some i.persistedKey
          cells := Cell.update name (fun c => {c with current := w}) i.cells } ∨
        c.isSet = false ∧ j = {i with cells := Cell.update name (·.settled w) i.cells}) := by
  unfold set at h
  cases hp : i.prepare name v with
  | error e => rw [hp] at h; cases h
  | ok r =>
    obtain ⟨c, w⟩ := r
    obtain ⟨hfound, hcoerce⟩ := prepare_ok hp
    rw [hp] at h
    refine ⟨c, w, hfound, hcoerce, ?_⟩
    cases hs : c.isSet with
    | true =>
      simp only [bind, Except.bind, hs, if_true] at h
      cases h
      exact .inl ⟨rfl, rfl⟩
    | false =>
      simp only [bind, Except.bind, hs, Bool.false_eq_true, if_false] at h
      cases h
      exact .inr ⟨rfl, rfl⟩

/-- What taking over a value does. -/
theorem load_ok {i j : Instance} {name : String} {v : Value} (h : i.load name v = .ok j) :
    ∃ c w, i.cell? name = some c ∧ c.field.coerce v = .ok w ∧
      j = settle {i with cells := Cell.update name (·.settled w) i.cells} := by
  unfold load at h
  cases hp : i.prepare name v with
  | error e => rw [hp] at h; cases h
  | ok r =>
    obtain ⟨c, w⟩ := r
    obtain ⟨hfound, hcoerce⟩ := prepare_ok hp
    rw [hp] at h
    cases h
    exact ⟨c, w, hfound, hcoerce, rfl⟩

theorem model_set {i j : Instance} {name : String} {v : Value} (h : i.set name v = .ok j) :
    j.model = i.model := by
  obtain ⟨_, _, _, _, ⟨_, rfl⟩ | ⟨_, rfl⟩⟩ := set_ok h
  · exact model_settle _
  · rfl

/-- The first assignment of a field does not make it pending. -/
theorem Coherent.isDirty_first {i : Instance} (hi : i.Coherent) {name : String} {w : Value} {c : Cell}
    (hfound : i.cell? name = some c) (hs : c.isSet = false) :
    isDirty {i with cells := Cell.update name (·.settled w) i.cells} = i.isDirty := by
  obtain ⟨before, after, hcells, hupdate⟩ := Cell.update_of_find (f := (·.settled w)) hfound
  have hc : c.isChanged = false := hi.not_isChanged (by rw [hcells]; simp) hs
  unfold isDirty
  rw [hupdate, hcells]
  simp only [List.any_append, List.any_cons, Cell.isChanged_settled, hc]

theorem snapshot_settle_some (i : Instance) (key : List Value) :
    (settle {i with keySnapshot := some key}).keySnapshot.isSome = i.isDirty := by
  rw [keySnapshot_settle]
  show (if i.isDirty then some key else none).isSome = i.isDirty
  cases i.isDirty <;> rfl

theorem Coherent.set {i j : Instance} (hi : i.Coherent) {name : String} {v : Value}
    (h : i.set name v = .ok j) : j.Coherent := by
  obtain ⟨c, w, hfound, _, hcases⟩ := set_ok h
  rcases hcases with ⟨hs, rfl⟩ | ⟨hs, rfl⟩
  · constructor
    · rw [cells_settle, model_settle]
      refine (Cell.map_field_update ?_).trans hi.fields
      exact fun _ => rfl
    · rw [isDirty_settle]
      exact snapshot_settle_some {i with cells := Cell.update name _ i.cells} _
    · intro d hd hd'
      rw [cells_settle] at hd
      rcases Cell.mem_update_of_find hfound hd with hd | rfl
      · exact hi.unset d hd hd'
      · exact absurd (hs.symm.trans hd') (by decide)
  · constructor
    · refine (Cell.map_field_update ?_).trans hi.fields
      exact fun _ => rfl
    · rw [hi.isDirty_first hfound hs]
      exact hi.snapshot
    · intro d hd hd'
      rcases Cell.mem_update_of_find hfound hd with hd | rfl
      · exact hi.unset d hd hd'
      · cases hd'

/-- An instance with the same committed key is anchored where the other one is, if what is pending
does not move its row. -/
theorem Anchored.of_committedKey {i j : Instance} (ha : i.Anchored) (hj : j.Coherent) (hset : j.KeySet)
    (hcommitted : j.committedKey = i.committedKey)
    (hpending : j.isDirty = true → j.persistedKey = i.persistedKey) :
    j.Anchored ∧ j.persistedKey = i.persistedKey := by
  have hkey : j.persistedKey = i.persistedKey := by
    cases hd : j.isDirty with
    | true => exact hpending hd
    | false => rw [hj.persistedKey_of_not_isDirty hd, hcommitted, ha.key]
  exact ⟨⟨hset, by rw [hkey, ha.key, hcommitted]⟩, hkey⟩

/-- An assignment leaves an anchored instance anchored, and its row where it is. -/
theorem Anchored.set {i j : Instance} (ha : i.Anchored) (hi : i.Coherent) {name : String} {v : Value}
    (h : i.set name v = .ok j) : j.Anchored ∧ j.persistedKey = i.persistedKey := by
  have hj := hi.set h
  obtain ⟨c, w, hfound, _, hcases⟩ := set_ok h
  have hc : c ∈ i.cells := List.mem_of_find?_eq_some hfound
  rcases hcases with ⟨hs, rfl⟩ | ⟨hs, rfl⟩
  · -- The field was set: its baseline stays, and the key is in the snapshot while anything differs.
    refine ha.of_committedKey hj ?_ ?_ ?_
    · intro d hd hkey
      rw [cells_settle] at hd
      rcases Cell.mem_update_of_find hfound hd with hd | rfl
      · exact ha.keySet d hd hkey
      · exact hs
    · obtain ⟨before, after, hcells, hupdate⟩ :=
        Cell.update_of_find (f := fun c => {c with current := w}) hfound
      unfold committedKey
      rw [cells_settle, hupdate, hcells]
      simp only [List.filter_append, List.filter_cons, List.map_append]
      split <;> rfl
    · intro hdirty
      rw [isDirty_settle] at hdirty
      rw [persistedKey, keySnapshot_settle, if_pos hdirty]
      rfl
  · -- The field was not set, so it is no field of the key.
    have hkey : c.field.primaryKey = false := by
      cases hk : c.field.primaryKey with
      | true => rw [ha.keySet c hc hk] at hs; cases hs
      | false => rfl
    obtain ⟨before, after, hcells, hupdate⟩ := Cell.update_of_find (f := (·.settled w)) hfound
    have hkeys : (Cell.update name (·.settled w) i.cells).filter (·.field.primaryKey) =
        i.cells.filter (·.field.primaryKey) := by
      rw [hupdate, hcells]
      simp [Cell.settled, hkey]
    refine ha.of_committedKey hj ?_ ?_ fun _ => ?_
    · intro d hd hk
      rcases Cell.mem_update_of_find hfound hd with hd | rfl
      · exact ha.keySet d hd hk
      · rfl
    · exact congrArg (List.map (·.baseline)) hkeys
    · exact congrArg (fun cells => i.keySnapshot.getD (cells.map (·.current))) hkeys

/-! ### Taking over committed values -/

/-- `j` is `i` after some of its values were replaced by committed ones, or became committed:
nothing becomes pending that was not, and the snapshot stays until nothing is. -/
structure TakesOver (i j : Instance) : Prop where
  model : j.model = i.model
  keySet : i.KeySet → j.KeySet
  coherent : i.Coherent → j.Coherent
  pending : i.Coherent → j.isDirty = true → i.isDirty = true ∧ j.keySnapshot = i.keySnapshot

theorem TakesOver.refl (i : Instance) : i.TakesOver i := ⟨rfl, id, id, fun _ h => ⟨h, rfl⟩⟩

theorem TakesOver.trans {i j k : Instance} (h : i.TakesOver j) (h' : j.TakesOver k) : i.TakesOver k where
  model := h'.model.trans h.model
  keySet hi := h'.keySet (h.keySet hi)
  coherent hi := h'.coherent (h.coherent hi)
  pending hi hk := by
    obtain ⟨hj, hsnapshot⟩ := h'.pending (h.coherent hi) hk
    obtain ⟨hdirty, hsnapshot'⟩ := h.pending hi hj
    exact ⟨hdirty, hsnapshot.trans hsnapshot'⟩

/-- While anything stays pending the row is looked for under the same key. -/
theorem TakesOver.persistedKey_of_isDirty {i j : Instance} (h : i.TakesOver j) (hi : i.Coherent)
    (hd : j.isDirty = true) : j.persistedKey = i.persistedKey := by
  obtain ⟨hdirty, hsnapshot⟩ := h.pending hi hd
  obtain ⟨key, hsome⟩ := Option.isSome_iff_exists.1 (hi.snapshot.trans hdirty)
  rw [persistedKey, persistedKey, hsnapshot, hsome]
  rfl

/-- A row that is stored under the committed key stays there when values are taken over, unless
changes stay pending while the committed key moves. -/
theorem TakesOver.persistedKey_eq {i j : Instance} (h : i.TakesOver j) (hi : i.Coherent)
    (hp : i.persistedKey = i.committedKey) (hkey : j.isDirty = true → j.committedKey = i.committedKey) :
    j.persistedKey = j.committedKey := by
  cases hd : j.isDirty with
  | false => exact (h.coherent hi).persistedKey_of_not_isDirty hd
  | true => rw [h.persistedKey_of_isDirty hi hd, hp, hkey hd]

theorem TakesOver.anchored {i j : Instance} (h : i.TakesOver j) (hi : i.Coherent) (ha : i.Anchored)
    (hkey : j.isDirty = true → j.committedKey = i.committedKey) : j.Anchored :=
  ⟨h.keySet ha.keySet, h.persistedKey_eq hi ha.key hkey⟩

/-- Taking over a value of one field. -/
theorem takesOver_settled (i : Instance) (name : String) (v : Value) :
    i.TakesOver (settle {i with cells := Cell.update name (·.settled v) i.cells}) := by
  have hcells : ∀ d ∈ Cell.update name (·.settled v) i.cells,
      d ∈ i.cells ∨ d.isSet = true ∧ d.isChanged = false := fun d hd =>
    (Cell.mem_update hd).imp_right fun ⟨c, _, hdc⟩ => hdc ▸ ⟨rfl, Cell.isChanged_settled c v⟩
  have hdirty : isDirty {i with cells := Cell.update name (·.settled v) i.cells} = true →
      i.isDirty = true := by
    intro h
    obtain ⟨d, hd, hchanged⟩ := List.any_eq_true.1 h
    rcases hcells d hd with hd | ⟨-, hclean⟩
    · exact List.any_eq_true.2 ⟨d, hd, hchanged⟩
    · rw [hclean] at hchanged
      cases hchanged
  refine ⟨model_settle _, ?_, ?_, ?_⟩
  · intro hset d hd hkey
    rw [cells_settle] at hd
    rcases hcells d hd with hd | ⟨hd, -⟩
    · exact hset d hd hkey
    · exact hd
  · intro hi
    refine ⟨?_, ?_, fun d hd hunset => ?_⟩
    · rw [cells_settle, model_settle]
      refine (Cell.map_field_update ?_).trans hi.fields
      exact fun _ => rfl
    · rw [isDirty_settle, keySnapshot_settle]
      split
      · next h => exact hi.snapshot.trans ((hdirty h).trans h.symm)
      · next h => exact (Bool.not_eq_true _ ▸ h).symm
    · rw [cells_settle] at hd
      rcases hcells d hd with hd | ⟨hd, -⟩
      · exact hi.unset d hd hunset
      · rw [hd] at hunset
        cases hunset
  · intro _ h
    rw [isDirty_settle] at h
    exact ⟨hdirty h, by rw [keySnapshot_settle, if_pos h]⟩

theorem takesOver_load {i j : Instance} {name : String} {v : Value} (h : i.load name v = .ok j) :
    i.TakesOver j := by
  obtain ⟨_, w, _, _, rfl⟩ := load_ok h
  exact takesOver_settled i name w

theorem takesOver_clear (i : Instance) (name : String) : i.TakesOver (i.clear name) :=
  takesOver_settled i name .null

/-- An instance without its loaded navigations. They have no part in any of this. -/
def unlinked (i : Instance) : Instance := {i with singles := [], collections := []}

theorem model_of_unlinked {i j : Instance} (h : j.unlinked = i.unlinked) : j.model = i.model :=
  show j.unlinked.model = i.unlinked.model by rw [h]

theorem persistedKey_of_unlinked {i j : Instance} (h : j.unlinked = i.unlinked) :
    j.persistedKey = i.persistedKey :=
  show j.unlinked.persistedKey = i.unlinked.persistedKey by rw [h]

theorem committedKey_of_unlinked {i j : Instance} (h : j.unlinked = i.unlinked) :
    j.committedKey = i.committedKey :=
  show j.unlinked.committedKey = i.unlinked.committedKey by rw [h]

theorem cells_of_unlinked {i j : Instance} (h : j.unlinked = i.unlinked) : j.cells = i.cells :=
  show j.unlinked.cells = i.unlinked.cells by rw [h]

/-- Whether changes are pending is a matter of the cells. -/
theorem isDirty_congr {i j : Instance} (h : j.cells = i.cells) : j.isDirty = i.isDirty := by
  unfold isDirty
  rw [h]

theorem isDirty_of_unlinked {i j : Instance} (h : j.unlinked = i.unlinked) : j.isDirty = i.isDirty :=
  isDirty_congr (cells_of_unlinked h)

theorem takesOver_of_unlinked {i j : Instance} (h : j.unlinked = i.unlinked) : i.TakesOver j where
  model := model_of_unlinked h
  keySet hi := show j.unlinked.KeySet from h ▸ hi
  coherent hi := by
    have hj : j.unlinked.Coherent := h ▸ ⟨hi.fields, hi.snapshot, hi.unset⟩
    exact ⟨hj.fields, hj.snapshot, hj.unset⟩
  pending _ hj := by
    have hsnapshot : j.unlinked.keySnapshot = i.unlinked.keySnapshot := by rw [h]
    exact ⟨isDirty_of_unlinked h ▸ hj, hsnapshot⟩

/-! ### Committing -/

@[simp] theorem isDirty_commit (i : Instance) : i.commit.isDirty = false := by
  simp [isDirty, commit]

theorem Coherent.commit {i : Instance} (hi : i.Coherent) : i.commit.Coherent where
  fields := by
    show (i.cells.map Cell.committed).map (·.field) = i.model.fields
    rw [List.map_map]
    exact hi.fields
  snapshot := by rw [isDirty_commit]; rfl
  unset c hc hs := by
    obtain ⟨d, hd, rfl⟩ := List.mem_map.1 hc
    obtain ⟨hcurrent, -⟩ := hi.unset d hd hs
    exact ⟨hcurrent, hcurrent⟩

theorem KeySet.commit {i : Instance} (h : i.KeySet) : i.commit.KeySet := by
  intro c hc hk
  obtain ⟨d, hd, rfl⟩ := List.mem_map.1 hc
  exact h d hd hk

/-- After a commit the row is stored under what the key was then. -/
theorem persistedKey_commit (i : Instance) : i.commit.persistedKey = i.primaryKey := by
  simp [persistedKey, primaryKey, commit, List.filter_map, Function.comp_def, Cell.committed]

theorem takesOver_commit (i : Instance) : i.TakesOver i.commit :=
  ⟨rfl, KeySet.commit, Coherent.commit, fun _ h => by rw [isDirty_commit] at h; cases h⟩

theorem Anchored.commit {i : Instance} (hi : i.Coherent) (h : i.KeySet) : i.commit.Anchored :=
  ⟨h.commit, hi.commit.persistedKey_of_not_isDirty (isDirty_commit i)⟩

end Instance

/-! ### Histories -/

inductive InstanceCall where
  | set (name : String) (v : Value)
  | load (name : String) (v : Value)
  | commit
  deriving DecidableEq

namespace Instance

/-- What a call makes of an instance; one that fails changes nothing. -/
def perform (i : Instance) : InstanceCall → Instance
  | .set name v =>
    match i.set name v with
    | .ok j => j
    | .error _ => i
  | .load name v =>
    match i.load name v with
    | .ok j => j
    | .error _ => i
  | .commit => i.commit

def performAll (i : Instance) (calls : List InstanceCall) : Instance := calls.foldl perform i

theorem Coherent.perform {i : Instance} (hi : i.Coherent) (call : InstanceCall) :
    (i.perform call).Coherent := by
  cases call with
  | set name v =>
    unfold Instance.perform
    dsimp only
    split
    · next h => exact hi.set h
    · exact hi
  | load name v =>
    unfold Instance.perform
    dsimp only
    split
    · next h => exact (takesOver_load h).coherent hi
    · exact hi
  | commit => exact hi.commit

/-- Every instance that came from a new one is coherent. -/
theorem coherent_performAll (m : Model) (calls : List InstanceCall) :
    ((Instance.new m).performAll calls).Coherent := by
  suffices ∀ i : Instance, i.Coherent → (i.performAll calls).Coherent from this _ (coherent_new m)
  induction calls with
  | nil => exact fun _ h => h
  | cons call rest ih => exact fun i h => ih _ (h.perform call)

theorem model_perform (i : Instance) (call : InstanceCall) : (i.perform call).model = i.model := by
  cases call with
  | set name v =>
    unfold perform
    dsimp only
    split
    · next h => exact model_set h
    · rfl
  | load name v =>
    unfold perform
    dsimp only
    split
    · next h => exact (takesOver_load h).model
    · rfl
  | commit => rfl

theorem model_performAll (i : Instance) (calls : List InstanceCall) :
    (i.performAll calls).model = i.model := by
  induction calls generalizing i with
  | nil => rfl
  | cons call rest ih => exact (ih _).trans (i.model_perform call)

end Instance

end RecordMapper
