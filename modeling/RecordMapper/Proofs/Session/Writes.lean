import RecordMapper.Proofs.Attempt
import RecordMapper.Session.Write

/-! How writes end.

Before the database has committed a write, a session changes nothing but what the database
keeps. So every write ends in one of two ways: with an error, nothing committed and all else as it
was, or with the database's success and the changes that follow from it. -/
namespace RecordMapper

namespace Session

variable {β : Type} (s : Session β) (t : SessionState β)

/-- The database as nothing or a transaction that failed left it. -/
def Uncommitted (before after : β) : Prop :=
  after = before ∨ ∃ statements e, (s.backend.execute statements).runOn before = (.error e, after)

/-- The database as a transaction that it reports as successful left it. -/
def Committed (before after : β) : Prop :=
  ∃ statements affected, (s.backend.execute statements).runOn before = (.ok affected, after)

/-- A write that failed before the database had committed it. -/
def Refused {α : Type} (s : Session β) (a : SessionAction β α) (t : SessionState β) : Prop :=
  ∃ e database, a.runOn t = (.error e, {t with database}) ∧ s.Uncommitted t.database database

theorem runOn_onDatabase_bind {α γ : Type} (a : Attempt β α) (f : α → SessionAction β γ) :
    (onDatabase a >>= f).runOn t =
      match a.runOn t.database with
      | (.ok r, database) => (f r).runOn {t with database}
      | (.error e, database) => (.error e, {t with database}) := by
  rw [Attempt.runOn_bind, onDatabase, Attempt.runOn_within]
  rcases a.runOn t.database with ⟨r | e, database⟩ <;> rfl

theorem Refused.of_runOn_eq {α : Type} {s : Session β} {a b : SessionAction β α} {t : SessionState β}
    (h : s.Refused b t) (he : a.runOn t = b.runOn t) : s.Refused a t := by
  obtain ⟨e, database, hrun, hdatabase⟩ := h
  exact ⟨e, database, he.trans hrun, hdatabase⟩

/-- What is done with a result that may be missing ends as that, or is refused. -/
theorem refused_or_ofExcept {α γ : Type} (r : Except Error α) (f : α → SessionAction β γ) :
    s.Refused (Attempt.ofExcept r >>= f) t ∨
      ∃ a, r = .ok a ∧ (Attempt.ofExcept r >>= f).runOn t = (f a).runOn t := by
  rw [Refused, Attempt.runOn_bind]
  cases r with
  | error e => exact .inl ⟨e, t.database, rfl, .inl rfl⟩
  | ok a => exact .inr ⟨a, rfl, rfl⟩

theorem refused_or_execute {γ : Type} (statements : List Statement) (f : Nat → SessionAction β γ) :
    s.Refused (onDatabase (s.backend.execute statements) >>= f) t ∨
      ∃ affected database, s.Committed t.database database ∧
        (onDatabase (s.backend.execute statements) >>= f).runOn t = (f affected).runOn {t with database} := by
  rw [Refused, runOn_onDatabase_bind]
  cases hrun : (s.backend.execute statements).runOn t.database with
  | mk out database =>
    cases out with
    | error e => exact .inl ⟨e, database, rfl, .inr ⟨statements, e, hrun⟩⟩
    | ok affected => exact .inr ⟨affected, database, ⟨statements, affected, hrun⟩, rfl⟩

/-! ### The four writes -/

theorem insert_outcome (i : Instance) :
    s.Refused (s.insert i) t ∨ i.insertFaults s.registry.rules = [] ∧
      ∃ database, s.Committed t.database database ∧
        (s.insert i).runOn t = (s.adopt i.commit).runOn {t with database} := by
  unfold insert
  dsimp only
  split
  · exact .inl ⟨_, t.database, rfl, .inl rfl⟩
  · split
    · exact .inl ⟨_, t.database, rfl, .inl rfl⟩
    · next hfaults =>
      rcases s.refused_or_ofExcept t _ _ with h | ⟨statement, _, h⟩
      · exact .inl h
      rcases s.refused_or_execute t [statement] (fun _ => s.adopt i.commit) with
        hr | ⟨_, database, hcommitted, h'⟩
      · exact .inl (hr.of_runOn_eq h)
      · exact .inr ⟨by simpa using hfaults, database, hcommitted, h.trans h'⟩

/-- The rest of a bulk update that the database has committed. -/
def followUpdate (u : BulkUpdate) (affected : Nat) : SessionAction β Nat := do
  if s.useCache then
    let _ ← onMemory (Memory.reconcileUpdate u.model.name u.condition u.changes)
  return affected

theorem save_outcome (u : BulkUpdate) :
    s.Refused (s.save u) t ∨
      ∃ affected database, s.Committed t.database database ∧
        (s.save u).runOn t = (s.followUpdate u affected).runOn {t with database} := by
  unfold save
  dsimp only
  split
  · exact .inl ⟨_, t.database, rfl, .inl rfl⟩
  · rcases s.refused_or_ofExcept t _ _ with h | ⟨statement, _, h⟩
    · exact .inl h
    rcases s.refused_or_execute t [statement] (s.followUpdate u) with
      hr | ⟨affected, database, hcommitted, h'⟩
    · exact .inl (hr.of_runOn_eq h)
    · exact .inr ⟨affected, database, hcommitted, h.trans h'⟩

theorem delete_outcome (model : String) (p : Predicate) :
    s.Refused (s.delete model p) t ∨
      ∃ m condition affected database, s.compile model p = .ok (m, condition) ∧
        s.Committed t.database database ∧
        (s.delete model p).runOn t =
          (.ok affected, if s.useCache then s.dropDeleted m.name condition {t with database}
            else {t with database}) := by
  unfold delete
  rcases s.refused_or_ofExcept t (s.compile model p) _ with h | ⟨found, hcompile, h⟩
  · exact .inl h
  obtain ⟨m, condition⟩ := found
  dsimp only at h
  rcases s.refused_or_ofExcept t (s.statement (DeleteQuery.mk m.table (some condition)).build) _ with
    hr | ⟨statement, _, h'⟩
  · exact .inl (hr.of_runOn_eq h)
  rcases s.refused_or_execute t [statement] _ with hr | ⟨affected, database, hcommitted, h''⟩
  · exact .inl (hr.of_runOn_eq (h.trans h'))
  · refine .inr ⟨m, condition, affected, database, hcompile, hcommitted, h.trans (h'.trans (h''.trans ?_))⟩
    cases s.useCache <;> rfl

theorem saveChanges_outcome :
    s.Refused s.saveChanges t ∨
      (t.tracker.candidates t.heap = [] ∧ s.saveChanges.runOn t = (.ok 0, t)) ∨
      ∃ plan affected database,
        FlushPlan.make s.owner s.registry.rules s.dialect t.heap (t.tracker.candidates t.heap) = .ok plan ∧
        s.Committed t.database database ∧
        s.saveChanges.runOn t = (.ok affected, applyPlan plan {t with database}) := by
  unfold saveChanges
  rw [Refused, Attempt.runOn_bind, Attempt.runOn_get]
  dsimp only
  split
  · next hnone => exact .inr (.inl ⟨by simpa using hnone, rfl⟩)
  · rcases s.refused_or_ofExcept t (FlushPlan.make s.owner s.registry.rules s.dialect t.heap
      (t.tracker.candidates t.heap)) _ with h | ⟨plan, hplan, h⟩
    · exact .inl h
    rcases s.refused_or_execute t plan.statements _ with hr | ⟨affected, database, hcommitted, h'⟩
    · exact .inl (hr.of_runOn_eq h)
    · exact .inr (.inr ⟨plan, affected, database, hplan, hcommitted, h.trans h'⟩)

end Session

end RecordMapper
