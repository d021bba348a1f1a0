import Mathlib.Algebra.GroupWithZero.Nat
import RecordMapper.Proofs.Attempt
import RecordMapper.Storage.Connection

/-! Batches of statements on a connection.

A batch is one transaction of an engine, whatever the engine makes of its statements. If all of them succeed and
the engine keeps what they did, the tables are what the statements made of them in order; in every other
case the tables are what they were. Either way no transaction stays open, so that the next batch
starts like the first one (`transacts_afterAll`).

What a batch counts is another matter. Each statement counts what the counter of the engine shows, and that is the
number of its own rows only for a statement that sets it: a query counts once more what the last writing
statement before it has written, in the same batch or in an earlier one. -/
namespace RecordMapper.Storage

/-! ### Statements in order -/

/-- What a statement that succeeds has done about rows. -/
inductive Effect where
  | wrote (rows : Nat)
  | returned (rows : Nat)
  | other
  deriving DecidableEq

namespace Effect

/-- The rows that were inserted, updated or deleted. -/
def rows : Effect → Nat
  | wrote rows => rows
  | returned rows => rows
  | other => 0

/-- What the counter shows when the statement is counted, if it has shown `counter` before. -/
def shown (counter : Nat) : Effect → Nat
  | wrote rows => rows
  | _ => counter

/-- What the counter shows when the statement is closed. -/
def left (counter : Nat) : Effect → Nat
  | other => counter
  | effect => effect.rows

end Effect

/-- What statements are counted as, one after the other. -/
def counts (counter : Nat) : List Effect → List Nat
  | [] => []
  | effect :: rest => effect.shown counter :: counts (effect.left counter) rest

/-- What the counter shows after the statements. -/
def counterAfter (counter : Nat) (effects : List Effect) : Nat := effects.foldl (fun n effect => effect.left n) counter

namespace Engine

/-- What a statement makes of the tables, if it succeeds. -/
def run? (e : Engine) (s : Statement) (tables : Tables) : Option (Tables × Effect) :=
  match e.prepare s tables with
  | .ok prepared =>
    match prepared.run s.params tables with
    | .wrote tables rows => some (tables, .wrote rows)
    | .returned tables rows => some (tables, .returned rows)
    | .other => some (tables, .other)
    | _ => none
  | .error _ => none

/-- What statements make of the tables in order, if all of them succeed. -/
def runAll? (e : Engine) : List Statement → Tables → Option (Tables × List Effect)
  | [], tables => some (tables, [])
  | s :: rest, tables =>
    match e.run? s tables with
    | some (tables, effect) => (e.runAll? rest tables).map fun r => (r.1, effect :: r.2)
    | none => none

end Engine

namespace Connection

/-! ### One batch -/

/-- What becomes of a batch on a connection: it is carried out as a whole, or refused as a whole. -/
inductive Transacts (e : Engine) (statements : List Statement) (c : Connection) : Except Error Nat → Connection → Prop
  | committed {tables : Tables} {effects : List Effect} (hbegin : e.beginFault? = none)
    (happly : e.runAll? statements c.tables = some (tables, effects)) (hcommit : e.commitFault? tables = none) :
    Transacts e statements c (.ok (counts c.changes effects).sum) ⟨tables, none, counterAfter c.changes effects⟩
  | refused {error : Error} {changes : Nat}
    (hrefused : ∀ tables effects, e.beginFault? = none → e.runAll? statements c.tables = some (tables, effects) →
      e.commitFault? tables ≠ none) :
    Transacts e statements c (.error error) ⟨c.tables, none, changes⟩

/-- A run that has failed and leaves the way back to the saved tables. -/
def Fails {α : Type} (r : Except Error α × Connection) (saved : Tables) : Prop :=
  (∃ error, r.1 = .error error) ∧ r.2.rollback.tables = saved

section

variable {e : Engine} {c : Connection} {saved : Tables}

theorem Fails.bind {α β : Type} {a : Attempt Connection α} (h : Fails (a.runOn c) saved)
    (f : α → Attempt Connection β) : Fails ((a >>= f).runOn c) saved := by
  obtain ⟨⟨fault, hfault⟩, hback⟩ := h
  rw [Attempt.runOn_bind]
  generalize a.runOn c = r at hfault hback
  obtain ⟨result, d⟩ := r
  cases hfault
  exact ⟨⟨fault, rfl⟩, hback⟩

theorem execute_runOn (e : Engine) (s : Statement) (c : Connection) :
    (execute e s).runOn c = match e.prepare s c.tables with
      | .ok prepared => (finish (prepared.run s.params c.tables)).runOn c
      | .error fault => (.error fault, c) := by
  rw [execute, Attempt.runOn_bind, Attempt.runOn_get]
  dsimp only
  rw [Attempt.runOn_bind, Attempt.runOn_ofExcept]
  cases e.prepare s c.tables <;> rfl

theorem execute_of_some {s : Statement} {tables : Tables} {effect : Effect}
    (h : e.run? s c.tables = some (tables, effect)) :
    (execute e s).runOn c = (.ok (effect.shown c.changes), {c with tables, changes := effect.left c.changes}) := by
  unfold Engine.run? at h
  rw [execute_runOn]
  split at h
  · next prepared hprepared =>
    cases hrun : prepared.run s.params c.tables with
    | failed error tables count =>
      rw [hrun] at h
      cases h
    | undone error count =>
      rw [hrun] at h
      cases h
    | _ =>
      rw [hrun] at h
      cases h
      rfl
  · cases h

theorem execute_of_none {s : Statement} (hc : c.saved = some saved) (h : e.run? s c.tables = none) :
    Fails ((execute e s).runOn c) saved := by
  have hback : ∀ {d : Connection}, d.saved = some saved → d.rollback.tables = saved := by
    intro d hd
    rw [rollback, hd]
    rfl
  unfold Engine.run? at h
  rw [execute_runOn]
  split at h
  · next prepared hprepared =>
    cases hrun : prepared.run s.params c.tables with
    | failed error tables count => exact ⟨⟨error, rfl⟩, hback hc⟩
    | undone error count =>
      -- The engine has gone back already, and there is nothing left to undo.
      refine ⟨⟨error, rfl⟩, ?_⟩
      show c.saved.getD c.tables = saved
      rw [hc]
      rfl
    | _ =>
      rw [hrun] at h
      cases h
  · next fault hfault => exact ⟨⟨fault, rfl⟩, hback hc⟩

/-! ### Batches -/

/-- Statements that all succeed are counted one by one. -/
theorem collect_of_some {statements : List Statement} {tables : Tables} {effects : List Effect}
    (h : e.runAll? statements c.tables = some (tables, effects)) :
    (Attempt.collect statements (execute e)).runOn c =
      (.ok (counts c.changes effects), {c with tables, changes := counterAfter c.changes effects}) := by
  induction statements generalizing c effects with
  | nil =>
    cases h
    rfl
  | cons s rest ih =>
    unfold Engine.runAll? at h
    split at h
    · next between effect happly =>
      obtain ⟨⟨final, more⟩, hmore, h⟩ := Option.map_eq_some_iff.1 h
      cases h
      rw [Attempt.collect, Attempt.runOn_bind, execute_of_some happly]
      dsimp only
      rw [Attempt.runOn_bind, ih (c := {c with tables := between, changes := effect.left c.changes}) hmore]
      rfl
    · cases h

theorem collect_of_none {statements : List Statement} (hc : c.saved = some saved)
    (h : e.runAll? statements c.tables = none) : Fails ((Attempt.collect statements (execute e)).runOn c) saved := by
  induction statements generalizing c with
  | nil => cases h
  | cons s rest ih =>
    rw [Attempt.collect]
    unfold Engine.runAll? at h
    split at h
    · next between effect happly =>
      rw [Attempt.runOn_bind, execute_of_some happly]
      exact (ih (c := {c with tables := between, changes := effect.left c.changes}) hc
        (Option.map_eq_none_iff.1 h)).bind _
    · next hnone => exact (execute_of_none hc hnone).bind _

theorem executeAll_of_some {statements : List Statement} {tables : Tables} {effects : List Effect}
    (h : e.runAll? statements c.tables = some (tables, effects)) :
    (executeAll e statements).runOn c =
      (.ok (counts c.changes effects).sum, {c with tables, changes := counterAfter c.changes effects}) := by
  rw [executeAll, Attempt.runOn_bind, collect_of_some h, List.sum_eq_foldl]
  rfl

theorem orRollback_of_fails {α : Type} {a : Attempt Connection α} (h : Fails (a.runOn c) saved) :
    ∃ fault changes, (orRollback a).runOn c = (.error fault, ⟨saved, none, changes⟩) := by
  obtain ⟨⟨fault, hfault⟩, hback⟩ := h
  rw [orRollback, Attempt.runOn_ofRun]
  generalize a.runOn c = r at hfault hback
  obtain ⟨result, d⟩ := r
  cases hfault
  refine ⟨fault, d.changes, ?_⟩
  rw [← hback]
  rfl

/-- A batch without a transaction open is carried out as a whole, or refused as a whole. -/
theorem transacts (e : Engine) (statements : List Statement) (hc : c.saved = none) :
    Transacts e statements c ((transact e statements).runOn c).1 ((transact e statements).runOn c).2 := by
  obtain ⟨tables, saved, changes⟩ := c
  obtain rfl : saved = none := hc
  rw [transact, Attempt.runOn_bind]
  cases hbegin : e.beginFault? with
  | some fault =>
    have hrun : (begin e).runOn ⟨tables, none, changes⟩ = (.error fault, ⟨tables, none, changes⟩) := by
      simp [begin, hbegin]
    rw [hrun]
    exact .refused fun _ _ h => absurd (h.symm.trans hbegin) nofun
  | none =>
    have hrun : (begin e).runOn ⟨tables, none, changes⟩ = (.ok (), ⟨tables, some tables, changes⟩) := by
      simp [begin, hbegin]
    rw [hrun]
    dsimp only
    cases happly : e.runAll? statements tables with
    | none =>
      have hall : Fails ((executeAll e statements).runOn ⟨tables, some tables, changes⟩) tables :=
        (collect_of_none rfl happly).bind _
      obtain ⟨fault, count, hback⟩ := orRollback_of_fails (hall.bind fun affected => do
        commit e
        return affected)
      rw [hback]
      exact .refused fun _ _ _ h => absurd (h.symm.trans happly) nofun
    | some r =>
      obtain ⟨final, effects⟩ := r
      have hall := executeAll_of_some (c := ⟨tables, some tables, changes⟩) happly
      cases hcommit : e.commitFault? final with
      | some fault =>
        have hfails : Fails ((do
            let affected ← executeAll e statements
            commit e
            return affected).runOn ⟨tables, some tables, changes⟩) tables := by
          rw [Attempt.runOn_bind, hall]
          refine Fails.bind ⟨⟨fault, ?_⟩, ?_⟩ _
          · simp [commit, hcommit]
          · simp [commit, hcommit, rollback]
        obtain ⟨fault, count, hback⟩ := orRollback_of_fails hfails
        rw [hback]
        refine .refused fun _ _ _ h hnone => ?_
        cases h.symm.trans happly
        exact absurd (hnone.symm.trans hcommit) nofun
      | none =>
        have hkept : (commit e).runOn ⟨final, some tables, counterAfter changes effects⟩ =
            (.ok (), ⟨final, none, counterAfter changes effects⟩) := by
          simp [commit, hcommit]
        have hrun : (orRollback do
            let affected ← executeAll e statements
            commit e
            return affected).runOn ⟨tables, some tables, changes⟩ =
              (.ok (counts changes effects).sum, ⟨final, none, counterAfter changes effects⟩) := by
          rw [orRollback, Attempt.runOn_ofRun, Attempt.runOn_bind, hall]
          dsimp only
          rw [Attempt.runOn_bind, hkept]
          rfl
        rw [hrun]
        exact .committed hbegin happly hcommit

end

end Connection

/-! ### Counting -/

/-- No statement is counted as less than what it wrote, if it does not return its rows. -/
theorem rows_le_counts {effects : List Effect} (hreturned : ∀ rows, Effect.returned rows ∉ effects) (counter : Nat) :
    (effects.map Effect.rows).sum ≤ (counts counter effects).sum := by
  induction effects generalizing counter with
  | nil => exact Nat.le_refl 0
  | cons effect rest ih =>
    have hrest := ih (fun rows h => hreturned rows (.tail _ h)) (effect.left counter)
    have hfirst : effect.rows ≤ effect.shown counter := by
      cases effect with
      | wrote rows => exact Nat.le_refl rows
      | returned rows => exact absurd (.head _) (hreturned rows)
      | other => exact Nat.zero_le counter
    simp only [counts, List.map_cons, List.sum_cons]
    omega

/-- The count is the number of rows written exactly if the counter shows zero to each statement that writes none. -/
theorem sum_counts_eq_iff {effects : List Effect} (hreturned : ∀ rows, Effect.returned rows ∉ effects) (counter : Nat) :
    (counts counter effects).sum = (effects.map Effect.rows).sum ↔
      ∀ p ∈ effects.zip (counts counter effects), p.1 = .other → p.2 = 0 := by
  induction effects generalizing counter with
  | nil => simp [counts]
  | cons effect rest ih =>
    have hnone : ∀ rows, Effect.returned rows ∉ rest := fun rows h => hreturned rows (.tail _ h)
    have hrest := ih hnone (effect.left counter)
    have hle := rows_le_counts hnone (effect.left counter)
    cases effect with
    | wrote rows =>
      simp only [counts, List.map_cons, List.sum_cons, List.zip_cons_cons, List.forall_mem_cons, Effect.shown,
        Effect.rows]
      rw [← hrest]
      exact ⟨fun h => ⟨nofun, by omega⟩, fun h => by omega⟩
    | returned rows => exact absurd (.head _) (hreturned rows)
    | other =>
      simp only [counts, List.map_cons, List.sum_cons, List.zip_cons_cons, List.forall_mem_cons, Effect.shown,
        Effect.rows]
      rw [← hrest]
      exact ⟨fun h => ⟨fun _ => by omega, by omega⟩, fun ⟨hzero, hsame⟩ => by rw [hsame, hzero trivial]⟩

/-! ### Batches in turn -/

namespace Connection

/-- A connection after batches, each of the engine as it was at the time. -/
def afterAll (c : Connection) (batches : List (Engine × List Statement)) : Connection :=
  batches.foldl (fun c batch => ((transact batch.1 batch.2).runOn c).2) c

/-- A batch leaves no transaction open. -/
theorem Transacts.saved {e : Engine} {statements : List Statement} {c d : Connection} {result : Except Error Nat}
    (h : Transacts e statements c result d) : d.saved = none := by
  cases h <;> rfl

theorem saved_afterAll {c : Connection} (hc : c.saved = none) (batches : List (Engine × List Statement)) :
    (c.afterAll batches).saved = none := by
  induction batches generalizing c with
  | nil => exact hc
  | cons batch rest ih => exact ih (transacts batch.1 batch.2 hc).saved

/-- After any batches, of whatever engines, the next batch starts without a transaction open, and is carried out as
a whole or refused as a whole: the tables become what its statements make of them in order, or stay as they
were. It counts the rows that its statements have written, if none of them returns rows, exactly if the counter
shows zero to each of them that writes none. -/
theorem transacts_afterAll {c : Connection} (hc : c.saved = none) (batches : List (Engine × List Statement))
    (e : Engine) (statements : List Statement) :
    (c.afterAll batches).saved = none ∧
    Transacts e statements (c.afterAll batches) ((transact e statements).runOn (c.afterAll batches)).1
      ((transact e statements).runOn (c.afterAll batches)).2 ∧
    ∀ n tables effects, ((transact e statements).runOn (c.afterAll batches)).1 = .ok n →
      e.runAll? statements (c.afterAll batches).tables = some (tables, effects) →
      (∀ rows, Effect.returned rows ∉ effects) →
      (n = (effects.map Effect.rows).sum ↔
        ∀ p ∈ effects.zip (counts (c.afterAll batches).changes effects), p.1 = .other → p.2 = 0) := by
  have hstart := saved_afterAll hc batches
  have htransacts := transacts e statements hstart
  refine ⟨hstart, htransacts, fun n tables effects hok happly hreturned => ?_⟩
  rw [hok] at htransacts
  generalize ((transact e statements).runOn (c.afterAll batches)).2 = d at htransacts
  cases htransacts with
  | committed hbegin happly' hcommit =>
    cases happly.symm.trans happly'
    exact sum_counts_eq_iff hreturned _

/-- A row of `t`. -/
def insertion (id : String) : Statement := ⟨"INSERT INTO t VALUES (?1)", [.text id]⟩

/-- After a batch that broke off at an id that is there already, the next one inserts what that one did not. -/
theorem transacts_afterDuplicate :
    (afterAll {} [(.ofCommands, [insertion "a"]), (.ofCommands, [insertion "b", insertion "a"])]).tables.t =
      [some "a"] ∧
    ((transact .ofCommands [insertion "b", ⟨"INSERT INTO c VALUES (?1, ?2)", [.text "x", .text "b"]⟩]).runOn
      (afterAll {} [(.ofCommands, [insertion "a"]), (.ofCommands, [insertion "b", insertion "a"])])).1 = .ok 2 ∧
    Transacts .ofCommands [insertion "b", insertion "a"] (afterAll {} [(.ofCommands, [insertion "a"])])
      (.error (statementError (some "1555") "UNIQUE constraint failed: t.id" "INSERT INTO t VALUES (?1)"))
      (afterAll {} [(.ofCommands, [insertion "a"]), (.ofCommands, [insertion "b", insertion "a"])]) := by
  obtain ⟨-, hrefused, -⟩ := transacts_afterAll (c := {}) rfl [(.ofCommands, [insertion "a"])] .ofCommands
    [insertion "b", insertion "a"]
  exact ⟨rfl, rfl, hrefused⟩

/-- A query in a batch of its own, which writes nothing, counts the row that the batch before it has inserted. -/
theorem not_counts_query :
    ((executeInTransaction [⟨"SELECT 1", []⟩]).runOn (afterAll {} [(.ofCommands, [insertion "a"])])).1 = .ok 1 ∧
    Engine.ofCommands.runAll? [⟨"SELECT 1", []⟩] {t := [some "a"]} = some ({t := [some "a"]}, [.other]) ∧
    ([Effect.other].map Effect.rows).sum = 0 :=
  ⟨rfl, rfl, rfl⟩

end Connection

end RecordMapper.Storage
