import RecordMapper.Proofs.Condition.Key
import RecordMapper.Proofs.Session.Atomicity

/-! What a save writes.

A save takes the dirty ones among the tracked instances and then those that were queued, makes an UPDATE for each, and
runs these as one transaction. Each UPDATE sets the changed fields, no others, in the row that has the key as it was
before the changes (`saves_updateStatement`). When the database has accepted it, exactly these instances are
committed, and there is nothing left to save (`saveChanges_saves`). -/
namespace RecordMapper

/-! ### The update of an instance -/

namespace Instance

/-- A query, finished as a statement, writes the pending changes of an instance to its row: it sets the changed fields
to their current values, in the order in which they are declared, where the row has the key that it is stored under. -/
structure SavedBy (i : Instance) (rules : Rules) (d : Dialect) (q : UpdateQuery) (statement : Statement) : Prop where
  table : q.table = i.model.table
  declared : (q.assignments.map (·.column)).Sublist (i.model.fields.map (·.name))
  changed : ∀ name, name ∈ q.assignments.map (·.column) ↔ i.get? name ≠ i.baseline? name
  values : ∀ a ∈ q.assignments, i.get? a.column = some a.value
  filter : ∃ c, q.filter = some c ∧ Condition.compileKey i.model rules i.persistedKey = .ok c ∧
    ∀ row, i.model.Suits row → (c.holdsOf row.value? = true ↔ row.key = i.persistedKey)
  written : (do (← q.build d).finish d) = .ok statement

variable {i : Instance}

theorem Coherent.nodup_cells (hi : i.Coherent) (hn : (i.model.fields.map (·.name)).Nodup) :
    (i.cells.map (·.field.name)).Nodup := by
  rw [← hi.fields, List.map_map] at hn
  exact hn

theorem cell?_of_mem (hn : (i.cells.map (·.field.name)).Nodup) {c : Cell} (hc : c ∈ i.cells) :
    i.cell? c.field.name = some c := find?_of_nodup_map hn hc

/-- The names of the changed cells are those of the fields with another value than before. -/
theorem mem_changed_iff (hn : (i.cells.map (·.field.name)).Nodup) (name : String) :
    name ∈ (i.cells.filter (·.isChanged)).map (·.field.name) ↔ i.get? name ≠ i.baseline? name := by
  constructor
  · intro hname
    obtain ⟨c, hc, rfl⟩ := List.mem_map.1 hname
    obtain ⟨hc, hchanged⟩ := List.mem_filter.1 hc
    unfold get? baseline?
    rw [cell?_of_mem hn hc]
    simpa [Cell.isChanged] using hchanged
  · intro hne
    cases hc : i.cell? name with
    | none =>
      unfold get? baseline? at hne
      rw [hc] at hne
      exact absurd rfl hne
    | some c =>
      have hname : c.field.name = name := by simpa using List.find?_some hc
      refine List.mem_map.2 ⟨c, List.mem_filter.2 ⟨List.mem_of_find?_eq_some hc, ?_⟩, hname⟩
      unfold get? baseline? at hne
      rw [hc] at hne
      simpa [Cell.isChanged] using hne

theorem saves_updateStatement (hi : i.Coherent) (hcanonical : i.Canonical) (hn : (i.model.fields.map (·.name)).Nodup)
    {rules : Rules} {d : Dialect} {statement : Statement} (h : i.updateStatement rules d = .ok statement) :
    ∃ q, i.SavedBy rules d q statement := by
  obtain ⟨c, hc, h⟩ := bind_ok h
  have hcells := hi.nodup_cells hn
  have hcolumns : ((i.cells.filter (·.isChanged)).map fun c =>
      Assignment.mk c.field.name c.current c.field.isEnum).map (·.column) =
        (i.cells.filter (·.isChanged)).map (·.field.name) := by
    rw [List.map_map]
    rfl
  refine ⟨_, rfl, ?_, fun name => ?_, fun a ha => ?_, ⟨c, rfl, hc, fun row hrow => ?_⟩, h⟩
  · rw [hcolumns, ← hi.fields, List.map_map]
    exact List.filter_sublist.map _
  · rw [hcolumns, mem_changed_iff hcells]
  · obtain ⟨c, hc, rfl⟩ := List.mem_map.1 ha
    unfold get?
    rw [cell?_of_mem hcells (List.mem_filter.1 hc).1]
    rfl
  · exact Condition.holdsOf_compileKey hn hcanonical.persistedKey hc hrow

theorem get?_commit (i : Instance) (name : String) : i.commit.get? name = i.get? name := by
  unfold get? cell? commit
  rw [List.find?_map, Option.map_map]
  rfl

end Instance

/-! ### The candidates of a save -/

/-- Instances are listed for a save: first those of the tracked ones that are dirty, then the queued ones that are not
among these, in their orders and each once. -/
structure Tracker.Lists (t : Tracker) (heap : Heap) (candidates : List Handle) : Prop where
  parts : ∃ dirty queued, candidates = dirty ++ queued ∧
    dirty.Sublist t.tracked ∧ (∀ h, h ∈ dirty ↔ h ∈ t.tracked ∧ ∃ i, heap.get? h = some i ∧ i.isDirty = true) ∧
    queued.Sublist t.queued ∧ ∀ h, h ∈ queued ↔ h ∈ t.queued ∧ h ∉ dirty
  once : candidates.Nodup

theorem Tracker.lists_candidates {t : Tracker} (htracked : t.tracked.Nodup) (hqueued : t.queued.Nodup) (heap : Heap) :
    t.Lists heap (t.candidates heap) where
  parts := by
    refine ⟨_, _, rfl, List.filter_sublist, fun h => ?_, List.filter_sublist, fun h => ?_⟩
    · rw [List.mem_filter, Heap.holds, Option.any_eq_true]
    · rw [List.mem_filter, decide_eq_true_iff]
  once := by
    unfold candidates
    refine List.nodup_append.2 ⟨htracked.filter _, hqueued.filter _, ?_⟩
    rintro h hh _ hk rfl
    exact of_decide_eq_true (List.mem_filter.1 hk).2 hh

/-! ### A database with a log -/

/-- The database beside the statements of every transaction that it was asked to run. -/
def Backend.logged {β : Type} (b : Backend β) : Backend (β × List (List Statement)) where
  dialect := b.dialect
  connect := Attempt.within Prod.fst (fun database x => (database, x.2)) b.connect
  query statement := Attempt.within Prod.fst (fun database x => (database, x.2)) (b.query statement)
  transaction statements := Attempt.ofRun fun x =>
    let out := (b.transaction statements).runOn x.1
    (out.1, out.2, x.2 ++ [statements])

namespace Session

variable {β : Type}

/-- The session on a database with a log. -/
def logged (s : Session β) : Session (β × List (List Statement)) where
  registry := s.registry
  backend := s.backend.logged
  owner := s.owner
  useCache := s.useCache

theorem runOn_execute_logged {s : Session β} {statements : List Statement} {x y : β × List (List Statement)} {n : Nat}
    (h : (s.logged.backend.execute statements).runOn x = (.ok n, y)) : y.2 = x.2 ++ [statements] := by
  obtain ⟨_, z, hconnect, h⟩ := Attempt.runOn_bind_ok h
  obtain rfl : ((s.backend.connect.runOn x.1).2, x.2) = z := congrArg Prod.snd hconnect
  exact (congrArg (fun out : Except Error Nat × β × List (List Statement) => out.2.2) h).symm

/-! ### Saves -/

theorem saveChanges_ok {s : Session β} {t t' : SessionState β} {n : Nat} (h : s.saveChanges.runOn t = (.ok n, t'))
    (hsome : t.tracker.candidates t.heap ≠ []) :
    ∃ plan database,
      FlushPlan.make s.owner s.registry.rules s.dialect t.heap (t.tracker.candidates t.heap) = .ok plan ∧
      (s.backend.execute plan.statements).runOn t.database = (.ok n, database) ∧
      t' = applyPlan plan {t with database} := by
  unfold saveChanges at h
  rw [Attempt.runOn_bind, Attempt.runOn_get] at h
  dsimp only at h
  rw [if_neg (by simpa using hsome)] at h
  obtain ⟨plan, hplan, h⟩ := Attempt.runOn_ofExcept_bind_ok h
  rw [runOn_onDatabase_bind] at h
  cases hrun : (s.backend.execute plan.statements).runOn t.database with
  | mk out database =>
    rw [hrun] at h
    cases out with
    | error e => cases h
    | ok affected =>
      cases h
      exact ⟨plan, database, hplan, hrun, rfl⟩

/-- A save without candidates does nothing. -/
theorem saveChanges_of_nil {s : Session β} {t : SessionState β} (h : t.tracker.candidates t.heap = []) :
    s.saveChanges.runOn t = (.ok 0, t) := by
  unfold saveChanges
  rw [Attempt.runOn_bind, Attempt.runOn_get]
  dsimp only
  rw [h]
  rfl

/-- After a plan for all candidates there are none. -/
theorem candidates_applyPlan {t : SessionState β} {plan : FlushPlan}
    (hplan : plan.map (·.handle) = t.tracker.candidates t.heap) :
    (applyPlan plan t).tracker.candidates (applyPlan plan t).heap = [] := by
  have hnone : t.tracker.tracked.filter ((plan.apply t.memory).heap.holds (·.isDirty)) = [] := by
    rw [List.filter_eq_nil_iff]
    intro h hh hdirty
    unfold Heap.holds at hdirty
    rw [FlushPlan.heap_apply] at hdirty
    split at hdirty
    · obtain ⟨j, hj, hdirty⟩ := (Option.any_eq_true ..).1 hdirty
      obtain ⟨i, _, rfl⟩ := Option.map_eq_some_iff.1 hj
      rw [Instance.isDirty_commit] at hdirty
      cases hdirty
    · next hnot =>
      exact hnot (hplan ▸ List.mem_append_left _ (List.mem_filter.2 ⟨hh, hdirty⟩))
  show t.tracker.tracked.filter ((plan.apply t.memory).heap.holds (·.isDirty)) ++ [] = []
  rw [List.append_nil, hnone]

/-- What a save has done that found something to save. -/
structure Saves (s : Session β) (t t' : SessionState (β × List (List Statement))) : Prop where
  candidates : t.tracker.Lists t.heap (t.tracker.candidates t.heap)
  /-- One transaction, with one UPDATE for each candidate. -/
  written : ∃ statements, t'.database.2 = t.database.2 ++ [statements] ∧
    List.Forall₂ (fun h statement => ∃ i q, t.heap.get? h = some i ∧
      i.SavedBy s.registry.rules s.dialect q statement) (t.tracker.candidates t.heap) statements
  /-- The candidates are clean, with the values that they had. -/
  committed : ∀ h ∈ t.tracker.candidates t.heap, ∃ i j, t.heap.get? h = some i ∧ t'.heap.get? h = some j ∧
    j.isDirty = false ∧ ∀ name, j.get? name = i.get? name
  others : ∀ h ∉ t.tracker.candidates t.heap, t'.heap.get? h = t.heap.get? h
  queued : t'.tracker.queued = []
  /-- The same save once more finds nothing, and does nothing. -/
  again : s.logged.saveChanges.runOn t' = (.ok 0, t')

/-- What is needed of a state for that, which every state is that a session reaches. -/
structure Ready (s : Session β) (t : SessionState β) : Prop where
  models : s.OverModels t
  canonical : HasCanonical t
  once : TracksOnce t

theorem ready_reached {s : Session β} {rules : Rules} {decls : List ModelDecl}
    (hr : Registry.build rules decls = .ok s.registry) (database : β) (steps : List SessionStep) :
    s.Ready (steps.foldl s.step {database}) where
  models := (keptBySteps_overModels s).reached hr (t := {database}) (Memory.over_empty s.registry) steps
  canonical := (keptBySteps_hasCanonical s).reached hr (t := {database}) Memory.canonical_empty steps
  once := (keptBySteps_tracksOnce s).reached hr (t := {database}) ⟨.nil, .nil⟩ steps

theorem Ready.saves {s : Session β} {rules : Rules} {decls : List ModelDecl}
    (hr : Registry.build rules decls = .ok s.registry) {t t' : SessionState (β × List (List Statement))} {n : Nat}
    (ht : s.logged.Ready t) (h : s.logged.saveChanges.runOn t = (.ok n, t'))
    (hsome : t.tracker.candidates t.heap ≠ []) : s.Saves t t' := by
  obtain ⟨plan, database, hplan, hrun, rfl⟩ := saveChanges_ok h hsome
  obtain ⟨hhandles, -⟩ := FlushPlan.make_ok (m := t.memory) hplan
  have hheap : ∀ k, (applyPlan plan {t with database}).heap.get? k =
      if k ∈ t.tracker.candidates t.heap then (t.heap.get? k).map (·.commit) else t.heap.get? k := by
    rw [← hhandles]
    exact FlushPlan.heap_apply plan t.memory
  refine ⟨Tracker.lists_candidates ht.once.tracked ht.once.queued _, ⟨plan.statements, runOn_execute_logged hrun, ?_⟩,
    fun k hk => ?_, fun k hk => ?_, rfl, saveChanges_of_nil (candidates_applyPlan (t := {t with database}) hhandles)⟩
  · rw [← hhandles, FlushPlan.statements, List.forall₂_map_left_iff, List.forall₂_map_right_iff, List.forall₂_same]
    intro u hu
    obtain ⟨i, hi, hstatement⟩ := FlushPlan.statement_of_make (m := t.memory) hplan hu
    have hnames := Registry.nodup_fields hr (List.mem_of_find?_eq_some (ht.models.models hi))
    obtain ⟨q, hq⟩ := i.saves_updateStatement (ht.models.coherent hi) (ht.canonical hi) hnames hstatement
    exact ⟨i, q, hi, hq⟩
  · obtain ⟨u, hu, rfl⟩ := List.mem_map.1 (hhandles ▸ hk)
    obtain ⟨i, hi, -⟩ := FlushPlan.statement_of_make (m := t.memory) hplan hu
    have hi : t.heap.get? u.handle = some i := hi
    refine ⟨i, i.commit, hi, ?_, i.isDirty_commit, i.get?_commit⟩
    rw [hheap, if_pos hk, hi]
    rfl
  · rw [hheap, if_neg hk]

/-- A save that the database accepts, in any state that a session reaches: it runs one transaction with one UPDATE for
each candidate, and then these are committed, no other instance has changed, and nothing is left to save. -/
theorem saveChanges_saves (s : Session β) {rules : Rules} {decls : List ModelDecl}
    (hr : Registry.build rules decls = .ok s.registry) (database : β) (steps : List SessionStep) {n : Nat}
    {t' : SessionState (β × List (List Statement))} :
    let t := steps.foldl s.logged.step {database := (database, [])}
    s.logged.saveChanges.runOn t = (.ok n, t') → t.tracker.candidates t.heap ≠ [] → s.Saves t t' :=
  fun h hsome => (ready_reached (s := s.logged) hr _ steps).saves hr h hsome

/-! ### People who change their names -/

/-- Two people are inserted. The first is renamed and gets the old name back, the second is renamed, and so is a third
one that was made elsewhere; both renamed ones are queued. -/
def renamings : List SessionStep :=
  [ .call (.insert "Person" [.set "ID" (.text "ADA01"), .set "Name" (.text "Ada")] none),
    .call (.insert "Person" [.set "ID" (.text "EVE01"), .set "Name" (.text "Eve")] none),
    .create "Person" [.set "ID" (.text "BOB01"), .set "Name" (.text "Bob")] (some ⟨0⟩),
    .change ⟨0⟩ (.set "Name" (.text "Ida")),
    .change ⟨0⟩ (.set "Name" (.text "Ada")),
    .change ⟨2⟩ (.set "Name" (.text "Rob")),
    .change ⟨2⟩ (.set "ID" (.text "ROB01")),
    .change ⟨1⟩ (.set "Name" (.text "Eva")),
    .enqueue ⟨2⟩, .enqueue ⟨1⟩ ]

/-- Both renamed ones are saved, the one that was inserted first, and each under the identifier that it had. -/
theorem saves_renamings :
    let t := renamings.foldl peopleSession.logged.step {database := ({}, [])}
    let out := peopleSession.logged.saveChanges.runOn t
    out.1 = .ok 2 ∧ t.tracker.candidates t.heap = [⟨1⟩, ⟨2⟩] ∧ peopleSession.Saves t out.2 ∧
      out.2.database.2.getLast? = some
        [ ⟨"UPDATE \"Person\" SET \"Name\" = ?1 WHERE \"Person\".\"ID\" = 'EVE01'", [.text "Eva"]⟩,
          ⟨"UPDATE \"Person\" SET \"ID\" = ?1, \"Name\" = ?2 WHERE \"Person\".\"ID\" = 'BOB01'",
            [.text "ROB01", .text "Rob"]⟩ ] := by
  intro t out
  have hbuild : Registry.build (Pattern.rules 0) [peopleDecl] = .ok peopleSession.registry := rfl
  have hrun : out.1 = .ok 2 := by decide +kernel
  have hcandidates : t.tracker.candidates t.heap = [⟨1⟩, ⟨2⟩] := by decide +kernel
  have hout : out = (.ok 2, out.2) := by rw [← hrun]
  have hsome : t.tracker.candidates t.heap ≠ [] := by
    rw [hcandidates]
    exact List.cons_ne_nil _ _
  exact ⟨hrun, hcandidates, saveChanges_saves peopleSession hbuild {} renamings hout hsome, by decide +kernel⟩

end Session

end RecordMapper
