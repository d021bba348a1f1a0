import RecordMapper.Proofs.Session.Keeping

/-! Writes are all or nothing.

A write that fails has committed nothing and changed nothing but what the database keeps; once the
database has committed it, it cannot fail any more (`allOrNothing_write`). Inserts and saves have
nothing left to do then that could fail. What is replayed on cached instances might, where a value does
not suit its field; but a bulk update assigns canonical values, and NULL suits every field. That a delete
takes NULL over only into fields that there are is settled when the registry is built. -/
namespace RecordMapper

/-! ### Deletes that might fail

`reconcileDelete` sets a field to NULL without asking whether the instance has it. Here the same is done
by taking the NULL over as any other value, which may fail. -/

namespace Memory

/-- What a navigation declares for the referrers of a removed instance. -/
def followDeleteM (gone : Handle) (pending : List Handle) (dependent : Model × Navigation) :
    Attempt Memory (List Handle) := do
  let owners := (← get).referrers dependent.1 dependent.2 gone
  match dependent.2.onDelete with
  | .cascade => return owners.reverse ++ pending
  | .setNull =>
    Attempt.forEach owners (update [(dependent.2.field, .null)])
    return pending
  | .restrict => return pending
  | .noAction => return pending

def followDeletesM (r : Registry) (gone : Handle) (pending : List Handle) : Attempt Memory (List Handle) := do
  match (← get).heap.get? gone with
  | some i => (r.dependents i.model.name).foldlM (followDeleteM gone) pending
  | none => return pending

def removeAllM (r : Registry) : Nat → List Handle → Attempt Memory (List Handle)
  | 0, _ => pure []
  | fuel + 1, pending => do
    match (← get).takeCached? pending with
    | none => return []
    | some (gone, cache, rest) =>
      modify fun m => {m with cache}
      let next ← followDeletesM r gone rest
      let done ← removeAllM r fuel next
      return gone :: done

def reconcileDeleteM (r : Registry) (model : String) (condition : Condition) : Attempt Memory (List Handle) := do
  let m ← get
  let gone ← removeAllM r m.cache.size (m.cachedWith model condition.evaluate).reverse
  modify fun m => m.detach gone
  return gone

section

variable {r : Registry} {m : Memory}

theorem move_congr {f g : Instance → Instance} {h : Handle} (hfg : ∀ i, m.heap.get? h = some i → f i = g i) :
    m.move f h = m.move g h := by
  unfold move
  rw [Heap.modify_congr hfg]

/-- NULL suits every field that there is. -/
theorem runOn_update_null (hm : m.Over r) {owner : Model} {name : String} {f : Field}
    (hf : owner.field? name = some f) {h : Handle} (hh : ∀ i, m.heap.get? h = some i → i.model = owner) :
    (update [(name, .null)] h).runOn m = (.ok (), clearField name m h) := by
  have hnull : f.coerce .null = .ok .null := Field.coerce_ok_iff.2 (FieldKind.coerce_null f.kind)
  have htakes : ∀ i, m.heap.get? h = some i → i.model.field? name = some f := fun i hi => (hh i hi).symm ▸ hf
  rw [update_eq fun i hi => ⟨hm.coherent hi, fun change hchange => ?_⟩]
  · refine congrArg (Prod.mk _) (move_congr fun i hi => ?_)
    exact (Instance.perform_load (i := i) (show i.load name .null = .ok (i.clear name) by
      obtain ⟨c, hc, rfl⟩ := (hm.coherent hi).cell?_of_field? (htakes i hi)
      unfold Instance.load Instance.prepare
      rw [hc]
      simp only [hnull]
      rfl))
  · obtain rfl := List.mem_singleton.1 hchange
    exact ⟨f, htakes i hi, hnull⟩

theorem runOn_clearAll (hm : m.Over r) {owner : Model} {name : String} {f : Field}
    (hf : owner.field? name = some f) {hs : List Handle}
    (hh : ∀ h ∈ hs, ∀ i, m.heap.get? h = some i → i.model = owner) :
    (Attempt.forEach hs (update [(name, .null)])).runOn m = (.ok (), hs.foldl (clearField name) m) := by
  induction hs generalizing m with
  | nil => rfl
  | cons h rest ih =>
    unfold Attempt.forEach
    rw [Attempt.runOn_bind, runOn_update_null hm hf (hh h (.head _))]
    refine ih (hm.clearField name h) fun k hk j hj => ?_
    have hkept : m.heap.TakesOver (clearField name m h).heap :=
      m.heap.takesOver_modify h fun i _ => i.takesOver_clear name
    obtain ⟨i, hi, hij⟩ := hkept.before hj
    exact hij.model.trans (hh k (.tail _ hk) i hi)

theorem model_of_referrer (hm : m.Over r) {owner : Model} (ho : r.model? owner.name = some owner) {n : Navigation}
    {gone h : Handle} (hh : h ∈ m.referrers owner n gone) {i : Instance} (hi : m.heap.get? h = some i) :
    i.model = owner := by
  unfold referrers at hh
  split at hh
  · split at hh
    · exact absurd hh List.not_mem_nil
    · exact hm.model_of_mem ho (List.mem_filter.1 hh).1 hi
  · exact absurd hh List.not_mem_nil

end

section

variable {rules : Rules} {decls : List ModelDecl} {r : Registry} (hr : Registry.build rules decls = .ok r) {m : Memory}
include hr

theorem runOn_followDeleteM (hm : m.Over r) {target : String} {dependent : Model × Navigation}
    (hd : dependent ∈ r.dependents target) (gone : Handle) (pending : List Handle) :
    (followDeleteM gone pending dependent).runOn m =
      (.ok (followDelete gone (pending, m) dependent).1, (followDelete gone (pending, m) dependent).2) := by
  obtain ⟨howner, f, hf⟩ := Registry.field?_of_dependents hr hd
  unfold followDeleteM followDelete
  rw [Attempt.runOn_bind, Attempt.runOn_get]
  dsimp only
  cases dependent.2.onDelete with
  | setNull =>
    dsimp only
    rw [Attempt.runOn_bind, runOn_clearAll hm hf fun h hh i hi =>
      model_of_referrer hm (Registry.model?_of_mem hr howner) hh hi]
    rfl
  | cascade => rfl
  | restrict => rfl
  | noAction => rfl

theorem runOn_followDeletesM (hm : m.Over r) (gone : Handle) (pending : List Handle) :
    (followDeletesM r gone pending).runOn m =
      (.ok (followDeletes r gone (pending, m)).1, (followDeletes r gone (pending, m)).2) := by
  have hall : ∀ {target : String} (dependents : List (Model × Navigation)),
      (∀ d ∈ dependents, d ∈ r.dependents target) → ∀ (pending : List Handle) (m : Memory), m.Over r →
      (dependents.foldlM (followDeleteM gone) pending).runOn m =
        (.ok (dependents.foldl (followDelete gone) (pending, m)).1,
          (dependents.foldl (followDelete gone) (pending, m)).2) := by
    intro target dependents hsub
    induction dependents with
    | nil => exact fun _ _ _ => rfl
    | cons d rest ih =>
      intro pending m hm
      rw [List.foldlM_cons, Attempt.runOn_bind, runOn_followDeleteM hr hm (hsub d (.head _))]
      exact ih (fun e he => hsub e (.tail _ he)) _ _ (Over.followDelete (s := (pending, m)) hm gone d)
  unfold followDeletesM followDeletes
  rw [Attempt.runOn_bind, Attempt.runOn_get]
  dsimp only
  cases m.heap.get? gone with
  | none => rfl
  | some i => exact hall _ (fun _ hd => hd) pending m hm

theorem runOn_removeAllM (hm : m.Over r) (fuel : Nat) (pending : List Handle) :
    (removeAllM r fuel pending).runOn m = (.ok (removeAll r fuel pending m).1, (removeAll r fuel pending m).2) := by
  induction fuel generalizing pending m with
  | zero => rfl
  | succ fuel ih =>
    unfold removeAllM removeAll
    rw [Attempt.runOn_bind, Attempt.runOn_get]
    dsimp only
    cases ht : m.takeCached? pending with
    | none => rfl
    | some taken =>
      obtain ⟨gone, cache, rest⟩ := taken
      have hremoved : Over r {m with cache} := hm.remove (takeCached?_eq_some ht).1
      have hfollowed := Over.followDeletes (s := (rest, {m with cache})) hremoved gone
      dsimp only
      rw [Attempt.runOn_bind, Attempt.runOn_modify]
      dsimp only
      rw [Attempt.runOn_bind, runOn_followDeletesM hr hremoved]
      dsimp only
      rw [Attempt.runOn_bind, ih hfollowed]
      rfl

/-- Over the models of a registry that was built, a delete takes over every NULL. -/
theorem runOn_reconcileDeleteM (hm : m.Over r) (model : String) (condition : Condition) :
    (reconcileDeleteM r model condition).runOn m =
      (.ok (m.reconcileDelete r model condition).1, (m.reconcileDelete r model condition).2) := by
  unfold reconcileDeleteM
  rw [Attempt.runOn_bind, Attempt.runOn_get]
  dsimp only
  rw [Attempt.runOn_bind, runOn_removeAllM hr hm]
  rfl

end

end Memory

/-! ### States over one registry -/

namespace Session

variable {β : Type}

section

variable {s : Session β}

/-- The instances are of the session's models. -/
def OverModels (s : Session β) (t : SessionState β) : Prop := t.memory.Over s.registry

theorem OverModels.adopt {t : SessionState β} (ht : s.OverModels t) {i : Instance} (hi : i.Coherent)
    (hmodel : s.registry.model? i.model.name = some i.model) : s.OverModels ((s.adopt i).runOn t).2 := by
  let j : Instance := {i with owner := some s.owner}
  have hadded : Memory.Over s.registry {t.memory with heap := (t.heap.add j).2} :=
    ht.add ⟨hi.fields, hi.snapshot, hi.unset⟩ hmodel
  show s.OverModels (SessionState.welcome {t with heap := (t.heap.add j).2} s.useCache (t.heap.add j).1)
  unfold SessionState.welcome
  cases s.useCache with
  | true => exact hadded.register _
  | false => exact hadded

theorem keptBySteps_overModels (s : Session β) : s.KeptBySteps s.OverModels where
  database _ _ ht := ht
  attach t h _ hf ht := Memory.Over.takesOver ht (t.heap.sameRows_modify h hf).takesOver
  refresh h i t ht := Memory.keeps_refresh h i t.memory ht
  adopt _ _ hi _ hmodel ht := OverModels.adopt ht hi hmodel
  update model condition changes t ht := Memory.keeps_reconcileUpdate model condition changes t.memory ht
  delete t model condition ht := Memory.Over.reconcileDelete (m := t.memory) ht model condition
  apply t plan ht := Memory.Over.apply (m := t.memory) ht plan
  change t h call ht := Memory.Over.perform (m := t.memory) ht h call
  add _ _ hi _ hmodel ht := Memory.Over.add ht hi hmodel
  enqueue _ _ ht := ht

theorem overModels_performAll {rules : Rules} {decls : List ModelDecl}
    (hr : Registry.build rules decls = .ok s.registry) (database : β) (calls : List SessionCall) :
    s.OverModels (calls.foldl s.perform {database}) :=
  List.foldlRecOn calls s.perform (Memory.over_empty s.registry : s.OverModels {database})
    fun _ ht call _ => (keptBySteps_overModels s).perform hr ht call

/-! ### Writes -/

/-- A delete whose replay takes over NULLs that might not suit. -/
def deleteM (s : Session β) (model : String) (p : Predicate) : SessionAction β Nat := do
  let (model, condition) ← Attempt.ofExcept (s.compile model p)
  let statement ← Attempt.ofExcept (s.statement (DeleteQuery.mk model.table (some condition)).build)
  let affected ← onDatabase (s.backend.execute [statement])
  if s.useCache then
    let gone ← onMemory (Memory.reconcileDeleteM s.registry model.name condition)
    modify fun t => {t with tracker := t.tracker.forget gone}
  return affected

theorem runOn_deleteM {rules : Rules} {decls : List ModelDecl} (hr : Registry.build rules decls = .ok s.registry)
    {t : SessionState β} (ht : s.OverModels t) (model : String) (p : Predicate) :
    (s.deleteM model p).runOn t = (s.delete model p).runOn t := by
  unfold deleteM delete
  rw [Attempt.runOn_bind, Attempt.runOn_bind, Attempt.runOn_ofExcept]
  cases s.compile model p with
  | error e => rfl
  | ok found =>
    obtain ⟨m, condition⟩ := found
    dsimp only
    rw [Attempt.runOn_bind, Attempt.runOn_bind, Attempt.runOn_ofExcept]
    cases s.statement (DeleteQuery.mk m.table (some condition)).build with
    | error e => rfl
    | ok statement =>
      dsimp only
      rw [runOn_onDatabase_bind, runOn_onDatabase_bind]
      rcases (s.backend.execute [statement]).runOn t.database with ⟨e | affected, database⟩
      · rfl
      · have hover : Memory.Over s.registry ({t with database} : SessionState β).memory := ht
        cases s.useCache with
        | true =>
          dsimp only
          rw [if_pos rfl, Attempt.runOn_bind, onMemory, Attempt.runOn_within,
            Memory.runOn_reconcileDeleteM hr hover]
          rfl
        | false => rfl

end

end Session

/-- The database beside the number of transactions that it has reported as successful. -/
def Backend.counted {β : Type} (b : Backend β) : Backend (β × Nat) where
  dialect := b.dialect
  connect := Attempt.within Prod.fst (fun database x => (database, x.2)) b.connect
  query statement := Attempt.within Prod.fst (fun database x => (database, x.2)) (b.query statement)
  transaction statements := Attempt.ofRun fun x =>
    match (b.transaction statements).runOn x.1 with
    | (.ok affected, database) => (.ok affected, database, x.2 + 1)
    | (.error e, database) => (.error e, database, x.2)

inductive SessionWrite where
  | insert (i : Instance)
  | update (model : String) (p : Predicate) (values : List (String × Value))
  | delete (model : String) (p : Predicate)
  | save

namespace Session

variable {β : Type}

/-- The session on a database that counts. -/
def counted (s : Session β) : Session (β × Nat) where
  registry := s.registry
  backend := s.backend.counted
  owner := s.owner
  useCache := s.useCache

/-- Writes, and leaves what that answers to the caller. -/
def write (s : Session β) : SessionWrite → SessionAction β Unit
  | .insert i => (fun _ => ()) <$> s.insert i
  | .update model p values => do
    let u ← Attempt.ofExcept (s.bulkUpdate model p values)
    (fun _ => ()) <$> s.save u
  | .delete model p => (fun _ => ()) <$> s.delete model p
  | .save => (fun _ => ()) <$> s.saveChanges

/-- A write that fails has committed nothing, and only the database's own state differs. One that
succeeds has committed one transaction, or was a save that found nothing to do. -/
def AllOrNothing (w : SessionWrite) (t : SessionState (β × Nat)) (out : Except Error Unit × SessionState (β × Nat)) :
    Prop :=
  match out.1 with
  | .error _ => ∃ database, out.2 = {t with database} ∧ database.2 = t.database.2
  | .ok () =>
    out.2.database.2 = t.database.2 + 1 ∨ w = .save ∧ t.tracker.candidates t.heap = [] ∧ out.2 = t

section

variable {s : Session β} {t : SessionState (β × Nat)}

theorem runOn_execute_counted (statements : List Statement) (x : β × Nat) :
    (s.counted.backend.execute statements).runOn x =
      match (s.backend.execute statements).runOn x.1 with
      | (.ok affected, database) => (.ok affected, database, x.2 + 1)
      | (.error e, database) => (.error e, database, x.2) := by
  unfold Backend.execute
  have hconnect : s.counted.backend.connect.runOn x =
      ((s.backend.connect.runOn x.1).1, (s.backend.connect.runOn x.1).2, x.2) := rfl
  rw [Attempt.runOn_bind, Attempt.runOn_bind, hconnect]
  rcases s.backend.connect.runOn x.1 with ⟨e | _, database⟩ <;> rfl

theorem Uncommitted.count {before after : β × Nat} (h : s.counted.Uncommitted before after) : after.2 = before.2 := by
  rcases h with rfl | ⟨statements, e, hrun⟩
  · rfl
  · rw [runOn_execute_counted] at hrun
    split at hrun
    · cases hrun
    · cases hrun
      rfl

theorem Committed.count {before after : β × Nat} (h : s.counted.Committed before after) :
    after.2 = before.2 + 1 := by
  obtain ⟨statements, affected, hrun⟩ := h
  rw [runOn_execute_counted] at hrun
  split at hrun
  · cases hrun
    rfl
  · cases hrun

theorem allOrNothing_of_refused {α : Type} {a : SessionAction (β × Nat) α} (hr : s.counted.Refused a t)
    (w : SessionWrite) : AllOrNothing w t (((fun _ => ()) <$> a : SessionAction (β × Nat) Unit).runOn t) := by
  obtain ⟨e, database, hrun, hdatabase⟩ := hr
  rw [Attempt.runOn_map, hrun]
  exact ⟨database, rfl, hdatabase.count⟩

theorem allOrNothing_of_committed {α : Type} {a : SessionAction (β × Nat) α} {r : α} {t' : SessionState (β × Nat)}
    (hrun : a.runOn t = (.ok r, t')) (hc : s.counted.Committed t.database t'.database) (w : SessionWrite) :
    AllOrNothing w t (((fun _ => ()) <$> a : SessionAction (β × Nat) Unit).runOn t) := by
  rw [Attempt.runOn_map, hrun]
  exact .inl hc.count

theorem allOrNothing_update (ht : s.counted.OverModels t) (model : String) (p : Predicate)
    (values : List (String × Value)) :
    AllOrNothing (.update model p values) t ((s.counted.write (.update model p values)).runOn t) := by
  unfold write
  dsimp only
  rw [Attempt.runOn_bind, Attempt.runOn_ofExcept]
  cases hb : s.counted.bulkUpdate model p values with
  | error e => exact ⟨t.database, rfl, rfl⟩
  | ok u =>
    obtain ⟨hmodel, htakes⟩ := bulkUpdate_ok hb
    rcases s.counted.save_outcome t u with hrefused | ⟨affected, database, hc, hrun⟩
    · exact allOrNothing_of_refused hrefused _
    · rw [runOn_followUpdate (t := {t with database}) ht (Registry.model?_of_model hmodel).1 htakes] at hrun
      refine allOrNothing_of_committed (s := s) hrun ?_ _
      split <;> exact hc

theorem allOrNothing_save (s : Session β) (t : SessionState (β × Nat)) :
    AllOrNothing .save t ((s.counted.write .save).runOn t) := by
  rcases s.counted.saveChanges_outcome t with hrefused | ⟨hnone, hrun⟩ | ⟨plan, affected, database, _, hc, hrun⟩
  · exact allOrNothing_of_refused hrefused _
  · unfold write
    rw [Attempt.runOn_map, hrun]
    exact .inr ⟨rfl, hnone, rfl⟩
  · exact allOrNothing_of_committed hrun hc _

end

/-- Every write is all or nothing, in every state over the models of a registry, which every state is that
calls of a session lead to. That also holds of deletes where every NULL might be refused. -/
theorem allOrNothing_write (s : Session β) {rules : Rules} {decls : List ModelDecl}
    (hr : Registry.build rules decls = .ok s.registry) :
    (∀ (database : β) (calls : List SessionCall), s.OverModels (calls.foldl s.perform {database})) ∧
    ∀ t : SessionState (β × Nat), s.counted.OverModels t →
      (∀ w, AllOrNothing w t ((s.counted.write w).runOn t)) ∧
      ∀ model p, (s.counted.deleteM model p).runOn t = (s.counted.delete model p).runOn t := by
  refine ⟨overModels_performAll hr, fun t ht => ⟨fun w => ?_, runOn_deleteM (s := s.counted) hr ht⟩⟩
  cases w with
  | insert i =>
    rcases s.counted.insert_outcome t i with hrefused | ⟨_, database, hc, hrun⟩
    · exact allOrNothing_of_refused hrefused _
    · exact allOrNothing_of_committed hrun hc _
  | update model p values => exact allOrNothing_update ht model p values
  | delete model p =>
    rcases s.counted.delete_outcome t model p with hrefused | ⟨m, condition, affected, database, _, hc, hrun⟩
    · exact allOrNothing_of_refused hrefused _
    · refine allOrNothing_of_committed (s := s) hrun ?_ _
      split <;> exact hc
  | save => exact allOrNothing_save s t

/-! ### A team that goes -/

def teamDecls : List ModelDecl :=
  [ {name := "Team", fields := [{Field.shortId "ID" with primaryKey := true}]},
    { name := "Member"
      fields := [{Field.shortId "ID" with primaryKey := true}, Field.shortId "Team"]
      navigations := [{NavigationDecl.toPrimary "team" "Team" "Team" with onDelete := .setNull}] } ]

/-- Members of a team that is deleted are in none. -/
def teamSession : Session Script where
  registry :=
    ⟨[ {name := "Team", fields := [{Field.shortId "ID" with primaryKey := true, unique := true}]},
       { name := "Member"
         fields := [{Field.shortId "ID" with primaryKey := true, unique := true}, Field.shortId "Team"]
         navigations := [⟨"team", .single, "Team", "Team", "ID", .setNull⟩] } ], Pattern.rules 0⟩
  backend := Script.backend .sqlite .sqlite
  owner := ⟨0⟩

/-- A team with one member. -/
def joined : List SessionCall :=
  [ .insert "Team" [.set "ID" (.text "RED01")] none,
    .insert "Member" [.set "ID" (.text "ADA01"), .set "Team" (.text "RED01")] none ]

/-- The team is deleted, once by a database that does it and once by one that fails. -/
theorem allOrNothing_joined :
    let t := joined.foldl teamSession.counted.perform {database := ({}, 0)}
    let failing := {t with database := ({transactionFailure := some ⟨none, "disk I/O error", none⟩}, 2)}
    let disband := SessionWrite.delete "Team" (.equals "ID" (.text "RED01"))
    let out := (teamSession.counted.write disband).runOn t
    let out' := (teamSession.counted.write disband).runOn failing
    (AllOrNothing disband t out ∧ out.1.toOption = some () ∧
      (out.2.heap.get? ⟨1⟩).bind (·.get? "Team") = some .null) ∧
    AllOrNothing disband failing out' ∧ out'.1.toOption = none := by
  intro t failing disband out out'
  have hbuild : Registry.build (Pattern.rules 0) teamDecls = .ok teamSession.registry := rfl
  have hover : teamSession.counted.OverModels t := (allOrNothing_write teamSession.counted hbuild).1 _ joined
  refine ⟨⟨((allOrNothing_write teamSession hbuild).2 t hover).1 disband, ?_⟩,
    ((allOrNothing_write teamSession hbuild).2 failing hover).1 disband, ?_⟩
  · decide +kernel
  · decide +kernel

end Session

end RecordMapper
