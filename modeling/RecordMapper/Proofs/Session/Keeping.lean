import RecordMapper.Proofs.Session.Canonical
import RecordMapper.Proofs.Session.SessionCalls

/-! What the calls of a session keep.

Whatever a session is called for, its state changes in a few ways only: the database changes, an instance is adopted,
refreshed or changed, targets are attached, and a bulk update, a delete or a save is followed. What all of these keep,
every call keeps (`KeptByCalls.perform`). A session is also used from outside: instances are made and changed by
whoever holds them, and are queued for the next save; `SessionStep` has these steps too (`KeptBySteps.step`). -/
namespace RecordMapper

namespace Session

variable {β : Type}

/-- What is kept by everything that the calls of a session are made of. -/
structure KeptByCalls (s : Session β) (P : SessionState β → Prop) : Prop where
  database : ∀ (t : SessionState β) (database : β), P t → P {t with database}
  attach : ∀ (t : SessionState β) (h : Handle) (f : Instance → Instance), (∀ i, (f i).unlinked = i.unlinked) →
    P t → P {t with heap := t.heap.modify h f}
  refresh : ∀ (h : Handle) (i : Instance), Attempt.Keeps P (onMemory (refresh h i))
  adopt : ∀ (t : SessionState β) (i : Instance), i.Coherent → i.Canonical →
    s.registry.model? i.model.name = some i.model → P t → P ((s.adopt i).runOn t).2
  update : ∀ (model : String) (condition : Condition) (changes : List (String × Value)),
    Attempt.Keeps P (onMemory (Memory.reconcileUpdate model condition changes))
  delete : ∀ (t : SessionState β) (model : String) (condition : Condition), P t → P (s.dropDeleted model condition t)
  apply : ∀ (t : SessionState β) (plan : FlushPlan), P t → P (applyPlan plan t)
  change : ∀ (t : SessionState β) (h : Handle) (call : InstanceCall),
    P t → P {t with heap := t.heap.modify h (·.perform call)}

namespace KeptByCalls

variable {s : Session β} {P : SessionState β → Prop}

theorem keptByFetch (hP : s.KeptByCalls P) : s.KeptByFetch P where
  resolve i hi hknown := by
    refine Attempt.keeps_get.bind fun t => ?_
    dsimp only
    split
    · exact (hP.refresh _ i).bind fun _ => Attempt.keeps_pure _
    · exact fun t => hP.adopt t i hi.coherent hi.canonical hknown.1
  attach := hP.attach
  database := hP.database

theorem refused (hP : s.KeptByCalls P) {α : Type} {t : SessionState β} (ht : P t) {a : SessionAction β α}
    (hr : s.Refused a t) : P (a.runOn t).2 := by
  obtain ⟨e, database, hrun, _⟩ := hr
  rw [hrun]
  exact hP.database t database ht

theorem keeps_insert (hP : s.KeptByCalls P) {i : Instance} (hi : i.Coherent) (hcanonical : i.Canonical)
    (hmodel : s.registry.model? i.model.name = some i.model) : Attempt.Keeps P (s.insert i) := by
  intro t ht
  rcases s.insert_outcome t i with hrefused | ⟨_, database, _, hrun⟩
  · exact hP.refused ht hrefused
  · rw [hrun]
    exact hP.adopt _ _ hi.commit hcanonical.commit hmodel (hP.database t database ht)

theorem keeps_save (hP : s.KeptByCalls P) (u : BulkUpdate) : Attempt.Keeps P (s.save u) := by
  intro t ht
  rcases s.save_outcome t u with hrefused | ⟨affected, database, _, hrun⟩
  · exact hP.refused ht hrefused
  · rw [hrun]
    have hfollow : Attempt.Keeps P (s.followUpdate u affected) := by
      unfold followUpdate
      dsimp only
      split
      · exact (hP.update _ _ _).bind fun _ => Attempt.keeps_pure _
      · exact Attempt.keeps_pure _
    exact hfollow _ (hP.database t database ht)

theorem keeps_delete (hP : s.KeptByCalls P) (model : String) (p : Predicate) : Attempt.Keeps P (s.delete model p) := by
  intro t ht
  rcases s.delete_outcome t model p with hrefused | ⟨m, condition, affected, database, _, _, hrun⟩
  · exact hP.refused ht hrefused
  · have hdatabase := hP.database t database ht
    rw [hrun]
    dsimp only
    split
    · exact hP.delete _ m.name condition hdatabase
    · exact hdatabase

theorem keeps_saveChanges (hP : s.KeptByCalls P) : Attempt.Keeps P s.saveChanges := by
  intro t ht
  rcases s.saveChanges_outcome t with hrefused | ⟨_, hrun⟩ | ⟨plan, affected, database, _, _, hrun⟩
  · exact hP.refused ht hrefused
  · rw [hrun]
    exact ht
  · rw [hrun]
    exact hP.apply _ plan (hP.database t database ht)

theorem assign (hP : s.KeptByCalls P) {t : SessionState β} (ht : P t) {h : Handle} {i j : Instance} {name : String}
    {v : Value} (hi : t.heap.get? h = some i) (hset : i.set name v = .ok j) : P {t with heap := t.heap.put h j} := by
  have hj : i.perform (.set name v) = j := by
    unfold Instance.perform
    simp only [hset]
  rw [← hj, Heap.put_eq_modify hi (·.perform (.set name v))]
  exact hP.change t h (.set name v) ht

end KeptByCalls

/-- A new draft has a model of the registry and canonical values. -/
theorem canonical_of_draft {s : Session β} {model : String} {history : List InstanceCall} {owner : Option Owner}
    {i : Instance} (h : s.draft model history owner = .ok i) : i.Canonical := by
  unfold draft newInstance at h
  cases hm : s.registry.model model with
  | error e => rw [hm] at h; cases h
  | ok m =>
    rw [hm] at h
    cases h
    have hi := Instance.canonical_performAll m history
    exact ⟨hi.fields, hi.current, hi.key⟩

/-- What the parts of calls keep, every call keeps. -/
theorem KeptByCalls.perform {s : Session β} {P : SessionState β → Prop} (hP : s.KeptByCalls P) {rules : Rules}
    {decls : List ModelDecl} (hr : Registry.build rules decls = .ok s.registry) {t : SessionState β} (ht : P t)
    (call : SessionCall) : P (s.perform t call) := by
  have hknown : ∀ {name m}, s.registry.model name = .ok m → s.Knows m := knows_of_model hr
  cases call with
  | fetch request reading p =>
    unfold Session.perform
    dsimp only
    split
    · next f hf => exact hP.keptByFetch.read hknown (hknown (request_ok hf)) p reading t ht
    · exact ht
  | insert model history owner =>
    unfold Session.perform
    dsimp only
    split
    · next i hd =>
      obtain ⟨hmodel, hi⟩ := draft_ok hd
      exact hP.keeps_insert hi (canonical_of_draft hd) (hknown hmodel).1 t ht
    · exact ht
  | update model p values =>
    unfold Session.perform
    dsimp only
    split
    · next u _ => exact hP.keeps_save u t ht
    · exact ht
  | delete model p => exact hP.keeps_delete model p t ht
  | save => exact hP.keeps_saveChanges t ht
  | set h name v =>
    unfold Session.perform
    dsimp only
    split
    · next j hset =>
      obtain ⟨i, hi, hset⟩ := Option.map_eq_some_iff.1 hset
      exact hP.assign ht hi hset
    · exact ht
    · exact ht

/-! ### Steps from outside -/

end Session

/-- What changes a session's state: its own calls, and what is done with instances by those who hold them. -/
inductive SessionStep where
  | call (call : SessionCall)
  | enqueue (h : Handle)
  /-- A new instance with a history of its own is made. -/
  | create (model : String) (history : List InstanceCall) (owner : Option Owner)
  | change (h : Handle) (call : InstanceCall)
  /-- Targets of navigations are attached or dropped. -/
  | link (h : Handle) (f : Instance → Instance) (hf : ∀ i, (f i).unlinked = i.unlinked)

namespace Session

variable {β : Type}

/-- The state after a step. -/
def step (s : Session β) (t : SessionState β) : SessionStep → SessionState β
  | .call call => s.perform t call
  | .enqueue h => ((enqueue h).runOn t).2
  | .create model history owner =>
    match s.draft model history owner with
    | .ok i => {t with heap := (t.heap.add i).2}
    | .error _ => t
  | .change h call => {t with heap := t.heap.modify h (·.perform call)}
  | .link h f _ => {t with heap := t.heap.modify h f}

/-- What is kept by steps from outside too. -/
structure KeptBySteps (s : Session β) (P : SessionState β → Prop) : Prop extends s.KeptByCalls P where
  add : ∀ (t : SessionState β) (i : Instance), i.Coherent → i.Canonical →
    s.registry.model? i.model.name = some i.model → P t → P {t with heap := (t.heap.add i).2}
  enqueue : ∀ (t : SessionState β) (h : Handle), P t → P {t with tracker := t.tracker.enqueue h}

namespace KeptBySteps

variable {s : Session β} {P : SessionState β → Prop} {rules : Rules} {decls : List ModelDecl}

theorem step (hP : s.KeptBySteps P) (hr : Registry.build rules decls = .ok s.registry) {t : SessionState β} (ht : P t)
    (step : SessionStep) : P (s.step t step) := by
  cases step with
  | call call => exact hP.perform hr ht call
  | enqueue h => exact hP.enqueue t h ht
  | create model history owner =>
    unfold Session.step
    dsimp only
    split
    · next i hd =>
      obtain ⟨hmodel, hi⟩ := draft_ok hd
      exact hP.add t i hi (canonical_of_draft hd) (knows_of_model hr hmodel).1 ht
    · exact ht
  | change h call => exact hP.change t h call ht
  | link h f hf => exact hP.attach t h f hf ht

/-- It holds in every state that a session reaches. -/
theorem reached (hP : s.KeptBySteps P) (hr : Registry.build rules decls = .ok s.registry) {t : SessionState β}
    (ht : P t) (steps : List SessionStep) : P (steps.foldl s.step t) :=
  List.foldlRecOn steps s.step ht fun _ ht step _ => hP.step hr ht step

end KeptBySteps

/-! ### Canonical instances -/

/-- The values of all instances are canonical. -/
def HasCanonical (t : SessionState β) : Prop := t.heap.Canonical

theorem keptBySteps_hasCanonical (s : Session β) : s.KeptBySteps HasCanonical where
  database _ _ ht := ht
  attach _ _ _ hf ht := Heap.Canonical.modify ht fun _ _ hi => hi.of_unlinked (hf _)
  refresh h i t ht := Memory.keepsCanonical_refresh h i t.memory ht
  adopt t i _ hi _ ht := by
    have hadded : (t.heap.add {i with owner := some s.owner}).2.Canonical :=
      Heap.Canonical.add ht ⟨hi.fields, hi.current, hi.key⟩
    exact hadded
  update model condition changes t ht := Memory.keepsCanonical_reconcileUpdate model condition changes t.memory ht
  delete t model condition ht := Memory.Canonical.reconcileDelete (m := t.memory) ht s.registry model condition
  apply t plan ht := Memory.Canonical.apply (m := t.memory) ht plan
  change _ _ call ht := Heap.Canonical.modify ht fun _ _ hi => hi.perform call
  add _ _ _ hi _ ht := Heap.Canonical.add ht hi
  enqueue _ _ ht := ht

/-! ### Lists of the tracker -/

/-- The tracker has no instance twice in one list. -/
structure TracksOnce (t : SessionState β) : Prop where
  tracked : t.tracker.tracked.Nodup
  queued : t.tracker.queued.Nodup

theorem keptBySteps_tracksOnce (s : Session β) : s.KeptBySteps TracksOnce where
  database _ _ ht := ⟨ht.tracked, ht.queued⟩
  attach _ _ _ _ ht := ⟨ht.tracked, ht.queued⟩
  refresh _ _ _ ht := ⟨ht.tracked, ht.queued⟩
  adopt _ _ _ _ _ ht := ⟨nodup_insertHandle ht.tracked, ht.queued⟩
  update _ _ _ _ ht := ⟨ht.tracked, ht.queued⟩
  delete _ _ _ ht := ⟨ht.tracked.filter _, ht.queued.filter _⟩
  apply _ _ ht := ⟨ht.tracked, .nil⟩
  change _ _ _ ht := ⟨ht.tracked, ht.queued⟩
  add _ _ _ _ _ ht := ⟨ht.tracked, ht.queued⟩
  enqueue _ _ ht := ⟨ht.tracked, nodup_insertHandle ht.queued⟩

end Session

end RecordMapper
