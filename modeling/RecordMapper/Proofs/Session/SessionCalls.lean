import RecordMapper.Pattern.Reader
import RecordMapper.Proofs.Session.Identity
import RecordMapper.Session.Scripted

/-! How long a session hands out one instance for each row.

A session is used by calls: fetches, insertions, bulk updates, deletes, saves, and assignments to
the instances it handed out. As long as keys are set when instances are inserted and none is
overwritten under pending changes (`Permits`), what is tracked stays what is cached exactly until
an accepted write files an instance under the key of another one (`tracksCached_iff_filesFreely`).
Until then no two tracked instances stand for one row. -/
namespace RecordMapper

/-- What is asked of a fetch, by names. -/
structure FetchRequest where
  model : String
  includes : List String := []
  orderBy : List (String × Direction) := []
  limit : Nat := 0
  offset : Nat := 0

/-- How a fetch is read. -/
inductive Reading where
  | first? | first | many | all | single | count

inductive SessionCall where
  | fetch (request : FetchRequest) (reading : Reading) (p : Predicate)
  /-- A new instance with a history of its own is inserted. -/
  | insert (model : String) (history : List InstanceCall) (owner : Option Owner)
  | update (model : String) (p : Predicate) (values : List (String × Value))
  | delete (model : String) (p : Predicate)
  | save
  | set (h : Handle) (name : String) (v : Value)

namespace Session

variable {β : Type}

/-- The requested fetch. -/
def request (s : Session β) (r : FetchRequest) : Except Error Fetch := do
  let f ← s.fetch r.model
  let f ← r.includes.foldlM Fetch.include? f
  let f ← r.orderBy.foldlM (fun f e => f.sortBy e.1 e.2) f
  return {f with limit := r.limit, offset := r.offset}

/-- Reads a fetch; what it answers is left to the caller. -/
def read (s : Session β) (f : Fetch) (p : Predicate) : Reading → SessionAction β Unit
  | .first? => (fun _ => ()) <$> s.first? f p
  | .first => (fun _ => ()) <$> s.first f p
  | .many => (fun _ => ()) <$> s.many f p
  | .all => (fun _ => ()) <$> s.all f
  | .single => (fun _ => ()) <$> s.single f p
  | .count => (fun _ => ()) <$> s.count f p

/-- A new instance of a model after a history of its own. -/
def draft (s : Session β) (model : String) (history : List InstanceCall) (owner : Option Owner) :
    Except Error Instance :=
  (s.newInstance model).map fun i => {i.performAll history with owner}

/-- The bulk update of some values. -/
def bulkUpdate (s : Session β) (model : String) (p : Predicate) (values : List (String × Value)) :
    Except Error BulkUpdate := do
  (← s.update model p).setAll s.registry.rules values

/-- The state after a call; what a failing call changed stays changed. -/
def perform (s : Session β) (t : SessionState β) : SessionCall → SessionState β
  | .fetch r reading p =>
    match s.request r with
    | .ok f => ((s.read f p reading).runOn t).2
    | .error _ => t
  | .insert model history owner =>
    match s.draft model history owner with
    | .ok i => ((s.insert i).runOn t).2
    | .error _ => t
  | .update model p values =>
    match s.bulkUpdate model p values with
    | .ok u => ((s.save u).runOn t).2
    | .error _ => t
  | .delete model p => ((s.delete model p).runOn t).2
  | .save => (s.saveChanges.runOn t).2
  | .set h name v =>
    match (t.heap.get? h).map (Instance.set · name v) with
    | some (.ok i) => {t with heap := t.heap.put h i}
    | some (.error _) => t
    | none => t

/-- The key of an inserted instance is set, and no key is overwritten under pending changes. -/
def Permits (s : Session β) (t : SessionState β) : SessionCall → Prop
  | .insert model history owner =>
    ∀ i, s.draft model history owner = .ok i → Accepts (s.insert i) t → i.KeySet
  | .update model p values => t.memory.KeepsPendingKeys (s.perform t (.update model p values)).memory
  | .delete model p => t.memory.KeepsPendingKeys (s.perform t (.delete model p)).memory
  | _ => True

/-- An accepted write files no instance under the key of another one: an insertion under a key
without instance, and whatever else moves instances, each of them to a key of its own. -/
def FilesFreely (s : Session β) (t : SessionState β) : SessionCall → Prop
  | .insert model history owner =>
    ∀ i, s.draft model history owner = .ok i → Accepts (s.insert i) t →
      t.cache.get? i.model.name i.primaryKey = none
  | .update model p values =>
    ∀ u, s.bulkUpdate model p values = .ok u → Accepts (s.save u) t →
      AllSteps (Memory.move (·.takeAll u.changes)) (Memory.MovesFreely (·.takeAll u.changes))
        (t.memory.cachedWith u.model.name u.condition.evaluate) t.memory
  | .delete model p =>
    Accepts (s.delete model p) t → ∀ m condition, s.compile model p = .ok (m, condition) →
      Memory.RemovesFreely s.registry t.cache.size
        (t.memory.cachedWith m.name condition.evaluate).reverse t.memory
  | .save =>
    Accepts s.saveChanges t →
      AllSteps (Memory.move (·.commit)) (Memory.MovesFreely (·.commit)) (t.tracker.candidates t.heap) t.memory
  | _ => True

/-! ### What calls are made of -/

section

variable {s : Session β}

theorem knows_of_model {rules : Rules} {decls : List ModelDecl} (hr : Registry.build rules decls = .ok s.registry)
    {name : String} {m : Model} (h : s.registry.model name = .ok m) : s.Knows m := by
  obtain ⟨hfound, hm⟩ := Registry.model?_of_model h
  exact ⟨hfound, Registry.nodup_fields hr hm⟩

theorem model_include? {f f' : Fetch} {navigation : String} (h : f.include? navigation = .ok f') :
    f'.model = f.model := by
  obtain ⟨_, _, h⟩ := bind_ok h
  cases h
  rfl

theorem model_sortBy {f f' : Fetch} {field : String} {direction : Direction}
    (h : f.sortBy field direction = .ok f') : f'.model = f.model := by
  obtain ⟨_, _, h⟩ := bind_ok h
  cases h
  rfl

theorem request_ok {r : FetchRequest} {f : Fetch} (h : s.request r = .ok f) :
    s.registry.model r.model = .ok f.model := by
  obtain ⟨f₀, hfetch, h⟩ := bind_ok h
  obtain ⟨f₁, hincludes, h⟩ := bind_ok h
  obtain ⟨f₂, horder, h⟩ := bind_ok h
  cases h
  have hfirst : s.registry.model r.model = .ok f₀.model := by
    unfold fetch at hfetch
    cases hm : s.registry.model r.model with
    | error e => rw [hm] at hfetch; cases hfetch
    | ok m => rw [hm] at hfetch; cases hfetch; rfl
  have hincluded : f₁.model = f₀.model :=
    invariant_of_foldlM_ok (·.model = f₀.model) (fun f n f' hf' hf => (model_include? hf').trans hf) hincludes rfl
  have hsorted : f₂.model = f₁.model :=
    invariant_of_foldlM_ok (·.model = f₁.model) (fun f e f' hf' hf => (model_sortBy hf').trans hf) horder rfl
  rw [hfirst, ← hincluded, ← hsorted]

theorem draft_ok {model : String} {history : List InstanceCall} {owner : Option Owner} {i : Instance}
    (h : s.draft model history owner = .ok i) : s.registry.model model = .ok i.model ∧ i.Coherent := by
  unfold draft newInstance at h
  cases hm : s.registry.model model with
  | error e => rw [hm] at h; cases h
  | ok m =>
    rw [hm] at h
    cases h
    have hi := Instance.coherent_performAll m history
    exact ⟨congrArg Except.ok (Instance.model_performAll (.new m) history).symm,
      hi.fields, hi.snapshot, hi.unset⟩

end

end Session

namespace BulkUpdate

theorem set_ok {u u' : BulkUpdate} {rules : Rules} {name : String} {v : Value}
    (h : u.set rules name v = .ok u') :
    u'.model = u.model ∧ ∃ f w, u.model.field? f.name = some f ∧ f.coerce w = .ok w ∧
      u'.changes = u.changes ++ [(f.name, w)] := by
  obtain ⟨f, hf, h⟩ := bind_ok h
  dsimp only at h
  obtain ⟨_, h⟩ := unless_ok h
  obtain ⟨w, hw, h⟩ := bind_ok h
  obtain ⟨_, _, h⟩ := bind_ok h
  cases h
  refine ⟨rfl, f, w, Model.field?_of_requireField hf, Field.coerce_coerce (mapError_ok hw), ?_⟩
  exact List.map_append

theorem takes_setAll {u u' : BulkUpdate} {rules : Rules} {values : List (String × Value)}
    (h : u.setAll rules values = .ok u') (hu : u.model.Takes u.changes) :
    u'.model = u.model ∧ u'.model.Takes u'.changes := by
  induction values generalizing u with
  | nil =>
    cases h
    exact ⟨rfl, hu⟩
  | cons e rest ih =>
    obtain ⟨u₁, hfirst, h⟩ := bind_ok h
    obtain ⟨hmodel, f, w, hf, hw, hchanges⟩ := set_ok hfirst
    have hu₁ : u₁.model.Takes u₁.changes := by
      rw [hmodel, hchanges]
      intro change hchange
      rcases List.mem_append.1 hchange with hchange | hchange
      · exact hu change hchange
      · obtain rfl := List.mem_singleton.1 hchange
        exact ⟨f, hf, hw⟩
    obtain ⟨hmodel', htakes⟩ := ih h hu₁
    exact ⟨hmodel'.trans hmodel, htakes⟩

end BulkUpdate

namespace Session

variable {s : Session β}

theorem bulkUpdate_ok {model : String} {p : Predicate} {values : List (String × Value)} {u : BulkUpdate}
    (h : s.bulkUpdate model p values = .ok u) :
    s.registry.model model = .ok u.model ∧ u.model.Takes u.changes := by
  obtain ⟨u₀, hupdate, h⟩ := bind_ok h
  obtain ⟨⟨m, condition⟩, hcompile, hupdate⟩ := bind_ok hupdate
  obtain ⟨m', hm, hcompile⟩ := bind_ok hcompile
  obtain ⟨_, _, hcompile⟩ := bind_ok hcompile
  cases hcompile
  cases hupdate
  obtain ⟨hmodel, htakes⟩ := BulkUpdate.takes_setAll h fun _ h => absurd h List.not_mem_nil
  exact ⟨hmodel ▸ hm, htakes⟩

/-! ### Steps -/

theorem KeptByFetch.read {P : SessionState β → Prop} (hP : s.KeptByFetch P)
    (hknown : ∀ {name m}, s.registry.model name = .ok m → s.Knows m) {f : Fetch} (hf : s.Knows f.model)
    (p : Predicate) (reading : Reading) : Attempt.Keeps P (s.read f p reading) := by
  have hrun : ∀ filter limit, Attempt.Keeps P (s.run f filter limit) := hP.run hknown hf
  have hfirst : Attempt.Keeps P (s.first? f p) := by
    refine (Attempt.keeps_ofExcept _).bind fun condition => Attempt.keeps_get.bind fun t => ?_
    dsimp only
    split
    · exact Attempt.keeps_pure _
    · exact (hrun _ _).bind fun _ => Attempt.keeps_pure _
  cases reading with
  | first? => exact hfirst.map _
  | first =>
    refine Attempt.Keeps.map (hfirst.bind fun found => ?_) _
    split
    · exact Attempt.keeps_pure _
    · exact Attempt.keeps_throw _
  | many => exact Attempt.Keeps.map ((Attempt.keeps_ofExcept _).bind fun condition => hrun _ _) _
  | all => exact (hrun _ _).map _
  | single =>
    refine Attempt.Keeps.map ((Attempt.keeps_ofExcept _).bind fun condition => (hrun _ _).bind fun found => ?_) _
    split
    · exact Attempt.keeps_pure _
    · exact Attempt.keeps_throw _
    · exact Attempt.keeps_throw _
  | count =>
    refine Attempt.Keeps.map ((Attempt.keeps_ofExcept _).bind fun condition =>
      (Attempt.keeps_ofExcept _).bind fun plan => (Attempt.keeps_ofExcept _).bind fun statement =>
      (hP.onDatabase _).bind fun rows => ?_) _
    split
    · exact Attempt.keeps_ofExcept _
    · exact Attempt.keeps_pure _

/-- A call that is permitted keeps the invariant, and keeps what is tracked cached exactly when it
files freely. -/
theorem Good.perform {rules : Rules} {decls : List ModelDecl} (hcache : s.useCache = true)
    (hr : Registry.build rules decls = .ok s.registry) {t : SessionState β} (hg : s.Good t)
    {call : SessionCall} (hp : s.Permits t call) :
    s.Sound (s.perform t call) ∧ ((s.perform t call).TracksCached ↔ s.FilesFreely t call) := by
  have hknown : ∀ {name m}, s.registry.model name = .ok m → s.Knows m := knows_of_model hr
  have hsame : s.Sound t ∧ (t.TracksCached ↔ True) := ⟨hg.1, fun _ => trivial, fun _ => hg.2⟩
  cases call with
  | fetch r reading p =>
    unfold Session.perform
    dsimp only
    split
    · next f hf =>
      have hread := (keptByFetch_good hcache).read hknown (hknown (request_ok hf)) p reading t hg
      exact ⟨hread.1, fun _ => trivial, fun _ => hread.2⟩
    · exact hsame
  | insert model history owner =>
    unfold Session.perform FilesFreely
    dsimp only
    cases hd : s.draft model history owner with
    | error e =>
      refine ⟨hg.1, ⟨fun _ _ h => ?_, fun _ => hg.2⟩⟩
      cases h
    | ok i =>
      obtain ⟨hmodel, hi⟩ := draft_ok hd
      obtain ⟨hsound, hiff⟩ := hg.insert hcache hi (hknown hmodel).1 (hp i hd)
      refine ⟨hsound, hiff.trans ⟨fun h j hj => ?_, fun h => h i rfl⟩⟩
      obtain rfl := Except.ok.inj hj
      exact h
  | update model p values =>
    unfold Permits Session.perform at hp
    unfold Session.perform FilesFreely
    dsimp only at hp ⊢
    cases hb : s.bulkUpdate model p values with
    | error e =>
      refine ⟨hg.1, ⟨fun _ _ h => ?_, fun _ => hg.2⟩⟩
      cases h
    | ok u =>
      rw [hb] at hp
      obtain ⟨hmodel, htakes⟩ := bulkUpdate_ok hb
      obtain ⟨hsound, hiff⟩ := hg.save hcache (hknown hmodel).1 htakes hp
      refine ⟨hsound, hiff.trans ⟨fun h v hv => ?_, fun h => h u rfl⟩⟩
      obtain rfl := Except.ok.inj hv
      exact h
  | delete model p => exact hg.delete hcache hp
  | save => exact hg.saveChanges
  | set h name v =>
    unfold Session.perform
    dsimp only
    split
    · next j hset =>
      obtain ⟨i, hi, hset⟩ := Option.map_eq_some_iff.1 hset
      exact hg.assign hi hset
    · exact hsame
    · exact hsame

theorem Good.performAll {rules : Rules} {decls : List ModelDecl} (hcache : s.useCache = true)
    (hr : Registry.build rules decls = .ok s.registry) {t : SessionState β} (hg : s.Good t) {calls : List SessionCall}
    (hp : AllSteps s.perform s.Permits calls t) (hfree : AllSteps s.perform s.FilesFreely calls t) :
    s.Good (calls.foldl s.perform t) := by
  induction calls generalizing t with
  | nil => exact hg
  | cons call rest ih =>
    obtain ⟨hsound, hiff⟩ := hg.perform hcache hr hp.1
    exact ih ⟨hsound, hiff.2 hfree.1⟩ hp.2 hfree.2

theorem good_start (s : Session β) (database : β) : s.Good {database} :=
  ⟨sound_start s database, fun h => by simp [Cache.contains, Heap.get?]⟩

/-- While the calls file freely, and no longer, what is tracked is what is cached; and as long as it
is, no two instances that the tracker holds stand for one row. -/
theorem tracksCached_iff_filesFreely (s : Session β) {rules : Rules} {decls : List ModelDecl}
    (hcache : s.useCache = true) (hr : Registry.build rules decls = .ok s.registry) (database : β)
    (calls : List SessionCall) (hp : AllSteps s.perform s.Permits calls {database}) :
    (AllSteps s.perform (fun t call => (s.perform t call).TracksCached) calls {database} ↔
      AllSteps s.perform s.FilesFreely calls {database}) ∧
    (AllSteps s.perform s.FilesFreely calls {database} →
      AllSteps s.perform (fun t call => (s.perform t call).TwinFree) calls {database}) := by
  suffices ∀ t, s.Good t → AllSteps s.perform s.Permits calls t →
      (AllSteps s.perform (fun t call => (s.perform t call).TracksCached) calls t ↔
        AllSteps s.perform s.FilesFreely calls t) ∧
      (AllSteps s.perform s.FilesFreely calls t →
        AllSteps s.perform (fun t call => (s.perform t call).TwinFree) calls t) from
    this _ (good_start s database) hp
  clear hp
  induction calls with
  | nil => exact fun _ _ _ => ⟨⟨fun _ => trivial, fun _ => trivial⟩, fun _ => trivial⟩
  | cons call rest ih =>
    rintro t hg ⟨hp, hrest⟩
    obtain ⟨hsound, hiff⟩ := hg.perform hcache hr hp
    refine ⟨⟨fun htracks => ⟨hiff.1 htracks.1, ?_⟩, fun hfree => ⟨hiff.2 hfree.1, ?_⟩⟩,
      fun hfree => ⟨hsound.twinFree (hiff.2 hfree.1), ?_⟩⟩
    · exact (ih _ ⟨hsound, htracks.1⟩ hrest).1.1 htracks.2
    · exact (ih _ ⟨hsound, hiff.2 hfree.1⟩ hrest).1.2 hfree.2
    · exact (ih _ ⟨hsound, hiff.2 hfree.1⟩ hrest).2 hfree.2

/-! ### Runs -/

def peopleDecl : ModelDecl := {name := "Person", fields := Memory.people.fields}

def peopleRegistry : Registry := ⟨[{Memory.people with fields := markSoleKey Memory.people.fields}], Pattern.rules 0⟩

def peopleSession : Session Script :=
  {registry := peopleRegistry, backend := Script.backend .sqlite .sqlite, owner := ⟨0⟩}

def isNamed (name : String) : Predicate := .equals "Name" (.text name)

/-- A person is inserted, found again, renamed and moved, and another one is inserted in the old
place. -/
def movedAway : List SessionCall :=
  [ .insert "Person" [.set "ID" (.text "ADA01"), .set "Name" (.text "Ada")] none,
    .fetch {model := "Person"} .many (isNamed "Ada"),
    .set ⟨0⟩ "Name" (.text "Eve"),
    .save,
    .update "Person" (isNamed "Eve") [("ID", .text "EVE01")],
    .insert "Person" [.set "ID" (.text "ADA01"), .set "Name" (.text "Bob")] none ]

theorem twinFree_movedAway :
    AllSteps peopleSession.perform peopleSession.Permits movedAway {database := {}} ∧
      AllSteps peopleSession.perform (fun t call => (peopleSession.perform t call).TwinFree) movedAway
        {database := {}} := by
  have hp : AllSteps peopleSession.perform peopleSession.Permits movedAway {database := {}} := by
    refine ⟨fun i hi ha => ?_, trivial, trivial, trivial, ?_, fun i hi ha => ?_, trivial⟩
    · clear ha
      revert i
      decide +kernel
    · exact Memory.keepsPendingKeys_of_clean (by decide +kernel)
    · clear ha
      revert i
      decide +kernel
  have hfree : AllSteps peopleSession.perform peopleSession.FilesFreely movedAway {database := {}} := by
    refine ⟨fun i hi ha => ?_, trivial, trivial, fun _ => ?_, fun u hu ha => ?_, fun i hi ha => ?_, trivial⟩
    · clear ha
      revert i
      decide +kernel
    · decide +kernel
    · clear ha
      revert u
      decide +kernel
    · clear ha
      revert i
      decide +kernel
  have hbuild : Registry.build (Pattern.rules 0) [peopleDecl] = .ok peopleSession.registry := rfl
  exact ⟨hp, (tracksCached_iff_filesFreely peopleSession rfl hbuild {} movedAway hp).2 hfree⟩

/-- A person is inserted and renamed, the row is deleted under the old name, which the renamed
instance does not answer to any more, and another one is inserted in its place. -/
def deletedUnderOldName : List SessionCall :=
  [ .insert "Person" [.set "ID" (.text "ADA01"), .set "Name" (.text "Ada")] none,
    .set ⟨0⟩ "Name" (.text "Eve"),
    .delete "Person" (isNamed "Ada"),
    .insert "Person" [.set "ID" (.text "ADA01"), .set "Name" (.text "Bob")] none ]

/-- An insertion under the key of a tracked instance leaves two for one row, and the change of the
first one is still to be written. -/
theorem not_twinFree_deletedUnderOldName :
    let t := deletedUnderOldName.foldl peopleSession.perform {database := {}}
    t.tracker.candidates t.heap = [⟨0⟩] ∧ ¬t.TwinFree := by
  intro t
  refine ⟨by decide +kernel, fun h => ?_⟩
  obtain ⟨i, hi⟩ := Option.isSome_iff_exists.1 (show (t.heap.get? ⟨0⟩).isSome = true by decide +kernel)
  obtain ⟨j, hj⟩ := Option.isSome_iff_exists.1 (show (t.heap.get? ⟨1⟩).isSome = true by decide +kernel)
  have hsame : (t.heap.get? ⟨0⟩).map (fun i => (i.model.name, i.persistedKey)) =
      (t.heap.get? ⟨1⟩).map fun i => (i.model.name, i.persistedKey) := by
    decide +kernel
  rw [hi, hj] at hsame
  obtain ⟨hmodel, hkey⟩ := Prod.mk.inj (Option.some.inj hsame)
  have htwins := h ⟨0⟩ ⟨1⟩ i j (by decide +kernel) (by decide +kernel) hi hj hmodel hkey
  cases htwins

end Session

end RecordMapper
