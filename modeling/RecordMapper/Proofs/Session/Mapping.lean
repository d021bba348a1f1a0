import RecordMapper.Proofs.Fetch.Occurrences
import RecordMapper.Proofs.Session.Atomicity

/-! What a fetch makes of the instances of a session.

A fetch meets rows of one key many times: as roots, as targets of joins and inside documents, with
values that may differ. Each time the row is mapped to one instance, the one cached for the key or,
the first time, a new one (`Resolves`). By induction on these steps a whole fetch leaves pending
changes alone, has one instance for each key, and leaves every other instance that it reached with
the values of the last row that it met (`Maps`). -/
namespace RecordMapper

/-- The last instance that a handle was named for. -/
def Taken.last? {σ : Type} (log : List (Taken σ)) (h : Handle) : Option (Taken σ) :=
  log.reverse.find? (·.handle = h)

theorem Taken.last?_concat {σ : Type} (log : List (Taken σ)) (e : Taken σ) (h : Handle) :
    last? (log ++ [e]) h = if e.handle = h then some e else last? log h := by
  unfold last?
  rw [List.reverse_concat, List.find?_cons]
  split <;> simp_all

namespace Session

variable {β : Type} {s : Session β} {t t' t'' : SessionState β} {i : Instance} {h : Handle}

/-! ### One instance -/

/-- A refreshed instance is filed where it was. -/
theorem Refreshes.filed?_move {m : Memory} (hr : Refreshes m h i) (model key : String) :
    (m.move (·.takeAll i.setValues) h).cache.filed? model key = m.cache.filed? model key := by
  obtain ⟨j, hj, hname, htext⟩ := hr.filed.under hr.cached
  have hcached : m.cache.filed? i.model.name (Value.keyText i.primaryKey) = some h := hr.cached
  have hmoved : (m.heap.modify h (·.takeAll i.setValues)).get? h = some (j.takeAll i.setValues) := by
    rw [Heap.get?_modify_self, hj]
    rfl
  have hkey : (j.takeAll i.setValues).keyText = Value.keyText i.primaryKey := by
    unfold Instance.keyText
    rw [hr.fresh.persistedKey_takeAll (hr.coherent hj) (hr.model j hj) hr.names]
  show (m.cache.rekey _ h (m.persistedKey h)).filed? model key = _
  rw [Cache.filed?_rekey hmoved, Memory.keyText_persistedKey hj, htext, hkey,
    (Instance.takesOver_takeAll i.setValues j).model, hname, if_pos hcached]
  split
  · next hat => rw [hat.1, hat.2, hcached]
  · rfl

/-- What is done with an instance that comes from a row and is mapped to a handle. -/
structure Resolves (i : Instance) (t : SessionState β) (h : Handle) (t' : SessionState β) : Prop where
  filed : t'.memory.Filed
  cached : ∀ model key, t'.cache.filed? model key =
    if model = i.model.name ∧ key = Value.keyText i.primaryKey then some h else t.cache.filed? model key
  named : ∀ k, t.cache.get? i.model.name i.primaryKey = some k → h = k
  new : t.cache.get? i.model.name i.primaryKey = none → t.heap.get? h = none ∧ h ∈ t'.tracker.tracked
  tracked : ∀ k ∈ t.tracker.tracked, k ∈ t'.tracker.tracked
  others : ∀ k, k ≠ h → t'.heap.get? k = t.heap.get? k
  pending : ∀ j, t.heap.get? h = some j → j.isDirty = true → t'.heap.get? h = some j
  taken : (∀ j, t.heap.get? h = some j → j.isDirty = false) → ∃ j, t'.heap.get? h = some j ∧ j.cells = i.cells

theorem resolves_cached (hcache : s.useCache = true) (hr : Refreshes t.memory h i)
    (hrun : (s.resolve i).runOn t = (.ok h, t')) : Resolves i t h t' := by
  obtain ⟨j, hj, -, -⟩ := hr.filed.under hr.cached
  have hj : t.heap.get? h = some j := hj
  have hfollows := (follows_refresh hr).1
  rw [runOn_refresh hr] at hfollows
  rw [runOn_resolve_cached hcache hr] at hrun
  cases hrun
  have hheld : ∀ model key, t.cache.filed? model key =
      if model = i.model.name ∧ key = Value.keyText i.primaryKey then some h else t.cache.filed? model key := by
    intro model key
    split
    · next hat =>
      rw [hat.1, hat.2]
      exact hr.cached
    · rfl
  refine ⟨hfollows.filed, fun model key => ?_, fun k hk => Option.some.inj (hr.cached.symm.trans hk), fun hnone => ?_,
    fun _ hk => hk, fun k hk => ?_, fun l hl hdirty => ?_, fun hclean => ?_⟩
  · rw [← hheld]
    show (if _ then t.memory else _ : Memory).cache.filed? model key = _
    split
    · rfl
    · exact hr.filed?_move model key
  · exact absurd (hr.cached.symm.trans hnone) nofun
  · show (if _ then t.memory else _ : Memory).heap.get? k = _
    split
    · rfl
    · exact t.heap.get?_modify_of_ne hk _
  · rw [if_pos ((Heap.holds_of_get? hl _).trans hdirty)]
    exact hl
  · rw [if_neg (by rw [Heap.holds_of_get? hj, hclean j hj]; decide)]
    refine ⟨j.takeAll i.setValues, ?_, hr.fresh.cells_takeAll (hr.coherent hj) (hr.model j hj) hr.names⟩
    show (t.heap.modify h _).get? h = _
    rw [Heap.get?_modify_self, hj]
    rfl

theorem resolves_new (hcache : s.useCache = true) (hfiled : t.memory.Filed) (hi : i.Fresh)
    (hnone : t.cache.get? i.model.name i.primaryKey = none) (hrun : (s.resolve i).runOn t = (.ok h, t')) :
    Resolves i t h t' := by
  let j : Instance := {i with owner := some s.owner}
  have hadd : t.heap.get? (t.heap.add j).1 = none := t.heap.get?_add_fresh j
  have hj : (t.heap.add j).2.get? (t.heap.add j).1 = some j := t.heap.get?_add_self j
  have hothers : ∀ k, k ≠ (t.heap.add j).1 → (t.heap.add j).2.get? k = t.heap.get? k := fun k hk => by
    rw [Heap.get?_add, if_neg hk]
  rw [runOn_resolve_new hnone, runOn_adopt hcache] at hrun
  cases hrun
  have hkey : j.keyText = Value.keyText i.primaryKey := congrArg Value.keyText hi.persistedKey
  refine ⟨(hfiled.add j).register _, fun model key => ?_, fun k hk => absurd (hnone.symm.trans hk) nofun,
    fun _ => ⟨hadd, mem_insertHandle.2 (.inr rfl)⟩, fun k hk => mem_insertHandle.2 (.inl hk), hothers,
    fun l hl _ => absurd (hadd.symm.trans hl) nofun, fun _ => ⟨j, hj, rfl⟩⟩
  rw [← hkey]
  exact Cache.filed?_register hj model key

/-- A session that has a cache maps an instance in this way, whatever it has cached. -/
theorem resolves (hcache : s.useCache = true) (hover : s.OverModels t) (hfiled : t.memory.Filed) (hi : i.Fresh)
    (hknown : s.Knows i.model) (hrun : (s.resolve i).runOn t = (.ok h, t')) : Resolves i t h t' := by
  cases hfound : t.cache.get? i.model.name i.primaryKey with
  | none => exact resolves_new hcache hfiled hi hfound hrun
  | some k =>
    have hr : Refreshes t.memory k i := Memory.Over.refreshes hover hfiled hi hknown.2 hknown.1 hfound
    obtain rfl : k = h := by
      rw [runOn_resolve_cached hcache hr] at hrun
      cases hrun
      rfl
    exact resolves_cached hcache hr hrun

/-! ### Whole fetches -/

/-- What has become of the instances when those in a log were mapped, one after the other. -/
structure Maps (s : Session β) (t : SessionState β) (log : List (Taken (SessionState β))) (t' : SessionState β) :
    Prop where
  models : s.OverModels t'
  filed : t'.memory.Filed
  /-- Instances with pending changes are as before, but for the targets that they have loaded. -/
  pending : ∀ h i, t.heap.get? h = some i → i.isDirty = true →
    ∃ j, t'.heap.get? h = some j ∧ j.unlinked = i.unlinked
  /-- No other instance has pending changes. -/
  clean : ∀ h, (∀ i, t.heap.get? h = some i → i.isDirty = false) → ∀ j, t'.heap.get? h = some j → j.isDirty = false
  /-- Where an instance was cached for the key, that is used. -/
  named : ∀ e ∈ log, ∀ h, e.before.cache.get? e.made.model.name e.made.primaryKey = some h → e.handle = h
  /-- Where none was, it is a new one, which is tracked. -/
  new : ∀ e ∈ log, e.before.cache.get? e.made.model.name e.made.primaryKey = none →
    e.before.heap.get? e.handle = none ∧ e.handle ∈ t'.tracker.tracked
  /-- From then on it is cached for the key. -/
  cached : ∀ e ∈ log, t'.cache.get? e.made.model.name e.made.primaryKey = some e.handle
  /-- Instances without pending changes have the values of the last row that they were mapped to, as committed ones. -/
  last : ∀ h e, Taken.last? log h = some e → (∀ i, t.heap.get? h = some i → i.isDirty = false) →
    ∃ j, t'.heap.get? h = some j ∧ j.cells = e.made.cells ∧ ∀ c ∈ j.cells, c.baseline = c.current

namespace Maps

variable {log : List (Taken (SessionState β))}

theorem start (hover : s.OverModels t) (hfiled : t.memory.Filed) : s.Maps t [] t where
  models := hover
  filed := hfiled
  pending _ i hi _ := ⟨i, hi, rfl⟩
  clean _ h := h
  named := nofun
  new := nofun
  cached := nofun
  last _ _ h := by cases h

/-- One more instance is mapped. -/
theorem take (hm : s.Maps t log t') (hi : i.Fresh) (hover : s.OverModels t'') (hr : Resolves i t' h t'') :
    s.Maps t (log ++ [⟨i, t', h⟩]) t'' where
  models := hover
  filed := hr.filed
  pending k l hl hdirty := by
    obtain ⟨j, hj, hlj⟩ := hm.pending k l hl hdirty
    refine ⟨j, ?_, hlj⟩
    by_cases hk : k = h
    · subst hk
      exact hr.pending j hj (Instance.isDirty_of_unlinked hlj ▸ hdirty)
    · rw [hr.others k hk]
      exact hj
  clean k hclean j hj := by
    by_cases hk : k = h
    · subst hk
      obtain ⟨l, hl, hcells⟩ := hr.taken (hm.clean k hclean)
      obtain rfl : l = j := Option.some.inj (hl.symm.trans hj)
      exact (Instance.isDirty_congr hcells).trans hi.not_isDirty
    · rw [hr.others k hk] at hj
      exact hm.clean k hclean j hj
  named e he := by
    rcases List.mem_append.1 he with he | he
    · exact hm.named e he
    · obtain rfl := List.mem_singleton.1 he
      exact hr.named
  new e he hnone := by
    rcases List.mem_append.1 he with he | he
    · exact (hm.new e he hnone).imp_right (hr.tracked _)
    · obtain rfl := List.mem_singleton.1 he
      exact hr.new hnone
  cached e he := by
    rw [Cache.get?, hr.cached]
    rcases List.mem_append.1 he with he | he
    · split
      · next hat =>
        -- The instance has a key that was met before, so it is mapped to the same one.
        have hheld := hm.cached e he
        rw [Cache.get?, hat.1, hat.2] at hheld
        exact congrArg some (hr.named _ hheld)
      · exact hm.cached e he
    · obtain rfl := List.mem_singleton.1 he
      exact if_pos ⟨rfl, rfl⟩
  last k e hlast hclean := by
    rw [Taken.last?_concat] at hlast
    split at hlast
    · next hk =>
      cases hlast
      obtain rfl : h = k := hk
      obtain ⟨j, hj, hcells⟩ := hr.taken (hm.clean h hclean)
      exact ⟨j, hj, hcells, fun c hc => (hi.settled c (hcells ▸ hc)).2.1⟩
    · next hk =>
      rw [hr.others k (Ne.symm hk)]
      exact hm.last k e hlast hclean

/-- Targets are attached to an instance. -/
theorem attach (hm : s.Maps t log t') (h : Handle) {f : Instance → Instance}
    (hf : ∀ i, (f i).unlinked = i.unlinked) : s.Maps t log {t' with heap := t'.heap.modify h f} := by
  have hrows : t'.heap.SameRows (t'.heap.modify h f) := t'.heap.sameRows_modify h hf
  refine ⟨(keptBySteps_overModels s).attach t' h f hf hm.models, (hm.filed.follows_unlinked hrows).1.filed,
    fun k i hi hdirty => ?_, fun k hclean j hj => ?_, hm.named, hm.new, hm.cached, fun k e hlast hclean => ?_⟩
  · obtain ⟨j, hj, hij⟩ := hm.pending k i hi hdirty
    obtain ⟨l, hl, hjl⟩ := hrows.kept hj
    exact ⟨l, hl, hjl.trans hij⟩
  · obtain ⟨i, hi, hij⟩ := hrows.before hj
    rw [Instance.isDirty_of_unlinked hij]
    exact hm.clean k hclean i hi
  · obtain ⟨j, hj, hcells, hcommitted⟩ := hm.last k e hlast hclean
    obtain ⟨l, hl, hjl⟩ := hrows.kept hj
    have hsame := Instance.cells_of_unlinked hjl
    exact ⟨l, hl, hsame.trans hcells, hsame ▸ hcommitted⟩

/-- Instances in the log are mapped to one handle exactly when they are of one model and have one key. -/
theorem handle_eq_iff (hm : s.Maps t log t') {e e' : Taken (SessionState β)} (he : e ∈ log) (he' : e' ∈ log)
    (hfresh : e.made.Fresh) (hfresh' : e'.made.Fresh) :
    e.handle = e'.handle ↔ e.made.model.name = e'.made.model.name ∧ e.made.primaryKey = e'.made.primaryKey := by
  have hcached := hm.cached e he
  have hcached' := hm.cached e' he'
  constructor
  · intro heq
    rw [← heq] at hcached'
    obtain ⟨j, hj, hname, htext⟩ := hm.filed.under hcached
    obtain ⟨hname', htext'⟩ := hm.filed.eq_of_filed hcached' hj
    exact ⟨hname.symm.trans hname'.symm,
      hfresh.canonical.primaryKey.inj hfresh'.canonical.primaryKey (htext.symm.trans htext'.symm)⟩
  · rintro ⟨hname, hkey⟩
    rw [hname, hkey] at hcached
    exact Option.some.inj (hcached.symm.trans hcached')

end Maps

/-- A keeper of a session maps whatever fresh instances it is given. -/
theorem maps_of_takes (hcache : s.useCache = true) {log : List (Taken (SessionState β))}
    (hlog : ∀ e ∈ log, e.made.Fresh ∧ s.Knows e.made.model) (hover : s.OverModels t) (hfiled : t.memory.Filed)
    (htakes : s.keeper.Takes t log t') : s.Maps t log t' := by
  induction htakes with
  | start => exact .start hover hfiled
  | @take log t₁ t₂ i h _ run ih =>
    have hm := ih fun e he => hlog e (List.mem_append_left _ he)
    obtain ⟨hfresh, hknown⟩ : i.Fresh ∧ s.Knows i.model := hlog _ (List.mem_append_right _ (.head _))
    have hkept : s.OverModels ((s.keeper.resolve i).runOn t₁).2 :=
      (keptBySteps_overModels s).keptByFetch.resolve i hfresh hknown t₁ hm.models
    rw [run] at hkept
    exact hm.take hfresh hkept (resolves hcache hm.models hm.filed hfresh hknown run)
  | attachSingle root _ _ _ _ ih => exact (ih hlog).attach root fun _ => rfl
  | attachCollection root _ _ _ _ ih => exact (ih hlog).attach root fun _ => rfl

/-- The rows of a plan have been mapped to instances: all that the rows hold was mapped in its order, the roots to the
handles that were returned, and to one handle exactly what is of one model and has one key. -/
def MapsRows (s : Session β) (p : FetchPlan) (rows : List Row) (t : SessionState β) (roots : List Handle)
    (t' : SessionState β) : Prop :=
  ∃ logs : List (List (Taken (SessionState β))),
    List.Forall₂ (fun row log => p.occurrences row = .ok (log.map (·.made))) rows logs ∧
    logs.map (fun log => log.head?.map (·.handle)) = roots.map some ∧
    s.keeper.Takes t logs.flatten t' ∧ s.Maps t logs.flatten t' ∧
    ∀ e ∈ logs.flatten, ∀ e' ∈ logs.flatten, e.handle = e'.handle ↔
      e.made.model.name = e'.made.model.name ∧ e.made.primaryKey = e'.made.primaryKey

/-- Every fetch maps its rows so, in every state over the models of a registry whose cache has its instances filed
under their keys. All states are over the models of the registry that a session reaches. -/
theorem mapsRows_hydrate (s : Session β) (hcache : s.useCache = true) {rules : Rules} {decls : List ModelDecl}
    (hr : Registry.build rules decls = .ok s.registry) :
    (∀ (database : β) (steps : List SessionStep), s.OverModels (steps.foldl s.step {database})) ∧
    ∀ {name m included p}, s.registry.model name = .ok m → FetchPlan.make s.registry m included = .ok p →
      ∀ {t t' : SessionState β}, s.OverModels t → t.memory.Filed → ∀ {rows roots},
        (Attempt.collect rows (p.hydrate s.keeper)).runOn t = (.ok roots, t') → s.MapsRows p rows t roots t' := by
  refine ⟨fun database steps =>
    (keptBySteps_overModels s).reached hr (t := {database}) (Memory.over_empty s.registry) steps, ?_⟩
  intro name m included p hmodel hp t t' hover hfiled rows roots h
  obtain ⟨logs, hrows, hroots, htakes⟩ := FetchPlan.takes_hydrateAll h
  obtain ⟨hroot, hjoined⟩ := FetchPlan.make_ok hp
  have hlog : ∀ e ∈ logs.flatten, e.made.Fresh ∧ s.Knows e.made.model := by
    intro e he
    obtain ⟨hfresh, hof⟩ := FetchPlan.fresh_of_logs hrows e he
    refine ⟨hfresh, ?_⟩
    rcases hof with hof | ⟨j, hj, hof⟩
    · rw [hof, hroot]
      exact knows_of_model hr hmodel
    · rw [hof]
      exact knows_of_model hr (hjoined j hj)
  have hm := maps_of_takes hcache hlog hover hfiled htakes
  exact ⟨logs, hrows, hroots, htakes, hm, fun e he e' he' => hm.handle_eq_iff he he' (hlog e he).1 (hlog e' he').1⟩

/-! ### Pupils and their mentors -/

def schoolDecls : List ModelDecl :=
  [ { name := "Pupil"
      fields :=
        [ {Field.shortId "ID" with primaryKey := true}, Field.title "Name",
          {Field.shortId "Mentor" with required := false} ]
      navigations := [.toPrimary "mentor" "Mentor" "Pupil", .fromPrimary "pupils" "Pupil" "Mentor"] } ]

def schoolSession : Session Script where
  registry := (Registry.build (Pattern.rules 0) schoolDecls).toOption.getD default
  backend := Script.backend .sqlite .sqlite
  owner := ⟨0⟩

def pupil : Model := schoolSession.registry.models.headD default

def schoolPlan : FetchPlan := (FetchPlan.make schoolSession.registry pupil pupil.navigations).toOption.getD default

/-- Two pupils, the first of whom is renamed. -/
def enrolled : List SessionCall :=
  [ .insert "Pupil" [.set "ID" (.text "ADA01"), .set "Name" (.text "Ada")] none,
    .insert "Pupil" [.set "ID" (.text "EVE01"), .set "Name" (.text "Eve")] none,
    .set ⟨0⟩ "Name" (.text "Ida") ]

/-- A pupil with a mentor and one pupil, which is given as the text of a document. -/
def pupilRow (id name mentor mentorName pupil pupilName : String) : Row where
  columns := ["Pupil.ID", "Pupil.Name", "Pupil.Mentor", "mentor.ID", "mentor.Name", "mentor.Mentor", "Pupil.pupils"]
  values :=
    [ .text id, .text name, .text mentor, .text mentor, .text mentorName, .null,
      .json (.arr [.obj
        [("pupils.ID", .str pupil), ("pupils.Name", .str pupilName), ("pupils.Mentor", .str id)]]) ]

/-- Each of three pupils is met in two or three places, under other names. -/
def schoolRows : List Row :=
  [ pupilRow "ADA01" "Ann" "EVE01" "Eva" "BOB01" "Rob", pupilRow "BOB01" "Bob" "ADA01" "Anna" "EVE01" "Evi" ]

/-- The pending name is kept, and the others have the last names that were met. -/
theorem mapsRows_enrolled :
    let t := enrolled.foldl schoolSession.perform {database := {}}
    let out := (Attempt.collect schoolRows (schoolPlan.hydrate schoolSession.keeper)).runOn t
    out.1 = .ok [⟨0⟩, ⟨2⟩] ∧ schoolSession.MapsRows schoolPlan schoolRows t [⟨0⟩, ⟨2⟩] out.2 ∧
      out.2.heap.instances.toList.map (·.get? "Name") =
        [some (.text "Ida"), some (.text "Evi"), some (.text "Bob")] := by
  intro t out
  have hbuild : Registry.build (Pattern.rules 0) schoolDecls = .ok schoolSession.registry := rfl
  have hmodel : schoolSession.registry.model "Pupil" = .ok pupil := rfl
  have hplan : FetchPlan.make schoolSession.registry pupil pupil.navigations = .ok schoolPlan := rfl
  have hp : AllSteps schoolSession.perform schoolSession.Permits enrolled {database := {}} := by
    refine ⟨fun i hi ha => ?_, fun i hi ha => ?_, trivial, trivial⟩
    · clear ha
      revert i
      decide +kernel
    · clear ha
      revert i
      decide +kernel
  have hfree : AllSteps schoolSession.perform schoolSession.FilesFreely enrolled {database := {}} := by
    refine ⟨fun i hi ha => ?_, fun i hi ha => ?_, trivial, trivial⟩
    · clear ha
      revert i
      decide +kernel
    · clear ha
      revert i
      decide +kernel
  have hgood : schoolSession.Good t := (good_start schoolSession {}).performAll rfl hbuild hp hfree
  have hroots : out.1 = .ok [⟨0⟩, ⟨2⟩] := by decide +kernel
  have hout : out = (.ok [⟨0⟩, ⟨2⟩], out.2) := by rw [← hroots]
  refine ⟨hroots, ?_, by decide +kernel⟩
  exact (mapsRows_hydrate schoolSession rfl hbuild).2 hmodel hplan hgood.1.over hgood.1.memory.filed hout

end Session

end RecordMapper
