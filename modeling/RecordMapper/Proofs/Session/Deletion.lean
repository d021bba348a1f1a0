import RecordMapper.Proofs.Session.Removal
import RecordMapper.Proofs.Session.Stock

/-! A delete of rows, and its repetition on the cache.

What a database does to rows (`Stock.Deletes`) the cache repeats on the current values of the instances it
has. So what it drops was deleted, if no pending change decides the condition or a reference
(`PendingApart`); and what it keeps then equals its row again, if the deleted rows that it referred to were
dropped too (`record_mem_of_parentsAmong`). Rows that nobody has read take nobody with them, and there
are pending changes that decide (`not_asStored_renamed_orphaned_ledTwice`). -/
namespace RecordMapper

/-! ### The rows of cleared instances -/

theorem Instance.record_of_nulled {i j : Instance} {names : List String} (h : j.cells = Cell.nulled names i.cells) :
    j.record = i.record.nulled names := by
  unfold record
  rw [h, Cell.nulled, Record.nulled, List.map_map, List.map_map]
  refine List.map_congr_left fun c _ => ?_
  simp only [Function.comp_apply]
  split <;> rfl

namespace Memory

/-! ### A cache beside the rows -/

/-- The committed values of each cached instance are a row. -/
def AsStored {r : Registry} (m : Memory) (s : Stock r) : Prop :=
  ∀ {h : Handle} {i : Instance}, m.cache.contains m.heap h = true → m.heap.get? h = some i → i.record ∈ s.rows i.model

theorem asStored_of_all {r : Registry} {m : Memory} {s : Stock r}
    (h : ∀ i ∈ m.heap.instances.toList, i.record ∈ s.rows i.model) : m.AsStored s := fun _ hi =>
  h _ (Array.mem_toList_iff.2 (Array.mem_of_getElem? hi))

theorem AsStored.all {r : Registry} {m : Memory} {s : Stock r} (hs : m.AsStored s) {h : Handle}
    (hc : m.cache.contains m.heap h = true) : (m.heap.get? h).all (fun i => i.record ∈ s.rows i.model) = true := by
  cases hi : m.heap.get? h with
  | none => rfl
  | some i => exact decide_eq_true (hs hc hi)

/-- No pending change of a cached instance decides whether it satisfies a condition, what it refers to or
what refers to it. -/
structure PendingApart (r : Registry) (model : Model) (condition : Condition) (m : Memory) : Prop where
  holds : ∀ {h : Handle} {i : Instance}, m.cache.contains m.heap h = true → m.heap.get? h = some i → i.model = model →
    condition.evaluate i = condition.holdsOf i.record.value?
  owning : ∀ {h : Handle} {i : Instance}, m.cache.contains m.heap h = true → m.heap.get? h = some i →
    ∀ d ∈ r.references, d.2.Acts → d.1 = i.model → i.get? d.2.field = i.record.value? d.2.field
  target : ∀ {h : Handle} {i : Instance}, m.cache.contains m.heap h = true → m.heap.get? h = some i →
    ∀ d ∈ r.references, d.2.Acts → d.2.target = i.model.name →
      i.get? d.2.targetField = i.record.value? d.2.targetField

/-- The deleted rows that an instance refers to are rows of certain instances. -/
def ParentsAmong {r : Registry} (m : Memory) (s : Stock r) (model : Model) (condition : Condition) (among : Handle → Prop)
    (i : Instance) : Prop :=
  ∀ {target : Model} {parent : Record}, s.Gone model condition target parent →
    ∀ d ∈ r.dependents target.name, d.1 = i.model → d.2.Acts → d.2.leads i.record parent = true →
      ∃ k g, among k ∧ m.heap.get? k = some g ∧ g.model = target ∧ g.record = parent

/-- The deleted rows that cached instances refer to are rows of cached instances. -/
def ParentsCached {r : Registry} (m : Memory) (s : Stock r) (model : Model) (condition : Condition) : Prop :=
  ∀ {h : Handle} {i : Instance}, m.cache.contains m.heap h = true → m.heap.get? h = some i →
    m.ParentsAmong s model condition (fun k => m.cache.contains m.heap k = true) i

section

variable {rules : Rules} {decls : List ModelDecl} {r : Registry} (hr : Registry.build rules decls = .ok r)
  {m : Memory} (hm : m.Sound) (ho : m.Over r) {s : Stock r} (hs : m.AsStored s) {model : Model} {condition : Condition}
  (hp : m.PendingApart r model condition)

omit hr in
include hm ho hp in
/-- The first to go are the cached instances whose rows satisfy the condition. -/
theorem mem_matched (hmodel : r.model? model.name = some model) {h : Handle} :
    h ∈ m.cachedWith model.name condition.evaluate ↔ m.cache.contains m.heap h = true ∧
      ∃ i, m.heap.get? h = some i ∧ i.model = model ∧ condition.holdsOf i.record.value? = true := by
  rw [hm.filed.mem_cachedWith]
  constructor
  · rintro ⟨hc, i, hi, hname, hholds⟩
    have hsame : i.model = model := by
      have hregistered := ho.models hi
      rw [hname, hmodel] at hregistered
      exact (Option.some.inj hregistered).symm
    exact ⟨hc, i, hi, hsame, (hp.holds hc hi hsame).symm.trans hholds⟩
  · rintro ⟨hc, i, hi, hsame, hholds⟩
    exact ⟨hc, i, hi, congrArg Model.name hsame, (hp.holds hc hi hsame).trans hholds⟩

include hr hm ho hp

/-- Cached instances refer to each other as their rows do. -/
theorem mem_referrers_iff_leads {k h : Handle} {g i : Instance} (hck : m.cache.contains m.heap k = true)
    (hg : m.heap.get? k = some g) (hi : m.heap.get? h = some i) {d : Model × Navigation}
    (hd : d ∈ r.dependents g.model.name) (hacts : d.2.Acts) :
    h ∈ m.referrers d.1 d.2 k ↔
      m.cache.contains m.heap h = true ∧ d.1 = i.model ∧ d.2.leads i.record g.record = true := by
  have howner := Registry.model?_of_mem hr (Registry.field?_of_dependents hr hd).1
  obtain ⟨hreference, htarget⟩ := Registry.mem_dependents.1 hd
  rw [hm.filed.mem_referrers hg, hp.target hck hg d hreference hacts htarget]
  constructor
  · rintro ⟨v, hv, hnull, hc, i', hi', hname, hvalue⟩
    obtain rfl : i' = i := Option.some.inj (hi'.symm.trans hi)
    have hsame : d.1 = i'.model := by
      have hregistered := ho.models hi
      rw [hname, howner] at hregistered
      exact Option.some.inj hregistered
    unfold Cache.hasValue at hvalue
    rw [hp.owning hc hi d hreference hacts hsame] at hvalue
    refine ⟨hc, hsame, Navigation.leads_iff.2 ⟨v, hv, hnull, hvalue⟩⟩
  · rintro ⟨hc, hsame, hleads⟩
    obtain ⟨v, hv, hnull, hvalue⟩ := Navigation.leads_iff.1 hleads
    refine ⟨v, hv, hnull, hc, i, hi, congrArg Model.name hsame.symm, ?_⟩
    unfold Cache.hasValue
    rw [hp.owning hc hi d hreference hacts hsame]
    exact hvalue

end

/-! ### What goes on both sides -/

section

variable {rules : Rules} {decls : List ModelDecl} {r : Registry} (hr : Registry.build rules decls = .ok r)
  {m : Memory} (hm : m.Sound) (ho : m.Over r) {s : Stock r} (hs : m.AsStored s) {model : Model} {condition : Condition}
  (hp : m.PendingApart r model condition) (hmodel : r.model? model.name = some model)
include hr hm ho hs hp hmodel

/-- What goes from the cache goes from the rows. -/
theorem Doomed.gone {h : Handle} (hh : m.Doomed r (m.cachedWith model.name condition.evaluate) h) {i : Instance}
    (hi : m.heap.get? h = some i) : s.Gone model condition i.model i.record := by
  induction hh generalizing i with
  | start hh =>
    obtain ⟨hc, i', hi', rfl, hholds⟩ := (mem_matched hm ho hp hmodel).1 hh
    obtain rfl : i' = i := Option.some.inj (hi'.symm.trans hi)
    exact .matched (hs hc hi) hholds
  | @follows k h field hk hh ih =>
    obtain ⟨g, hg, d, hd, haction, -, hmem⟩ := hh
    have hck := hk.cached hm.filed fun h hh => (hm.filed.mem_cachedWith.1 hh).1
    obtain ⟨hc, hsame, hleads⟩ := (mem_referrers_iff_leads hr hm ho hp hck hg hi hd (.inl haction)).1 hmem
    rw [← hsame]
    exact .follows (ih hg) hd haction (hsame ▸ hs hc hi) hleads

omit hs in
/-- What goes from the rows goes from the cache, if its parents are cached. -/
theorem doomed_of_gone (hparents : m.ParentsCached s model condition) {owner : Model} {row : Record}
    (hgone : s.Gone model condition owner row) {h : Handle} {i : Instance} (hc : m.cache.contains m.heap h = true)
    (hi : m.heap.get? h = some i) (howner : i.model = owner) (hrow : i.record = row) :
    m.Doomed r (m.cachedWith model.name condition.evaluate) h := by
  induction hgone generalizing h i with
  | matched _ hholds => exact .start ((mem_matched hm ho hp hmodel).2 ⟨hc, i, hi, howner, hrow ▸ hholds⟩)
  | @follows target parent row hparent d hd haction _ hleads ih =>
    obtain ⟨k, g, hck, hg, rfl, rfl⟩ := hparents hc hi hparent d hd howner.symm (.inl haction) (hrow ▸ hleads)
    exact .follows (ih hck hg rfl rfl) ⟨g, hg, d, hd, haction, rfl,
      (mem_referrers_iff_leads hr hm ho hp hck hg hi hd (.inl haction)).2 ⟨hc, howner.symm, hrow ▸ hleads⟩⟩

variable (hsep : r.Separate) {after : Stock r} (hd : s.Deletes model condition after)
include hsep hd

/-- What is removed from the cache has no row any more. -/
theorem deleted_of_mem_reconcileDelete {h : Handle} (hh : h ∈ (m.reconcileDelete r model.name condition).1) :
    ∃ i, m.heap.get? h = some i ∧ s.Gone model condition i.model i.record ∧
      ∀ row ∈ after.rows i.model, row.key ≠ i.record.key := by
  obtain ⟨-, hgone, -, -⟩ := reconcileDelete_removes hr ho model.name condition hsep hm
  have hdoomed := (hgone h).1 hh
  have hc := hdoomed.cached hm.filed fun h hh => (hm.filed.mem_cachedWith.1 hh).1
  obtain ⟨i, hi, -⟩ := Cache.contains_iff.1 hc
  have hrow := hdoomed.gone hr hm ho hs hp hmodel hi
  have hregistered : i.model ∈ r.models := List.mem_of_find?_eq_some (ho.models hi)
  refine ⟨i, hi, hrow, fun row' hrow' hkey => ?_⟩
  obtain ⟨row, hmem, hkept, names, hnames, rfl⟩ := (hd i.model hregistered row').1 hrow'
  -- The row that is left had this key before.
  rw [Record.key_nulled fun e he hprimary hname => ?_] at hkey
  · have hsame : row = i.record :=
      List.inj_on_of_nodup_map (s.distinct i.model hregistered) hmem (hs hc hi) hkey
    exact hkept (hsame ▸ hrow)
  · obtain ⟨target, parent, -, d, hdependent, haction, howner, hfield, -⟩ := (hnames _).1 hname
    have hfields : e.1 ∈ d.1.fields := by
      rw [howner, ← (s.suits i.model hregistered row hmem).fields]
      exact List.mem_map_of_mem he
    rw [hsep.key d (Registry.mem_dependents.1 hdependent).1 haction e.1 hfields hfield.symm] at hprimary
    cases hprimary

/-- What is left in the cache has its row as it is after the delete, if its parents went from the cache
too. -/
theorem record_mem_of_parentsAmong {h : Handle} {i j : Instance}
    (hc : (m.reconcileDelete r model.name condition).2.cache.contains
      (m.reconcileDelete r model.name condition).2.heap h = true)
    (hi : m.heap.get? h = some i) (hj : (m.reconcileDelete r model.name condition).2.heap.get? h = some j)
    (hparents : m.ParentsAmong s model condition (· ∈ (m.reconcileDelete r model.name condition).1) i) :
    j.record ∈ after.rows j.model := by
  obtain ⟨-, hgone, hcached, hcleared⟩ := reconcileDelete_removes hr ho model.name condition hsep hm
  obtain ⟨hbefore, hkept⟩ := (hcached h).1 hc
  obtain ⟨i', names, hi', -, hsame, hcells, hnames⟩ := hcleared.cells hc hj
  obtain rfl : i' = i := Option.some.inj (hi'.symm.trans hi)
  have hdoomed : ∀ {k}, k ∈ (m.reconcileDelete r model.name condition).1 →
      m.Doomed r (m.cachedWith model.name condition.evaluate) k ∧ m.cache.contains m.heap k = true := fun {k} hk =>
    ⟨(hgone k).1 hk, ((hgone k).1 hk).cached hm.filed fun h hh => (hm.filed.mem_cachedWith.1 hh).1⟩
  rw [hsame, hd i'.model (List.mem_of_find?_eq_some (ho.models hi))]
  refine ⟨i'.record, hs hbefore hi, fun hrow => hkept ((hgone h).2 ?_), names, fun field => (hnames field).trans ?_,
    Instance.record_of_nulled hcells⟩
  · generalize howner : i'.model = owner at hrow
    generalize hrecord : i'.record = row at hrow
    cases hrow with
    | matched _ hholds =>
      exact .start ((mem_matched hm ho hp hmodel).2 ⟨hbefore, i', hi, howner, hrecord ▸ hholds⟩)
    | @follows target parent _ hparent d hdependent haction _ hleads =>
      obtain ⟨k, g, hk, hg, rfl, rfl⟩ :=
        hparents hparent d hdependent howner.symm (.inl haction) (hrecord ▸ hleads)
      exact .follows (hdoomed hk).1 ⟨g, hg, d, hdependent, haction, rfl,
        (mem_referrers_iff_leads hr hm ho hp (hdoomed hk).2 hg hi hdependent (.inl haction)).2
          ⟨hbefore, howner.symm, hrecord ▸ hleads⟩⟩
  · constructor
    · rintro ⟨k, hk, g, hg, d, hdependent, haction, hfield, hmem⟩
      obtain ⟨-, howner, hleads⟩ :=
        (mem_referrers_iff_leads hr hm ho hp (hdoomed hk).2 hg hi hdependent (.inr haction)).1 hmem
      exact ⟨g.model, g.record, (hdoomed hk).1.gone hr hm ho hs hp hmodel hg, d, hdependent, haction, howner, hfield,
        hleads⟩
    · rintro ⟨target, parent, hparent, d, hdependent, haction, howner, hfield, hleads⟩
      obtain ⟨k, g, hk, hg, rfl, rfl⟩ := hparents hparent d hdependent howner (.inr haction) hleads
      exact ⟨k, hk, g, hg, d, hdependent, haction, hfield,
        (mem_referrers_iff_leads hr hm ho hp (hdoomed hk).2 hg hi hdependent (.inr haction)).2
          ⟨hbefore, howner, hleads⟩⟩

end

end Memory

/-! ### Deletes of a session -/

/-- An instance leaves the cache, or is no longer remembered for the next save. -/
def SessionState.Drops {β : Type} (t t' : SessionState β) (h : Handle) : Prop :=
  (t.cache.contains t.heap h = true ∧ ¬t'.cache.contains t'.heap h = true) ∨
    h ∈ t.tracker.tracked ++ t.tracker.queued ∧ h ∉ t'.tracker.tracked ++ t'.tracker.queued

/-- Every dropped instance had a row, and there is none under its key any more. -/
def SessionState.DropsDeleted {β : Type} {r : Registry} (before after : Stock r) (t t' : SessionState β) : Prop :=
  ∀ h, t.Drops t' h → ∃ i, t.heap.get? h = some i ∧ i.record ∈ before.rows i.model ∧
    ∀ row ∈ after.rows i.model, row.key ≠ i.record.key

theorem SessionState.DropsDeleted.all {β : Type} {r : Registry} {before after : Stock r} {t t' : SessionState β}
    (hd : t.DropsDeleted before after t') {h : Handle} (hh : t.Drops t' h) :
    (t.heap.get? h).any (fun i : Instance => ∀ row ∈ after.rows i.model, row.key ≠ i.record.key) = true := by
  obtain ⟨i, hi, -, hfree⟩ := hd h hh
  rw [hi]
  exact decide_eq_true hfree

namespace Session

variable {β : Type}

/-- A successful delete that the database has carried out. -/
structure Deleted (s : Session β) (view : β → Stock s.registry) (name : String) (p : Predicate) (model : Model)
    (condition : Condition) (t t' : SessionState β) : Prop where
  compiled : s.compile name p = .ok (model, condition)
  succeeded : ∃ affected, (s.delete name p).runOn t = (.ok affected, t')
  carriedOut : (view t.database).Deletes model condition (view t'.database)

variable {s : Session β} {view : β → Stock s.registry} {name : String} {p : Predicate} {model : Model}
  {condition : Condition} {t t' : SessionState β}

theorem Deleted.replayed (hcache : s.useCache = true) (h : s.Deleted view name p model condition t t') :
    t'.memory = (t.memory.reconcileDelete s.registry model.name condition).2 ∧
      t'.tracker = t.tracker.forget (t.memory.reconcileDelete s.registry model.name condition).1 := by
  obtain ⟨affected, hrun⟩ := h.succeeded
  rcases s.delete_outcome t name p with ⟨e, database, hrefused, -⟩ | ⟨m, c, n, database, hcompile, -, hdone⟩
  · rw [hrefused] at hrun
    cases hrun
  · rw [h.compiled] at hcompile
    cases hcompile
    rw [hdone, if_pos hcache] at hrun
    cases hrun
    exact ⟨rfl, rfl⟩

theorem mem_forget {tracker : Tracker} {gone : List Handle} {h : Handle} :
    h ∈ (tracker.forget gone).tracked ++ (tracker.forget gone).queued ↔
      h ∈ tracker.tracked ++ tracker.queued ∧ h ∉ gone := by
  unfold Tracker.forget
  rw [← List.filter_append, List.mem_filter, decide_eq_true_iff]

/-- After a successful delete that the database has carried out, what was dropped was deleted; and what is
still cached equals its row, if the deleted rows that it referred to were dropped too, which they are if
they were cached. -/
theorem dropsDeleted_and_asStored {rules : Rules} {decls : List ModelDecl}
    (hr : Registry.build rules decls = .ok s.registry) (hsep : s.registry.Separate) (hcache : s.useCache = true)
    (hd : s.Deleted view name p model condition t t') (hm : t.memory.Sound) (ho : s.OverModels t)
    (hs : t.memory.AsStored (view t.database)) (hp : t.memory.PendingApart s.registry model condition) :
    t.DropsDeleted (view t.database) (view t'.database) t' ∧
      (∀ h i j, t'.cache.contains t'.heap h = true → t.heap.get? h = some i → t'.heap.get? h = some j →
        t.memory.ParentsAmong (view t.database) model condition (t.Drops t') i →
        j.record ∈ (view t'.database).rows j.model) ∧
      (t.memory.ParentsCached (view t.database) model condition → t'.memory.AsStored (view t'.database)) := by
  obtain ⟨hmemory, htracker⟩ := hd.replayed hcache
  have hmodel : s.registry.model? model.name = some model := by
    have hcompiled := hd.compiled
    unfold compile at hcompiled
    obtain ⟨m, hfound, hrest⟩ := bind_ok hcompiled
    obtain ⟨c, -, he⟩ := bind_ok hrest
    cases he
    exact (Registry.model?_of_model hfound).1
  obtain ⟨-, hgone, hcached, -⟩ := Memory.reconcileDelete_removes hr ho model.name condition hsep hm
  rw [← hmemory] at hcached
  have hdrops : ∀ {h}, t.Drops t' h → h ∈ (t.memory.reconcileDelete s.registry model.name condition).1 := by
    intro h hh
    by_contra hnot
    rcases hh with ⟨hbefore, hafter⟩ | ⟨hbefore, hafter⟩
    · exact hafter ((hcached h).2 ⟨hbefore, hnot⟩)
    · rw [htracker, mem_forget] at hafter
      exact hafter ⟨hbefore, hnot⟩
  have hkept : ∀ {h i j}, t'.cache.contains t'.heap h = true → t.heap.get? h = some i → t'.heap.get? h = some j →
      t.memory.ParentsAmong (view t.database) model condition
        (· ∈ (t.memory.reconcileDelete s.registry model.name condition).1) i →
      j.record ∈ (view t'.database).rows j.model := fun {h i j} hc hi hj hparents =>
    Memory.record_mem_of_parentsAmong hr hm ho hs hp hmodel hsep hd.carriedOut
      (by rw [← hmemory]; exact hc) hi (by rw [← hmemory]; exact hj) hparents
  refine ⟨fun h hh => ?_, fun h i j hc hi hj hparents => hkept hc hi hj fun hparent d hdependent howner hacts hleads => ?_,
    fun hparents h j hc hj => ?_⟩
  · obtain ⟨i, hi, hrow, hfree⟩ :=
      Memory.deleted_of_mem_reconcileDelete hr hm ho hs hp hmodel hsep hd.carriedOut (hdrops hh)
    exact ⟨i, hi, hrow.mem, hfree⟩
  · obtain ⟨k, g, hk, hg⟩ := hparents hparent d hdependent howner hacts hleads
    exact ⟨k, g, hdrops hk, hg⟩
  · obtain ⟨hbefore, -⟩ := (hcached h).1 hc
    obtain ⟨i, hi, -⟩ := Cache.contains_iff.1 hbefore
    refine hkept hc hi hj fun hparent d hdependent howner hacts hleads => ?_
    obtain ⟨k, g, hk, hg, hgmodel, hgrecord⟩ := hparents hbefore hi hparent d hdependent howner hacts hleads
    exact ⟨k, g, (hgone k).2 (Memory.doomed_of_gone hr hm ho hp hmodel hparents hparent hk hg hgmodel hgrecord), hg,
      hgmodel, hgrecord⟩

end Session

/-! ### A club -/

def teams : Model :=
  {name := "Team", fields := [{Field.shortId "ID" with primaryKey := true, unique := true}, Field.title "Name"]}

def members (toTeam : List Navigation) : Model :=
  { name := "Member"
    fields := [{Field.shortId "ID" with primaryKey := true, unique := true}, Field.shortId "Team"]
    navigations := toTeam }

def lockers : Model :=
  { name := "Locker"
    fields := [{Field.shortId "ID" with primaryKey := true, unique := true}, Field.shortId "Member", Field.title "Label"]
    navigations := [⟨"member", .single, "Member", "Member", "ID", .setNull⟩] }

/-- Teams, their members, and lockers that are free once a member is gone. -/
def clubRegistry (toTeam : List Navigation) : Registry := ⟨[teams, members toTeam, lockers], Pattern.rules 0⟩

/-- Members go with their team. -/
def withTeam : Navigation := ⟨"team", .single, "Team", "Team", "ID", .cascade⟩

def clubDecls (toTeam : List NavigationDecl) : List ModelDecl :=
  [ {name := "Team", fields := [{Field.shortId "ID" with primaryKey := true}, Field.title "Name"]},
    { name := "Member"
      fields := [{Field.shortId "ID" with primaryKey := true}, Field.shortId "Team"]
      navigations := toTeam },
    { name := "Locker"
      fields := [{Field.shortId "ID" with primaryKey := true}, Field.shortId "Member", Field.title "Label"]
      navigations := [{NavigationDecl.toPrimary "member" "Member" "Member" with onDelete := .setNull}] } ]

structure ClubRows where
  teams : List (String × String) := []
  members : List (String × String) := []
  lockers : List (String × Option String × String) := []

def ClubRows.rows (c : ClubRows) (m : Model) : List Record :=
  if m.name = "Team" then c.teams.map fun row => m.fields.zip [.text row.1, .text row.2]
  else if m.name = "Member" then c.members.map fun row => m.fields.zip [.text row.1, .text row.2]
  else c.lockers.map fun row => m.fields.zip [.text row.1, row.2.1.elim .null .text, .text row.2.2]

def clubStock (toTeam : List Navigation) (c : ClubRows)
    (h : ∀ m ∈ (clubRegistry toTeam).models, ((c.rows m).map Record.key).Nodup) : Stock (clubRegistry toTeam) where
  rows := c.rows
  suits m hm row hrow := by
    simp only [clubRegistry, List.mem_cons, List.not_mem_nil, or_false] at hm
    rcases hm with rfl | rfl | rfl
    all_goals obtain ⟨e, -, rfl⟩ := List.mem_map.1 hrow
    · exact ⟨rfl, by simp [teams, Field.coerce, FieldKind.coerce, Field.shortId, Field.idOf, Field.title, Field.text,
        Except.mapError]⟩
    · exact ⟨rfl, by simp [members, Field.coerce, FieldKind.coerce, Field.shortId, Field.idOf, Except.mapError]⟩
    · obtain ⟨locker, member, label⟩ := e
      cases member
      all_goals
        exact ⟨rfl, by simp [lockers, Field.coerce, FieldKind.coerce, Field.shortId, Field.idOf, Field.title, Field.text,
          Except.mapError]⟩
  distinct := h

instance (r : Registry) : Inhabited (Stock r) :=
  ⟨{rows := fun _ => [], suits := fun _ _ _ h => absurd h List.not_mem_nil, distinct := fun _ _ => .nil}⟩

/-- The database has one state after the other. -/
def clubSession (toTeam : List Navigation) : Session (List (Stock (clubRegistry toTeam))) where
  registry := clubRegistry toTeam
  backend :=
    { dialect := .sqlite
      connect := pure ()
      query := fun _ => pure []
      transaction := fun _ => Attempt.change fun stocks => (1, stocks.tail) }
  owner := ⟨0⟩

namespace Session

/-- The rows at present. -/
def present {toTeam : List Navigation} (database : List (Stock (clubRegistry toTeam))) : Stock (clubRegistry toTeam) :=
  database.headD default

section

variable {toTeam : List Navigation} {name : String} {p : Predicate} {model : Model} {condition : Condition}
  {t : SessionState (List (Stock (clubRegistry toTeam)))} {before after : Stock (clubRegistry toTeam)}

theorem deleted_of_course (ht : t.database = [before, after])
    (hc : (clubSession toTeam).compile name p = .ok (model, condition))
    (hok : (((clubSession toTeam).delete name p).runOn t).1.toOption.isSome = true)
    (hd : before.Deletes model condition after) :
    (clubSession toTeam).Deleted present name p model condition t (((clubSession toTeam).delete name p).runOn t).2 := by
  rcases (clubSession toTeam).delete_outcome t name p with
    ⟨e, database, hrefused, -⟩ | ⟨m, c, n, database, -, ⟨statements, affected, hrun⟩, hdone⟩
  · rw [hrefused] at hok
    cases hok
  · rw [hdone]
    refine ⟨hc, ⟨n, hdone⟩, ?_⟩
    rw [ht] at hrun
    cases hrun
    rw [ht]
    exact hd

end

/-- Everything that is cached is remembered. -/
def remembering {β : Type} (m : Memory) (database : β) : SessionState β :=
  {heap := m.heap, cache := m.cache, tracker := {tracked := m.cache.handles}, database}

/-- An instance of the session. -/
def clubInstance (m : Model) (values : List (String × String)) : CacheCall :=
  .create m (values.map fun v => .set v.1 (.text v.2)) (some ⟨0⟩)

/-- A team, a member and a locker with a new label that is not saved yet; somebody else's locker. -/
def housed : Memory :=
  ({} : Memory).performAll
    [ clubInstance teams [("ID", "RED01"), ("Name", "Red")],
      clubInstance (members [withTeam]) [("ID", "ADA01"), ("Team", "RED01")],
      clubInstance lockers [("ID", "LOC01"), ("Member", "ADA01"), ("Label", "Old"), ("Label", "New")],
      clubInstance lockers [("ID", "LOC02"), ("Member", "EVE01"), ("Label", "Hers")],
      .register ⟨0⟩, .register ⟨1⟩, .register ⟨2⟩, .register ⟨3⟩ ]

/-- Two teams with three members, each of whom has a locker. -/
def housedRows : Stock (clubRegistry [withTeam]) :=
  clubStock [withTeam]
    { teams := [("RED01", "Red"), ("BLU01", "Blue")]
      members := [("ADA01", "RED01"), ("BOB01", "RED01"), ("EVE01", "BLU01")]
      lockers := [("LOC01", some "ADA01", "Old"), ("LOC02", some "EVE01", "Hers"), ("LOC03", some "BOB01", "His")] }
    (by decide +kernel)

/-- One of the teams is gone with its members, whose lockers are free. -/
def freedRows : Stock (clubRegistry [withTeam]) :=
  clubStock [withTeam]
    { teams := [("BLU01", "Blue")]
      members := [("EVE01", "BLU01")]
      lockers := [("LOC01", none, "Old"), ("LOC02", some "EVE01", "Hers"), ("LOC03", none, "His")] }
    (by decide +kernel)

def isRed : Condition := .comparison "Team" "Name" .eq (.text "Red") .bound

def clubRow (m : Model) (values : List String) : Model × Record := (m, m.fields.zip (values.map .text))

/-- The team and its members, the last one first. -/
def goneRows : List (Model × Record) :=
  [ clubRow (members [withTeam]) ["BOB01", "RED01"],
    clubRow (members [withTeam]) ["ADA01", "RED01"],
    clubRow teams ["RED01", "Red"] ]

theorem derives_housed : housedRows.Derives teams isRed goneRows ∧ housedRows.Closes teams isRed goneRows := by
  decide +kernel

theorem deletes_housed : housedRows.Deletes teams isRed freedRows :=
  Stock.deletes_of_rows derives_housed.1 derives_housed.2 (by decide +kernel)

theorem sound_housed : housed.Sound := by
  refine AllSteps.invariant (fun _ _ hm hp => hm.perform hp) ?_ Memory.sound_empty
  refine ⟨trivial, trivial, trivial, trivial, ?_, ?_, ?_, ?_, trivial⟩
  all_goals
    show ∀ i ∈ Heap.get? _ _, _
    decide +kernel

theorem dropsDeleted_and_asStored_housed :
    let t := remembering housed [housedRows, freedRows]
    let t' := (((clubSession [withTeam]).delete "Team" (.equals "Name" (.text "Red"))).runOn t).2
    t.memory.Sound ∧ t.memory.AsStored housedRows ∧ housedRows.Deletes teams isRed freedRows ∧
      t.DropsDeleted housedRows freedRows t' ∧ t'.memory.AsStored freedRows ∧
      t'.cache.handles = [⟨2⟩, ⟨3⟩] ∧ t'.tracker.tracked = [⟨2⟩, ⟨3⟩] := by
  intro t t'
  have hbuild : Registry.build (Pattern.rules 0)
      (clubDecls [{NavigationDecl.toPrimary "team" "Team" "Team" with onDelete := .cascade}]) =
      .ok (clubSession [withTeam]).registry := rfl
  have hsep : (clubRegistry [withTeam]).Separate := ⟨by decide +kernel, by decide +kernel, by decide +kernel⟩
  have hm : t.memory.Sound := sound_housed
  have hall : ∀ {h i}, t.heap.get? h = some i → i ∈ housed.heap.instances.toList := fun hi =>
    Array.mem_toList_iff.2 (Array.mem_of_getElem? hi)
  have ho : (clubSession [withTeam]).OverModels t := {
    models := fun hi => by
      have hmodels : ∀ i ∈ housed.heap.instances.toList,
          (clubRegistry [withTeam]).model? i.model.name = some i.model := by decide +kernel
      exact hmodels _ (hall hi)
    coherent := hm.coherent
    shelved := fun hfiled => by
      obtain ⟨i, hi, hname, -⟩ := hm.filed.under hfiled
      exact ⟨i, hi, hname⟩ }
  have hs : t.memory.AsStored housedRows := Memory.asStored_of_all (by decide +kernel)
  have hp : t.memory.PendingApart (clubRegistry [withTeam]) teams isRed := {
    holds := fun _ hi _ => by
      have hholds : ∀ i ∈ housed.heap.instances.toList, isRed.evaluate i = isRed.holdsOf i.record.value? := by
        decide +kernel
      exact hholds _ (hall hi)
    owning := fun _ hi d hd _ _ => by
      have howning : ∀ i ∈ housed.heap.instances.toList, ∀ d ∈ (clubRegistry [withTeam]).references,
          i.get? d.2.field = i.record.value? d.2.field := by decide +kernel
      exact howning _ (hall hi) d hd
    target := fun _ hi d hd _ _ => by
      have htarget : ∀ i ∈ housed.heap.instances.toList, ∀ d ∈ (clubRegistry [withTeam]).references,
          i.get? d.2.targetField = i.record.value? d.2.targetField := by decide +kernel
      exact htarget _ (hall hi) d hd }
  have hd : (clubSession [withTeam]).Deleted present "Team" (.equals "Name" (.text "Red")) teams isRed t t' :=
    deleted_of_course rfl rfl (by decide +kernel) deletes_housed
  have hparents : t.memory.ParentsCached housedRows teams isRed := by
    intro h i _ hi target parent hgone d hdependent howner _ hleads
    have hchecked : ∀ i ∈ housed.heap.instances.toList, ∀ e ∈ goneRows,
        ∀ d ∈ (clubRegistry [withTeam]).dependents e.1.name, d.1 = i.model ∧ d.2.leads i.record e.2 = true →
          ∃ k ∈ housed.cache.handles, housed.cache.contains housed.heap k = true ∧
            (housed.heap.get? k).any (fun g => g.model = e.1 ∧ g.record = e.2) = true := by decide +kernel
    obtain ⟨k, -, hc, hk⟩ := hchecked i (hall hi) (target, parent)
      ((Stock.gone_iff derives_housed.1 derives_housed.2).1 hgone) d hdependent ⟨howner, hleads⟩
    obtain ⟨g, hg, hsame⟩ := (Option.any_eq_true _ _).1 hk
    exact ⟨k, g, hc, hg, (of_decide_eq_true hsame).1, (of_decide_eq_true hsame).2⟩
  obtain ⟨hdropped, -, hkept⟩ := dropsDeleted_and_asStored hbuild hsep rfl hd hm ho hs hp
  exact ⟨hm, hs, deletes_housed, hdropped, hkept hparents, by decide +kernel, by decide +kernel⟩

/-! ### What the cache cannot know -/

/-- Two teams that are to exchange their names, which is not saved yet. -/
def renamed : Memory :=
  ({} : Memory).performAll
    [ clubInstance teams [("ID", "RED01"), ("Name", "Red"), ("Name", "Blue")],
      clubInstance teams [("ID", "BLU01"), ("Name", "Blue"), ("Name", "Red")],
      .register ⟨0⟩, .register ⟨1⟩ ]

def twoTeams : Stock (clubRegistry [withTeam]) :=
  clubStock [withTeam] {teams := [("RED01", "Red"), ("BLU01", "Blue")]} (by decide +kernel)

def blueTeam : Stock (clubRegistry [withTeam]) :=
  clubStock [withTeam] {teams := [("BLU01", "Blue")]} (by decide +kernel)

/-- A member whose team nobody has read. -/
def orphaned : Memory :=
  ({} : Memory).performAll [clubInstance (members [withTeam]) [("ID", "ADA01"), ("Team", "RED01")], .register ⟨0⟩]

/-- A team and its member. -/
def joinedRows (toTeam : List Navigation) : Stock (clubRegistry toTeam) :=
  clubStock toTeam {teams := [("RED01", "Red")], members := [("ADA01", "RED01")]} (by
    intro m hm
    simp only [clubRegistry, List.mem_cons, List.not_mem_nil, or_false] at hm
    rcases hm with rfl | rfl | rfl
    all_goals simp [ClubRows.rows, teams, members, lockers])

/-- A second navigation by the same field only forgets the team. -/
def formerly : Navigation := ⟨"formerly", .single, "Team", "Team", "ID", .setNull⟩

def ledTwice : Memory :=
  ({} : Memory).performAll
    [ clubInstance teams [("ID", "RED01"), ("Name", "Red")],
      clubInstance (members [formerly, withTeam]) [("ID", "ADA01"), ("Team", "RED01")],
      .register ⟨0⟩, .register ⟨1⟩ ]

/-- A pending change hides a row that is deleted, or shows one that is not; a deleted row that is not cached
takes others with it; and a value that is lost leads nowhere any more. -/
theorem not_asStored_renamed_orphaned_ledTwice :
    (let t := remembering renamed [twoTeams, blueTeam]
      let t' := (((clubSession [withTeam]).delete "Team" (.equals "Name" (.text "Red"))).runOn t).2
      t.memory.Sound ∧ t.memory.AsStored twoTeams ∧
        (clubSession [withTeam]).Deleted present "Team" (.equals "Name" (.text "Red")) teams isRed t t' ∧
        ¬t'.memory.AsStored blueTeam ∧ ¬t.DropsDeleted twoTeams blueTeam t') ∧
    (let t := remembering orphaned [joinedRows [withTeam], default]
      let t' := (((clubSession [withTeam]).delete "Team" (.equals "Name" (.text "Red"))).runOn t).2
      t.memory.Sound ∧ t.memory.AsStored (joinedRows [withTeam]) ∧
        (clubSession [withTeam]).Deleted present "Team" (.equals "Name" (.text "Red")) teams isRed t t' ∧
        ¬t'.memory.AsStored (default : Stock (clubRegistry [withTeam]))) ∧
    (let t := remembering ledTwice [joinedRows [formerly, withTeam], default]
      let t' := (((clubSession [formerly, withTeam]).delete "Team" (.equals "Name" (.text "Red"))).runOn t).2
      t.memory.Sound ∧ t.memory.AsStored (joinedRows [formerly, withTeam]) ∧
        (clubSession [formerly, withTeam]).Deleted present "Team" (.equals "Name" (.text "Red")) teams isRed t t' ∧
        ¬t'.memory.AsStored (default : Stock (clubRegistry [formerly, withTeam]))) := by
  have hsound : ∀ {calls}, ({} : Memory).PermitsAll calls → (({} : Memory).performAll calls).Sound := fun hp =>
    AllSteps.invariant (fun _ _ hm hp => hm.perform hp) hp Memory.sound_empty
  refine ⟨⟨hsound ⟨trivial, trivial, ?_, ?_, trivial⟩, Memory.asStored_of_all (by decide +kernel), ?_, fun hs => ?_,
      fun hd => ?_⟩,
    ⟨hsound ⟨trivial, ?_, trivial⟩, Memory.asStored_of_all (by decide +kernel), ?_, fun hs => ?_⟩,
    ⟨hsound ⟨trivial, trivial, ?_, ?_, trivial⟩, Memory.asStored_of_all (by decide +kernel), ?_, fun hs => ?_⟩⟩
  · show ∀ i ∈ Heap.get? _ _, _
    decide +kernel
  · show ∀ i ∈ Heap.get? _ _, _
    decide +kernel
  · have hgone : twoTeams.Derives teams isRed [clubRow teams ["RED01", "Red"]] := by decide +kernel
    exact deleted_of_course rfl rfl (by decide +kernel)
      (Stock.deletes_of_rows hgone (by decide +kernel) (by decide +kernel))
  · have hfirst := hs.all (h := ⟨0⟩) (by decide +kernel)
    revert hfirst
    decide +kernel
  · have hsecond := hd.all (h := ⟨1⟩) (.inl (by decide +kernel))
    revert hsecond
    decide +kernel
  · show ∀ i ∈ Heap.get? _ _, _
    decide +kernel
  · have hgone : (joinedRows [withTeam]).Derives teams isRed
        [clubRow (members [withTeam]) ["ADA01", "RED01"], clubRow teams ["RED01", "Red"]] := by decide +kernel
    exact deleted_of_course rfl rfl (by decide +kernel)
      (Stock.deletes_of_rows hgone (by decide +kernel) (by decide +kernel))
  · have hfirst := hs.all (h := ⟨0⟩) (by decide +kernel)
    revert hfirst
    decide +kernel
  · show ∀ i ∈ Heap.get? _ _, _
    decide +kernel
  · show ∀ i ∈ Heap.get? _ _, _
    decide +kernel
  · have hgone : (joinedRows [formerly, withTeam]).Derives teams isRed
        [clubRow (members [formerly, withTeam]) ["ADA01", "RED01"], clubRow teams ["RED01", "Red"]] := by decide +kernel
    exact deleted_of_course rfl rfl (by decide +kernel)
      (Stock.deletes_of_rows hgone (by decide +kernel) (by decide +kernel))
  · have hsecond := hs.all (h := ⟨1⟩) (by decide +kernel)
    revert hsecond
    decide +kernel

end Session

end RecordMapper
