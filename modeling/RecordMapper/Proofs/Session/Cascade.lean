import RecordMapper.Proofs.Session.Removal

/-! What a delete leaves in the cache.

The actions that the navigations declare say what becomes of a cache whose instances refer to each other
(`DeletesAsDeclared`): the least set that is closed under following goes, the others lose what referred to it,
and nothing else about them changes. The loop of a delete always ends, and it does as declared exactly if no
instance that loses a value takes the place of another one on the way (`deletesAsDeclared_iff`). Under the
committed keys that cannot happen. It does where a key was overwritten under a pending change: the instance
goes to its new place when the delete clears the change (`not_deletesAsDeclared_displaced`). -/
namespace RecordMapper

/-! ### What an instance keeps -/

namespace Instance

theorem links_detach {i j : Instance} (h : j.links = i.links) (gone : List Handle) :
    (j.detach gone).links = (i.detach gone).links := by
  obtain ⟨hsingles, hcollections⟩ := Prod.mk.inj h
  unfold links detach
  rw [hsingles, hcollections]

end Instance

namespace Memory

/-! ### As declared -/

/-- What the navigations declare for a delete that begins with some instances. -/
structure DeletesAsDeclared (r : Registry) (start : List Handle) (before after : Memory) (gone : List Handle) :
    Prop where
  nodup : gone.Nodup
  doomed : ∀ h, h ∈ gone ↔ before.Doomed r start h
  cached : ∀ h, after.cache.contains after.heap h = true ↔ before.cache.contains before.heap h = true ∧ h ∉ gone
  /-- What refers to a removed instance is NULL, and committed. -/
  nulled : ∀ {h : Handle} {j : Instance}, after.cache.contains after.heap h = true → after.heap.get? h = some j →
    ∀ field, before.Loses r gone h field → j.get? field = some .null ∧ j.baseline? field = some .null
  /-- Everything else is as before, but for the removed instances among the loaded ones. -/
  kept : ∀ {h : Handle} {j : Instance}, after.cache.contains after.heap h = true → after.heap.get? h = some j →
    ∃ i, before.heap.get? h = some i ∧ j.model = i.model ∧
      (∀ field, ¬before.Loses r gone h field → j.cell? field = i.cell? field) ∧ j.links = (i.detach gone).links
  detached : ∀ {h : Handle} {j : Instance}, after.cache.contains after.heap h = true → after.heap.get? h = some j →
    ∀ k ∈ gone, (∀ e ∈ j.singles, e.2 ≠ some k) ∧ ∀ e ∈ j.collections, k ∉ e.2

section

variable {r : Registry} {m : Memory}

/-- What it is to refer to another instance, by the values of both. -/
theorem Filed.refersBy_iff (hm : m.Filed) {action : OnDelete} {k h : Handle} {field : String} :
    m.RefersBy r action k h field ↔ m.cache.contains m.heap h = true ∧
      ∃ g i, m.heap.get? k = some g ∧ m.heap.get? h = some i ∧
        ∃ d ∈ r.references, d.2.onDelete = action ∧ d.2.field = field ∧
          d.2.target = g.model.name ∧ d.1.name = i.model.name ∧
          ∃ v w, g.get? d.2.targetField = some v ∧ v.isNull = false ∧ i.get? field = some w ∧ w.equal v = true := by
  constructor
  · rintro ⟨g, hg, d, hd, haction, rfl, hmem⟩
    obtain ⟨v, hv, hnull, hc, i, hi, hname, hvalue⟩ := (hm.mem_referrers hg).1 hmem
    obtain ⟨w, hw, hequal⟩ := (Option.any_eq_true ..).1 hvalue
    obtain ⟨hreference, htarget⟩ := Registry.mem_dependents.1 hd
    exact ⟨hc, g, i, hg, hi, d, hreference, haction, rfl, htarget, hname.symm, v, w, hv, hnull, hw, hequal⟩
  · rintro ⟨hc, g, i, hg, hi, d, hreference, haction, rfl, htarget, hname, v, w, hv, hnull, hw, hequal⟩
    exact ⟨g, hg, d, Registry.mem_dependents.2 ⟨hreference, htarget⟩, haction, rfl,
      (hm.mem_referrers hg).2 ⟨v, hv, hnull, hc, i, hi, hname.symm, (Option.any_eq_true ..).2 ⟨w, hw, hequal⟩⟩⟩

/-- A field by which a removed instance is referred to is NULL in the end. -/
theorem Cleared.null_of_loses {gone : List Handle} {after : Memory} (hm : m.Filed)
    (hcleared : Cleared m (m.Loses r gone) after) {h : Handle} {j : Instance}
    (hc : after.cache.contains after.heap h = true) (hj : after.heap.get? h = some j) {field : String}
    (hloses : m.Loses r gone h field) : j.get? field = some .null ∧ j.baseline? field = some .null := by
  obtain ⟨i, names, hi, -, -, hcells, hnames⟩ := hcleared.cells hc hj
  have hmem := (hnames field).2 hloses
  obtain ⟨k, -, hrefers⟩ := hloses
  obtain ⟨-, g, i', -, hi', d, -, -, -, -, -, v, w, -, -, hw, -⟩ := hm.refersBy_iff.1 hrefers
  obtain rfl : i' = i := Option.some.inj (hi'.symm.trans hi)
  obtain ⟨c, hfound, -⟩ := Option.map_eq_some_iff.1 hw
  have hcell := Instance.cell?_of_nulled hcells field
  rw [hfound, Option.map_some, if_pos hmem] at hcell
  unfold Instance.get? Instance.baseline?
  rw [hcell]
  exact ⟨rfl, rfl⟩

variable {rules : Rules} {decls : List ModelDecl} (hr : Registry.build rules decls = .ok r) (hapart : r.Apart)
  (hm : m.Filed) (ho : m.Over r) (hscalars : r.Loops → m.HoldsScalars) (model : String) (condition : Condition)
include hr hapart hm ho hscalars

theorem deletesAsDeclared_of_freely
    (hfree : RemovesFreely r m.cache.size (m.cachedWith model condition.evaluate).reverse m) :
    let out := m.reconcileDelete r model condition
    DeletesAsDeclared r (m.cachedWith model condition.evaluate) m out.2 out.1 := by
  intro out
  obtain ⟨hnodup, hdoomed, hcached, hcleared⟩ := hm.reconcileDelete_removes hr ho model condition hapart hscalars hfree
  let left := (removeAll r m.cache.size (m.cachedWith model condition.evaluate).reverse m).2
  have hleft : left.Filed := (hm.follows_removeAll r _ _).filed
  -- An instance is as the loop has left it, but for the removed ones among the loaded.
  have hdetached : ∀ {h j}, out.2.cache.contains out.2.heap h = true → out.2.heap.get? h = some j →
      ∃ l, left.heap.get? h = some l ∧ j = l.detach out.1 := fun {h j} hc hj => by
    have hdetach := get?_detach ((hleft.follows_unlinked (sameRows_detach left out.1)).1.cached hc) out.1
    obtain ⟨l, hl, hlj⟩ := Option.map_eq_some_iff.1 (hdetach.symm.trans hj)
    exact ⟨l, hl, hlj.symm⟩
  refine ⟨hnodup, hdoomed, hcached, fun hc hj field hloses => hcleared.null_of_loses hm hc hj hloses,
    fun {h j} hc hj => ?_, fun {h j} hc hj k hk => ?_⟩
  · obtain ⟨i, names, hi, -, hmodel, hcells, hnames⟩ := hcleared.cells hc hj
    refine ⟨i, hi, hmodel, fun field hkeeps => ?_, ?_⟩
    · rw [Instance.cell?_of_nulled hcells]
      simp only [if_neg fun hmem => hkeeps ((hnames field).1 hmem), Option.map_id']
    · obtain ⟨l, hl, rfl⟩ := hdetached hc hj
      obtain ⟨l', hl', hlinks⟩ := keepsLinks_removeAll r _ _ m hi
      obtain rfl : l' = l := Option.some.inj (hl'.symm.trans hl)
      exact Instance.links_detach hlinks out.1
  · obtain ⟨l, -, rfl⟩ := hdetached hc hj
    exact l.not_mem_links_detach hk

/-- The loop of a delete ends. What it leaves is what the navigations declare exactly if no instance that
loses a value takes the place of another one, as none does under the committed keys. -/
theorem deletesAsDeclared_iff :
    let start := m.cachedWith model condition.evaluate
    let out := m.reconcileDelete r model condition
    (∃ left, Sweeps r start.reverse m out.1 left ∧ out.2 = left.detach out.1) ∧
      (DeletesAsDeclared r start m out.2 out.1 ↔ RemovesFreely r m.cache.size start.reverse m) ∧
      (m.KeysCommitted → DeletesAsDeclared r start m out.2 out.1) := by
  intro start out
  have hfreely : RemovesFreely r m.cache.size start.reverse m → DeletesAsDeclared r start m out.2 out.1 :=
    deletesAsDeclared_of_freely hr hapart hm ho hscalars model condition
  refine ⟨⟨_, hm.sweeps_removeAll r start.reverse, rfl⟩, ⟨fun hdeclared => ?_, hfreely⟩,
    fun hkeys => hfreely (Moored.removesFreely hr hapart ⟨hm, ho, hkeys⟩ _ _)⟩
  let left := (removeAll r m.cache.size start.reverse m).2
  have hleft : left.Filed := (hm.follows_removeAll r _ _).filed
  refine (hm.keepsCached_removeAll_iff r _ _).1 fun k hk => ?_
  by_cases hgone : k ∈ out.1
  · exact .inl hgone
  · exact .inr ((hleft.follows_unlinked (sameRows_detach left out.1)).1.cached ((hdeclared.cached k).2 ⟨hk, hgone⟩))

end

/-! ### A fleet -/

def ships : Model :=
  { name := "Ship"
    fields := [{Field.shortId "ID" with primaryKey := true, unique := true}, Field.shortId "Captain"]
    navigations := [⟨"captain", .single, "Captain", "Sailor", "ID", .setNull⟩] }

def sailors : Model :=
  { name := "Sailor"
    fields :=
      [ {Field.shortId "ID" with primaryKey := true, unique := true}, Field.shortId "Ship", Field.shortId "Mentor" ]
    navigations :=
      [ ⟨"ship", .single, "Ship", "Ship", "ID", .cascade⟩, ⟨"mentor", .single, "Mentor", "Sailor", "ID", .setNull⟩ ] }

/-- Sailors go down with their ship, and are not captain or mentor of anyone after that. -/
def fleetRegistry : Registry := ⟨[ships, sailors], Pattern.rules 0⟩

def fleetDecls : List ModelDecl :=
  [ { name := "Ship"
      fields := [{Field.shortId "ID" with primaryKey := true}, Field.shortId "Captain"]
      navigations := [{NavigationDecl.toPrimary "captain" "Captain" "Sailor" with onDelete := .setNull}] },
    { name := "Sailor"
      fields := [{Field.shortId "ID" with primaryKey := true}, Field.shortId "Ship", Field.shortId "Mentor"]
      navigations :=
        [ {NavigationDecl.toPrimary "ship" "Ship" "Ship" with onDelete := .cascade},
          {NavigationDecl.toPrimary "mentor" "Mentor" "Sailor" with onDelete := .setNull} ] } ]

theorem build_fleet : Registry.build (Pattern.rules 0) fleetDecls = .ok fleetRegistry := rfl

theorem apart_fleet : fleetRegistry.Apart := ⟨by decide +kernel, by decide +kernel, by decide +kernel⟩

/-- A new instance of the fleet. -/
def enlisted (m : Model) (values : List (String × String)) : CacheCall :=
  .create m (values.map fun v => .set v.1 (.text v.2)) (some ⟨0⟩)

def hasId (table id : String) : Condition := .comparison table "ID" .eq (.text id) .bound

/-- Two ships, two sailors on the first, and one on the second whose new mentor is not saved yet. -/
def fleetCalls : List CacheCall :=
  [ enlisted ships [("ID", "ARGO1"), ("Captain", "ADA01")],
    enlisted ships [("ID", "HOPE1"), ("Captain", "BOB01")],
    enlisted sailors [("ID", "ADA01"), ("Ship", "ARGO1")],
    enlisted sailors [("ID", "BOB01"), ("Ship", "ARGO1"), ("Mentor", "ADA01")],
    enlisted sailors [("ID", "EVE01"), ("Ship", "HOPE1"), ("Mentor", "BOB01"), ("Mentor", "ADA01")],
    .register ⟨0⟩, .register ⟨1⟩, .register ⟨2⟩, .register ⟨3⟩, .register ⟨4⟩ ]

/-- The ship and the mentor of that sailor are loaded. -/
def aboard (i : Instance) : Instance := (i.attachSingle "ship" (some ⟨1⟩)).attachSingle "mentor" (some ⟨2⟩)

def fleet : Memory :=
  let m := ({} : Memory).performAll fleetCalls
  {m with heap := m.heap.modify ⟨4⟩ aboard}

/-- The invariants of a cache, from those of its instances. -/
theorem moored_of_all {r : Registry} {m : Memory} (hm : m.Filed) (hc : m.heap.Coherent)
    (hall : ∀ i ∈ m.heap.instances.toList, r.model? i.model.name = some i.model ∧ i.persistedKey = i.committedKey) :
    m.Moored r := by
  have hmem : ∀ {h i}, m.heap.get? h = some i → i ∈ m.heap.instances.toList := fun hi =>
    Array.mem_toList_iff.2 (Array.mem_of_getElem? hi)
  refine ⟨hm, ⟨fun hi => (hall _ (hmem hi)).1, hc, fun hfiled => ?_⟩, fun _ hi => (hall _ (hmem hi)).2⟩
  obtain ⟨i, hi, hmodel, -⟩ := hm.under hfiled
  exact ⟨i, hi, hmodel⟩

theorem holdsScalars_of_all {m : Memory} (hall : ∀ i ∈ m.heap.instances.toList, ∀ c ∈ i.cells, c.current.IsScalar) :
    m.HoldsScalars := fun _ hi => hall _ (Array.mem_toList_iff.2 (Array.mem_of_getElem? hi))

theorem sound_fleetCalls : (({} : Memory).performAll fleetCalls).Sound := by
  refine AllSteps.invariant (fun _ _ hm hp => hm.perform hp) ?_ sound_empty
  refine ⟨trivial, trivial, trivial, trivial, trivial, ?_, ?_, ?_, ?_, ?_, trivial⟩
  all_goals
    show ∀ i ∈ Heap.get? _ _, _
    decide +kernel

theorem moored_fleet : fleet.Moored fleetRegistry := by
  have hrows := Heap.sameRows_modify (({} : Memory).performAll fleetCalls).heap ⟨4⟩ (f := aboard) fun _ => rfl
  have hfollows := (sound_fleetCalls.filed.follows_unlinked hrows).1
  exact moored_of_all hfollows.filed (hfollows.heap.coherent sound_fleetCalls.coherent) (by decide +kernel)

/-- With the first ship go its sailors, the last one first; the other ship is without a captain then, and its
sailor without a mentor. -/
theorem deletesAsDeclared_fleet :
    let out := fleet.reconcileDelete fleetRegistry "Ship" (hasId "Ship" "ARGO1")
    fleet.Moored fleetRegistry ∧
      DeletesAsDeclared fleetRegistry (fleet.cachedWith "Ship" (hasId "Ship" "ARGO1").evaluate) fleet out.2 out.1 ∧
      out.1 = [⟨0⟩, ⟨3⟩, ⟨2⟩] ∧ out.2.cache.handles = [⟨1⟩, ⟨4⟩] ∧
      (out.2.heap.get? ⟨4⟩).map Instance.links = some ([("ship", some ⟨1⟩), ("mentor", none)], []) := by
  have hm := moored_fleet
  have hscalars : fleet.HoldsScalars := holdsScalars_of_all (by decide +kernel)
  obtain ⟨-, -, hdeclared⟩ := deletesAsDeclared_iff build_fleet apart_fleet hm.filed hm.ofRegistry
    (fun _ => hscalars) "Ship" (hasId "Ship" "ARGO1")
  exact ⟨hm, hdeclared hm.committed, by decide +kernel, by decide +kernel, by decide +kernel⟩

/-! ### A key that was overwritten -/

/-- Two sailors are cached, and the new mentor of the first is not saved yet. -/
def promisedCalls : List CacheCall :=
  [ enlisted sailors [("ID", "ADA01"), ("Ship", "ARGO1"), ("Mentor", "CAL01"), ("Mentor", "BOB01")],
    enlisted sailors [("ID", "EVE01"), ("Ship", "ARGO1"), ("Mentor", "CAL01")],
    enlisted sailors [("ID", "BOB01"), ("Ship", "HOPE1")],
    .register ⟨0⟩, .register ⟨2⟩ ]

/-- The row of the first gets another key by a bulk update. -/
def promised : Memory :=
  ((reconcileUpdate "Sailor" (hasId "Sailor" "ADA01") [("ID", .text "EVE01")]).runOn
    (({} : Memory).performAll promisedCalls)).2

/-- Another instance is cached for that row. -/
def displaced : Memory := {promised with cache := promised.cache.register promised.heap ⟨1⟩}

theorem sound_promisedCalls : (({} : Memory).performAll promisedCalls).Sound := by
  refine AllSteps.invariant (fun _ _ hm hp => hm.perform hp) ?_ sound_empty
  refine ⟨trivial, trivial, trivial, ?_, ?_, trivial⟩
  all_goals
    show ∀ i ∈ Heap.get? _ _, _
    decide +kernel

theorem filed_displaced : displaced.Filed ∧ displaced.Over fleetRegistry := by
  have hm := sound_promisedCalls
  have ho := (moored_of_all (r := fleetRegistry) hm.filed hm.coherent (by decide +kernel)).ofRegistry
  have hupdated : (reconcileUpdate "Sailor" (hasId "Sailor" "ADA01") [("ID", .text "EVE01")]).runOn
      (({} : Memory).performAll promisedCalls) = (.ok 1, promised) := Prod.ext (by decide +kernel) rfl
  exact ⟨(hm.filed.follows_reconcileUpdate hupdated).filed.register ⟨1⟩,
    Over.register (m := promised) (keeps_reconcileUpdate _ _ _ _ ho) ⟨1⟩⟩

/-- The first sailor loses the mentor, goes to the new key at last, and puts the other one out of the cache. -/
theorem not_deletesAsDeclared_displaced :
    let start := displaced.cachedWith "Sailor" (hasId "Sailor" "BOB01").evaluate
    let out := displaced.reconcileDelete fleetRegistry "Sailor" (hasId "Sailor" "BOB01")
    fleetRegistry.Apart ∧ displaced.Filed ∧ displaced.Over fleetRegistry ∧ displaced.HoldsScalars ∧
      displaced.cache.handles = [⟨0⟩, ⟨2⟩, ⟨1⟩] ∧ out.1 = [⟨2⟩] ∧ out.2.cache.handles = [⟨0⟩] ∧
      ¬DeletesAsDeclared fleetRegistry start displaced out.2 out.1 := by
  intro start out
  refine ⟨apart_fleet, filed_displaced.1, filed_displaced.2, holdsScalars_of_all (by decide +kernel),
    by decide +kernel, by decide +kernel, by decide +kernel, fun hdeclared => ?_⟩
  have hkept := (hdeclared.cached ⟨1⟩).2 ⟨by decide +kernel, by decide +kernel⟩
  revert hkept
  decide +kernel

end Memory

end RecordMapper
