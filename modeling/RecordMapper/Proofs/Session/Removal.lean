import RecordMapper.Proofs.Session.Atomicity
import RecordMapper.Proofs.Session.Clearing
import RecordMapper.Proofs.Session.Sweep

/-! What a delete removes.

A delete is repeated on the cache by a list of instances that are still to go. Taking one out adds the
referrers that follow it, and clears the fields of those that lose it, so that what is found later
depends on what was cleared before. Where the registry keeps the two apart (`Registry.Apart`) that
does not matter: with respect to the memory before, the removed instances are the least set that holds
the first ones and whoever follows a member (`Doomed`), and the others lose what refers to a member
(`Loses`). The loop keeps `Removes`: what follows a removed instance is removed or still to go, and the
cleared fields are those that the removed ones account for. It does so as long as no instance that loses
a value takes the place of another one, which cannot be where the keys are the committed ones. -/
namespace RecordMapper

/-! ### Registries that keep removing and clearing apart -/

/-- Whether a navigation says what becomes of those that refer to a removed one. -/
def Navigation.Acts (n : Navigation) : Prop := n.onDelete = .cascade ∨ n.onDelete = .setNull

instance (n : Navigation) : Decidable n.Acts :=
  inferInstanceAs (Decidable (n.onDelete = .cascade ∨ n.onDelete = .setNull))

/-- What a delete clears decides neither where an instance is filed, nor what follows or loses
another one. -/
structure Registry.Separate (r : Registry) : Prop where
  key : ∀ d ∈ r.references, d.2.onDelete = .setNull → ∀ f ∈ d.1.fields, f.name = d.2.field → f.primaryKey = false
  owning : ∀ d ∈ r.references, d.2.onDelete = .setNull →
    ∀ d' ∈ r.references, d'.2.onDelete = .cascade → d'.1.name = d.1.name → d'.2.field ≠ d.2.field
  target : ∀ d ∈ r.references, d.2.onDelete = .setNull →
    ∀ d' ∈ r.references, d'.2.Acts → d'.2.target = d.1.name → d'.2.targetField ≠ d.2.field

/-- The same, but that a navigation may lead to the field that it clears. -/
structure Registry.Apart (r : Registry) : Prop where
  key : ∀ d ∈ r.references, d.2.onDelete = .setNull → ∀ f ∈ d.1.fields, f.name = d.2.field → f.primaryKey = false
  owning : ∀ d ∈ r.references, d.2.onDelete = .setNull →
    ∀ d' ∈ r.references, d'.2.onDelete = .cascade → d'.1.name = d.1.name → d'.2.field ≠ d.2.field
  target : ∀ d ∈ r.references, d.2.onDelete = .setNull →
    ∀ d' ∈ r.references, d' ≠ d → d'.2.Acts → d'.2.target = d.1.name → d'.2.targetField ≠ d.2.field

/-- There is a navigation that leads to the field that it clears. -/
def Registry.Loops (r : Registry) : Prop :=
  ∃ d ∈ r.references, d.2.onDelete = .setNull ∧ d.2.target = d.1.name ∧ d.2.targetField = d.2.field

theorem Registry.Separate.apart {r : Registry} (h : r.Separate) : r.Apart :=
  ⟨h.key, h.owning, fun d hd hnull d' hd' _ => h.target d hd hnull d' hd'⟩

theorem Registry.Separate.not_loops {r : Registry} (h : r.Separate) : ¬r.Loops :=
  fun ⟨d, hd, hnull, htarget, hfield⟩ => h.target d hd hnull d hd (.inr hnull) htarget hfield

namespace Memory

/-! ### Who goes, and who loses -/

/-- An instance refers to another one by a navigation with this action. -/
def RefersBy (r : Registry) (m : Memory) (action : OnDelete) (k h : Handle) (field : String) : Prop :=
  ∃ g, m.heap.get? k = some g ∧ ∃ d ∈ r.dependents g.model.name,
    d.2.onDelete = action ∧ d.2.field = field ∧ h ∈ m.referrers d.1 d.2 k

/-- The first ones, and whoever follows one of them. -/
inductive Doomed (r : Registry) (m : Memory) (start : List Handle) : Handle → Prop
  | start {h : Handle} (hh : h ∈ start) : Doomed r m start h
  | follows {k h : Handle} {field : String} (hk : Doomed r m start k) (hh : m.RefersBy r .cascade k h field) :
    Doomed r m start h

/-- The values of cached instances are such as a field can keep. -/
def HoldsScalars (m : Memory) : Prop :=
  ∀ {h : Handle} {i : Instance}, m.cache.contains m.heap h = true → m.heap.get? h = some i →
    ∀ c ∈ i.cells, c.current.IsScalar

/-- An instance refers to a removed one by a field that is to be cleared. -/
def Loses (r : Registry) (m : Memory) (gone : List Handle) (h : Handle) (field : String) : Prop :=
  ∃ k ∈ gone, m.RefersBy r .setNull k h field

section

variable {r : Registry} {before m : Memory}

theorem refersBy_iff {k : Handle} {g : Instance} (hg : m.heap.get? k = some g) {action : OnDelete} {h : Handle}
    {field : String} : m.RefersBy r action k h field ↔
      ∃ d ∈ r.dependents g.model.name, d.2.onDelete = action ∧ d.2.field = field ∧ h ∈ m.referrers d.1 d.2 k := by
  unfold RefersBy
  rw [hg]
  exact ⟨fun ⟨_, hi, hd⟩ => Option.some.inj hi ▸ hd, fun hd => ⟨g, rfl, hd⟩⟩

theorem RefersBy.cached (hb : before.Filed) {action : OnDelete} {k h : Handle} {field : String}
    (hh : before.RefersBy r action k h field) : before.cache.contains before.heap h = true := by
  obtain ⟨g, hg, d, -, -, -, hmem⟩ := hh
  obtain ⟨-, -, -, hc, -⟩ := (hb.mem_referrers hg).1 hmem
  exact hc

theorem Doomed.cached {start : List Handle} (hb : before.Filed)
    (hstart : ∀ h ∈ start, before.cache.contains before.heap h = true) {h : Handle} (hh : before.Doomed r start h) :
    before.cache.contains before.heap h = true := by
  cases hh with
  | start hh => exact hstart h hh
  | follows _ hh => exact hh.cached hb

/-- The field by which an instance refers to another one is named by a navigation of its model. -/
theorem RefersBy.owned (hb : before.Filed) {action : OnDelete} {k h : Handle} {field : String} {i : Instance}
    (hh : before.RefersBy r action k h field) (hi : before.heap.get? h = some i) :
    ∃ d ∈ r.references, d.2.onDelete = action ∧ d.1.name = i.model.name ∧ d.2.field = field := by
  obtain ⟨g, hg, d, hd, haction, hfield, hmem⟩ := hh
  obtain ⟨-, -, -, -, i', hi', hmodel, -⟩ := (hb.mem_referrers hg).1 hmem
  obtain rfl : i' = i := Option.some.inj (hi'.symm.trans hi)
  exact ⟨d, (Registry.mem_dependents.1 hd).1, haction, hmodel.symm, hfield⟩

end

/-! ### What is cleared -/

/-- What is cleared of an instance is cleared by navigations that its model owns. -/
def ClearsOwned (r : Registry) (before : Memory) (cleared : Handle → String → Prop) : Prop :=
  ∀ h field i, cleared h field → before.heap.get? h = some i →
    ∃ d ∈ r.references, d.2.onDelete = .setNull ∧ d.1.name = i.model.name ∧ d.2.field = field

/-- What is cleared once some navigations to a removed instance have been followed. -/
def ClearedBy (before : Memory) (cleared : Handle → String → Prop) (gone : Handle) (ds : List (Model × Navigation))
    (h : Handle) (field : String) : Prop :=
  cleared h field ∨ ∃ d ∈ ds, d.2.onDelete = .setNull ∧ d.2.field = field ∧ h ∈ before.referrers d.1 d.2 gone

section

variable {r : Registry} {before : Memory} {cleared : Handle → String → Prop} {gone : Handle} {g : Instance}

theorem clearsOwned_loses (hb : before.Filed) (all : List Handle) : ClearsOwned r before (before.Loses r all) :=
  fun _ _ _ ⟨_, _, hrefers⟩ hi => hrefers.owned hb hi

theorem ClearsOwned.clearedBy (hown : ClearsOwned r before cleared) (hb : before.Filed)
    (hg : before.heap.get? gone = some g) {ds : List (Model × Navigation)}
    (hds : ∀ d ∈ ds, d ∈ r.dependents g.model.name) : ClearsOwned r before (before.ClearedBy cleared gone ds) := by
  rintro h field i (hcleared | ⟨d, hd, hnull, hfield, hmem⟩) hi
  · exact hown h field i hcleared hi
  · exact RefersBy.owned hb ⟨g, hg, d, hds d hd, hnull, hfield, hmem⟩ hi

/-- One more removed instance accounts for what its own navigations clear. -/
theorem clearedBy_loses_iff (hg : before.heap.get? gone = some g) {all : List Handle} {h : Handle} {field : String} :
    before.ClearedBy (before.Loses r all) gone (r.dependents g.model.name) h field ↔
      before.Loses r (gone :: all) h field := by
  unfold ClearedBy Loses
  rw [← refersBy_iff hg, List.exists_mem_cons_iff, or_comm]

/-- The field by which an instance is to follow a removed one is not cleared. -/
theorem ClearsOwned.not_followed (hown : ClearsOwned r before cleared) (hapart : r.Apart) (hb : before.Filed)
    (hg : before.heap.get? gone = some g) {d : Model × Navigation} (hd : d ∈ r.references)
    (haction : d.2.onDelete = .cascade) {h : Handle} (hh : h ∈ before.referrers d.1 d.2 gone) :
    ¬cleared h d.2.field := by
  intro hcleared
  obtain ⟨-, -, -, -, i, hi, hname, -⟩ := (hb.mem_referrers hg).1 hh
  obtain ⟨e, he, hnull, hmodel, hfield⟩ := hown _ _ _ hcleared hi
  exact hapart.owning e he hnull d hd haction (hname.symm.trans hmodel.symm) hfield.symm

/-- What leads to an instance is not cleared in it, unless by a loop, which clears it in all that have it. -/
theorem leads_of_loses (hapart : r.Apart) (hscalars : r.Loops → before.HoldsScalars) (hb : before.Filed)
    {all : List Handle} (hall : ∀ k ∈ all, before.cache.contains before.heap k = true)
    (hg : before.heap.get? gone = some g) {g' : Instance} {names : List String}
    (hcells : g'.cells = Cell.nulled names g.cells) (hnames : ∀ name, name ∈ names ↔ before.Loses r all gone name)
    {d : Model × Navigation} (hd : d ∈ r.dependents g.model.name) (hacts : d.2.Acts) :
    Leads before (before.Loses r all) gone g g' d := by
  by_cases hmem : d.2.targetField ∈ names
  · refine .inr ⟨fun v hv => by rw [Instance.eq_null_of_nulled hcells hmem hv]; rfl, fun h hh => ?_⟩
    obtain ⟨k, hk, l, hl, e, he, hnull, hfield, hgone⟩ := (hnames _).1 hmem
    obtain ⟨v, hv, hvnull, -, g₀, hg₀, hname, hvalue⟩ := (hb.mem_referrers hl).1 hgone
    obtain rfl : g₀ = g := Option.some.inj (hg₀.symm.trans hg)
    obtain ⟨hreference, htarget⟩ := Registry.mem_dependents.1 hd
    obtain rfl : d = e := by_contra fun hne =>
      hapart.target e (Registry.mem_dependents.1 he).1 hnull d hreference hne hacts (htarget.trans hname) hfield.symm
    -- The instance had the value of a removed one, and so had what referred to it.
    have hloops : r.Loops := ⟨d, hreference, hnull, htarget.trans hname, hfield.symm⟩
    obtain ⟨w, hw, hequal⟩ := (Option.any_eq_true ..).1 hvalue
    obtain ⟨c, hc, rfl⟩ := Option.map_eq_some_iff.1 hv
    obtain rfl := (hscalars hloops (hall k hk) hl c (List.mem_of_find?_eq_some hc)).legible.equal_iff.1 hequal
    obtain ⟨u, hu, -, hh, i, hi, himodel, hivalue⟩ := (hb.mem_referrers hg).1 hh
    obtain rfl := Option.some.inj (hu.symm.trans (hfield ▸ hw))
    exact ⟨k, hk, l, hl, d, he, hnull, rfl, (hb.mem_referrers hl).2 ⟨_, hv, hvnull, hh, i, hi, himodel, hivalue⟩⟩
  · exact .inl (Instance.get?_of_nulled hcells hmem)

end

/-! ### One removal -/

/-- The state after some navigations to a removed instance have been followed. -/
structure Followed (before : Memory) (cleared : Handle → String → Prop) (gone : Handle) (rest : List Handle)
    (m : Memory) (ds : List (Model × Navigation)) (s : List Handle × Memory) : Prop where
  cleared : Cleared before (before.ClearedBy cleared gone ds) s.2
  cached : ∀ h, s.2.cache.contains s.2.heap h = true ↔ m.cache.contains m.heap h = true
  removed : s.2.heap.get? gone = m.heap.get? gone
  pending : ∀ h, h ∈ s.1 ↔ h ∈ rest ∨ m.cache.contains m.heap h = true ∧
    ∃ d ∈ ds, d.2.onDelete = .cascade ∧ h ∈ before.referrers d.1 d.2 gone

section

variable {before m : Memory} {cleared : Handle → String → Prop} {gone : Handle} {rest : List Handle}
  {ds : List (Model × Navigation)} {s : List Handle × Memory} (hs : Followed before cleared gone rest m ds s)
  {d : Model × Navigation}
include hs

/-- A navigation that does not act is skipped. -/
theorem Followed.skip (hacts : ¬d.2.Acts) : Followed before cleared gone rest m (ds ++ [d]) s := by
  obtain ⟨hcascade, hnull⟩ := not_or.1 hacts
  refine ⟨hs.cleared.congr fun h field _ => ?_, hs.cached, hs.removed, fun h => ?_⟩
  · simp [ClearedBy, hnull]
  · rw [hs.pending]
    simp [hcascade]

/-- The referrers that follow are to go first. -/
theorem Followed.cascade (haction : d.2.onDelete = .cascade)
    (hreferrers : ∀ {h}, h ∈ s.2.referrers d.1 d.2 gone ↔
      m.cache.contains m.heap h = true ∧ h ∈ before.referrers d.1 d.2 gone) :
    Followed before cleared gone rest m (ds ++ [d]) ((s.2.referrers d.1 d.2 gone).reverse ++ s.1, s.2) := by
  refine ⟨hs.cleared.congr fun h field _ => ?_, hs.cached, hs.removed, fun h => ?_⟩
  · simp [ClearedBy, haction]
  · rw [List.mem_append, List.mem_reverse, hreferrers, hs.pending]
    simp only [List.mem_append, List.mem_singleton, or_and_right, exists_or, exists_eq_left, haction, true_and]
    rw [and_or_left, or_comm, or_assoc]

/-- The referrers that lose a value lose no other one. -/
theorem Followed.setNull (haction : d.2.onDelete = .setNull)
    (hreferrers : ∀ {h}, h ∈ s.2.referrers d.1 d.2 gone ↔ h ∈ before.referrers d.1 d.2 gone ∧
      m.cache.contains m.heap h = true ∧ ¬before.ClearedBy cleared gone ds h d.2.field)
    (hnodup : ∀ {h i}, before.heap.get? h = some i → (i.model.fields.map (·.name)).Nodup)
    (hfree : AllSteps (move (·.clear d.2.field)) (MovesFreely (·.clear d.2.field)) (s.2.referrers d.1 d.2 gone) s.2)
    (hout : ¬m.cache.contains m.heap gone = true) :
    Followed before cleared gone rest m (ds ++ [d])
      (s.1, (s.2.referrers d.1 d.2 gone).foldl (clearField d.2.field) s.2) := by
  obtain ⟨hall, hcached, hother⟩ := hs.cleared.clearAll (fun h hh => (hs.cached h).2 (hreferrers.1 hh).2.1)
    (fun _ _ _ hi => hnodup hi) hfree
  refine ⟨hall.congr fun h field hc => ?_, fun h => (hcached h).trans (hs.cached h),
    (hother gone fun hmem => hout (hreferrers.1 hmem).2.1).trans hs.removed, fun h => ?_⟩
  · have hwas := (hs.cached h).1 ((hcached h).1 hc)
    rw [hreferrers]
    constructor
    · rintro (hbefore | ⟨⟨hmem, -⟩, rfl⟩)
      · exact hbefore.imp_right fun ⟨e, he, hrest⟩ => ⟨e, List.mem_append_left _ he, hrest⟩
      · exact .inr ⟨d, List.mem_append_right _ (.head _), haction, rfl, hmem⟩
    · rintro (hbefore | ⟨e, he, hnull, hfield, hmem⟩)
      · exact .inl (.inl hbefore)
      · rcases List.mem_append.1 he with he | he
        · exact .inl (.inr ⟨e, he, hnull, hfield, hmem⟩)
        · obtain rfl := List.mem_singleton.1 he
          subst hfield
          by_cases hdone : before.ClearedBy cleared gone ds h e.2.field
          · exact .inl hdone
          · exact .inr ⟨⟨hmem, hwas, hdone⟩, rfl⟩
  · rw [hs.pending]
    simp [haction, or_and_right, exists_or]

end

section

variable {rules : Rules} {decls : List ModelDecl} {r : Registry} (hr : Registry.build rules decls = .ok r)
  (hapart : r.Apart) {before : Memory} (hb : before.Filed) (ho : before.Over r)
  {cleared : Handle → String → Prop} {gone : Handle} {rest : List Handle} {m : Memory} {g g' : Instance}
  (hown : ClearsOwned r before cleared) (hg : before.heap.get? gone = some g) (hg' : m.heap.get? gone = some g')
  (hleads : ∀ d ∈ r.dependents g.model.name, d.2.Acts → Leads before cleared gone g g' d)
  (hout : ¬m.cache.contains m.heap gone = true)
include hr hapart hb ho hown hg hg' hleads hout

theorem Followed.step {ds : List (Model × Navigation)} {s : List Handle × Memory}
    (hs : Followed before cleared gone rest m ds s) (hds : ∀ d ∈ ds, d ∈ r.dependents g.model.name)
    {d : Model × Navigation} (hd : d ∈ r.dependents g.model.name) (hfree : FollowsFreely gone s d) :
    Followed before cleared gone rest m (ds ++ [d]) (followDelete gone s d) := by
  have hreferrers : d.2.Acts → ∀ {h}, h ∈ s.2.referrers d.1 d.2 gone ↔ h ∈ before.referrers d.1 d.2 gone ∧
      m.cache.contains m.heap h = true ∧ ¬before.ClearedBy cleared gone ds h d.2.field := fun hacts h => by
    have hstill : Leads before (before.ClearedBy cleared gone ds) gone g g' d :=
      (hleads d hd hacts).imp_right (And.imp_right fun hall h hh => .inl (hall h hh))
    rw [hs.cleared.mem_referrers hb hg (hs.removed.trans hg') hstill, hs.cached]
  unfold FollowsFreely at hfree
  unfold followDelete
  dsimp only
  cases haction : d.2.onDelete with
  | cascade =>
    refine hs.cascade haction fun {h} => (hreferrers (.inl haction)).trans ?_
    have hkept : h ∈ before.referrers d.1 d.2 gone → ¬before.ClearedBy cleared gone ds h d.2.field :=
      (hown.clearedBy hb hg hds).not_followed hapart hb hg (Registry.mem_dependents.1 hd).1 haction
    exact ⟨fun hh => ⟨hh.2.1, hh.1⟩, fun hh => ⟨hh.2, hh.1, hkept hh.2⟩⟩
  | setNull =>
    rw [haction] at hfree
    refine hs.setNull haction (hreferrers (.inr haction)) (fun {h i} hi => ?_) hfree hout
    exact Registry.nodup_fields hr (List.mem_of_find?_eq_some (ho.models hi))
  | restrict => exact hs.skip (by simp [Navigation.Acts, haction])
  | noAction => exact hs.skip (by simp [Navigation.Acts, haction])

theorem followed_followDeletes (hm : Cleared before cleared m) (hmodel : g'.model = g.model)
    (hfree : FollowsAllFreely r gone (rest, m)) :
    Followed before cleared gone rest m (r.dependents g.model.name) (followDeletes r gone (rest, m)) := by
  have hall : ∀ (more ds : List (Model × Navigation)) (s : List Handle × Memory),
      (∀ d ∈ ds ++ more, d ∈ r.dependents g.model.name) → AllSteps (followDelete gone) (FollowsFreely gone) more s →
      Followed before cleared gone rest m ds s →
      Followed before cleared gone rest m (ds ++ more) (more.foldl (followDelete gone) s) := by
    intro more
    induction more with
    | nil => exact fun ds s _ _ hs => by rw [List.append_nil]; exact hs
    | cons d more ih =>
      intro ds s hds hfree hs
      rw [List.append_cons] at hds ⊢
      refine ih _ _ hds hfree.2 (hs.step hr hapart hb ho hown hg hg' hleads hout (fun e he => ?_) ?_ hfree.1)
      · exact hds e (List.mem_append_left _ (List.mem_append_left _ he))
      · exact hds d (List.mem_append_left _ (List.mem_append_right _ (.head _)))
  unfold FollowsAllFreely at hfree
  unfold followDeletes
  dsimp only at hfree ⊢
  rw [hg'] at hfree ⊢
  rw [← hmodel]
  refine hall _ [] _ (fun d hd => hmodel ▸ hd) hfree ⟨hm.congr fun h field _ => ?_, fun _ => .rfl, rfl, fun h => ?_⟩
  · simp [ClearedBy]
  · simp

end

/-! ### The loop -/

/-- The removed instances, those that are still to go, and what is left. -/
structure Removes (r : Registry) (before : Memory) (start gone pending : List Handle) (m : Memory) : Prop where
  cleared : Cleared before (before.Loses r gone) m
  cached : ∀ h, m.cache.contains m.heap h = true ↔ before.cache.contains before.heap h = true ∧ h ∉ gone
  nodup : gone.Nodup
  doomed : ∀ h, h ∈ gone ∨ h ∈ pending → before.Doomed r start h
  started : ∀ h ∈ start, h ∈ gone ∨ h ∈ pending
  closed : ∀ k ∈ gone, ∀ h field, before.RefersBy r .cascade k h field → h ∈ gone ∨ h ∈ pending

section

variable {rules : Rules} {decls : List ModelDecl} {r : Registry} (hr : Registry.build rules decls = .ok r)
  (hapart : r.Apart) {before : Memory} (hb : before.Filed) (ho : before.Over r)
  (hscalars : r.Loops → before.HoldsScalars) {start : List Handle}
  (hstart : ∀ h ∈ start, before.cache.contains before.heap h = true)
include hr hapart hb ho hscalars hstart

theorem Removes.step {gone pending rest : List Handle} {m : Memory} (hs : Removes r before start gone pending m)
    {k : Handle} {cache : Cache} (ht : m.takeCached? pending = some (k, cache, rest))
    (hfree : FollowsAllFreely r k (rest, {m with cache})) :
    Removes r before start (k :: gone) (followDeletes r k (rest, {m with cache})).1
      (followDeletes r k (rest, {m with cache})).2 := by
  obtain ⟨hremove, hk⟩ := takeCached?_eq_some ht
  have hck := Cache.contains_of_remove?_eq_some hremove
  have hnew : k ∉ gone := ((hs.cached k).1 hck).2
  have hremoved := hs.cleared.filed.follows_remove hremove
  have hleft := contains_remove hremove
  obtain ⟨g', hg', -⟩ := Cache.contains_iff.1 hck
  obtain ⟨g, names, hg, -, hmodel, hcells, hnames⟩ := hs.cleared.cells hck hg'
  have hcleared : Cleared before (before.Loses r gone) {m with cache} :=
    ⟨hremoved.filed, hs.cleared.coherent, fun hc hj => hs.cleared.cells (hremoved.cached hc) hj⟩
  have hgone : ∀ l ∈ gone, before.cache.contains before.heap l = true := fun l hl =>
    (hs.doomed l (.inl hl)).cached hb hstart
  have hf : Followed before (before.Loses r gone) k rest {m with cache} (r.dependents g.model.name)
      (followDeletes r k (rest, {m with cache})) :=
    followed_followDeletes hr hapart hb ho (clearsOwned_loses hb gone) hg hg'
      (fun _ hd hacts => leads_of_loses hapart hscalars hb hgone hg hcells hnames hd hacts)
      (fun hc => ((hleft k).1 hc).2 rfl) hcleared hmodel hfree
  have hcached : ∀ h, (followDeletes r k (rest, {m with cache})).2.cache.contains
      (followDeletes r k (rest, {m with cache})).2.heap h = true ↔
        before.cache.contains before.heap h = true ∧ h ∉ k :: gone := by
    intro h
    rw [hf.cached, hleft, hs.cached, List.mem_cons, not_or, and_assoc, and_comm (a := h ∉ gone)]
  have hpending : ∀ h, before.cache.contains before.heap h = true → h ∈ gone ∨ h ∈ pending →
      h ∈ k :: gone ∨ h ∈ (followDeletes r k (rest, {m with cache})).1 := by
    intro h hc hh
    by_cases hgone : h ∈ k :: gone
    · exact .inl hgone
    · rw [List.mem_cons, not_or] at hgone
      have hmem := (mem_of_takeCached? ht).2 (hh.resolve_left hgone.2) ((hs.cached h).2 ⟨hc, hgone.2⟩)
      exact .inr ((hf.pending h).2 (.inl (hmem.resolve_left hgone.1)))
  refine ⟨hf.cleared.congr fun h field _ => clearedBy_loses_iff hg, hcached, List.nodup_cons.2 ⟨hnew, hs.nodup⟩,
    fun h hh => ?_, fun h hh => hpending h (hstart h hh) (hs.started h hh), fun l hl h field hrefers => ?_⟩
  · rcases hh with hh | hh
    · rcases List.mem_cons.1 hh with rfl | hh
      · exact hs.doomed _ (.inr hk)
      · exact hs.doomed h (.inl hh)
    · rcases (hf.pending h).1 hh with hrest | ⟨-, d, hd, haction, hmem⟩
      · exact hs.doomed h (.inr ((mem_of_takeCached? ht).1 hrest))
      · exact .follows (hs.doomed k (.inr hk)) ((refersBy_iff hg).2 ⟨d, hd, haction, rfl, hmem⟩)
  · have hc := hrefers.cached hb
    rcases List.mem_cons.1 hl with rfl | hl
    · by_cases hgone : h ∈ l :: gone
      · exact .inl hgone
      · obtain ⟨d, hd, haction, -, hmem⟩ := (refersBy_iff hg).1 hrefers
        exact .inr ((hf.pending h).2 (.inr ⟨(hf.cached h).1 ((hcached h).2 ⟨hc, hgone⟩), d, hd, haction, hmem⟩))
    · exact hpending h hc (hs.closed l hl h field hrefers)

/-- At the end of the loop nothing is left to do. -/
theorem Removes.run {fuel : Nat} {gone pending : List Handle} {m : Memory}
    (hs : Removes r before start gone pending m) (hfree : RemovesFreely r fuel pending m)
    (hend : Sweeps r pending m (removeAll r fuel pending m).1 (removeAll r fuel pending m).2) :
    ∃ rest,
      Removes r before start ((removeAll r fuel pending m).1.reverse ++ gone) rest (removeAll r fuel pending m).2 ∧
      ∀ h ∈ rest, (removeAll r fuel pending m).2.cache.contains (removeAll r fuel pending m).2.heap h = false := by
  induction fuel generalizing gone pending m with
  | zero =>
    cases hend with
    | done ht => exact ⟨pending, hs, contains_of_takeCached?_eq_none ht⟩
  | succ fuel ih =>
    unfold RemovesFreely at hfree
    unfold removeAll at hend ⊢
    cases ht : m.takeCached? pending with
    | none => exact ⟨pending, hs, contains_of_takeCached?_eq_none ht⟩
    | some taken =>
      obtain ⟨k, cache, rest⟩ := taken
      rw [ht] at hend hfree
      cases hend with
      | remove ht' hrest =>
        cases Option.some.inj (ht'.symm.trans ht)
        obtain ⟨left, hlast, hdone⟩ :=
          ih (hs.step hr hapart hb ho hscalars hstart ht hfree.1) hfree.2 hrest
        refine ⟨left, ?_, hdone⟩
        dsimp only
        rw [List.reverse_cons, List.append_assoc]
        exact hlast

end

/-! ### Under the committed keys -/

section

variable {rules : Rules} {decls : List ModelDecl} {r : Registry} (hr : Registry.build rules decls = .ok r)
  (hapart : r.Apart)
include hr hapart

theorem Moored.followDelete {s : List Handle × Memory} (hm : s.2.Moored r) {target : String} {d : Model × Navigation}
    (hd : d ∈ r.dependents target) (gone : Handle) :
    FollowsFreely gone s d ∧ (followDelete gone s d).2.Moored r := by
  unfold FollowsFreely Memory.followDelete
  dsimp only
  cases haction : d.2.onDelete with
  | setNull =>
    have howner := Registry.model?_of_mem hr (Registry.field?_of_dependents hr hd).1
    exact hm.clearAll (hapart.key d (Registry.mem_dependents.1 hd).1 haction) fun h hh i hi =>
      model_of_referrer hm.ofRegistry howner hh hi
  | cascade => exact ⟨trivial, hm⟩
  | restrict => exact ⟨trivial, hm⟩
  | noAction => exact ⟨trivial, hm⟩

theorem Moored.followDeletes {s : List Handle × Memory} (hm : s.2.Moored r) (gone : Handle) :
    FollowsAllFreely r gone s ∧ (followDeletes r gone s).2.Moored r := by
  unfold FollowsAllFreely Memory.followDeletes
  cases s.2.heap.get? gone with
  | some i =>
    have hstep : ∀ s : List Handle × Memory, ∀ d ∈ r.dependents i.model.name, s.2.Moored r →
        FollowsFreely gone s d ∧ (Memory.followDelete gone s d).2.Moored r :=
      fun s d hd hm => hm.followDelete hr hapart hd gone
    exact AllSteps.of_invariant hstep hm
  | none => exact ⟨trivial, hm⟩

/-- No instance that loses a value takes the place of another one. -/
theorem Moored.removesFreely {m : Memory} (hm : m.Moored r) (fuel : Nat) (pending : List Handle) :
    RemovesFreely r fuel pending m := by
  induction fuel generalizing pending m with
  | zero => trivial
  | succ fuel ih =>
    unfold RemovesFreely
    cases ht : m.takeCached? pending with
    | none => trivial
    | some taken =>
      obtain ⟨k, cache, rest⟩ := taken
      have hremove := (takeCached?_eq_some ht).1
      have hremoved := hm.filed.follows_remove hremove
      have hleft : Moored r {m with cache} :=
        ⟨hremoved.filed, hm.ofRegistry.remove hremove, fun hc hi => hm.committed (hremoved.cached hc) hi⟩
      obtain ⟨hfree, hnext⟩ := Moored.followDeletes hr hapart (s := (rest, {m with cache})) hleft k
      exact ⟨hfree, ih hnext _⟩

end

/-! ### A delete -/

section

variable {rules : Rules} {decls : List ModelDecl} {r : Registry} (hr : Registry.build rules decls = .ok r) {m : Memory}
  (ho : m.Over r) (model : String) (condition : Condition)
include hr ho

/-- A delete removes those that are doomed, and clears what refers to one of them in the others, if no
instance that loses a value takes the place of another one. -/
theorem Filed.reconcileDelete_removes (hapart : r.Apart) (hm : m.Filed) (hscalars : r.Loops → m.HoldsScalars)
    (hfree : RemovesFreely r m.cache.size (m.cachedWith model condition.evaluate).reverse m) :
    let out := m.reconcileDelete r model condition
    out.1.Nodup ∧ (∀ h, h ∈ out.1 ↔ m.Doomed r (m.cachedWith model condition.evaluate) h) ∧
      (∀ h, out.2.cache.contains out.2.heap h = true ↔ m.cache.contains m.heap h = true ∧ h ∉ out.1) ∧
      Cleared m (m.Loses r out.1) out.2 := by
  let start := m.cachedWith model condition.evaluate
  have hstart : ∀ h ∈ start, m.cache.contains m.heap h = true := fun h hh => (hm.mem_cachedWith.1 hh).1
  have hbegin : Removes r m start [] start.reverse m := {
    cleared := {
      filed := hm
      coherent := ho.coherent
      cells := fun {h i} hc hi => ⟨i, [], hi, hc, rfl, (Cell.nulled_nil _).symm, fun name => by simp [Loses]⟩ }
    cached := fun h => ⟨fun hc => ⟨hc, List.not_mem_nil⟩, And.left⟩
    nodup := .nil
    doomed := fun h hh => .start (List.mem_reverse.1 (hh.resolve_left List.not_mem_nil))
    started := fun h hh => .inr (List.mem_reverse.2 hh)
    closed := fun k hk => nomatch hk }
  obtain ⟨rest, hend, hdone⟩ :=
    hbegin.run hr hapart hm ho hscalars hstart hfree (hm.sweeps_removeAll r start.reverse)
  rw [List.append_nil] at hend
  intro out
  -- Detaching instances leaves their values alone.
  let left := (removeAll r m.cache.size start.reverse m).2
  have hend : Removes r m start out.1.reverse rest left := hend
  have hrows : left.heap.SameRows out.2.heap := sameRows_detach left out.1
  obtain ⟨hfollows, hkeeps⟩ := hend.cleared.filed.follows_unlinked hrows
  have hcached : ∀ h, out.2.cache.contains out.2.heap h = true ↔ left.cache.contains left.heap h = true :=
    fun h => ⟨hfollows.cached, hkeeps h⟩
  have hleft : ∀ h, h ∈ out.1.reverse ∨ h ∈ rest → m.cache.contains m.heap h = true → h ∈ out.1 := by
    intro h hh hc
    by_contra hnot
    have hcontains := (hend.cached h).2 ⟨hc, fun hmem => hnot (List.mem_reverse.1 hmem)⟩
    rw [hdone h (hh.resolve_left fun hmem => hnot (List.mem_reverse.1 hmem))] at hcontains
    cases hcontains
  refine ⟨List.nodup_reverse.1 hend.nodup,
    fun h => ⟨fun hh => hend.doomed h (.inl (List.mem_reverse.2 hh)), fun hh => ?_⟩,
    fun h => ?_, ⟨hfollows.filed, hfollows.heap.coherent hend.cleared.coherent, fun {h j} hc hj => ?_⟩⟩
  · induction hh with
    | start hh => exact hleft _ (hend.started _ hh) (hstart _ hh)
    | follows _ hrefers ih => exact hleft _ (hend.closed _ (List.mem_reverse.2 ih) _ _ hrefers) (hrefers.cached hm)
  · rw [hcached, hend.cached, List.mem_reverse]
  · obtain ⟨l, hl, -⟩ := Cache.contains_iff.1 ((hcached h).1 hc)
    obtain ⟨j', hj', hlj⟩ := hrows.kept hl
    obtain rfl : j' = j := Option.some.inj (hj'.symm.trans hj)
    obtain ⟨i, names, hi, hbefore, hmodel, hcells, hnames⟩ := hend.cleared.cells ((hcached h).1 hc) hl
    refine ⟨i, names, hi, hbefore, (Instance.model_of_unlinked hlj).trans hmodel,
      (congrArg Instance.cells hlj).trans hcells, fun name => (hnames name).trans ?_⟩
    simp only [Loses, List.mem_reverse]

theorem reconcileDelete_removes (hsep : r.Separate) (hm : m.Sound) :
    let out := m.reconcileDelete r model condition
    out.1.Nodup ∧ (∀ h, h ∈ out.1 ↔ m.Doomed r (m.cachedWith model condition.evaluate) h) ∧
      (∀ h, out.2.cache.contains out.2.heap h = true ↔ m.cache.contains m.heap h = true ∧ h ∉ out.1) ∧
      Cleared m (m.Loses r out.1) out.2 :=
  hm.filed.reconcileDelete_removes hr ho model condition hsep.apart (fun h => absurd h hsep.not_loops)
    (Moored.removesFreely hr hsep.apart ⟨hm.filed, ho, hm.keysCommitted⟩ _ _)

end

end Memory

end RecordMapper
