import Mathlib.Data.List.Forall2
import Mathlib.Data.List.Perm.Basic
import RecordMapper.Pattern.Reader
import RecordMapper.Proofs.Model.Registry

/-! Which declarations a registry is built from.

The declarations are looked at together: models may refer to models declared later, to each other and to themselves,
and a sole key tells rows apart without being declared unique. A registry is built exactly from lists that are
`WellDeclared`, with patterns that the engine reads (`Registry.builds_wellDeclared`), in any order of the models, and
each declared model is found in it as `Registry.Realizes` says. -/
namespace RecordMapper

/-! ### What is asked of declarations -/

/-- A field that no two rows agree on: one declared unique, or a key by itself. -/
def Identifies (fields : List Field) (f : Field) : Prop :=
  f.unique = true ∨ fields.filter (·.primaryKey) = [f]

/-- A navigation of `owner` that leads to a declared model, between fields of both sides of which the one on its one
side identifies rows. -/
def NavigationDecl.Leads (decls : List ModelDecl) (owner : ModelDecl) (d : NavigationDecl) : Prop :=
  ∃ target ∈ decls, target.name = d.target ∧
    ∃ f g, Designates owner.fields d.field f ∧ Designates target.fields d.targetField g ∧
      d.kind.oneSide (Identifies owner.fields f) (Identifies target.fields g)

/-- Declarations of models that fit together. -/
structure WellDeclared (decls : List ModelDecl) : Prop where
  models : (decls.map (·.name)).Nodup
  fields : ∀ d ∈ decls, (d.fields.map (·.name)).Nodup
  key : ∀ d ∈ decls, ∃ f ∈ d.fields, f.primaryKey = true
  navigations : ∀ d ∈ decls, ∀ n ∈ d.navigations, n.Leads decls d

/-- The order of the models does not matter. -/
theorem WellDeclared.perm {decls reordered : List ModelDecl} (h : WellDeclared decls) (hp : reordered.Perm decls) :
    WellDeclared reordered where
  models := (hp.map _).nodup_iff.2 h.models
  fields d hd := h.fields d (hp.mem_iff.1 hd)
  key d hd := h.key d (hp.mem_iff.1 hd)
  navigations d hd n hn := by
    obtain ⟨target, htarget, hleads⟩ := h.navigations d (hp.mem_iff.1 hd) n hn
    exact ⟨target, hp.mem_iff.2 htarget, hleads⟩

/-! ### Marked fields -/

/-- A field is marked unique if and only if it identifies rows. -/
theorem unique_markedField {fields : List Field} {f : Field} (hf : f ∈ fields) :
    (markedField fields f).unique = true ↔ Identifies fields f := by
  simp only [markedField, Identifies, Bool.or_eq_true, Bool.and_eq_true, decide_eq_true_eq]
  refine or_congr_right ⟨fun h => ?_, fun hsole => ?_⟩
  · obtain ⟨hkey, hsole⟩ := h
    obtain ⟨key, hsole⟩ := List.length_eq_one_iff.1 hsole
    have hf : f ∈ fields.filter (·.primaryKey) := List.mem_filter.2 ⟨hf, hkey⟩
    rw [hsole, List.mem_singleton] at hf
    rw [hsole, hf]
  · have hf : f ∈ fields.filter (·.primaryKey) := hsole ▸ .head _
    exact ⟨(List.mem_filter.1 hf).2, by rw [hsole, List.length_singleton]⟩

/-- Marking changes no field but for its uniqueness. -/
theorem designates_markSoleKey_iff {fields : List Field} {name : Option String} {marked : Field} :
    Designates (markSoleKey fields) name marked ↔ ∃ f, Designates fields name f ∧ marked = markedField fields f := by
  constructor
  · intro h
    cases h with
    | named h =>
      rw [markSoleKey_eq_map] at h
      obtain ⟨f, hf, rfl⟩ := List.mem_map.1 h
      exact ⟨f, .named hf, rfl⟩
    | key h =>
      rw [filter_primaryKey_markSoleKey] at h
      obtain ⟨f, hf, rfl⟩ := List.map_eq_singleton_iff.1 h
      exact ⟨f, .key hf, rfl⟩
  · rintro ⟨f, hf, rfl⟩
    cases hf with
    | named hf => exact .named (f := markedField fields f) (markSoleKey_eq_map fields ▸ List.mem_map_of_mem hf)
    | key hf => exact .key (by rw [filter_primaryKey_markSoleKey, hf, List.map_singleton])

/-! ### Resolution -/

/-- Under distinct names the order does not matter to a lookup. -/
theorem find?_eq_of_perm {α κ : Type} [DecidableEq κ] {name : α → κ} {xs ys : List α} (hp : ys.Perm xs)
    (hn : (xs.map name).Nodup) (key : κ) : ys.find? (name · = key) = xs.find? (name · = key) := by
  have hn' : (ys.map name).Nodup := (hp.map _).nodup_iff.2 hn
  ext x
  rw [find?_eq_some_iff_of_nodup hn', find?_eq_some_iff_of_nodup hn, hp.mem_iff]

theorem NavigationDecl.leads_iff {decls : List ModelDecl} (hmodels : (decls.map (·.name)).Nodup)
    (hfields : ∀ d ∈ decls, (d.fields.map (·.name)).Nodup) {owner : ModelDecl} (ho : owner ∈ decls)
    {d : NavigationDecl} : d.Leads decls owner ↔ ∃ n, d.resolve (decls.map ModelDecl.bare) owner.bare = .ok n := by
  have hbare : ∀ e ∈ decls, (e.bare.fields.map (·.name)).Nodup := fun e he =>
    ModelDecl.nodup_fields_bare (hfields e he)
  have hnames := ModelDecl.nodup_bare hmodels
  -- the one side is marked unique where it identifies rows
  have hside : ∀ (target : ModelDecl) (f g : Field), f ∈ owner.fields → g ∈ target.fields →
      ((d.kind.oneSide (markedField owner.fields f) (markedField target.fields g)).unique = true ↔
        d.kind.oneSide (Identifies owner.fields f) (Identifies target.fields g)) := by
    intro target f g hf hg
    cases d.kind with
    | single => exact unique_markedField hg
    | collection => exact unique_markedField hf
  simp only [resolve_eq_ok_iff (hbare owner ho) (List.forall_mem_map.2 hbare)]
  constructor
  · rintro ⟨target, ht, hname, f, g, hf, hg, hone⟩
    refine ⟨_, target.bare, _, _, (find?_eq_some_iff_of_nodup hnames).2 ⟨List.mem_map_of_mem ht, hname⟩,
      designates_markSoleKey_iff.2 ⟨f, hf, rfl⟩, designates_markSoleKey_iff.2 ⟨g, hg, rfl⟩, ?_, rfl⟩
    exact (hside target f g hf.mem hg.mem).2 hone
  · rintro ⟨n, found, f, g, hfound, hf, hg, hone, -⟩
    obtain ⟨hmem, hname⟩ := (find?_eq_some_iff_of_nodup hnames).1 hfound
    obtain ⟨target, ht, rfl⟩ := List.mem_map.1 hmem
    obtain ⟨f, hf', rfl⟩ := designates_markSoleKey_iff.1 hf
    obtain ⟨g, hg', rfl⟩ := designates_markSoleKey_iff.1 hg
    exact ⟨target, ht, hname, f, g, hf', hg', (hside target f g hf'.mem hg'.mem).1 hone⟩

theorem forall₂_of_map_ok {ε α β : Type} {f : α → Except ε β} {xs : List α} {ys : List β} (h : xs.map f = ys.map .ok) :
    List.Forall₂ (fun x y => f x = .ok y) xs ys := by
  rwa [← List.forall₂_eq_eq_eq, List.forall₂_map_left_iff, List.forall₂_map_right_iff] at h

/-- Models that are found alike resolve navigations alike. -/
theorem ModelDecl.resolve_congr {models other : List Model}
    (hfind : ∀ name, models.find? (·.name = name) = other.find? (·.name = name)) (d : ModelDecl) :
    d.resolve models = d.resolve other := by
  have hresolve : ∀ n : NavigationDecl, n.resolve models d.bare = n.resolve other d.bare := fun n => by
    rw [NavigationDecl.resolve, NavigationDecl.resolve, hfind]
  rw [resolve, resolve, funext hresolve]

theorem ModelDecl.exists_resolve_iff {models : List Model} {d : ModelDecl} :
    (∃ m, d.resolve models = .ok m) ↔ ∀ n ∈ d.navigations, ∃ nav, n.resolve models d.bare = .ok nav := by
  rw [← exists_results_iff]
  constructor
  · rintro ⟨m, h⟩
    exact ⟨m.navigations, (resolve_eq_ok_iff.1 h).1⟩
  · rintro ⟨navigations, h⟩
    exact ⟨{d.bare with navigations}, resolve_eq_ok_iff.2 ⟨h, rfl⟩⟩

namespace Registry

theorem exists_build_iff {rules : Rules} {decls : List ModelDecl} :
    (∃ r, build rules decls = .ok r) ↔
      WellDeclared decls ∧ ∀ d ∈ decls, ∀ f ∈ d.fields, f.PatternValid rules.engine := by
  have hall : (∃ models : List Model, decls.map (ModelDecl.resolve (decls.map ModelDecl.bare)) = models.map .ok) ↔
      ∀ d ∈ decls, ∀ n ∈ d.navigations, ∃ nav, n.resolve (decls.map ModelDecl.bare) d.bare = .ok nav := by
    simp only [exists_results_iff, ModelDecl.exists_resolve_iff]
  constructor
  · rintro ⟨r, h⟩
    obtain ⟨hn, hsound, hmodels, -⟩ := build_eq_ok_iff.1 h
    have hfields : ∀ d ∈ decls, (d.fields.map (·.name)).Nodup := fun d hd => (hsound d hd).fields
    refine ⟨⟨hn, hfields, fun d hd => (hsound d hd).key, fun d hd n hnav => ?_⟩, fun d hd => (hsound d hd).patterns⟩
    exact (NavigationDecl.leads_iff hn hfields hd).2 (hall.1 ⟨_, hmodels⟩ d hd n hnav)
  · rintro ⟨h, hpatterns⟩
    obtain ⟨models, hmodels⟩ := hall.2 fun d hd n hn =>
      (NavigationDecl.leads_iff h.models h.fields hd).1 (h.navigations d hd n hn)
    exact ⟨{models, rules}, build_eq_ok_iff.2
      ⟨h.models, fun d hd => ⟨h.fields d hd, hpatterns d hd, h.key d hd⟩, hmodels, rfl⟩⟩

/-! ### What is registered -/

/-- A declared model as it is found: its fields, of which those that identify rows are unique, and its navigations
between fields that are there. -/
structure Realizes (r : Registry) (d : ModelDecl) (m : Model) : Prop where
  found : r.model d.name = .ok m
  name : m.name = d.name
  fields : List.Forall₂ (fun f g => g = {f with unique := g.unique} ∧ (g.unique = true ↔ Identifies d.fields f))
    d.fields m.fields
  soleKey : ∀ key, m.soleKey? = some key → key.unique = true
  navigations : List.Forall₂ (fun n nav => ∃ target f g, r.Connects m n nav target f g) d.navigations m.navigations

theorem realizes_of_resolve {rules : Rules} {decls : List ModelDecl} {r : Registry} (h : build rules decls = .ok r)
    {d : ModelDecl} {m : Model} (hm : m ∈ r.models) (hresolve : d.resolve (decls.map ModelDecl.bare) = .ok m) :
    r.Realizes d m := by
  have hname := ModelDecl.name_resolve hresolve
  have hfields : m.fields = markSoleKey d.fields := ModelDecl.fields_resolve hresolve
  refine ⟨by rw [model, ← hname, model?_of_mem h hm], hname, ?_, fun key hkey => ?_, ?_⟩
  · rw [hfields, markSoleKey_eq_map, List.forall₂_map_right_iff, List.forall₂_same]
    exact fun f hf => ⟨rfl, unique_markedField hf⟩
  · rw [Model.soleKey?_eq_some_iff, Model.primaryKey, hfields, filter_primaryKey_markSoleKey] at hkey
    obtain ⟨f, hsole, rfl⟩ := List.map_eq_singleton_iff.1 hkey
    exact (unique_markedField (Designates.key hsole).mem).2 (.inr hsole)
  · have hnavigations := forall₂_of_map_ok (ModelDecl.resolve_eq_ok_iff.1 hresolve).1
    exact hnavigations.imp fun n nav hn => connects_of_resolve h hresolve hm hn

theorem realizes_of_build {rules : Rules} {decls : List ModelDecl} {r : Registry} (h : build rules decls = .ok r) :
    List.Forall₂ r.Realizes decls r.models := by
  obtain ⟨-, -, hmodels, -⟩ := build_eq_ok_iff.1 h
  have hresolve := (forall₂_of_map_ok hmodels).flip
  have hall := (List.forall₂_and_left r.models decls).2 ⟨fun m hm => hm, hresolve⟩
  exact (hall.imp fun m d hd => realizes_of_resolve h hd.1 hd.2).flip

/-- In another order the same models are registered. -/
theorem build_perm {rules : Rules} {decls reordered : List ModelDecl} (hp : reordered.Perm decls) {r : Registry}
    (h : build rules decls = .ok r) : ∃ r', build rules reordered = .ok r' ∧ r'.models.Perm r.models := by
  obtain ⟨hwell, hpatterns⟩ := exists_build_iff.1 ⟨r, h⟩
  obtain ⟨r', h'⟩ : ∃ r', build rules reordered = .ok r' :=
    exists_build_iff.2 ⟨hwell.perm hp, fun d hd => hpatterns d (hp.mem_iff.1 hd)⟩
  refine ⟨r', h', ?_⟩
  obtain ⟨-, -, hmodels, -⟩ := build_eq_ok_iff.1 h
  obtain ⟨-, -, hmodels', -⟩ := build_eq_ok_iff.1 h'
  have hsame := ModelDecl.resolve_congr (find?_eq_of_perm (hp.map _) (ModelDecl.nodup_bare hwell.models))
  rw [funext hsame] at hmodels'
  have hall := hp.map (ModelDecl.resolve (decls.map ModelDecl.bare))
  rw [hmodels, hmodels'] at hall
  exact (List.map_perm_map_iff fun _ _ => Except.ok.inj).1 hall

theorem model_eq_of_perm {r r' : Registry} (hp : r'.models.Perm r.models) (hn : (r.models.map (·.name)).Nodup)
    (name : String) : r'.model name = r.model name := by
  unfold model model?
  rw [find?_eq_of_perm hp hn]

/-- A registry is built exactly from declarations that fit together, if the engine reads every pattern. It has the
declared models in their order, as they were declared, and another order makes no difference to what is found. -/
theorem builds_wellDeclared (rules : Rules) (decls : List ModelDecl) :
    ((∃ r, build rules decls = .ok r) ↔
      WellDeclared decls ∧ ∀ d ∈ decls, ∀ f ∈ d.fields, f.PatternValid rules.engine) ∧
    ∀ r, build rules decls = .ok r →
      List.Forall₂ r.Realizes decls r.models ∧
      ∀ reordered : List ModelDecl, reordered.Perm decls →
        ∃ r', build rules reordered = .ok r' ∧ ∀ name, r'.model name = r.model name := by
  refine ⟨exists_build_iff, fun r h => ⟨realizes_of_build h, fun reordered hp => ?_⟩⟩
  obtain ⟨r', h', hmodels⟩ := build_perm hp h
  exact ⟨r', h', model_eq_of_perm hmodels (nodup_models h)⟩

/-- Users, who may have been invited by another, and the addresses they were seen at. Each refers to the other, one of
them before it is declared, and two navigations leave out the key. -/
def accountDecls : List ModelDecl :=
  [ { name := "User"
      fields := [{Field.id "ID" with primaryKey := true}, .title "Name", {Field.id "Inviter" with required := false}]
      navigations := [.fromPrimary "IpAddresses" "IpAddress" "UserID", .toPrimary "Inviter" "Inviter" "User"] },
    { name := "IpAddress"
      fields := [{Field.id "UserID" with primaryKey := true}, {Field.text "IP" 2 45 with primaryKey := true}]
      navigations := [.toPrimary "User" "UserID" "User"] } ]

theorem builds_wellDeclared_accounts :
    ∃ r, build (Pattern.rules 0) accountDecls = .ok r ∧ WellDeclared accountDecls ∧
      List.Forall₂ r.Realizes accountDecls r.models ∧
      ∃ r', build (Pattern.rules 0) accountDecls.reverse = .ok r' ∧ ∀ name, r'.model name = r.model name := by
  have hbuilt : ∃ r, build (Pattern.rules 0) accountDecls = .ok r := ⟨_, rfl⟩
  obtain ⟨hiff, hall⟩ := builds_wellDeclared (Pattern.rules 0) accountDecls
  obtain ⟨r, hr⟩ := hbuilt
  obtain ⟨hrealizes, horder⟩ := hall r hr
  exact ⟨r, hr, (hiff.1 ⟨r, hr⟩).1, hrealizes, horder _ (List.reverse_perm _)⟩

end Registry

end RecordMapper
