import RecordMapper.Model.Registry
import RecordMapper.Proofs.Attempt

/-! What a registry that was built guarantees.

The checks of declarations by themselves are given by what they ask for (`bareModels_eq_ok_iff`), and so is the
resolution of a navigation (`NavigationDecl.resolve_eq_ok_iff`). The names of a model's fields are distinct, so that a
name leads to one field; models have distinct names and keys; and a navigation leads from a field of its model to one
of a registered model (`Registry.Connects`). -/
namespace RecordMapper

/-- Under distinct names an element is found by its name. -/
theorem find?_of_nodup_map {α κ : Type} [DecidableEq κ] {name : α → κ} {xs : List α} (hn : (xs.map name).Nodup) {x : α}
    (hx : x ∈ xs) : xs.find? (name · = name x) = some x := by
  induction xs with
  | nil => cases hx
  | cons y rest ih =>
    obtain ⟨hne, hn⟩ := List.nodup_cons.1 hn
    rcases List.mem_cons.1 hx with rfl | hx
    · simp
    · have hy : name y ≠ name x := fun he => hne (List.mem_map.2 ⟨x, hx, he.symm⟩)
      rw [List.find?_cons_of_neg (by simpa using hy)]
      exact ih hn hx

theorem find?_eq_some_iff_of_nodup {α κ : Type} [DecidableEq κ] {name : α → κ} {xs : List α} (hn : (xs.map name).Nodup)
    {key : κ} {x : α} : xs.find? (name · = key) = some x ↔ x ∈ xs ∧ name x = key := by
  constructor
  · intro h
    exact ⟨List.mem_of_find?_eq_some h, by simpa using List.find?_some h⟩
  · rintro ⟨hx, rfl⟩
    exact find?_of_nodup_map hn hx

/-! ### Declarations by themselves -/

/-- A field whose pattern, if it has one, is one to the engine. -/
def Field.PatternValid (engine : PatternEngine) (f : Field) : Prop :=
  ∀ min max pattern, f.kind = .text min max (some pattern) → ∃ test, engine.read pattern = .ok test

theorem Field.patternFault?_eq_none_iff {engine : PatternEngine} {f : Field} :
    f.patternFault? engine = none ↔ f.PatternValid engine := by
  unfold patternFault? PatternValid
  split
  · next min max pattern hkind =>
    rw [hkind]
    cases hread : engine.read pattern with
    | ok test =>
      refine ⟨fun _ min' max' pattern' h => ?_, fun _ => rfl⟩
      cases h
      exact ⟨test, hread⟩
    | error reason =>
      refine ⟨nofun, fun h => ?_⟩
      obtain ⟨test, htest⟩ := h min max pattern rfl
      cases hread.symm.trans htest
  · next hother => exact ⟨fun _ min max pattern h => absurd h (hother min max pattern), fun _ => rfl⟩

theorem fieldsFault?_eq_none_iff {engine : PatternEngine} {earlier : List String} {fields : List Field} :
    fieldsFault? engine earlier fields = none ↔
      (fields.map (·.name)).Nodup ∧ (∀ f ∈ fields, f.name ∉ earlier) ∧ ∀ f ∈ fields, f.PatternValid engine := by
  induction fields generalizing earlier with
  | nil => simp [fieldsFault?]
  | cons f rest ih =>
    rw [List.map_cons, List.nodup_cons, List.forall_mem_cons, List.forall_mem_cons]
    unfold fieldsFault?
    split
    · next hearlier => exact ⟨nofun, fun h => absurd hearlier h.2.1.1⟩
    · next hnew =>
      split
      · next hreason =>
        refine ⟨nofun, fun h => ?_⟩
        rw [Field.patternFault?_eq_none_iff.2 h.2.2.1] at hreason
        cases hreason
      · next hpattern =>
        rw [ih]
        constructor
        · rintro ⟨hn, hrest, hpatterns⟩
          refine ⟨⟨fun hf => ?_, hn⟩, ⟨hnew, fun g hg he => hrest g hg (.tail _ he)⟩,
            Field.patternFault?_eq_none_iff.1 hpattern, hpatterns⟩
          obtain ⟨g, hg, hname⟩ := List.mem_map.1 hf
          exact hrest g hg (hname ▸ .head _)
        · rintro ⟨⟨hne, hn⟩, ⟨-, hrest⟩, -, hpatterns⟩
          refine ⟨hn, fun g hg he => ?_, hpatterns⟩
          rcases List.mem_cons.1 he with hname | he
          · exact hne (hname ▸ List.mem_map_of_mem hg)
          · exact hrest g hg he

/-- A declaration that has no fault by itself. -/
structure ModelDecl.Sound (engine : PatternEngine) (d : ModelDecl) : Prop where
  fields : (d.fields.map (·.name)).Nodup
  patterns : ∀ f ∈ d.fields, f.PatternValid engine
  key : ∃ f ∈ d.fields, f.primaryKey = true

theorem ModelDecl.fault?_eq_none_iff {engine : PatternEngine} {d : ModelDecl} {earlier : List String} :
    d.fault? engine earlier = none ↔ d.name ∉ earlier ∧ d.Sound engine := by
  unfold fault?
  split
  · next hearlier => exact ⟨nofun, fun h => absurd hearlier h.1⟩
  · next hnew =>
    split
    · next fault hfields =>
      refine ⟨nofun, fun ⟨_, hsound⟩ => ?_⟩
      rw [fieldsFault?_eq_none_iff.2 ⟨hsound.fields, fun _ _ => List.not_mem_nil, hsound.patterns⟩] at hfields
      cases hfields
    · next hfields =>
      obtain ⟨hn, -, hpatterns⟩ := fieldsFault?_eq_none_iff.1 hfields
      split
      · next hkey => exact ⟨fun _ => ⟨hnew, hn, hpatterns, List.any_eq_true.1 hkey⟩, fun _ => rfl⟩
      · next hkey => exact ⟨nofun, fun h => absurd (List.any_eq_true.2 h.2.key) hkey⟩

theorem bareModels_eq_ok_iff {engine : PatternEngine} {earlier : List String} {decls : List ModelDecl}
    {models : List Model} :
    bareModels engine earlier decls = .ok models ↔
      (decls.map (·.name)).Nodup ∧ (∀ d ∈ decls, d.name ∉ earlier) ∧ (∀ d ∈ decls, d.Sound engine) ∧
        models = decls.map ModelDecl.bare := by
  induction decls generalizing earlier models with
  | nil => simp [bareModels, eq_comm]
  | cons d rest ih =>
    rw [List.map_cons, List.nodup_cons, List.forall_mem_cons, List.forall_mem_cons]
    unfold bareModels
    split
    · next fault hfault =>
      refine ⟨nofun, fun ⟨_, ⟨hnew, _⟩, ⟨hsound, _⟩, _⟩ => ?_⟩
      rw [ModelDecl.fault?_eq_none_iff.2 ⟨hnew, hsound⟩] at hfault
      cases hfault
    · next hfault =>
      obtain ⟨hnew, hsound⟩ := ModelDecl.fault?_eq_none_iff.1 hfault
      constructor
      · intro h
        obtain ⟨more, hmore, rfl⟩ := map_eq_ok h
        obtain ⟨hn, hrest, hsounds, rfl⟩ := ih.1 hmore
        refine ⟨⟨fun hd => ?_, hn⟩, ⟨hnew, fun e he hearlier => hrest e he (.tail _ hearlier)⟩, ⟨hsound, hsounds⟩, rfl⟩
        obtain ⟨e, he, hname⟩ := List.mem_map.1 hd
        exact hrest e he (hname ▸ .head _)
      · rintro ⟨⟨hne, hn⟩, ⟨-, hrest⟩, ⟨-, hsounds⟩, rfl⟩
        have hmore : ∀ e ∈ rest, e.name ∉ d.name :: earlier := by
          intro e he hearlier
          rcases List.mem_cons.1 hearlier with hname | hearlier
          · exact hne (hname ▸ List.mem_map_of_mem he)
          · exact hrest e he hearlier
        rw [ih.2 ⟨hn, hmore, hsounds, rfl⟩]
        rfl

/-! ### Fields of models -/

/-- What becomes of a declared field: that of a sole key is unique. -/
def markedField (fields : List Field) (f : Field) : Field :=
  {f with unique := f.unique || f.primaryKey && (fields.filter (·.primaryKey)).length = 1}

theorem markSoleKey_eq_map (fields : List Field) : markSoleKey fields = fields.map (markedField fields) := by
  unfold markSoleKey
  split
  · next hsole =>
    refine List.map_congr_left fun f _ => ?_
    obtain ⟨name, kind, required, key, unique, weight, embeddable⟩ := f
    cases key <;> simp [markedField, hsole]
  · next hsole =>
    have hsame : ∀ f, markedField fields f = f := fun f => by simp [markedField, hsole]
    exact (List.map_id'' hsame fields).symm

@[simp] theorem map_name_markSoleKey (fields : List Field) :
    (markSoleKey fields).map (·.name) = fields.map (·.name) := by
  rw [markSoleKey_eq_map, List.map_map]
  rfl

theorem filter_primaryKey_markSoleKey (fields : List Field) :
    (markSoleKey fields).filter (·.primaryKey) = (fields.filter (·.primaryKey)).map (markedField fields) := by
  rw [markSoleKey_eq_map, List.filter_map]
  rfl

theorem ModelDecl.nodup_bare {decls : List ModelDecl} (hn : (decls.map (·.name)).Nodup) :
    ((decls.map bare).map (·.name)).Nodup := by
  rwa [List.map_map]

theorem ModelDecl.nodup_fields_bare {d : ModelDecl} (hn : (d.fields.map (·.name)).Nodup) :
    (d.bare.fields.map (·.name)).Nodup := by
  show ((markSoleKey d.fields).map (·.name)).Nodup
  rwa [map_name_markSoleKey]

namespace Model

theorem requireField_eq_ok_iff {m : Model} {name : String} {f : Field} :
    m.requireField name = .ok f ↔ m.field? name = some f := by
  unfold requireField
  split
  · next found hfound => rw [hfound, Except.ok.injEq, Option.some.injEq]
  · next hmissing => simp [hmissing]

theorem field?_of_requireField {m : Model} {name : String} {f : Field} (h : m.requireField name = .ok f) :
    m.field? f.name = some f := by
  have hfound := requireField_eq_ok_iff.1 h
  have hname : f.name = name := by simpa using List.find?_some hfound
  exact hname ▸ hfound

/-- Under distinct names every field is found. -/
theorem field?_of_mem {m : Model} (hn : (m.fields.map (·.name)).Nodup) {f : Field} (hf : f ∈ m.fields) :
    m.field? f.name = some f :=
  find?_of_nodup_map hn hf

theorem soleKey?_eq_some_iff {m : Model} {key : Field} : m.soleKey? = some key ↔ m.primaryKey = [key] := by
  unfold soleKey?
  split
  · next found hfound => rw [hfound, Option.some.injEq, List.singleton_inj]
  · next hother => exact ⟨nofun, fun h => absurd h (hother key)⟩

end Model

/-! ### Navigations -/

/-- The field that is meant: the named one, or the sole key field where none is named. -/
inductive Designates (fields : List Field) : Option String → Field → Prop
  | named {f : Field} (h : f ∈ fields) : Designates fields (some f.name) f
  | key {f : Field} (h : fields.filter (·.primaryKey) = [f]) : Designates fields none f

theorem Designates.mem {fields : List Field} {name : Option String} {f : Field} (h : Designates fields name f) :
    f ∈ fields := by
  cases h with
  | named h => exact h
  | key h => exact (List.mem_filter.1 (h ▸ .head _ : f ∈ fields.filter (·.primaryKey))).1

theorem Model.fieldOrKey_eq_ok_iff {m : Model} (hn : (m.fields.map (·.name)).Nodup) {name : Option String} {e : Error}
    {f : Field} : m.fieldOrKey name e = .ok f ↔ Designates m.fields name f := by
  unfold fieldOrKey
  split
  · next name =>
    rw [requireField_eq_ok_iff]
    constructor
    · intro h
      obtain ⟨hf, rfl⟩ := (find?_eq_some_iff_of_nodup hn).1 h
      exact .named hf
    · intro h
      cases h with
      | named hf => exact field?_of_mem hn hf
  · split
    · next key hkey =>
      rw [soleKey?_eq_some_iff] at hkey
      constructor
      · intro h
        cases h
        exact .key hkey
      · intro h
        cases h with
        | key hf => exact congrArg Except.ok (List.singleton_inj.1 (hkey.symm.trans hf))
    · next hnone =>
      refine ⟨nofun, fun h => ?_⟩
      cases h with
      | key hf => exact absurd (soleKey?_eq_some_iff.2 hf) (by simp [hnone])

/-- The side of a navigation that must tell rows apart: what a single one leads to, and where a collection starts. -/
def NavigationKind.oneSide {α : Type} (kind : NavigationKind) (owning referred : α) : α :=
  match kind with
  | .single => referred
  | .collection => owning

/-- The navigation between two fields. -/
def NavigationDecl.between (d : NavigationDecl) (field : Field) (target : Model) (targetField : Field) : Navigation :=
  { name := d.name, kind := d.kind, field := field.name, target := target.name
    targetField := targetField.name, onDelete := d.onDelete }

theorem NavigationDecl.resolve_eq_ok_iff {models : List Model} {owner : Model} (hn : (owner.fields.map (·.name)).Nodup)
    (hmodels : ∀ m ∈ models, (m.fields.map (·.name)).Nodup) {d : NavigationDecl} {n : Navigation} :
    d.resolve models owner = .ok n ↔
      ∃ target f g, models.find? (·.name = d.target) = some target ∧ Designates owner.fields d.field f ∧
        Designates target.fields d.targetField g ∧ (d.kind.oneSide f g).unique = true ∧ n = d.between f target g := by
  unfold resolve
  split
  · next hmissing =>
    refine ⟨nofun, fun ⟨target, _, _, htarget, _⟩ => ?_⟩
    rw [hmissing] at htarget
    cases htarget
  · next target htarget =>
    have htn := hmodels target (List.mem_of_find?_eq_some htarget)
    constructor
    · intro h
      obtain ⟨f, hf, h⟩ := bind_ok h
      obtain ⟨g, hg, h⟩ := bind_ok h
      refine ⟨target, f, g, htarget, (owner.fieldOrKey_eq_ok_iff hn).1 hf, (target.fieldOrKey_eq_ok_iff htn).1 hg, ?_⟩
      cases hkind : d.kind
      all_goals
        simp only [hkind] at h
        split at h
        · next hunique =>
          cases h
          exact ⟨hunique, congrArg (fun kind => {d.between f target g with kind}) hkind.symm⟩
        · cases h
    · rintro ⟨found, f, g, hfound, hf, hg, hunique, rfl⟩
      obtain rfl := Option.some.inj (htarget.symm.trans hfound)
      rw [(owner.fieldOrKey_eq_ok_iff hn).2 hf, (target.fieldOrKey_eq_ok_iff htn).2 hg]
      exact if_pos hunique

theorem ModelDecl.resolve_eq_ok_iff {models : List Model} {d : ModelDecl} {m : Model} :
    d.resolve models = .ok m ↔
      d.navigations.map (NavigationDecl.resolve models d.bare) = m.navigations.map .ok ∧
        m = {d.bare with navigations := m.navigations} := by
  constructor
  · intro h
    obtain ⟨navigations, hnavigations, h⟩ := bind_ok h
    cases h
    exact ⟨map_of_mapM_ok hnavigations, rfl⟩
  · rintro ⟨hnavigations, hm⟩
    rw [resolve, mapM_ok hnavigations]
    exact congrArg Except.ok hm.symm

theorem ModelDecl.fields_resolve {models : List Model} {d : ModelDecl} {m : Model}
    (h : d.resolve models = .ok m) : m.fields = markSoleKey d.fields := by
  rw [(resolve_eq_ok_iff.1 h).2]
  rfl

theorem ModelDecl.name_resolve {models : List Model} {d : ModelDecl} {m : Model}
    (h : d.resolve models = .ok m) : m.name = d.name := by
  rw [(resolve_eq_ok_iff.1 h).2]
  rfl

namespace Registry

theorem build_eq_ok_iff {rules : Rules} {decls : List ModelDecl} {r : Registry} :
    build rules decls = .ok r ↔
      (decls.map (·.name)).Nodup ∧ (∀ d ∈ decls, d.Sound rules.engine) ∧
        decls.map (ModelDecl.resolve (decls.map ModelDecl.bare)) = r.models.map .ok ∧ r.rules = rules := by
  constructor
  · intro h
    obtain ⟨bare, hbare, h⟩ := bind_ok h
    obtain ⟨models, hmodels, h⟩ := bind_ok h
    cases h
    obtain ⟨hn, -, hsound, rfl⟩ := bareModels_eq_ok_iff.1 hbare
    exact ⟨hn, hsound, map_of_mapM_ok hmodels, rfl⟩
  · rintro ⟨hn, hsound, hmodels, rfl⟩
    rw [build, bareModels_eq_ok_iff.2 ⟨hn, fun _ _ => List.not_mem_nil, hsound, rfl⟩]
    show (do return {models := ← decls.mapM _, rules := r.rules} : Except Error Registry) = .ok r
    rw [mapM_ok hmodels]
    rfl

section

variable {rules : Rules} {decls : List ModelDecl} {r : Registry} (h : build rules decls = .ok r)
include h

/-- Each registered model comes from a declaration. -/
theorem exists_decl {m : Model} (hm : m ∈ r.models) :
    ∃ d ∈ decls, d.Sound rules.engine ∧ d.resolve (decls.map ModelDecl.bare) = .ok m := by
  obtain ⟨-, hsound, hmodels, -⟩ := build_eq_ok_iff.1 h
  obtain ⟨d, hd, hresolve⟩ := exists_of_mem_results hmodels hm
  exact ⟨d, hd, hsound d hd, hresolve⟩

/-- Registered models have distinct names. -/
theorem nodup_models : (r.models.map (·.name)).Nodup := by
  obtain ⟨hn, -, hmodels, -⟩ := build_eq_ok_iff.1 h
  rwa [map_of_mapM_map (mapM_ok hmodels) fun d m hd => ModelDecl.name_resolve hd]

/-- A registered model is found under its name. -/
theorem model?_of_mem {m : Model} (hm : m ∈ r.models) : r.model? m.name = some m :=
  find?_of_nodup_map (nodup_models h) hm

/-- The fields of a registered model have distinct names. -/
theorem nodup_fields {m : Model} (hm : m ∈ r.models) : (m.fields.map (·.name)).Nodup := by
  obtain ⟨d, -, hsound, hresolve⟩ := exists_decl h hm
  rw [ModelDecl.fields_resolve hresolve, map_name_markSoleKey]
  exact hsound.fields

/-- A registered model has a primary key. -/
theorem primaryKey_ne_nil {m : Model} (hm : m ∈ r.models) : m.primaryKey ≠ [] := by
  obtain ⟨d, -, hsound, hresolve⟩ := exists_decl h hm
  obtain ⟨f, hf, hkey⟩ := hsound.key
  rw [Model.primaryKey, ModelDecl.fields_resolve hresolve, filter_primaryKey_markSoleKey]
  exact mt List.map_eq_nil_iff.1 (List.ne_nil_of_mem (List.mem_filter.2 ⟨hf, hkey⟩))

/-- A declared model is found, with its navigations resolved. -/
theorem exists_model {d : ModelDecl} (hd : d ∈ decls) :
    ∃ m ∈ r.models, d.resolve (decls.map ModelDecl.bare) = .ok m ∧ r.model d.name = .ok m := by
  obtain ⟨-, -, hmodels, -⟩ := build_eq_ok_iff.1 h
  obtain ⟨m, hm, hresolve⟩ := exists_result hmodels hd
  refine ⟨m, hm, hresolve, ?_⟩
  rw [model, ← ModelDecl.name_resolve hresolve, model?_of_mem h hm]

end

/-- A model that was looked up is found under its own name. -/
theorem model?_of_model {r : Registry} {name : String} {m : Model} (h : r.model name = .ok m) :
    r.model? m.name = some m ∧ m ∈ r.models := by
  unfold model at h
  split at h
  · next found hfound =>
    cases h
    have hname : m.name = name := by simpa using List.find?_some hfound
    exact ⟨hname ▸ hfound, List.mem_of_find?_eq_some hfound⟩
  · cases h

/-! ### Resolved navigations -/

/-- A navigation of `owner` is as declared: it leads to a registered model, between the fields that are meant, and the
field on its one side is unique. -/
structure Connects (r : Registry) (owner : Model) (d : NavigationDecl) (n : Navigation) (target : Model)
    (field targetField : Field) : Prop where
  found : r.model d.target = .ok target
  owning : owner.field? n.field = some field ∧ Designates owner.fields d.field field
  referred : target.field? n.targetField = some targetField ∧ Designates target.fields d.targetField targetField
  unique : (d.kind.oneSide field targetField).unique = true
  between : n = d.between field target targetField

theorem connects_of_resolve {rules : Rules} {decls : List ModelDecl} {r : Registry} (h : build rules decls = .ok r)
    {owner : ModelDecl} {m : Model} (hm : owner.resolve (decls.map ModelDecl.bare) = .ok m) (howner : m ∈ r.models)
    {d : NavigationDecl} {n : Navigation} (hn : d.resolve (decls.map ModelDecl.bare) owner.bare = .ok n) :
    ∃ target f g, r.Connects m d n target f g := by
  obtain ⟨hnames, hsound, -⟩ := build_eq_ok_iff.1 h
  have hfields : ∀ d ∈ decls, (d.bare.fields.map (·.name)).Nodup := fun d hd =>
    ModelDecl.nodup_fields_bare (hsound d hd).fields
  have hown := nodup_fields h howner
  rw [ModelDecl.fields_resolve hm] at hown
  obtain ⟨_, f, g, htarget, hf, hg, hunique, rfl⟩ :=
    (NavigationDecl.resolve_eq_ok_iff hown (List.forall_mem_map.2 hfields)).1 hn
  obtain ⟨hmem, hname⟩ := (find?_eq_some_iff_of_nodup (ModelDecl.nodup_bare hnames)).1 htarget
  obtain ⟨e, he, rfl⟩ := List.mem_map.1 hmem
  obtain ⟨target, htarget, hresolve, hfound⟩ := exists_model h he
  have htargetFields : target.fields = e.bare.fields := ModelDecl.fields_resolve hresolve
  have htargetName : target.name = e.bare.name := ModelDecl.name_resolve hresolve
  have hmFields : m.fields = owner.bare.fields := ModelDecl.fields_resolve hm
  exact ⟨target, f, g,
    { found := hname ▸ hfound
      owning := ⟨Model.field?_of_mem (nodup_fields h howner) (hmFields ▸ hf.mem), hmFields ▸ hf⟩
      referred := ⟨Model.field?_of_mem (nodup_fields h htarget) (htargetFields ▸ hg.mem), htargetFields ▸ hg⟩
      unique := hunique
      between := by rw [NavigationDecl.between, NavigationDecl.between, htargetName] }⟩

/-- The single-valued navigations, each with the model that owns it. -/
def references (r : Registry) : List (Model × Navigation) :=
  r.models.flatMap fun m => (m.navigations.filter fun n => n.kind = .single).map fun n => (m, n)

theorem mem_dependents {r : Registry} {target : String} {d : Model × Navigation} :
    d ∈ r.dependents target ↔ d ∈ r.references ∧ d.2.target = target := by
  simp only [dependents, references, List.mem_flatMap, List.mem_map, List.mem_filter, decide_eq_true_eq]
  constructor
  · rintro ⟨m, hm, n, ⟨hn, hkind, htarget⟩, rfl⟩
    exact ⟨⟨m, hm, n, ⟨hn, hkind⟩, rfl⟩, htarget⟩
  · rintro ⟨⟨m, hm, n, ⟨hn, hkind⟩, rfl⟩, htarget⟩
    exact ⟨m, hm, n, ⟨hn, hkind, htarget⟩, rfl⟩

/-- The owning field of a navigation is a field of its model. -/
theorem field?_of_dependents {rules : Rules} {decls : List ModelDecl} {r : Registry} (h : build rules decls = .ok r)
    {target : String} {dependent : Model × Navigation} (hd : dependent ∈ r.dependents target) :
    dependent.1 ∈ r.models ∧ ∃ f, dependent.1.field? dependent.2.field = some f := by
  obtain ⟨m, hm, hd⟩ := List.mem_flatMap.1 hd
  obtain ⟨n, hnavigation, rfl⟩ := List.mem_map.1 hd
  obtain ⟨owner, -, -, hresolve⟩ := exists_decl h hm
  obtain ⟨_, -, hdeclared⟩ := exists_of_mem_results (ModelDecl.resolve_eq_ok_iff.1 hresolve).1
    (List.mem_filter.1 hnavigation).1
  obtain ⟨_, f, _, hconnects⟩ := connects_of_resolve h hresolve hm hdeclared
  exact ⟨hm, f, hconnects.owning.1⟩

end Registry

end RecordMapper
