import Mathlib.Data.List.Nodup
import RecordMapper.Pattern.Reader
import RecordMapper.Proofs.Dialect.Tokens
import RecordMapper.Proofs.Fetch.Hydrate

/-! The names in the statement of a fetch.

Every table has a name by which the rest of the statement refers to it, and every column a label by which it is
found in the rows of the answer. A table that is in use already is referred to by the name of its navigation,
whatever else is called by that name: the names are distinct unless a navigation in that position is named like
a table before it (`nodup_references`). Under distinct names without dots, labels collide only where a collection
is named like a field of the root (`nodup_labels`). Columns are read in their places exactly if their labels are
distinct (`Row.inPlace_iff`). -/
namespace RecordMapper

/-! ### Rows -/

namespace Row

/-- Every value of a row is read by the name of its column. -/
def InPlace (row : Row) : Prop := ∀ k name, row.columns[k]? = some name → row.named? name = row.get? k

theorem mem_of_lastIndex? {name : String} {columns : List String} {i : Nat} (h : lastIndex? name columns = some i) :
    name ∈ columns := by
  induction columns generalizing i with
  | nil => cases h
  | cons c rest ih =>
    cases hrest : lastIndex? name rest with
    | some j => exact .tail _ (ih hrest)
    | none =>
      rw [lastIndex?, hrest] at h
      by_cases hc : c = name
      · exact hc ▸ .head _
      · simp [hc] at h

theorem lastIndex?_of_nodup {columns : List String} (hn : columns.Nodup) {k : Nat} {name : String}
    (h : columns[k]? = some name) : lastIndex? name columns = some k := by
  induction columns generalizing k with
  | nil => cases h
  | cons c rest ih =>
    obtain ⟨hc, hn⟩ := List.nodup_cons.1 hn
    cases k with
    | zero =>
      obtain rfl := Option.some.inj h
      have hrest : lastIndex? c rest = none := by
        cases hlast : lastIndex? c rest with
        | none => rfl
        | some i => exact absurd (mem_of_lastIndex? hlast) hc
      simp [lastIndex?, hrest]
    | succ k => simp [lastIndex?, ih hn h]

/-- Rows are read in place exactly if no two of their columns have one name. -/
theorem inPlace_iff {columns : List String} : (∀ values, InPlace ⟨columns, values⟩) ↔ columns.Nodup := by
  constructor
  · -- Two columns of one name are told apart by a row that marks the first.
    intro h
    rw [List.nodup_iff_getElem?_ne_getElem?]
    intro i j hij hj hsame
    have hi : i < columns.length := Nat.lt_trans hij hj
    have hname := List.getElem?_eq_getElem hi
    let values := (List.range columns.length).map fun k => if k = i then Value.bool true else .null
    have hread : get? ⟨columns, values⟩ i = get? ⟨columns, values⟩ j :=
      (h values i _ hname).symm.trans (h values j _ (hsame ▸ hname))
    simp [get?, values, hi, hj, Nat.ne_of_gt hij] at hread
  · intro hn values k name hname
    rw [named?, lastIndex?_of_nodup hn hname]
    rfl

end Row

/-! ### Names of tables -/

/-- The navigations that are asked for one after another. -/
def includeAll (m : Model) (names : List String) : Except Error (List Navigation) := names.foldlM (include? m) []

theorem nodup_includeAll {m : Model} {names : List String} {included : List Navigation}
    (h : includeAll m names = .ok included) : (included.map (·.name)).Nodup := by
  refine invariant_of_foldlM_ok (fun ns : List Navigation => (ns.map (·.name)).Nodup) (fun ns name ns' h hn => ?_) h
    List.nodup_nil
  obtain ⟨n, _, h⟩ := bind_ok h
  obtain ⟨hnew, h⟩ := unless_ok h
  cases h
  rw [List.map_append]
  refine List.nodup_append_comm.1 (List.nodup_cons.2 ⟨fun hmem => hnew ?_, hn⟩)
  obtain ⟨other, hother, hname⟩ := List.mem_map.1 hmem
  rw [List.any_eq_true]
  exact ⟨other, hother, decide_eq_true hname⟩

theorem Registry.name_of_model {r : Registry} {name : String} {m : Model} (h : r.model name = .ok m) :
    m.name = name := by
  unfold model at h
  split at h
  · next found hfound =>
    cases h
    simpa using List.find?_some hfound
  · cases h

@[simp] theorem Joined.reference_join (j : Joined) (root : Model) : (j.join root).reference = j.reference := by
  by_cases h : j.reference = j.target.table
  · simp [join, Join.reference, h]
  · simp [join, Join.reference, h]

namespace FetchPlan

/-- The names that refer to tables, the root's first. -/
def references (p : FetchPlan) : List String := p.root.table :: p.joined.map (·.reference)

/-- The labels of the columns. -/
def labels (p : FetchPlan) (d : Dialect) : List String := (p.items d).map SelectItem.label

theorem singles_append_collections_perm (p : FetchPlan) : (p.singles ++ p.collections).Perm p.joined := by
  have h := List.filter_append_perm (fun j : Joined => !j.isCollection) p.joined
  simpa [singles, collections] using h

/-- These are the names that the statement uses. -/
theorem references_perm (p : FetchPlan) (d : Dialect) :
    ((p.select d).tables ++ (p.select d).joins.map Join.reference).Perm p.references := by
  refine List.Perm.cons _ ?_
  rw [select, List.map_map]
  simp only [Function.comp_def, Joined.reference_join]
  exact p.singles_append_collections_perm.map _

section

variable {r : Registry} {used taken : List String} {included : List Navigation} {joined : List Joined}

theorem map_navigation_joinAll (h : joinAll r used included = .ok joined) : joined.map (·.navigation) = included := by
  induction included generalizing used joined with
  | nil => cases h; rfl
  | cons n rest ih =>
    obtain ⟨target, _, h⟩ := bind_ok h
    obtain ⟨more, hmore, h⟩ := bind_ok h
    cases h
    rw [List.map_cons, ih hmore]

/-- A name is taken twice exactly when a table is in use and the name of the navigation is too. -/
theorem nodup_joinAll (hused : ∀ name, name ∈ used ↔ name ∈ taken) (h : joinAll r used included = .ok joined)
    (hn : taken.Nodup) :
    (taken ++ joined.map (·.reference)).Nodup ↔ ∀ before j after, joined = before ++ j :: after →
      j.navigation.target ∈ taken ++ before.map (·.reference) →
      j.navigation.name ∉ taken ++ before.map (·.reference) := by
  induction included generalizing used taken joined with
  | nil =>
    cases h
    simp [hn]
  | cons n rest ih =>
    obtain ⟨target, htarget, h⟩ := bind_ok h
    obtain ⟨more, hmore, h⟩ := bind_ok h
    cases h
    generalize hreference : (if target.table ∈ used then n.name else target.table) = reference at hmore
    have hmodel : target.table = n.target := Registry.name_of_model htarget
    rw [hmodel] at hreference
    have hclash : reference ∈ taken ↔ n.target ∈ taken ∧ n.name ∈ taken := by
      rw [← hused, ← hused, ← hused, ← hreference]
      split
      · next h => exact ⟨fun hn => ⟨h, hn⟩, And.right⟩
      · next h => exact ⟨fun ht => absurd ht h, And.left⟩
    rw [List.map_cons, List.append_cons]
    by_cases htaken : reference ∈ taken
    · -- This navigation takes a name a second time.
      refine iff_of_false (fun hall => ?_) fun hall => ?_
      · exact (List.nodup_append.1 (List.nodup_append.1 hall).1).2.2 _ htaken _ (.head _) rfl
      · exact hall [] _ more rfl (by simpa using (hclash.1 htaken).1) (by simpa using (hclash.1 htaken).2)
    · have hn : (taken ++ [reference]).Nodup := List.nodup_append_comm.1 (List.nodup_cons.2 ⟨htaken, hn⟩)
      rw [ih (fun name => by simp [hused, or_comm]) hmore hn]
      constructor
      · intro hall before j after hsplit
        cases before with
        | nil =>
          cases hsplit
          exact fun ht hname => htaken (hclash.2 ⟨by simpa using ht, by simpa using hname⟩)
        | cons first before =>
          obtain ⟨hfirst, hrest⟩ := List.cons.inj hsplit
          subst hfirst
          simpa using hall before j after hrest
      · intro hall before j after hsplit
        simpa using hall (⟨n, target, reference⟩ :: before) j after (by rw [hsplit]; rfl)

/-- The names that are taken are those of the tables so far, or of navigations. -/
theorem mem_joinAll (hused : ∀ name, name ∈ used ↔ name ∈ taken) {before after : List Joined}
    (h : joinAll r used included = .ok (before ++ after)) {name : String}
    (hname : name ∉ before.map (·.navigation.name)) :
    name ∈ taken ++ before.map (·.reference) ↔ name ∈ taken ++ before.map (·.navigation.target) := by
  induction before generalizing used taken included with
  | nil => rfl
  | cons j before ih =>
    cases included with
    | nil => cases h
    | cons n rest =>
      obtain ⟨target, htarget, h⟩ := bind_ok h
      obtain ⟨more, hmore, h⟩ := bind_ok h
      cases h
      rw [List.map_cons, List.mem_cons, not_or] at hname
      generalize hreference : (if target.table ∈ used then n.name else target.table) = reference at hmore hname
      have hmodel : target.table = n.target := Registry.name_of_model htarget
      rw [hmodel] at hreference
      have hfirst : name ∈ taken ++ [reference] ↔ name ∈ taken ++ [n.target] := by
        rw [← hreference]
        split
        · next hin =>
          -- The table is among the names, and the navigation has another one.
          have hin := (hused _).1 hin
          simp only [List.mem_append, List.mem_singleton]
          refine ⟨fun h => .inl (h.resolve_right hname.1), ?_⟩
          rintro (h | rfl)
          · exact .inl h
          · exact .inl hin
        · rfl
      have hused' : ∀ name, name ∈ reference :: used ↔ name ∈ taken ++ [reference] := fun name => by
        simp [hused, or_comm]
      have hrest := ih hused' hmore hname.2
      have hsplit : ∀ x xs, name ∈ taken ++ x :: xs ↔ name ∈ taken ++ [x] ∨ name ∈ xs := fun x xs => by
        rw [List.append_cons, List.mem_append]
      rw [List.map_cons, List.map_cons, hsplit _ (before.map _), hsplit _ (before.map _), ← hfirst,
        ← List.mem_append, ← List.mem_append]
      exact hrest

end

section

variable {r : Registry} {root : Model} {names : List String} {included : List Navigation} {p : FetchPlan}
  (hincluded : includeAll root names = .ok included) (hp : make r root included = .ok p)
include hincluded hp

theorem nodup_navigations : (p.joined.map (·.navigation.name)).Nodup := by
  obtain ⟨joined, hjoined, h⟩ := bind_ok hp
  cases h
  have hnames := nodup_includeAll hincluded
  rw [← map_navigation_joinAll hjoined, List.map_map] at hnames
  exact hnames

/-- The names of tables are distinct, unless a navigation is named like a table before it and leads to a table
that is in use. -/
theorem nodup_references :
    p.references.Nodup ↔ ∀ before j after, p.joined = before ++ j :: after →
      j.navigation.name ∈ root.table :: before.map (·.navigation.target) →
      j.navigation.target ∉ root.table :: before.map (·.reference) := by
  have hnames := nodup_navigations hincluded hp
  obtain ⟨joined, hjoined, h⟩ := bind_ok hp
  cases h
  have htaken : ∀ {before j after}, joined = before ++ j :: after →
      (j.navigation.name ∈ [root.table] ++ before.map (·.reference) ↔
        j.navigation.name ∈ root.table :: before.map (·.navigation.target)) := by
    rintro before j after rfl
    refine mem_joinAll (fun _ => Iff.rfl) hjoined fun hmem => ?_
    simp only [List.map_append] at hnames
    exact (List.nodup_append.1 hnames).2.2 _ hmem _ (.head _) rfl
  refine (nodup_joinAll (fun _ => Iff.rfl) hjoined (List.nodup_singleton root.table)).trans ⟨?_, ?_⟩
  · intro h before j after hsplit hname htarget
    exact h before j after hsplit htarget ((htaken hsplit).2 hname)
  · intro h before j after hsplit htarget hname
    exact h before j after hsplit ((htaken hsplit).1 hname) htarget

end

/-! ### Labels -/

theorem columnLabel_inj {table column table' column' : String} (h : '.' ∉ table.toList) (h' : '.' ∉ table'.toList)
    (he : SelectItem.columnLabel table column = SelectItem.columnLabel table' column') :
    table = table' ∧ column = column' := by
  have hspan : ∀ {table : String} (column : String), '.' ∉ table.toList →
      (SelectItem.columnLabel table column).toList.takeWhile (· ≠ '.') = table.toList ∧
        (SelectItem.columnLabel table column).toList.dropWhile (· ≠ '.') = '.' :: column.toList := by
    intro table column h
    have htext : (SelectItem.columnLabel table column).toList = table.toList ++ '.' :: column.toList := by
      simp [SelectItem.columnLabel]
    rw [htext]
    refine Token.span_run (fun c hc => decide_eq_true fun he => h (he ▸ hc)) fun c hc => ?_
    obtain rfl := Option.some.inj hc
    rfl
  obtain ⟨htable, hcolumn⟩ := hspan column h
  obtain ⟨htable', hcolumn'⟩ := hspan column' h'
  rw [he] at htable hcolumn
  exact ⟨String.toList_inj.1 (htable.symm.trans htable'),
    String.toList_inj.1 (List.cons.inj (hcolumn.symm.trans hcolumn')).2⟩

/-- What the labels are made of. -/
def labelParts (p : FetchPlan) : List (String × String) :=
  p.root.fields.map (fun f => (p.root.table, f.name)) ++
    p.singles.flatMap (fun j => j.target.fields.map fun f => (j.reference, f.name)) ++
    p.collections.map fun j => (p.root.table, j.navigation.name)

theorem labels_eq (p : FetchPlan) (d : Dialect) :
    p.labels d = p.labelParts.map fun part => SelectItem.columnLabel part.1 part.2 := by
  simp [labels, items, labelParts, List.map_flatMap, Function.comp_def, SelectItem.label, SelectItem.ofColumn,
    documentLabel, Model.table]

section

variable {p : FetchPlan} (hroot : (p.root.fields.map (·.name)).Nodup)
  (htargets : ∀ j ∈ p.joined, (j.target.fields.map (·.name)).Nodup)
  (hnavigations : (p.joined.map (·.navigation.name)).Nodup) (hreferences : p.references.Nodup)
include hroot htargets hnavigations hreferences

theorem nodup_labelParts : p.labelParts.Nodup ↔ ∀ j ∈ p.collections, p.root.field? j.navigation.name = none := by
  obtain ⟨hrootReference, hreferences⟩ := List.nodup_cons.1 hreferences
  have hsingle : ∀ j ∈ p.singles, j ∈ p.joined := fun j hj => (List.mem_filter.1 hj).1
  have hpairs : ∀ (table : String) {α : Type} {name : α → String} {xs : List α}, (xs.map name).Nodup →
      (xs.map fun x => (table, name x)).Nodup := by
    intro table α name xs h
    have h := h.map (f := fun n => (table, n)) fun a b he => (Prod.mk.inj he).2
    rwa [List.map_map] at h
  have hcolumns : (p.root.fields.map (fun f => (p.root.table, f.name)) ++
      p.singles.flatMap fun j => j.target.fields.map fun f => (j.reference, f.name)).Nodup := by
    refine List.nodup_append.2 ⟨hpairs _ hroot, ?_, ?_⟩
    · rw [List.nodup_flatMap]
      refine ⟨fun j hj => hpairs _ (htargets j (hsingle j hj)), ?_⟩
      have hsingles : (p.singles.map (·.reference)).Nodup :=
        hreferences.sublist (List.filter_sublist.map _)
      refine (List.pairwise_map.1 hsingles).imp fun hne part h h' => ?_
      obtain ⟨_, _, rfl⟩ := List.mem_map.1 h
      obtain ⟨_, _, he⟩ := List.mem_map.1 h'
      exact hne (Prod.mk.inj he).1.symm
    · rintro _ h _ h' rfl
      obtain ⟨_, _, rfl⟩ := List.mem_map.1 h
      obtain ⟨j, hj, h'⟩ := List.mem_flatMap.1 h'
      obtain ⟨_, _, he⟩ := List.mem_map.1 h'
      exact hrootReference (List.mem_map.2 ⟨j, hsingle j hj, (Prod.mk.inj he).1⟩)
  have hcollections : (p.collections.map fun j => j.navigation.name).Nodup :=
    hnavigations.sublist (List.filter_sublist.map _)
  have hdocuments : (p.collections.map fun j => (p.root.table, j.navigation.name)).Nodup := hpairs _ hcollections
  rw [labelParts, List.nodup_append]
  constructor
  · rintro ⟨-, -, hapart⟩ j hj
    refine List.find?_eq_none.2 fun f hf hname => ?_
    refine hapart _ (List.mem_append_left _ (List.mem_map_of_mem hf)) _ (List.mem_map_of_mem hj) ?_
    rw [of_decide_eq_true hname]
  · refine fun hnone => ⟨hcolumns, hdocuments, ?_⟩
    rintro _ h _ h' rfl
    obtain ⟨j, hj, he⟩ := List.mem_map.1 h'
    rcases List.mem_append.1 h with h | h
    · obtain ⟨f, hf, rfl⟩ := List.mem_map.1 h
      have := List.find?_eq_none.1 (hnone j hj) f hf
      exact this (decide_eq_true (Prod.mk.inj he).2.symm)
    · obtain ⟨k, hk, h⟩ := List.mem_flatMap.1 h
      obtain ⟨_, _, rfl⟩ := List.mem_map.1 h
      exact hrootReference (List.mem_map.2 ⟨k, hsingle k hk, (Prod.mk.inj he).1.symm⟩)

/-- Where no name has a dot, the labels are distinct unless a collection is named like a field of the root. -/
theorem nodup_labels (hdots : ∀ name ∈ p.references, '.' ∉ name.toList) (d : Dialect) :
    (p.labels d).Nodup ↔ ∀ j ∈ p.collections, p.root.field? j.navigation.name = none := by
  have htable : ∀ part ∈ p.labelParts, part.1 ∈ p.references := by
    intro part h
    rcases List.mem_append.1 h with h | h
    · rcases List.mem_append.1 h with h | h
      · obtain ⟨_, _, rfl⟩ := List.mem_map.1 h
        exact .head _
      · obtain ⟨j, hj, h⟩ := List.mem_flatMap.1 h
        obtain ⟨_, _, rfl⟩ := List.mem_map.1 h
        exact .tail _ (List.mem_map.2 ⟨j, (List.mem_filter.1 hj).1, rfl⟩)
    · obtain ⟨_, _, rfl⟩ := List.mem_map.1 h
      exact .head _
  rw [← nodup_labelParts hroot htargets hnavigations hreferences, labels_eq]
  refine ⟨List.Nodup.of_map _, fun h => h.map_on fun part hpart part' hpart' he => ?_⟩
  obtain ⟨htable, hcolumn⟩ := columnLabel_inj (hdots _ (htable part hpart)) (hdots _ (htable part' hpart')) he
  exact Prod.ext htable hcolumn

end

/-! ### Plans of registered models -/

/-- When the names of a plan are distinct: those of its tables; the labels of its columns, where these names are
distinct and have no dots; and with the labels, what is read of any row of the answer. -/
theorem distinct_iff {rules : Rules} {decls : List ModelDecl} {r : Registry} (hr : Registry.build rules decls = .ok r)
    {root : Model} (hroot : root ∈ r.models) {names : List String} {included : List Navigation}
    (hincluded : includeAll root names = .ok included) {p : FetchPlan} (hp : make r root included = .ok p) (d : Dialect) :
    (((p.select d).tables ++ (p.select d).joins.map Join.reference).Nodup ↔
      ∀ before j after, p.joined = before ++ j :: after →
        j.navigation.name ∈ root.table :: before.map (·.navigation.target) →
        j.navigation.target ∉ root.table :: before.map (·.reference)) ∧
    (p.references.Nodup → (∀ name ∈ p.references, '.' ∉ name.toList) →
      ((p.labels d).Nodup ↔ ∀ j ∈ p.collections, root.field? j.navigation.name = none)) ∧
    ((∀ values, Row.InPlace ⟨p.labels d, values⟩) ↔ (p.labels d).Nodup) := by
  obtain ⟨hplanned, hknown⟩ := make_ok hp
  have htargets : ∀ j ∈ p.joined, (j.target.fields.map (·.name)).Nodup := fun j hj =>
    Registry.nodup_fields hr (Registry.model?_of_model (hknown j hj)).2
  refine ⟨(p.references_perm d).nodup_iff.trans (nodup_references hincluded hp), fun hreferences hdots => ?_,
    Row.inPlace_iff⟩
  have hfields : (p.root.fields.map (·.name)).Nodup := hplanned ▸ Registry.nodup_fields hr hroot
  rw [← hplanned]
  exact nodup_labels hfields htargets (nodup_navigations hincluded hp) hreferences hdots d

/-- Authors with the books that they wrote and those that they reviewed. -/
def libraryDecls : List ModelDecl :=
  [{ name := "Author", fields := [{Field.shortId "ID" with primaryKey := true}]
     navigations := [.fromPrimary "books" "Book" "Author", .fromPrimary "reviewed" "Book" "Reviewer"] },
   { name := "Book"
     fields := [{Field.shortId "ID" with primaryKey := true}, .shortId "Author", .shortId "Reviewer"]
     navigations := [.toPrimary "author" "Author" "Author"] }]

def libraryRegistry : Registry := (Registry.build (Pattern.rules 0) libraryDecls).toOption.getD default

/-- The second join of a table goes by the name of its navigation. -/
theorem distinct_library : ∃ r root included p,
    Registry.build (Pattern.rules 0) libraryDecls = .ok r ∧ root ∈ r.models ∧
    includeAll root ["books", "reviewed"] = .ok included ∧ make r root included = .ok p ∧
    p.references = ["Author", "Book", "reviewed"] ∧ p.labels .sqlite = ["Author.ID", "Author.books", "Author.reviewed"] ∧
    (∀ before j after, p.joined = before ++ j :: after →
      j.navigation.name ∈ root.table :: before.map (·.navigation.target) →
      j.navigation.target ∉ root.table :: before.map (·.reference)) ∧
    ∀ values, Row.InPlace ⟨p.labels .sqlite, values⟩ := by
  have hr : Registry.build (Pattern.rules 0) libraryDecls = .ok libraryRegistry := rfl
  have hincluded : includeAll (libraryRegistry.models.headD default) ["books", "reviewed"] = .ok _ := rfl
  refine ⟨_, _, _, _, hr, .head _, hincluded, rfl, ?_⟩
  obtain ⟨hreferences, hlabels, hplace⟩ := distinct_iff hr (.head _) hincluded rfl .sqlite
  refine ⟨by decide +kernel, by decide +kernel, hreferences.1 (by decide +kernel), hplace.2 ?_⟩
  exact (hlabels (by decide +kernel) (by decide +kernel)).2 (by decide +kernel)

/-- Users who were referred by others: navigations named like the table, like a field, and to a table whose name
is a field's behind a dot. -/
def namesakeDecls : List ModelDecl :=
  [{ name := "User"
     fields := [{Field.shortId "ID" with primaryKey := true}, {Field.shortId "Referrer" with required := false},
       .shortId "Team.ID"]
     navigations := [.toPrimary "User" "Referrer" "User", .fromPrimary "Referrer" "User" "Referrer",
       .toPrimary "team" "Team.ID" "User.Team"] },
   {name := "User.Team", fields := [{Field.shortId "ID" with primaryKey := true}]}]

/-- A navigation takes the name of the root's table a second time, and labels collide where names are distinct. -/
theorem not_distinct_namesakes : ∃ r root, Registry.build (Pattern.rules 0) namesakeDecls = .ok r ∧ root ∈ r.models ∧
    (∃ included p, includeAll root ["User"] = .ok included ∧ make r root included = .ok p ∧
      ¬((p.select .sqlite).tables ++ (p.select .sqlite).joins.map Join.reference).Nodup ∧
      ¬∀ values, Row.InPlace ⟨p.labels .sqlite, values⟩) ∧
    (∃ included p, includeAll root ["Referrer"] = .ok included ∧ make r root included = .ok p ∧
      p.references.Nodup ∧ ¬∀ values, Row.InPlace ⟨p.labels .sqlite, values⟩) ∧
    ∃ included p, includeAll root ["team"] = .ok included ∧ make r root included = .ok p ∧
      p.references.Nodup ∧ ¬∀ values, Row.InPlace ⟨p.labels .sqlite, values⟩ := by
  refine ⟨_, _, rfl, .head _, ⟨_, _, rfl, rfl, ?_, ?_⟩, ⟨_, _, rfl, rfl, ?_, ?_⟩, ⟨_, _, rfl, rfl, ?_, ?_⟩⟩
  all_goals
    try rw [Row.inPlace_iff]
    decide +kernel

end FetchPlan

end RecordMapper
