import Mathlib.Algebra.BigOperators.Group.List.Basic
import Mathlib.Algebra.Group.Nat.Units
import Mathlib.Algebra.Group.Units.Basic
import Mathlib.Data.List.Dedup
import RecordMapper.Proofs.Fetch.Labels
import RecordMapper.Proofs.Session.Stock

/-! What the statement of a fetch joins and groups.

The rows of joined tables are found one join after the other, as a database finds them: a LEFT JOIN goes on with
NULL where nothing matches. All joins of a plan start from the root, so that its joined rows are, for each row of
the root, all choices of a partner for every navigation (`scopes_select`). Grouping by the keys of the root and of
the single targets takes a row of the root together with its single targets, and leaves all choices for the
collections in one group (`mem_groups_select`). There each partner of a collection occurs once for every choice of
partners for the other collections (`countP_tails`). -/
namespace RecordMapper

/-- Only one element of a list adds anything. -/
theorem flatMap_eq_of_nodup {α β : Type} {f : α → List β} {xs : List α} (hn : xs.Nodup) {a : α} (ha : a ∈ xs)
    (hf : ∀ x ∈ xs, x ≠ a → f x = []) : xs.flatMap f = f a := by
  induction xs with
  | nil => cases ha
  | cons x rest ih =>
    obtain ⟨hx, hn⟩ := List.nodup_cons.1 hn
    rw [List.flatMap_cons]
    by_cases he : x = a
    · have hrest : rest.flatMap f = [] := List.flatMap_eq_nil_iff.2 fun y hy =>
        hf y (.tail _ hy) fun hya => hx (he.trans hya.symm ▸ hy)
      rw [hrest, he, List.append_nil]
    · rw [hf x (.head _) he, List.nil_append]
      exact ih hn ((List.mem_cons.1 ha).resolve_left (Ne.symm he)) fun y hy => hf y (.tail _ hy)

/-- Elements of which only copies of one add anything. -/
theorem countP_flatMap_of_eq {α β : Type} [BEq α] [LawfulBEq α] {f : α → List β} {p : β → Bool} {a : α} {n : Nat}
    (hf : ∀ x, (f x).countP p = if x == a then n else 0) (xs : List α) :
    (xs.flatMap f).countP p = xs.count a * n := by
  induction xs with
  | nil => simp
  | cons x rest ih =>
    rw [List.flatMap_cons, List.countP_append, ih, hf]
    by_cases hx : x = a
    · simp [hx, Nat.add_mul, Nat.add_comm]
    · simp [hx]

/-! ### Joined rows -/

/-- The rows that are joined, under the names of their tables; `none` where a LEFT JOIN has found nothing. -/
abbrev Scope := List (String × Option Record)

namespace Scope

instance : DecidableEq Scope := inferInstanceAs (DecidableEq (List (String × Option Record)))

def row? (scope : Scope) (reference : String) : Option Record := (KeyedList.get? reference scope).join

theorem row?_append {scope more : Scope} {reference : String} {row : Record} (h : scope.row? reference = some row) :
    row? (scope ++ more) reference = some row := by
  rw [row?, KeyedList.get?_append, Option.join_eq_some_iff.1 h]
  rfl

/-- The value of a column, NULL where there is no row. -/
def value (scope : Scope) (ref : ColumnRef) : Value :=
  ((scope.row? ref.table).bind (·.value? ref.column)).getD .null

end Scope

/-- Whether a row of the target belongs to a row of the owner, by the equality of SQL. -/
def Navigation.joins (n : Navigation) (row target : Record) : Bool :=
  Condition.comparisonHolds .eq ((row.value? n.field).getD .null) ((target.value? n.targetField).getD .null)

namespace Join

/-- The rows of a table that a join finds. -/
def found (j : Join) (rows : List Record) (scope : Scope) : List Record :=
  rows.filter fun row =>
    Condition.comparisonHolds .eq (scope.value j.left) ((row.value? j.rightColumn).getD .null)

def extend (j : Join) (rows : List Record) (scope : Scope) : List Scope :=
  let partners := match j.kind, j.found rows scope with
    | .left, [] => [none]
    | _, found => found.map some
  partners.map fun partner => scope ++ [(j.reference, partner)]

end Join

namespace SelectQuery

variable (q : SelectQuery) (rowsOf : String → List Record)

/-- The joined rows of a query without condition. -/
def scopes : List Scope :=
  let start := q.tables.foldl (fun scopes table => scopes.flatMap fun scope =>
    (rowsOf table).map fun row => scope ++ [(table, some row)]) [[]]
  q.joins.foldl (fun scopes j => scopes.flatMap (j.extend (rowsOf j.table))) start

def groupKey (scope : Scope) : List Value := q.groupBy.map scope.value

/-- The joined rows with one key each; every one by itself where nothing is grouped. -/
def groups : List (List Scope) :=
  let scopes := q.scopes rowsOf
  if q.groupBy = [] then scopes.map ([·])
  else (scopes.map q.groupKey).dedup.map fun key => scopes.filter (q.groupKey · = key)

end SelectQuery

/-! ### The joined rows of a plan -/

theorem foldl_flatMap {α β : Type} (f : β → α → List α) (ys : List β) (xs : List α) :
    ys.foldl (fun xs y => xs.flatMap (f y)) xs = xs.flatMap fun x => ys.foldl (fun xs y => xs.flatMap (f y)) [x] := by
  induction ys generalizing xs with
  | nil => simp
  | cons y rest ih =>
    simp only [List.foldl_cons]
    rw [ih, List.flatMap_assoc]
    refine congrArg (xs.flatMap ·) (funext fun x => ?_)
    rw [List.flatMap_singleton, ← ih]

namespace Stock

variable {r : Registry} (s : Stock r)

/-- The rows of a table. -/
def rowsOf (table : String) : List Record := (r.model? table).elim [] s.rows

/-- The rows that a navigation joins to a row. -/
def joined (j : Joined) (root : Record) : List Record := (s.rows j.target).filter (j.navigation.joins root)

/-- The choices for a navigation: one of the joined rows, or NULL where there are none. -/
def partners (j : Joined) (root : Record) : List (Option Record) :=
  match s.joined j root with
  | [] => [none]
  | found => found.map some

/-- All choices of partners for navigations. -/
def tails (root : Record) : List Joined → List Scope
  | [] => [[]]
  | j :: rest => (s.partners j root).flatMap fun partner => (tails root rest).map ((j.reference, partner) :: ·)

/-- How often a partner of one of the navigations occurs: once for every choice of partners for the other ones. -/
def repeats (root : Record) (js : List Joined) (j : Joined) : Nat :=
  ((js.filter (· ≠ j)).map fun k => max 1 (s.joined k root).length).prod

section

variable {s} {j : Joined} {root : Record}

theorem length_partners : (s.partners j root).length = max 1 (s.joined j root).length := by
  unfold partners
  cases s.joined j root with
  | nil => rfl
  | cons row rest => simp

theorem mem_partners_some {row : Record} : some row ∈ s.partners j root ↔ row ∈ s.joined j root := by
  unfold partners
  cases s.joined j root <;> simp

theorem none_mem_partners : none ∈ s.partners j root ↔ s.joined j root = [] := by
  unfold partners
  cases s.joined j root <;> simp

theorem nodup_rows {m : Model} (hm : m ∈ r.models) : (s.rows m).Nodup := (s.distinct m hm).of_map

theorem nodup_joined (hm : j.target ∈ r.models) : (s.joined j root).Nodup := (nodup_rows hm).filter _

theorem nodup_partners (hm : j.target ∈ r.models) : (s.partners j root).Nodup := by
  have hn : (s.joined j root).Nodup := nodup_joined hm
  unfold partners
  split
  · exact List.nodup_singleton none
  · exact hn.map fun _ _ => Option.some.inj

theorem tails_append (js ks : List Joined) :
    s.tails root (js ++ ks) = (s.tails root js).flatMap fun a => (s.tails root ks).map (a ++ ·) := by
  induction js with
  | nil => simp [tails]
  | cons j rest ih => simp [tails, ih, List.flatMap_assoc, List.map_flatMap, List.flatMap_map, Function.comp_def]

theorem tails_ne_nil (js : List Joined) : s.tails root js ≠ [] := by
  induction js with
  | nil => exact List.cons_ne_nil _ _
  | cons j rest ih =>
    have hpartners : s.partners j root ≠ [] := by
      rw [← List.length_pos_iff, length_partners]
      omega
    obtain ⟨partner, hpartner⟩ := List.exists_mem_of_ne_nil _ hpartners
    obtain ⟨tail, htail⟩ := List.exists_mem_of_ne_nil _ ih
    exact List.ne_nil_of_mem (List.mem_flatMap.2 ⟨partner, hpartner, List.mem_map_of_mem htail⟩)

/-- Each tail has a partner for every navigation. -/
theorem get?_of_mem_tails {js : List Joined} (hn : (js.map (·.reference)).Nodup) {tail : Scope}
    (htail : tail ∈ s.tails root js) (hj : j ∈ js) :
    ∃ partner ∈ s.partners j root, KeyedList.get? j.reference tail = some partner := by
  induction js generalizing tail with
  | nil => cases hj
  | cons k rest ih =>
    obtain ⟨hk, hn⟩ := List.nodup_cons.1 hn
    obtain ⟨partner, hpartner, htail⟩ := List.mem_flatMap.1 htail
    obtain ⟨more, hmore, rfl⟩ := List.mem_map.1 htail
    rcases List.mem_cons.1 hj with rfl | hj
    · exact ⟨partner, hpartner, by simp [KeyedList.get?]⟩
    · have hne : k.reference ≠ j.reference := fun he => hk (List.mem_map.2 ⟨j, hj, he.symm⟩)
      obtain ⟨other, hother, hget⟩ := ih hn hmore hj
      exact ⟨other, hother, by simp [KeyedList.get?, hne, hget]⟩

theorem keys_of_mem_tails {js : List Joined} {tail : Scope} (htail : tail ∈ s.tails root js) :
    KeyedList.keys tail = js.map (·.reference) := by
  induction js generalizing tail with
  | nil =>
    obtain rfl := List.mem_singleton.1 htail
    rfl
  | cons k rest ih =>
    obtain ⟨partner, -, htail⟩ := List.mem_flatMap.1 htail
    obtain ⟨more, hmore, rfl⟩ := List.mem_map.1 htail
    exact congrArg (k.reference :: ·) (ih hmore)

/-- The partners tell the tail. -/
theorem eq_of_get?_tails {js : List Joined} (hn : (js.map (·.reference)).Nodup) {tail tail' : Scope}
    (htail : tail ∈ s.tails root js) (htail' : tail' ∈ s.tails root js)
    (h : ∀ j ∈ js, KeyedList.get? j.reference tail = KeyedList.get? j.reference tail') : tail = tail' := by
  induction js generalizing tail tail' with
  | nil => exact (List.mem_singleton.1 htail).trans (List.mem_singleton.1 htail').symm
  | cons k rest ih =>
    obtain ⟨hk, hn⟩ := List.nodup_cons.1 hn
    obtain ⟨partner, -, htail⟩ := List.mem_flatMap.1 htail
    obtain ⟨more, hmore, rfl⟩ := List.mem_map.1 htail
    obtain ⟨partner', -, htail'⟩ := List.mem_flatMap.1 htail'
    obtain ⟨more', hmore', rfl⟩ := List.mem_map.1 htail'
    have hfirst : partner = partner' := by simpa [KeyedList.get?] using h k (.head _)
    have hrest : more = more' := ih hn hmore hmore' fun j hj => by
      have hne : k.reference ≠ j.reference := fun he => hk (List.mem_map.2 ⟨j, hj, he.symm⟩)
      simpa [KeyedList.get?, hne] using h j (.tail _ hj)
    rw [hfirst, hrest]

theorem nodup_tails {js : List Joined} (hm : ∀ j ∈ js, j.target ∈ r.models) : (s.tails root js).Nodup := by
  induction js with
  | nil => exact List.nodup_singleton _
  | cons j rest ih =>
    refine List.nodup_flatMap.2 ⟨fun partner _ => ?_, ?_⟩
    · exact (ih fun k hk => hm k (.tail _ hk)).map (List.cons_injective : Function.Injective ((j.reference, partner) :: ·))
    · refine (nodup_partners (hm j (.head _))).imp fun hne tail h h' => ?_
      obtain ⟨_, _, rfl⟩ := List.mem_map.1 h
      obtain ⟨_, _, he⟩ := List.mem_map.1 h'
      exact hne (Prod.mk.inj (List.cons.inj he).1).2.symm

/-! ### How often a partner occurs -/

theorem length_tails (js : List Joined) :
    (s.tails root js).length = (js.map fun j => max 1 (s.joined j root).length).prod := by
  induction js with
  | nil => rfl
  | cons j rest ih =>
    simp [tails, List.length_flatMap, ih, length_partners]

theorem repeats_eq_one_iff {js : List Joined} :
    s.repeats root js j = 1 ↔ ∀ k ∈ js, k ≠ j → (s.joined k root).length ≤ 1 := by
  unfold repeats
  induction js with
  | nil => simp
  | cons k rest ih =>
    rw [List.forall_mem_cons, ← ih]
    by_cases hk : k = j
    · simp [hk]
    · have hmax : max 1 (s.joined k root).length = 1 ↔ (s.joined k root).length ≤ 1 := by omega
      simp [hk, mul_eq_one, hmax]

theorem countP_tails {js : List Joined} (hn : (js.map (·.reference)).Nodup) (hj : j ∈ js) (partner : Option Record) :
    (s.tails root js).countP (fun tail => KeyedList.get? j.reference tail = some partner) =
      (s.partners j root).count partner * s.repeats root js j := by
  unfold repeats
  induction js with
  | nil => cases hj
  | cons k rest ih =>
    obtain ⟨hk, hn⟩ := List.nodup_cons.1 hn
    rw [tails]
    by_cases he : k = j
    · -- Each time that the partner is chosen, the tails of the others go on from it.
      subst he
      have hothers : rest.filter (· ≠ k) = rest := List.filter_eq_self.2 fun k' hk' =>
        decide_eq_true fun he => hk (List.mem_map.2 ⟨k', hk', congrArg Joined.reference he⟩)
      have hhead : ∀ other, ((s.tails root rest).map ((k.reference, other) :: ·)).countP
          (fun tail => KeyedList.get? k.reference tail = some partner) =
            if other == partner then (s.tails root rest).length else 0 := by
        intro other
        by_cases ho : other = partner <;> simp [List.countP_map, Function.comp_def, KeyedList.get?, ho]
      rw [List.filter_cons_of_neg (by simp), hothers, ← length_tails]
      exact countP_flatMap_of_eq hhead _
    · have hj := (List.mem_cons.1 hj).resolve_left (Ne.symm he)
      have hne : k.reference ≠ j.reference := fun he => hk (List.mem_map.2 ⟨j, hj, he.symm⟩)
      have hhead : ∀ other, ((s.tails root rest).map ((k.reference, other) :: ·)).countP
          (fun tail => KeyedList.get? j.reference tail = some partner) =
            (s.tails root rest).countP (fun tail => KeyedList.get? j.reference tail = some partner) := by
        intro other
        simp [List.countP_map, Function.comp_def, KeyedList.get?, hne]
      simp only [List.countP_flatMap, Function.comp_def, hhead, ih hn hj, List.map_const', List.sum_replicate,
        length_partners]
      simp [he, Nat.mul_left_comm]

/-! ### Joined rows of a plan -/

theorem rowsOf_table (h : r.model? j.target.name = some j.target) : s.rowsOf j.target.table = s.rows j.target := by
  rw [rowsOf, Model.table, h, Option.elim_some]

theorem extend_join {m : Model} {scope : Scope} (hroot : scope.row? m.table = some root) :
    (j.join m).extend (s.rows j.target) scope = (s.partners j root).map fun p => scope ++ [(j.reference, p)] := by
  have hfound : (j.join m).found (s.rows j.target) scope = s.joined j root := by
    unfold Join.found joined Navigation.joins
    simp [Scope.value, Joined.join, hroot]
  unfold Join.extend partners
  rw [hfound, Joined.reference_join]
  cases s.joined j root <;> rfl

/-- The joins of navigations go on with all choices. -/
theorem foldl_joins {m : Model} {js : List Joined} (hm : ∀ j ∈ js, r.model? j.target.name = some j.target)
    {scope : Scope} (hroot : scope.row? m.table = some root) :
    (js.map fun j => j.join m).foldl (fun scopes j => scopes.flatMap (j.extend (s.rowsOf j.table))) [scope] =
      (s.tails root js).map (scope ++ ·) := by
  induction js generalizing scope with
  | nil => simp [tails]
  | cons j rest ih =>
    have htable : s.rowsOf (j.join m).table = s.rows j.target := rowsOf_table (hm j (.head _))
    rw [List.map_cons, List.foldl_cons, List.flatMap_singleton, htable, extend_join hroot, foldl_flatMap,
      List.flatMap_map, tails, List.map_flatMap]
    refine congrArg (List.flatMap · (s.partners j root)) (funext fun partner => ?_)
    have hmore : Scope.row? (scope ++ [(j.reference, partner)]) m.table = some root := Scope.row?_append hroot
    rw [ih (fun k hk => hm k (.tail _ hk)) hmore, List.map_map]
    simp [Function.comp_def]

end

end Stock

/-! ### Groups -/

theorem Model.Suits.nodup_names {m : Model} {row : Record} (hrow : m.Suits row) (hn : (m.fields.map (·.name)).Nodup) :
    (row.map (·.1.name)).Nodup := by
  rw [← hrow.fields, List.map_map] at hn
  exact hn

/-- Under distinct names of fields the key consists of the values of the key fields. -/
theorem Model.Suits.key_eq {m : Model} {row : Record} (hrow : m.Suits row) (hn : (m.fields.map (·.name)).Nodup) :
    row.key = m.primaryKey.map fun f => (row.value? f.name).getD .null := by
  have hvalue : ∀ e ∈ row, (row.value? e.1.name).getD .null = e.2 := fun e he => by
    have hfound := find?_of_nodup_map (hrow.nodup_names hn) he
    rw [Record.value?, hfound]
    rfl
  rw [primaryKey, ← hrow.fields, List.filter_map, List.map_map]
  exact List.map_congr_left fun e he => (hvalue e (List.mem_filter.1 he).1).symm

/-- The models of a plan are registered. -/
structure FetchPlan.Over (p : FetchPlan) (r : Registry) : Prop where
  root : p.root ∈ r.models
  joined : ∀ j ∈ p.joined, j.target ∈ r.models

theorem FetchPlan.over_of_make {r : Registry} {root : Model} (hroot : root ∈ r.models) {included : List Navigation}
    {p : FetchPlan} (h : make r root included = .ok p) : p.Over r := by
  obtain ⟨hplanned, hknown⟩ := make_ok h
  exact ⟨hplanned ▸ hroot, fun j hj => (Registry.model?_of_model (hknown j hj)).2⟩

namespace Stock

variable {r : Registry}

/-- The joined rows of a row of the root with its single targets. -/
def group (s : Stock r) (p : FetchPlan) (row : Record) (single : Scope) : List Scope :=
  (s.tails row p.collections).map fun more => (p.root.table, some row) :: (single ++ more)

section

variable {rules : Rules} {decls : List ModelDecl} (hr : Registry.build rules decls = .ok r) {s : Stock r}
include hr

theorem eq_of_key {m : Model} (hm : m ∈ r.models) {row row' : Record} (hrow : row ∈ s.rows m) (hrow' : row' ∈ s.rows m)
    (h : ∀ f ∈ m.primaryKey, (row.value? f.name).getD .null = (row'.value? f.name).getD .null) : row = row' := by
  have hn := Registry.nodup_fields hr hm
  have hkey : row.key = row'.key := by
    rw [(s.suits m hm row hrow).key_eq hn, (s.suits m hm row' hrow').key_eq hn]
    exact List.map_congr_left h
  exact List.inj_on_of_nodup_map (s.distinct m hm) hrow hrow' hkey

theorem partner_eq_of_key {j : Joined} (hm : j.target ∈ r.models) {root : Record} {partner partner' : Option Record}
    (hpartner : partner ∈ s.partners j root) (hpartner' : partner' ∈ s.partners j root)
    (h : ∀ f ∈ j.target.primaryKey,
      (partner.bind (·.value? f.name)).getD .null = (partner'.bind (·.value? f.name)).getD .null) :
    partner = partner' := by
  have hapart : ∀ {row}, none ∈ s.partners j root → some row ∉ s.partners j root := fun hnone hsome =>
    List.not_mem_nil (none_mem_partners.1 hnone ▸ mem_partners_some.1 hsome)
  cases partner with
  | none =>
    cases partner' with
    | none => rfl
    | some row' => exact absurd hpartner' (hapart hpartner)
  | some row =>
    cases partner' with
    | none => exact absurd hpartner (hapart hpartner')
    | some row' =>
      have hrow := (List.mem_filter.1 (mem_partners_some.1 hpartner)).1
      have hrow' := (List.mem_filter.1 (mem_partners_some.1 hpartner')).1
      exact congrArg some (eq_of_key hr hm hrow hrow' h)

theorem tail_eq_of_keys {js : List Joined} (hm : ∀ j ∈ js, j.target ∈ r.models) (hn : (js.map (·.reference)).Nodup)
    {root : Record} {tail tail' : Scope} (htail : tail ∈ s.tails root js) (htail' : tail' ∈ s.tails root js)
    (h : ∀ j ∈ js, ∀ f ∈ j.target.primaryKey, tail.value ⟨j.reference, f.name⟩ = tail'.value ⟨j.reference, f.name⟩) :
    tail = tail' := by
  refine eq_of_get?_tails hn htail htail' fun j hj => ?_
  obtain ⟨partner, hpartner, hget⟩ := get?_of_mem_tails hn htail hj
  obtain ⟨partner', hpartner', hget'⟩ := get?_of_mem_tails hn htail' hj
  have hsame : partner = partner' := partner_eq_of_key hr (hm j hj) hpartner hpartner' fun f hf => by
    simpa [Scope.value, Scope.row?, hget, hget'] using h j hj f hf
  rw [hget, hget', hsame]

variable {p : FetchPlan} (hp : p.Over r)
include hp

/-- The joined rows of a plan. -/
theorem scopes_select (d : Dialect) : (p.select d).scopes s.rowsOf =
    (s.rows p.root).flatMap fun row => (s.tails row p.singles).flatMap (s.group p row) := by
  have htable : s.rowsOf p.root.table = s.rows p.root := by
    rw [rowsOf, Model.table, Registry.model?_of_mem hr hp.root, Option.elim_some]
  have hjoined : ∀ j ∈ p.singles ++ p.collections, r.model? j.target.name = some j.target := fun j hj =>
    Registry.model?_of_mem hr (hp.joined j (p.singles_append_collections_perm.subset hj))
  have hstart : ∀ row : Record, Scope.row? [(p.root.table, some row)] p.root.table = some row := fun row => by
    simp [Scope.row?, KeyedList.get?]
  simp only [SelectQuery.scopes, FetchPlan.select, List.foldl_cons, List.foldl_nil, List.flatMap_singleton, htable,
    List.nil_append]
  rw [foldl_flatMap, List.flatMap_map]
  refine congrArg (List.flatMap · (s.rows p.root)) (funext fun row => ?_)
  rw [foldl_joins hjoined (hstart row), tails_append, List.map_flatMap]
  simp only [List.map_map]
  rfl

end

/-! ### Groups -/

section

variable {s : Stock r} {p : FetchPlan} {row : Record} {single scope : Scope}

theorem row?_root (hscope : scope ∈ s.group p row single) : scope.row? p.root.table = some row := by
  obtain ⟨more, -, rfl⟩ := List.mem_map.1 hscope
  simp [Scope.row?, KeyedList.get?]

theorem value_root (hscope : scope ∈ s.group p row single) (column : String) :
    scope.value ⟨p.root.table, column⟩ = (row.value? column).getD .null := by
  simp [Scope.value, row?_root hscope]

variable (hn : p.references.Nodup)
include hn

theorem nodup_singles : (p.singles.map (·.reference)).Nodup :=
  (List.nodup_cons.1 hn).2.sublist (List.filter_sublist.map _)

theorem nodup_collections : (p.collections.map (·.reference)).Nodup :=
  (List.nodup_cons.1 hn).2.sublist (List.filter_sublist.map _)

theorem ne_of_single {j k : Joined} (hj : j ∈ p.singles) (hk : k ∈ p.collections) : j.reference ≠ k.reference := by
  have hall : ((p.singles ++ p.collections).map (·.reference)).Nodup :=
    (p.singles_append_collections_perm.map _).nodup_iff.2 (List.nodup_cons.1 hn).2
  rw [List.map_append] at hall
  exact (List.nodup_append.1 hall).2.2 _ (List.mem_map_of_mem hj) _ (List.mem_map_of_mem hk)

theorem ne_reference {j : Joined} (hj : j ∈ p.joined) : p.root.table ≠ j.reference := fun he =>
  (List.nodup_cons.1 hn).1 (List.mem_map.2 ⟨j, hj, he.symm⟩)

theorem row?_single (hsingle : single ∈ s.tails row p.singles) (hscope : scope ∈ s.group p row single) {j : Joined}
    (hj : j ∈ p.singles) : scope.row? j.reference = single.row? j.reference := by
  obtain ⟨more, -, rfl⟩ := List.mem_map.1 hscope
  obtain ⟨partner, -, hget⟩ := get?_of_mem_tails (nodup_singles hn) hsingle hj
  have hne := ne_reference hn (List.mem_filter.1 hj).1
  simp [Scope.row?, KeyedList.get?, hne, KeyedList.get?_append, hget]

theorem mem_joined_of_single (hsingle : single ∈ s.tails row p.singles) {j : Joined} (hj : j ∈ p.singles)
    {target : Record} (htarget : single.row? j.reference = some target) : target ∈ s.joined j row := by
  obtain ⟨partner, hpartner, hget⟩ := get?_of_mem_tails (nodup_singles hn) hsingle hj
  rw [Scope.row?, hget] at htarget
  exact mem_partners_some.1 (htarget ▸ hpartner)

theorem row?_collection (hsingle : single ∈ s.tails row p.singles) {more : Scope} {j : Joined} (hj : j ∈ p.collections) :
    Scope.row? ((p.root.table, some row) :: (single ++ more)) j.reference = Scope.row? more j.reference := by
  have hnone : KeyedList.get? j.reference single = none := by
    cases hget : KeyedList.get? j.reference single with
    | none => rfl
    | some partner =>
      have hkey := KeyedList.mem_keys_of_get? hget
      rw [keys_of_mem_tails hsingle] at hkey
      obtain ⟨k, hk, he⟩ := List.mem_map.1 hkey
      exact absurd he (ne_of_single hn hk hj)
  have hne := ne_reference hn (List.mem_filter.1 hj).1
  simp [Scope.row?, KeyedList.get?, hne, KeyedList.get?_append, hnone]

variable {rules : Rules} {decls : List ModelDecl} (hr : Registry.build rules decls = .ok r) (hp : p.Over r)
include hr hp

/-- Joined rows have one key exactly if they come from one row of the root with the same single targets. -/
theorem groupKey_eq_iff (d : Dialect) (hcollections : p.collections ≠ []) {row' : Record} {single' scope' : Scope}
    (hrow : row ∈ s.rows p.root) (hsingle : single ∈ s.tails row p.singles) (hscope : scope ∈ s.group p row single)
    (hrow' : row' ∈ s.rows p.root) (hsingle' : single' ∈ s.tails row' p.singles)
    (hscope' : scope' ∈ s.group p row' single') :
    (p.select d).groupKey scope = (p.select d).groupKey scope' ↔ row = row' ∧ single = single' := by
  have hkeys : (p.select d).groupBy = p.root.primaryKey.map (fun f => ⟨p.root.table, f.name⟩) ++
      p.singles.flatMap fun j => j.target.primaryKey.map fun f => ⟨j.reference, f.name⟩ := by
    show p.groupKeys = _
    rw [FetchPlan.groupKeys, if_neg (by simpa using hcollections)]
  unfold SelectQuery.groupKey
  rw [List.map_inj_left, hkeys]
  constructor
  · intro h
    have hsame : row = row' := eq_of_key hr hp.root hrow hrow' fun f hf => by
      have := h _ (List.mem_append_left _ (List.mem_map_of_mem hf))
      rwa [value_root hscope, value_root hscope'] at this
    subst hsame
    refine ⟨rfl, tail_eq_of_keys hr (fun j hj => hp.joined j (List.mem_filter.1 hj).1) (nodup_singles hn)
      hsingle hsingle' fun j hj f hf => ?_⟩
    have := h _ (List.mem_append_right _ (List.mem_flatMap.2 ⟨j, hj, List.mem_map_of_mem hf⟩))
    simpa [Scope.value, row?_single hn hsingle hscope hj, row?_single hn hsingle' hscope' hj] using this
  · rintro ⟨rfl, rfl⟩ ref href
    rcases List.mem_append.1 href with href | href
    · obtain ⟨f, -, rfl⟩ := List.mem_map.1 href
      rw [value_root hscope, value_root hscope']
    · obtain ⟨j, hj, href⟩ := List.mem_flatMap.1 href
      obtain ⟨f, -, rfl⟩ := List.mem_map.1 href
      simp [Scope.value, row?_single hn hsingle hscope hj, row?_single hn hsingle hscope' hj]

theorem filter_scopes_select (d : Dialect) (hcollections : p.collections ≠ []) (hrow : row ∈ s.rows p.root)
    (hsingle : single ∈ s.tails row p.singles) (hscope : scope ∈ s.group p row single) :
    ((p.select d).scopes s.rowsOf).filter (fun other => (p.select d).groupKey other = (p.select d).groupKey scope) =
      s.group p row single := by
  have hkey : ∀ {row' single' other}, row' ∈ s.rows p.root → single' ∈ s.tails row' p.singles →
      other ∈ s.group p row' single' →
      ((p.select d).groupKey other = (p.select d).groupKey scope ↔ row' = row ∧ single' = single) :=
    fun hrow' hsingle' hother =>
      groupKey_eq_iff hn hr hp d hcollections hrow' hsingle' hother hrow hsingle hscope
  have hsingles : ∀ j ∈ p.singles, j.target ∈ r.models := fun j hj => hp.joined j (List.mem_filter.1 hj).1
  rw [scopes_select hr hp, List.filter_flatMap, flatMap_eq_of_nodup (nodup_rows hp.root) hrow, List.filter_flatMap,
    flatMap_eq_of_nodup (nodup_tails hsingles) hsingle, List.filter_eq_self]
  -- Rows of the root, and then single targets, other than these give other keys.
  · intro other hother
    exact decide_eq_true ((hkey hrow hsingle hother).2 ⟨rfl, rfl⟩)
  · intro single' hsingle' hne
    refine List.filter_eq_nil_iff.2 fun other hother h => hne ?_
    exact ((hkey hrow hsingle' hother).1 (of_decide_eq_true h)).2
  · intro row' hrow' hne
    refine List.filter_eq_nil_iff.2 fun other hother h => hne ?_
    obtain ⟨single', hsingle', hother⟩ := List.mem_flatMap.1 hother
    exact ((hkey hrow' hsingle' hother).1 (of_decide_eq_true h)).1

/-- Each group of a plan has the joined rows of a row of the root with its single targets. -/
theorem mem_groups_select (d : Dialect) {g : List Scope} : g ∈ (p.select d).groups s.rowsOf ↔
    ∃ row ∈ s.rows p.root, ∃ single ∈ s.tails row p.singles, g = s.group p row single := by
  have hmem : ∀ scope, scope ∈ (p.select d).scopes s.rowsOf ↔
      ∃ row ∈ s.rows p.root, ∃ single ∈ s.tails row p.singles, scope ∈ s.group p row single := fun scope => by
    simp only [scopes_select hr hp, List.mem_flatMap]
  have hkeys : (p.select d).groupBy = [] ↔ p.collections = [] := by
    show p.groupKeys = [] ↔ _
    by_cases h : p.collections = []
    · simp [FetchPlan.groupKeys, h]
    · simp [FetchPlan.groupKeys, h, Registry.primaryKey_ne_nil hr hp.root]
  rw [SelectQuery.groups]
  by_cases hcollections : p.collections = []
  · have hone : ∀ row single, s.group p row single = [(p.root.table, some row) :: single] := fun row single => by
      simp [group, hcollections, tails]
    simp only [if_pos (hkeys.2 hcollections), List.mem_map, hmem, hone, List.mem_singleton]
    constructor
    · rintro ⟨scope, ⟨row, hrow, single, hsingle, hscope⟩, rfl⟩
      exact ⟨row, hrow, single, hsingle, hscope ▸ rfl⟩
    · rintro ⟨row, hrow, single, hsingle, rfl⟩
      exact ⟨_, ⟨row, hrow, single, hsingle, rfl⟩, rfl⟩
  · rw [if_neg (fun h => hcollections (hkeys.1 h))]
    simp only [List.mem_map, List.mem_dedup]
    constructor
    · rintro ⟨_, ⟨scope, hscope, rfl⟩, rfl⟩
      obtain ⟨row, hrow, single, hsingle, hscope⟩ := (hmem scope).1 hscope
      exact ⟨row, hrow, single, hsingle, filter_scopes_select hn hr hp d hcollections hrow hsingle hscope⟩
    · rintro ⟨row, hrow, single, hsingle, rfl⟩
      obtain ⟨more, hmore⟩ := List.exists_mem_of_ne_nil (s.tails row p.collections) (tails_ne_nil _)
      have hscope : (p.root.table, some row) :: (single ++ more) ∈ s.group p row single := List.mem_map_of_mem hmore
      exact ⟨_, ⟨_, (hmem _).2 ⟨row, hrow, single, hsingle, hscope⟩, rfl⟩,
        filter_scopes_select hn hr hp d hcollections hrow hsingle hscope⟩

end

end Stock

end RecordMapper
