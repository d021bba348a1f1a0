import Mathlib.Data.List.Perm.Basic
import RecordMapper.Proofs.Condition.Compile
import RecordMapper.Proofs.Instance.Canonical
import RecordMapper.Proofs.Session.SessionCalls
import RecordMapper.Proofs.Session.Table

/-! Lookups that are answered from the cache.

A lookup that finds a match in the cache does not ask the database, whatever else it was told about the order of
the matches and how many of them to skip. The answer is a match (`Memory.Shelves.of_probe`), but not always one
that the query could have given: a row comes at a position of some order by the terms exactly if no more rows
than that come before it and more rows than that do not come behind it (`exists_sorted_at_iff`). -/
namespace RecordMapper

/-! ### Positions in an order -/

section

variable {α : Type} {cmp : α → α → Ordering} [Std.TransCmp cmp] {xs sorted : List α} {x : α} {k : Nat}

/-- An element of a sorted list has no more elements before it than its position, and more that are not behind. -/
theorem bounds_of_sorted_at (hperm : sorted.Perm xs) (hsorted : sorted.Pairwise fun a b => (cmp a b).isLE = true)
    (hat : sorted[k]? = some x) :
    xs.countP (fun a => cmp a x = .lt) ≤ k ∧ k < xs.countP (fun a => (cmp a x).isLE) := by
  have hself : cmp x x = .eq := Std.ReflCmp.compare_self
  obtain ⟨hk, hat⟩ := List.getElem?_eq_some_iff.1 hat
  have hsplit : sorted = sorted.take k ++ x :: sorted.drop (k + 1) := by
    rw [← hat, ← List.drop_eq_getElem_cons hk, List.take_append_drop]
  rw [hsplit, List.pairwise_append, List.pairwise_cons] at hsorted
  obtain ⟨-, ⟨hbehind, -⟩, hbefore⟩ := hsorted
  have hlength : (sorted.take k).length = k := List.length_take_of_le (Nat.le_of_lt hk)
  rw [← hperm.countP_eq, ← hperm.countP_eq, hsplit, List.countP_append, List.countP_append]
  constructor
  · have hnone : (x :: sorted.drop (k + 1)).countP (fun a => cmp a x = .lt) = 0 := by
      rw [List.countP_eq_zero]
      intro a ha hlt
      have hlt := of_decide_eq_true hlt
      rcases List.mem_cons.1 ha with rfl | ha
      · rw [hself] at hlt
        cases hlt
      · have hbehind := hbehind a ha
        have hswap : cmp x a = (cmp a x).swap := Std.OrientedCmp.eq_swap
        rw [hswap, hlt] at hbehind
        cases hbehind
    have := (sorted.take k).countP_le_length (p := fun a => decide (cmp a x = .lt))
    omega
  · have hall : (sorted.take k).countP (fun a => (cmp a x).isLE) = (sorted.take k).length :=
      List.countP_eq_length.2 fun a ha => hbefore a ha x (.head _)
    have hfirst : 0 < (x :: sorted.drop (k + 1)).countP (fun a => (cmp a x).isLE) :=
      List.countP_pos_iff.2 ⟨x, .head _, by rw [hself]; rfl⟩
    omega

/-- Between the elements before a position and those behind it, a further one is in order. -/
theorem exists_sorted_at [DecidableEq α] (hx : x ∈ xs) (hbefore : xs.countP (fun a => cmp a x = .lt) ≤ k)
    (hbehind : k < xs.countP (fun a => (cmp a x).isLE)) :
    ∃ sorted : List α, sorted.Perm xs ∧ sorted.Pairwise (fun a b => (cmp a b).isLE = true) ∧ sorted[k]? = some x := by
  have hself : cmp x x = .eq := Std.ReflCmp.compare_self
  let others := (xs.erase x).mergeSort fun a b => (cmp a b).isLE
  have hperm : (x :: others).Perm xs :=
    ((List.mergeSort_perm _ _).cons x).trans (List.perm_cons_erase hx).symm
  have hsorted : others.Pairwise fun a b => (cmp a b).isLE = true := by
    refine List.pairwise_mergeSort (fun _ _ _ => Std.TransCmp.isLE_trans) (fun a b => ?_) _
    have hswap : cmp b a = (cmp a b).swap := Std.OrientedCmp.eq_swap
    rw [hswap]
    cases cmp a b <;> rfl
  rw [← List.take_append_drop k others, List.pairwise_append] at hsorted
  obtain ⟨hfirst, hlast, hacross⟩ := hsorted
  -- The elements before, and those not behind, on both sides of the position.
  rw [← hperm.countP_eq, List.countP_cons, hself, ← List.take_append_drop k others, List.countP_append]
    at hbefore hbehind
  simp only [reduceCtorEq, decide_false, Bool.false_eq_true, if_false, show Ordering.eq.isLE = true from rfl, if_true]
    at hbefore hbehind
  have hlength : (others.take k).length = k := by
    have := (others.take k).countP_le_length (p := fun a => (cmp a x).isLE)
    have := (others.drop k).countP_le_length (p := fun a => (cmp a x).isLE)
    have := congrArg List.length (List.take_append_drop k others)
    rw [List.length_append] at this
    refine List.length_take_of_le ?_
    omega
  have hle : ∀ a ∈ others.take k, (cmp a x).isLE = true := by
    intro a ha
    by_contra hnot
    have hgt : ∀ b, (cmp a b).isLE = true → ¬(cmp b x).isLE = true := fun b hab hbx =>
      hnot (Std.TransCmp.isLE_trans hab hbx)
    have hnone : (others.drop k).countP (fun a => (cmp a x).isLE) = 0 :=
      List.countP_eq_zero.2 fun b hb => hgt b (hacross a ha b hb)
    have hmissing : (others.take k).countP (fun a => (cmp a x).isLE) ≠ (others.take k).length := fun h =>
      hnot (List.countP_eq_length.1 h a ha)
    have := (others.take k).countP_le_length (p := fun a => (cmp a x).isLE)
    omega
  have hge : ∀ b ∈ others.drop k, (cmp x b).isLE = true := by
    intro b hb
    by_contra hnot
    have hlt : cmp b x = .lt := by
      have hswap : cmp b x = (cmp x b).swap := Std.OrientedCmp.eq_swap
      rw [hswap]
      cases h : cmp x b with
      | gt => rfl
      | lt => exact absurd (by rw [h]; rfl) hnot
      | eq => exact absurd (by rw [h]; rfl) hnot
    have hall : (others.take k).countP (fun a => cmp a x = .lt) = (others.take k).length :=
      List.countP_eq_length.2 fun a ha =>
        decide_eq_true (Std.TransCmp.lt_of_isLE_of_lt (hacross a ha b hb) hlt)
    have hsome : 0 < (others.drop k).countP (fun a => cmp a x = .lt) :=
      List.countP_pos_iff.2 ⟨b, hb, decide_eq_true hlt⟩
    omega
  refine ⟨others.take k ++ x :: others.drop k, ?_, ?_, ?_⟩
  · refine List.perm_middle.trans ?_
    rw [List.take_append_drop]
    exact hperm
  · refine List.pairwise_append.2 ⟨hfirst, List.pairwise_cons.2 ⟨hge, hlast⟩, fun a ha b hb => ?_⟩
    rcases List.mem_cons.1 hb with rfl | hb
    · exact hle a ha
    · exact hacross a ha b hb
  · rw [List.getElem?_append_right (Nat.le_of_eq hlength), hlength, Nat.sub_self]
    rfl

end

/-! ### What a database may answer -/

section

variable (cmp : Value → Value → Ordering)

/-- How two rows stand by a term of an order, in a database that orders values like this. -/
def OrderBy.compareRows (o : OrderBy) (a b : Record) : Ordering :=
  let value (row : Record) := (row.value? o.ref.column).getD .null
  match o.direction with
  | .ascending => cmp (value a) (value b)
  | .descending => cmp (value b) (value a)

/-- How two rows stand by the terms of an order, the first of which comes first. -/
def compareRows : List OrderBy → Record → Record → Ordering
  | [], _, _ => .eq
  | o :: rest, a, b => (o.compareRows cmp a b).then (compareRows rest a b)

variable [Std.TransCmp cmp]

instance OrderBy.transCmp_compareRows (o : OrderBy) : Std.TransCmp (o.compareRows cmp) := by
  have hvalue : Std.TransCmp fun a b : Record =>
      cmp ((a.value? o.ref.column).getD .null) ((b.value? o.ref.column).getD .null) :=
    { eq_swap := Std.OrientedCmp.eq_swap, isLE_trans := Std.TransCmp.isLE_trans }
  obtain ⟨ref, direction⟩ := o
  cases direction with
  | ascending => exact hvalue
  | descending => exact hvalue.opposite

instance transCmp_compareRows (terms : List OrderBy) : Std.TransCmp (compareRows cmp terms) := by
  induction terms with
  | nil => exact { eq_swap := rfl, isLE_trans := fun _ _ => rfl }
  | cons o rest ih => exact inferInstanceAs (Std.TransCmp (compareLex (o.compareRows cmp) (compareRows cmp rest)))

end

namespace SelectQuery

variable (cmp : Value → Value → Ordering) {m : Model} (q : SelectQuery) (t : Table m)

/-- The rows that satisfy the condition of a query. -/
def matching : List Record := t.rows.filter fun row => q.filter.all (·.holdsOf row.value?)

/-- The part of its rows that a query asks for. -/
def page (rows : List Record) : List Record :=
  if 0 < q.limit then (rows.drop q.offset).take q.limit else rows.drop q.offset

/-- What a query of one table may be answered with: that part of its rows in some order by its terms. -/
def Answers (rows : List Record) : Prop :=
  ∃ sorted : List Record, sorted.Perm (q.matching t) ∧
    sorted.Pairwise (fun a b => (compareRows cmp q.orderBy a b).isLE = true) ∧ rows = q.page sorted

/-- How many matches have to come before a row. -/
def countBefore (row : Record) : Nat := (q.matching t).countP fun a => compareRows cmp q.orderBy a row = .lt

/-- How many matches, the row among them, do not have to come behind it. -/
def countUpTo (row : Record) : Nat := (q.matching t).countP fun a => (compareRows cmp q.orderBy a row).isLE

theorem answers_one_iff [Std.TransCmp cmp] (hlimit : q.limit = 1) {row : Record} (hrow : row ∈ q.matching t) :
    q.Answers cmp t [row] ↔ q.countBefore cmp t row ≤ q.offset ∧ q.offset < q.countUpTo cmp t row := by
  have hpage : ∀ sorted : List Record, [row] = q.page sorted ↔ sorted[q.offset]? = some row := by
    intro sorted
    rw [page, hlimit, if_pos Nat.one_pos, List.take_one, List.head?_drop]
    cases sorted[q.offset]? with
    | none => simp
    | some a => simp [eq_comm]
  constructor
  · rintro ⟨sorted, hperm, hsorted, hrows⟩
    exact bounds_of_sorted_at hperm hsorted ((hpage sorted).1 hrows)
  · rintro ⟨hbefore, hupTo⟩
    obtain ⟨sorted, hperm, hsorted, hat⟩ := exists_sorted_at hrow hbefore hupTo
    exact ⟨sorted, hperm, hsorted, (hpage sorted).2 hat⟩

end SelectQuery

/-! ### What the cache answers -/

namespace Memory

variable {m : Model} {memory : Memory} {t : Table m}

/-- Every instance on the shelf of a model is clean and has its row in the table. -/
def Reflects (memory : Memory) (t : Table m) : Prop :=
  ∀ {key : String} {h : Handle} {i : Instance}, memory.cache.filed? m.name key = some h →
    memory.heap.get? h = some i → i.model = m ∧ i.isDirty = false ∧ i.record ∈ t.rows

/-- An equality holds of an instance that has its value. -/
theorem evaluate_of_hasValue {P : Value → Prop} {rules : Rules} {table field : String} {v : Value} {literal : Literal}
    (hc : (Condition.comparison table field .eq v literal).CompiledFor P m rules) {i : Instance}
    (h : Cache.hasValue field v i = true) : (Condition.comparison table field .eq v literal).evaluate i = true := by
  obtain ⟨-, f, hf⟩ := hc
  obtain ⟨_, -, hcoerced⟩ := hf.coerced
  have hscalar := Field.isScalar_of_coerce hcoerced
  obtain ⟨current, hcurrent, hequal⟩ := (Option.any_eq_true ..).1 h
  obtain rfl := hscalar.legible.equal_iff.1 hequal
  refine (Option.any_eq_true ..).2 ⟨current, hcurrent, ?_⟩
  rw [Condition.comparisonHolds, Value.compare?_self hscalar hf.notNull]
  rfl

/-- What is found in the cache is filed, and the condition holds of it. -/
theorem filed_of_probe {P : Value → Prop} {rules : Rules} {c : Condition} (hc : c.CompiledFor P m rules) {h : Handle}
    (hprobe : memory.cache.probe memory.heap m.name c = some h) :
    ∃ key i, memory.cache.filed? m.name key = some h ∧ memory.heap.get? h = some i ∧ c.evaluate i = true := by
  have hscan : memory.cache.findOne? memory.heap m.name c = some h →
      ∃ key i, memory.cache.filed? m.name key = some h ∧ memory.heap.get? h = some i ∧ c.evaluate i = true := by
    intro hfound
    obtain ⟨key, _, hfiled⟩ := List.mem_filterMap.1 (List.mem_of_find?_eq_some hfound)
    have hholds : memory.heap.holds c.evaluate h = true := List.find?_some hfound
    obtain ⟨i, hi, hholds⟩ := (Option.any_eq_true ..).1 hholds
    exact ⟨key, i, hfiled, hi, hholds⟩
  unfold Cache.probe at hprobe
  split at hprobe
  · rcases Option.or_eq_some_iff.1 hprobe with hunique | ⟨-, hfound⟩
    · obtain ⟨key, -, hunique⟩ := Option.bind_eq_some_iff.1 hunique
      obtain ⟨k, hfiled, hunique⟩ := Option.bind_eq_some_iff.1 hunique
      split at hunique
      · next hholds =>
        obtain rfl := Option.some.inj hunique
        obtain ⟨i, hi, hvalue⟩ := (Option.any_eq_true ..).1 hholds
        exact ⟨key, i, hfiled, hi, evaluate_of_hasValue hc hvalue⟩
      · cases hunique
    · exact hscan hfound
  · exact hscan hprobe

/-- What is found in a cache that reflects a table has a row that satisfies the condition. -/
theorem Reflects.of_probe (hm : memory.Reflects t) {P : Value → Prop} {rules : Rules} {c : Condition}
    (hc : c.CompiledFor P m rules) {h : Handle} (hprobe : memory.cache.probe memory.heap m.name c = some h) :
    ∃ i, memory.heap.get? h = some i ∧ i.record ∈ t.rows ∧ c.holdsOf i.record.value? = true := by
  obtain ⟨key, i, hfiled, hi, hholds⟩ := filed_of_probe hc hprobe
  obtain ⟨-, hclean, hrow⟩ := hm hfiled hi
  exact ⟨i, hi, hrow, i.evaluate_of_not_isDirty hclean c ▸ hholds⟩

end Memory

namespace Session

variable {β : Type} {s : Session β} {state : SessionState β} {f : Fetch} {p : Predicate} {c : Condition} {h : Handle}

/-- A match in the cache is the answer, and nothing else happens. -/
theorem runOn_first?_of_probe (hcache : s.useCache = true) (hincludes : f.includes = [])
    (hcompile : Condition.compile f.model s.registry.rules p = .ok c)
    (hprobe : state.cache.probe state.heap f.model.name c = some h) :
    (s.first? f p).runOn state = (.ok (some h), state) := by
  rw [first?, Attempt.runOn_bind, condition, Attempt.runOn_ofExcept, hcompile]
  dsimp only
  rw [Attempt.runOn_bind, Attempt.runOn_get]
  simp only [hcache, hincludes, List.isEmpty_nil, Bool.and_self, if_true, hprobe]
  rfl

/-- The instance that a lookup is answered with from a cache that reflects the table has a row that satisfies the
condition. The query that was not run could have been answered with that row exactly if no more matches than are to
be skipped have to come before it, and more than these do not have to come behind it; always, if no order is asked
for and nothing is to be skipped. -/
theorem first?_answers (hcache : s.useCache = true) (hincludes : f.includes = [])
    (hcompile : Condition.compile f.model s.registry.rules p = .ok c) {t : Table f.model}
    (hreflects : state.memory.Reflects t) (hprobe : state.cache.probe state.heap f.model.name c = some h)
    (cmp : Value → Value → Ordering) [Std.TransCmp cmp] :
    (s.first? f p).runOn state = (.ok (some h), state) ∧ FetchPlan.make s.registry f.model f.includes = .ok ⟨f.model, []⟩ ∧
      ∃ i, state.heap.get? h = some i ∧ i.record ∈ t.rows ∧ c.holdsOf i.record.value? = true ∧
        let q := f.query ⟨f.model, []⟩ (some c) 1 s.dialect
        (q.Answers cmp t [i.record] ↔ q.countBefore cmp t i.record ≤ f.offset ∧ f.offset < q.countUpTo cmp t i.record) ∧
        (f.orderBy = [] → f.offset = 0 → q.Answers cmp t [i.record]) := by
  have hc := Condition.compiledFor_of_compile p.literals_true hcompile
  obtain ⟨i, hi, hrow, hholds⟩ := hreflects.of_probe hc hprobe
  let q := f.query ⟨f.model, []⟩ (some c) 1 s.dialect
  have hmatch : i.record ∈ q.matching t := List.mem_filter.2 ⟨hrow, hholds⟩
  have hanswers : q.Answers cmp t [i.record] ↔
      q.countBefore cmp t i.record ≤ f.offset ∧ f.offset < q.countUpTo cmp t i.record :=
    q.answers_one_iff cmp t rfl hmatch
  refine ⟨runOn_first?_of_probe hcache hincludes hcompile hprobe, hincludes ▸ rfl, i, hi, hrow, hholds, hanswers,
    fun horder hoffset => hanswers.2 ?_⟩
  have hequal : ∀ a, compareRows cmp q.orderBy a i.record = .eq := by
    intro a
    show compareRows cmp f.orderBy a i.record = .eq
    rw [horder]
    rfl
  have hbefore : q.countBefore cmp t i.record = 0 := List.countP_eq_zero.2 fun a _ => by simp [hequal a]
  have hupTo : 0 < q.countUpTo cmp t i.record := List.countP_pos_iff.2 ⟨i.record, hmatch, by rw [hequal]; rfl⟩
  exact ⟨by rw [hbefore]; exact Nat.zero_le _, by rw [hoffset]; exact hupTo⟩

/-! ### Two people in a cache -/

def person : Model := {Memory.people with fields := markSoleKey Memory.people.fields}

def personRow (id name : String) : Record := person.fields.zip [.text id, .text name]

theorem suits_personRow (id name : String) : person.Suits (personRow id name) where
  fields := rfl
  canonical := by
    simp [personRow, person, Memory.people, markSoleKey, Field.coerce, FieldKind.coerce, Field.shortId, Field.idOf,
      Field.title, Field.text, Except.mapError]

theorem suits_personRows : ∀ row ∈ [personRow "EVE01" "Eve", personRow "ADA01" "Ada"], person.Suits row := by
  simp [suits_personRow]

theorem nodup_person : (person.fields.map (·.name)).Nodup := by decide

theorem distinct_personRows : ([personRow "EVE01" "Eve", personRow "ADA01" "Ada"].map Record.key).Nodup := by
  decide +kernel

def personTable : Table person where
  rows := [personRow "EVE01" "Eve", personRow "ADA01" "Ada"]
  columns := nodup_person
  suits := suits_personRows
  distinct := distinct_personRows

/-- Both were inserted, Eve first. -/
def cachedPeople : SessionState Script :=
  [ SessionCall.insert "Person" [.set "ID" (.text "EVE01"), .set "Name" (.text "Eve")] none,
    .insert "Person" [.set "ID" (.text "ADA01"), .set "Name" (.text "Ada")] none ].foldl peopleSession.perform
      {database := {}}

/-- Everyone but Bob, by name. -/
def byName (direction : Direction) : Fetch := {model := person, orderBy := [⟨⟨"Person", "Name"⟩, direction⟩]}

def notBob : Predicate := .compare "Name" .ne (.text "Bob")

def isNotBob : Condition := .comparison "Person" "Name" .ne (.text "Bob") .bound

/-- A database that orders by plain text. -/
def byText : Value → Value → Ordering := compareOn Value.plainText

instance transCmp_byText : Std.TransCmp byText := inferInstanceAs (Std.TransCmp (compareOn Value.plainText))

theorem reflects_cachedPeople : cachedPeople.memory.Reflects personTable := by
  have hall : ∀ i ∈ cachedPeople.heap.instances.toList, i.model = person ∧ i.isDirty = false ∧
      i.record ∈ personTable.rows := by
    decide +kernel
  exact fun {_ _ _} _ hi => hall _ (Array.mem_toList_iff.2 (Array.mem_of_getElem? hi))

/-- Eve comes first from behind. -/
theorem answers_cachedPeople :
    (peopleSession.first? (byName .descending) notBob).runOn cachedPeople = (.ok (some ⟨0⟩), cachedPeople) ∧
      ((byName .descending).query ⟨person, []⟩ (some isNotBob) 1 .sqlite).Answers byText personTable
        [personRow "EVE01" "Eve"] := by
  obtain ⟨hrun, -, i, hi, -, -, hanswers, -⟩ := first?_answers (s := peopleSession) (f := byName .descending)
    (p := notBob) (c := isNotBob) rfl rfl rfl reflects_cachedPeople (by decide +kernel : _ = some ⟨0⟩) byText
  have hrow : (cachedPeople.heap.get? ⟨0⟩).map Instance.record = some (personRow "EVE01" "Eve") := by
    decide +kernel
  rw [hi] at hrow
  rw [Option.some.inj hrow] at hanswers
  exact ⟨hrun, hanswers.2 (by decide +kernel)⟩

/-- Eve is the answer where Ada comes first, and where both are to be skipped. -/
theorem not_answers_cachedPeople : cachedPeople.memory.Reflects personTable ∧
    ∃ i, cachedPeople.heap.get? ⟨0⟩ = some i ∧
      (peopleSession.first? (byName .ascending) notBob).runOn cachedPeople = (.ok (some ⟨0⟩), cachedPeople) ∧
      ¬((byName .ascending).query ⟨person, []⟩ (some isNotBob) 1 .sqlite).Answers byText personTable [i.record] ∧
      (peopleSession.first? {model := person, offset := 2} notBob).runOn cachedPeople =
        (.ok (some ⟨0⟩), cachedPeople) ∧
      ¬(Fetch.query {model := person, offset := 2} ⟨person, []⟩ (some isNotBob) 1 .sqlite).Answers byText personTable
        [i.record] := by
  have hprobe : cachedPeople.cache.probe cachedPeople.heap "Person" isNotBob = some ⟨0⟩ := by decide +kernel
  have hrow : (cachedPeople.heap.get? ⟨0⟩).map Instance.record = some (personRow "EVE01" "Eve") := by
    decide +kernel
  obtain ⟨i, hi, hrow⟩ := Option.map_eq_some_iff.1 hrow
  refine ⟨reflects_cachedPeople, i, hi, runOn_first?_of_probe rfl rfl rfl hprobe, ?_,
    runOn_first?_of_probe rfl rfl rfl hprobe, ?_⟩
  all_goals
    rw [hrow, SelectQuery.answers_one_iff byText _ _ rfl (by decide +kernel)]
    decide +kernel

end Session

end RecordMapper
