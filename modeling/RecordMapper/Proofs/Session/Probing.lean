import RecordMapper.Proofs.Session.Answering
import RecordMapper.Proofs.Session.Canonical
import RecordMapper.Proofs.Session.Cascade
import RecordMapper.Proofs.Session.Over

/-! Finding a cached instance by the index.

An equality is looked up in the index of unique fields first, and the index may lag behind: values changed since
they were indexed, another instance was indexed under the same text, or two moments have one text. What it leads to
is compared with the live value, and what it does not lead to is looked for among all. So whatever the index holds, a
probe finds an instance that satisfies its condition exactly if there is one among the cached (`probe_answers`), and
where no value stands twice it is the one that a scan finds first. -/
namespace RecordMapper

namespace Memory

/-- The instance under a handle is a cached one of a model. -/
structure Caches (memory : Memory) (m : Model) (h : Handle) (i : Instance) : Prop where
  found : memory.heap.get? h = some i
  model : i.model = m
  contained : memory.cache.contains memory.heap h = true

/-- No two cached instances of a model have the same value in a field, unless it is NULL. -/
def DistinctIn (memory : Memory) (m : Model) (field : String) : Prop :=
  ∀ {h k : Handle} {i j : Instance}, memory.Caches m h i → memory.Caches m k j →
    ∀ v, v.isNull = false → i.get? field = some v → j.get? field = some v → h = k

section

variable {r : Registry} {m : Model} {memory : Memory} {c : Condition} {h : Handle}

/-- The cached instances of a registered model are those on its shelf. -/
theorem mem_entries_iff_caches (hfiled : memory.Filed) (hover : memory.Over r) (hm : r.model? m.name = some m) :
    h ∈ memory.cache.entries m.name ↔ ∃ i, memory.Caches m h i := by
  rw [hfiled.mem_entries]
  constructor
  · rintro ⟨hcontained, i, hi, hname⟩
    have hmodel := hover.models hi
    rw [hname, hm] at hmodel
    exact ⟨i, hi, (Option.some.inj hmodel).symm, hcontained⟩
  · rintro ⟨i, hi, rfl, hcontained⟩
    exact ⟨hcontained, i, hi, rfl⟩

/-- A scan finds nothing exactly if no cached instance satisfies the condition. -/
theorem findOne?_eq_none_iff (hfiled : memory.Filed) (hover : memory.Over r) (hm : r.model? m.name = some m) :
    memory.cache.findOne? memory.heap m.name c = none ↔ ∀ h i, memory.Caches m h i → c.evaluate i = false := by
  unfold Cache.findOne?
  rw [List.find?_eq_none]
  constructor
  · intro hnone h i hi
    have hh := hnone h ((mem_entries_iff_caches hfiled hover hm).2 ⟨i, hi⟩)
    rw [Heap.holds_of_get? hi.found] at hh
    exact Bool.not_eq_true _ ▸ hh
  · intro hnone h hh
    obtain ⟨i, hi⟩ := (mem_entries_iff_caches hfiled hover hm).1 hh
    rw [Heap.holds_of_get? hi.found, hnone h i hi]
    decide

/-- Nothing is found only where a scan finds nothing. -/
theorem findOne?_of_probe_eq_none (h : memory.cache.probe memory.heap m.name c = none) :
    memory.cache.findOne? memory.heap m.name c = none := by
  unfold Cache.probe at h
  split at h
  · exact (Option.or_eq_none_iff.1 h).2
  · exact h

/-- A canonical instance satisfies an equality only with the value itself. -/
theorem get?_of_evaluate {P : Value → Prop} {rules : Rules} {table field : String} {v : Value} {literal : Literal}
    (hc : (Condition.comparison table field .eq v literal).CompiledFor P m rules) {i : Instance} (hi : i.Canonical)
    (hmodel : i.model = m) (h : (Condition.comparison table field .eq v literal).evaluate i = true) :
    i.get? field = some v := by
  obtain ⟨-, f, hf⟩ := hc
  obtain ⟨_, -, hcoerced⟩ := hf.coerced
  obtain ⟨current, hcurrent, hholds⟩ := (Option.any_eq_true ..).1 h
  obtain ⟨o, ho, heq⟩ := (Option.any_eq_true ..).1 hholds
  obtain rfl : o = .eq := eq_of_beq heq
  rw [hcurrent, Field.eq_of_compare? (hi.get? (hmodel ▸ hf.found) hcurrent) (Field.coerce_coerce hcoerced) ho]

/-- What is found is a cached instance of the model that satisfies the condition. -/
theorem caches_of_probe {P : Value → Prop} {rules : Rules} (hfiled : memory.Filed) (hover : memory.Over r)
    (hm : r.model? m.name = some m) (hc : c.CompiledFor P m rules)
    (hprobe : memory.cache.probe memory.heap m.name c = some h) :
    ∃ i, memory.Caches m h i ∧ c.evaluate i = true := by
  obtain ⟨key, i, hkey, hi, hholds⟩ := filed_of_probe hc hprobe
  have hmem := hfiled.mem_entries.2 ⟨hfiled.contains hkey, i, hi, (hfiled.eq_of_filed hkey hi).1.symm⟩
  obtain ⟨j, hj⟩ := (mem_entries_iff_caches hfiled hover hm).1 hmem
  obtain rfl : j = i := Option.some.inj (hj.found.symm.trans hi)
  exact ⟨j, hj, hholds⟩

/-- What a scan finds is a cached instance of the model that satisfies the condition. -/
theorem caches_of_findOne? (hfiled : memory.Filed) (hover : memory.Over r) (hm : r.model? m.name = some m)
    (hscan : memory.cache.findOne? memory.heap m.name c = some h) :
    ∃ i, memory.Caches m h i ∧ c.evaluate i = true := by
  obtain ⟨i, hi⟩ := (mem_entries_iff_caches hfiled hover hm).1 (List.mem_of_find?_eq_some hscan)
  have hholds : memory.heap.holds c.evaluate h = true := List.find?_some hscan
  rw [Heap.holds_of_get? hi.found] at hholds
  exact ⟨i, hi, hholds⟩

/-- What the index leads to is what a scan finds, where no value stands twice. -/
theorem probe_eq_findOne? {P : Value → Prop} {rules : Rules} {table field : String} {v : Value} {literal : Literal}
    (hfiled : memory.Filed) (hover : memory.Over r) (hcanonical : memory.Canonical)
    (hm : r.model? m.name = some m) (hc : (Condition.comparison table field .eq v literal).CompiledFor P m rules)
    (hdistinct : memory.DistinctIn m field) :
    memory.cache.probe memory.heap m.name (.comparison table field .eq v literal) =
      memory.cache.findOne? memory.heap m.name (.comparison table field .eq v literal) := by
  let c := Condition.comparison table field .eq v literal
  show memory.cache.probe memory.heap m.name c = memory.cache.findOne? memory.heap m.name c
  have hvalue : ∀ {h : Handle} {i : Instance}, memory.Caches m h i → c.evaluate i = true → i.get? field = some v :=
    fun hi => get?_of_evaluate hc (hcanonical hi.found) hi.model
  cases hprobe : memory.cache.probe memory.heap m.name c with
  | none => exact (findOne?_of_probe_eq_none hprobe).symm
  | some h =>
    obtain ⟨i, hi, hholds⟩ := caches_of_probe hfiled hover hm hc hprobe
    cases hscan : memory.cache.findOne? memory.heap m.name c with
    | none =>
      have hfails := (findOne?_eq_none_iff hfiled hover hm).1 hscan h i hi
      rw [hholds] at hfails
      cases hfails
    | some k =>
      obtain ⟨j, hj, hholds'⟩ := caches_of_findOne? hfiled hover hm hscan
      obtain ⟨-, f, hf⟩ := hc
      exact congrArg some (hdistinct hi hj v hf.notNull (hvalue hi hholds) (hvalue hj hholds'))

/-- What is found is a cached instance that satisfies the condition, and nothing is found only if none does. An
equality with a value that no two of them have finds what a scan finds. -/
theorem probe_answers (hfiled : memory.Filed) (hover : memory.Over r) (hcanonical : memory.Canonical)
    (hm : r.model? m.name = some m) {rules : Rules} {p : Predicate} (hc : Condition.compile m rules p = .ok c) :
    (∀ h, memory.cache.probe memory.heap m.name c = some h →
      ∃ i, memory.Caches m h i ∧ c.evaluate i = true) ∧
    (memory.cache.probe memory.heap m.name c = none → ∀ h i, memory.Caches m h i → c.evaluate i = false) ∧
    ∀ table field v literal, c = .comparison table field .eq v literal → memory.DistinctIn m field →
      memory.cache.probe memory.heap m.name c = memory.cache.findOne? memory.heap m.name c := by
  have hc := Condition.compiledFor_of_compile p.literals_true hc
  refine ⟨fun h hprobe => caches_of_probe hfiled hover hm hc hprobe,
    fun hnone => (findOne?_eq_none_iff hfiled hover hm).1 (findOne?_of_probe_eq_none hnone), ?_⟩
  rintro table field v literal rfl hdistinct
  exact probe_eq_findOne? hfiled hover hcanonical hm hc hdistinct

end

/-! ### An index that lags behind -/

/-- Readings, one for each moment. -/
def readings : Model where
  name := "Reading"
  fields := [{Field.shortId "ID" with primaryKey := true, unique := true}, {Field.timestamp "At" with unique := true}]

def readingsRegistry : Registry := ⟨[readings], Pattern.rules 0⟩

/-- Two readings within one second, and one five seconds later that is moved among them afterwards. -/
def readingCalls : List CacheCall :=
  [ .create readings [.set "ID" (.text "ADA01"), .set "At" (.timestamp 1)] none,
    .create readings [.set "ID" (.text "BOB01"), .set "At" (.timestamp 2)] none,
    .create readings [.set "ID" (.text "EVE01"), .set "At" (.timestamp 5000000)] none,
    .register ⟨0⟩, .register ⟨1⟩, .register ⟨2⟩,
    .set ⟨2⟩ "At" (.timestamp 3) ]

def cachedReadings : Memory := ({} : Memory).performAll readingCalls

def isAt (micros : Int64) : Predicate := .equals "At" (.timestamp micros)

def hasMoment (micros : Int64) : Condition :=
  .comparison "Reading" "At" .eq (.timestamp micros) ((Field.timestamp "At").literal (.timestamp micros))

theorem sound_readingCalls : cachedReadings.Sound := by
  refine AllSteps.invariant (fun _ _ hm hp => hm.perform hp) ?_ sound_empty
  refine ⟨trivial, trivial, trivial, ?_, ?_, ?_, trivial, trivial⟩
  all_goals
    show ∀ i ∈ Heap.get? _ _, _
    decide +kernel

theorem over_cachedReadings : cachedReadings.Over readingsRegistry :=
  (moored_of_all sound_readingCalls.filed sound_readingCalls.coherent (by decide +kernel)).ofRegistry

theorem distinctIn_cachedReadings : cachedReadings.DistinctIn readings "At" := by
  have hall : ∀ a b : Fin cachedReadings.heap.instances.size,
      cachedReadings.heap.instances[a].get? "At" = cachedReadings.heap.instances[b].get? "At" → a = b := by
    decide +kernel
  intro h k i j hi hj v _ hv hv'
  obtain ⟨ha, rfl⟩ := Array.getElem?_eq_some_iff.1 hi.found
  obtain ⟨hb, rfl⟩ := Array.getElem?_eq_some_iff.1 hj.found
  have hindex := hall ⟨h.index, ha⟩ ⟨k.index, hb⟩ (hv.trans hv'.symm)
  exact congrArg Handle.mk (congrArg Fin.val hindex)

/-- The text of a second leads to the reading that was indexed last in it, and then the scan finds the other one; the
text of the old moment leads to the moved reading, and nothing is found. -/
theorem probe_cachedReadings :
    let probe c := cachedReadings.cache.probe cachedReadings.heap "Reading" c
    KeyedList.get? ("At", "1970-01-01 00:00:00") (cachedReadings.cache.shelf "Reading").index =
      KeyedList.get? ("ID", "BOB01") (cachedReadings.cache.shelf "Reading").index ∧
    probe (hasMoment 1) = some ⟨0⟩ ∧ (∃ i, cachedReadings.Caches readings ⟨0⟩ i ∧ (hasMoment 1).evaluate i = true) ∧
    probe (hasMoment 1) = cachedReadings.cache.findOne? cachedReadings.heap "Reading" (hasMoment 1) ∧
    KeyedList.get? ("At", "1970-01-01 00:00:05") (cachedReadings.cache.shelf "Reading").index =
      KeyedList.get? ("ID", "EVE01") (cachedReadings.cache.shelf "Reading").index ∧
    probe (hasMoment 5000000) = none ∧
    ∀ h i, cachedReadings.Caches readings h i → (hasMoment 5000000).evaluate i = false := by
  intro probe
  have hanswers : ∀ micros, Condition.compile readings (Pattern.rules 0) (isAt micros) = .ok (hasMoment micros) → _ :=
    fun micros => probe_answers sound_readingCalls.filed over_cachedReadings (canonical_performAll readingCalls) rfl
  obtain ⟨hfound, -, hscan⟩ := hanswers 1 (ok_of_toOption (by decide +kernel))
  obtain ⟨-, hmissing, -⟩ := hanswers 5000000 (ok_of_toOption (by decide +kernel))
  have hfirst : probe (hasMoment 1) = some ⟨0⟩ := by decide +kernel
  have hnone : probe (hasMoment 5000000) = none := by decide +kernel
  exact ⟨by decide +kernel, hfirst, hfound ⟨0⟩ hfirst, hscan _ _ _ _ rfl distinctIn_cachedReadings,
    by decide +kernel, hnone, hmissing hnone⟩

end Memory

end RecordMapper
