import RecordMapper.Pattern.Reader
import RecordMapper.Proofs.Session.Flush

/-! What a cache holds after any calls.

Instances are made and assigned, and in between they are registered, removed, filed anew,
updated and deleted in bulk, and saved by plans. `Orderly` says what a caller may rely on then:
the parts of every shelf agree, and every entry stands under the key of its row, so no instance
is cached twice and no row by two instances.

Assignments move the key of an instance only if its row is not stored under the committed key.
So the invariant, `Sound`, is that cached instances are anchored. A call that would register
another one, or move a committed key under pending changes, is not `Permitted`, and
`orderly_performAll` holds for all the others. -/
namespace RecordMapper

namespace Memory

/-- What a caller may rely on. -/
structure Orderly (m : Memory) : Prop where
  order_nodup : ∀ model, (m.cache.shelf model).order.Nodup
  keys_nodup : ∀ model, (KeyedList.keys (m.cache.shelf model).filed).Nodup
  mem_order : ∀ model key,
    key ∈ (m.cache.shelf model).order ↔ key ∈ KeyedList.keys (m.cache.shelf model).filed
  /-- Every entry stands under the key of its instance's row. -/
  under : ∀ model, ∀ e ∈ (m.cache.shelf model).filed,
    ∃ i, m.heap.get? e.2 = some i ∧ i.model.name = model ∧ e.1 = Value.keyText i.persistedKey
  /-- No instance is cached twice. -/
  once : ∀ model model', ∀ e ∈ (m.cache.shelf model).filed, ∀ e' ∈ (m.cache.shelf model').filed,
    e.2 = e'.2 → model = model' ∧ e = e'
  /-- No two entries are for one row. -/
  unique : ∀ model, ∀ e ∈ (m.cache.shelf model).filed, ∀ e' ∈ (m.cache.shelf model).filed,
    m.persistedKey e.2 = m.persistedKey e'.2 → e = e'
  index_filed : ∀ model, ∀ e ∈ (m.cache.shelf model).index,
    e.2 ∈ KeyedList.keys (m.cache.shelf model).filed

theorem Filed.orderly {m : Memory} (hm : m.Filed) : m.Orderly := by
  have hfiled : ∀ {model e}, e ∈ (m.cache.shelf model).filed → m.cache.filed? model e.1 = some e.2 :=
    fun he => KeyedList.get?_of_mem (hm.consistent.shelf _).filed_nodup he
  have hunder : ∀ model, ∀ e ∈ (m.cache.shelf model).filed,
      ∃ i, m.heap.get? e.2 = some i ∧ i.model.name = model ∧ e.1 = Value.keyText i.persistedKey := by
    intro model e he
    obtain ⟨i, hi, hmodel, hkey⟩ := hm.under (hfiled he)
    exact ⟨i, hi, hmodel, hkey.symm⟩
  have hkey : ∀ {model e}, e ∈ (m.cache.shelf model).filed → e.1 = Value.keyText (m.persistedKey e.2) := by
    intro model e he
    obtain ⟨i, hi, -, hkey⟩ := hunder model e he
    exact hkey.trans (keyText_persistedKey hi).symm
  refine ⟨fun _ => (hm.consistent.shelf _).order_nodup, fun _ => (hm.consistent.shelf _).filed_nodup,
    fun _ => (hm.consistent.shelf _).mem_order, hunder, ?_, ?_, fun _ => (hm.consistent.shelf _).index_filed⟩
  · intro model model' e he e' he' hsame
    obtain ⟨i, hi, rfl, -⟩ := hunder model e he
    obtain ⟨j, hj, rfl, -⟩ := hunder model' e' he'
    obtain rfl : i = j := Option.some.inj (hi.symm.trans (hsame ▸ hj))
    exact ⟨rfl, Prod.ext (by rw [hkey he, hkey he', hsame]) hsame⟩
  · intro model e he e' he' hsame
    have htext : e.1 = e'.1 := by rw [hkey he, hkey he', hsame]
    exact Prod.ext htext (Option.some.inj ((hfiled he).symm.trans (htext ▸ hfiled he')))

/-! ### The invariant -/

/-- Every instance is coherent, and every cached one is filed under its row's key and anchored. -/
structure Sound (m : Memory) : Prop where
  filed : m.Filed
  coherent : m.heap.Coherent
  anchored : ∀ {h : Handle} {i : Instance}, m.heap.get? h = some i →
    m.cache.contains m.heap h = true → i.Anchored

theorem sound_empty : ({} : Memory).Sound where
  filed := filed_empty
  coherent h := by cases h
  anchored h := by cases h

/-- No committed key moved under changes that are still pending. -/
def KeepsPendingKeys (m m' : Memory) : Prop :=
  ∀ h i j, m.heap.get? h = some i → m'.heap.get? h = some j → j.isDirty = true →
    j.committedKey = i.committedKey

/-- No committed key moved. -/
def KeepsKeys (m m' : Memory) : Prop :=
  ∀ h i j, m.heap.get? h = some i → m'.heap.get? h = some j → j.committedKey = i.committedKey

theorem Sound.follow {m m' : Memory} (hm : m.Sound) (hf : m.Follows m') (hkeys : m.KeepsPendingKeys m') :
    m'.Sound where
  filed := hf.filed
  coherent := hf.heap.coherent hm.coherent
  anchored {h j} hj hc := by
    obtain ⟨i, hi, hij⟩ := hf.heap.before hj
    exact hij.anchored (hm.coherent hi) (hm.anchored hi (hf.cached hc)) (hkeys h i j hi hj)

/-- Instances that stay as they are. -/
theorem keepsPendingKeys_of_eq {m m' : Memory} (h : m'.heap = m.heap) : m.KeepsPendingKeys m' := by
  intro k i j hi hj _
  rw [h, hi] at hj
  rw [Option.some.inj hj]

/-- A change of instances that keeps them coherent, and the cached ones anchored and their rows
where they are, keeps the same ones cached. -/
theorem Sound.change {m : Memory} (hm : m.Sound) {heap : Heap} (hc : heap.Coherent)
    (hkept : ∀ {h i}, m.heap.get? h = some i → ∃ j, heap.get? h = some j ∧ j.model = i.model ∧
      (m.cache.contains m.heap h = true → j.persistedKey = i.persistedKey ∧ j.Anchored)) :
    Sound {m with heap} ∧ ∀ h, m.cache.contains heap h = m.cache.contains m.heap h := by
  obtain ⟨hfiled, hcached⟩ := hm.filed.unmoved fun hi =>
    let ⟨j, hj, hmodel, hrest⟩ := hkept hi
    ⟨j, hj, hmodel, fun h => (hrest h).1⟩
  refine ⟨⟨hfiled, hc, fun {h j} hj hcontains => ?_⟩, hcached⟩
  have hcontains : m.cache.contains m.heap h = true := (hcached h).symm.trans hcontains
  obtain ⟨i, hi, _⟩ := Cache.contains_iff.1 hcontains
  obtain ⟨j', hj', _, hrest⟩ := hkept hi
  obtain rfl : j' = j := Option.some.inj (hj'.symm.trans hj)
  exact (hrest hcontains).2

theorem Sound.add {m : Memory} (hm : m.Sound) {i : Instance} (hi : i.Coherent) :
    Sound {m with heap := (m.heap.add i).2} := by
  refine (hm.change (fun {h j} hj => ?_) fun {h j} hj =>
    ⟨j, Heap.get?_add_of_some hj i, rfl, fun hc => ⟨rfl, hm.anchored hj hc⟩⟩).1
  rw [Heap.get?_add] at hj
  split at hj
  · exact Option.some.inj hj ▸ hi
  · exact hm.coherent hj

theorem Sound.assign {m : Memory} (hm : m.Sound) {h : Handle} {i j : Instance} {name : String} {v : Value}
    (hi : m.heap.get? h = some i) (hset : i.set name v = .ok j) :
    Sound {m with heap := m.heap.put h j} ∧
      ∀ k, m.cache.contains (m.heap.put h j) k = m.cache.contains m.heap k := by
  have hcoherent := (hm.coherent hi).set hset
  refine hm.change (fun {k l} hl => ?_) fun {k l} hl => ?_
  · rw [Heap.put, Heap.get?_modify] at hl
    split at hl
    · next hk =>
      obtain ⟨_, _, rfl⟩ := Option.map_eq_some_iff.1 hl
      exact hcoherent
    · exact hm.coherent hl
  · by_cases hk : k = h
    · subst hk
      obtain rfl : i = l := Option.some.inj (hi.symm.trans hl)
      refine ⟨j, by rw [Heap.put, Heap.get?_modify_self, hi]; rfl, Instance.model_set hset, fun hc => ?_⟩
      exact ((hm.anchored hi hc).set (hm.coherent hi) hset).symm
    · exact ⟨l, (m.heap.get?_modify_of_ne hk _).trans hl, rfl, fun hc => ⟨rfl, hm.anchored hl hc⟩⟩

theorem register_missing {m : Memory} {h : Handle} (hi : m.heap.get? h = none) :
    m.cache.register m.heap h = m.cache := by
  unfold Cache.register
  rw [hi]

theorem Filed.register {m : Memory} (hm : m.Filed) (h : Handle) :
    Filed {m with cache := m.cache.register m.heap h} := by
  cases hi : m.heap.get? h with
  | none => exact (register_missing hi).symm ▸ hm
  | some i =>
    refine ⟨hm.consistent.register _ _, fun {model key k} hk => ?_⟩
    have hk : (m.cache.register m.heap h).filed? model key = some k := hk
    rw [Cache.filed?_register hi] at hk
    split at hk
    · next hnew => exact ⟨i, Option.some.inj hk ▸ hi, hnew.1.symm, hnew.2.symm⟩
    · exact hm.under hk

theorem Sound.register {m : Memory} (hm : m.Sound) {h : Handle}
    (ha : ∀ i, m.heap.get? h = some i → i.Anchored) : Sound {m with cache := m.cache.register m.heap h} := by
  refine ⟨hm.filed.register h, hm.coherent, fun {k j} hj hc => ?_⟩
  cases hi : m.heap.get? h with
  | none => exact hm.anchored hj ((register_missing hi).symm ▸ hc)
  | some i =>
    obtain ⟨j', hj', hk⟩ := Cache.contains_iff.1 hc
    have hk : (m.cache.register m.heap h).filed? j'.model.name j'.keyText = some k := hk
    rw [Cache.filed?_register hi] at hk
    split at hk
    · exact ha j (Option.some.inj hk ▸ hj)
    · exact hm.anchored hj (hm.filed.contains hk)

/-- A bulk update on which no committed key moves under pending changes, and none at all if
it fails. -/
theorem Sound.updateAll {m m' : Memory} (hm : m.Sound) {changes : List (String × Value)}
    {matched : List Handle} (hn : matched.Nodup) {out : Except Error Unit}
    (hu : (Attempt.forEach matched (Memory.update changes)).runOn m = (out, m'))
    (hpending : m.KeepsPendingKeys m') (hfailed : ∀ e, out = .error e → m.KeepsKeys m') : m'.Sound := by
  cases out with
  | ok _ => exact hm.follow (hm.filed.follows_updateAll hu).1 hpending
  | error e =>
    -- All but the last instance were updated, and the last one was not filed anew.
    obtain ⟨m₁, h, -, heap, hfollows, hsame, rfl, hother, ht⟩ := hm.filed.follows_updateAll_error hn hu
    have hm₁ : m₁.Sound := by
      refine hm.follow hfollows fun k i j hi hj hd => ?_
      by_cases hk : k = h
      · rw [hk, hsame] at hj
        rw [hk, hj] at hi
        rw [Option.some.inj hi]
      · exact hpending k i j hi ((hother k hk).trans hj) hd
    refine (hm₁.change (ht.coherent hm₁.coherent) fun {k i} hi => ?_).1
    obtain ⟨j, hj, hij⟩ := ht.kept hi
    refine ⟨j, hj, hij.model, fun hc => ?_⟩
    by_cases hk : k = h
    · have hkey : j.committedKey = i.committedKey := hfailed e rfl k i j (hk ▸ hsame ▸ hk ▸ hi) hj
      have hi' := hm₁.anchored hi hc
      have hj' := hij.anchored (hm₁.coherent hi) hi' fun _ => hkey
      exact ⟨by rw [hj'.key, hkey, hi'.key], hj'⟩
    · obtain rfl : i = j := Option.some.inj (hi.symm.trans ((hother k hk).symm.trans hj))
      exact ⟨rfl, hm₁.anchored hi hc⟩

end Memory

instance (i : Instance) : Decidable i.KeySet :=
  inferInstanceAs (Decidable (∀ c ∈ i.cells, c.field.primaryKey = true → c.isSet = true))

/-! ### Calls -/

inductive CacheCall where
  /-- A new instance with a history of its own. -/
  | create (model : Model) (calls : List InstanceCall) (owner : Option Owner)
  | set (h : Handle) (name : String) (v : Value)
  | register (h : Handle)
  | remove (h : Handle)
  | rekey (h : Handle) (oldKey : List Value)
  | update (model : String) (condition : Condition) (changes : List (String × Value))
  | delete (registry : Registry) (model : String) (condition : Condition)
  /-- A plan for some instances is made and then applied. -/
  | flush (owner : Owner) (rules : Rules) (dialect : Dialect) (handles : List Handle)

namespace Memory

/-- The memory after a call; what a failing call changed stays changed. -/
def perform (m : Memory) : CacheCall → Memory
  | .create model calls owner => {m with heap := (m.heap.add {(Instance.new model).performAll calls with owner}).2}
  | .set h name v =>
    match (m.heap.get? h).map (Instance.set · name v) with
    | some (.ok i) => {m with heap := m.heap.put h i}
    | some (.error _) => m
    | none => m
  | .register h => {m with cache := m.cache.register m.heap h}
  | .remove h =>
    match m.cache.remove? m.heap h with
    | some cache => {m with cache}
    | none => m
  | .rekey h oldKey => m.rekey h oldKey
  | .update model condition changes => ((reconcileUpdate model condition changes).runOn m).2
  | .delete registry model condition => (m.reconcileDelete registry model condition).2
  | .flush owner rules d handles =>
    match FlushPlan.make owner rules d m.heap handles with
    | .ok plan => plan.apply m
    | .error _ => m

def performAll (m : Memory) (calls : List CacheCall) : Memory := calls.foldl perform m

/-- An instance is registered with its key set, which has been set since its changes began; and
no key is overwritten under pending changes, or by a bulk update that fails. -/
def Permits (m : Memory) : CacheCall → Prop
  | .register h => ∀ i, m.heap.get? h = some i → i.KeySet ∧ i.persistedKey = i.committedKey
  | .update model condition changes =>
    let out := (reconcileUpdate model condition changes).runOn m
    m.KeepsPendingKeys out.2 ∧ ∀ e, out.1 = .error e → m.KeepsKeys out.2
  | .delete registry model condition => m.KeepsPendingKeys (m.reconcileDelete registry model condition).2
  | _ => True

/-- Every call is permitted when it is made. -/
def PermitsAll (m : Memory) (calls : List CacheCall) : Prop := AllSteps perform Permits calls m

theorem Sound.perform {m : Memory} (hm : m.Sound) {call : CacheCall} (hp : m.Permits call) :
    (m.perform call).Sound := by
  cases call with
  | create model calls owner =>
    have hi := Instance.coherent_performAll model calls
    exact hm.add ⟨hi.fields, hi.snapshot, hi.unset⟩
  | set h name v =>
    unfold Memory.perform
    dsimp only
    split
    · next hset =>
      obtain ⟨i, hi, hset⟩ := Option.map_eq_some_iff.1 hset
      exact (hm.assign hi hset).1
    · exact hm
    · exact hm
  | register h => exact hm.register fun i hi => ⟨(hp i hi).1, (hp i hi).2⟩
  | remove h =>
    unfold Memory.perform
    dsimp only
    split
    · next hr => exact hm.follow (hm.filed.follows_remove hr) (keepsPendingKeys_of_eq rfl)
    · exact hm
  | rekey h oldKey => exact hm.follow (hm.filed.follows_rekey h oldKey) (keepsPendingKeys_of_eq rfl)
  | update model condition changes =>
    obtain ⟨hpending, hfailed⟩ := hp
    unfold Memory.perform
    dsimp only at hpending hfailed ⊢
    rw [runOn_reconcileUpdate] at hpending hfailed ⊢
    refine hm.updateAll ((hm.filed.nodup_entries model).filter _) rfl hpending fun e he => ?_
    exact hfailed e (congrArg (Except.map _) he)
  | delete registry model condition =>
    exact hm.follow (hm.filed.follows_reconcileDelete registry model condition) hp
  | flush owner rules d handles =>
    unfold Memory.perform
    dsimp only
    split
    · next plan hplan =>
      refine hm.follow (FlushPlan.follows_apply hm.filed hm.coherent (FlushPlan.make_current hplan)) ?_
      intro h i j hi hj hd
      rw [Option.some.inj (hi.symm.trans (FlushPlan.apply_pending hj hd))]
    · exact hm

/-- A cache that was empty is orderly after any calls that are permitted. -/
theorem orderly_performAll (calls : List CacheCall) (hp : ({} : Memory).PermitsAll calls) :
    (({} : Memory).performAll calls).Orderly := by
  have hsound : (({} : Memory).performAll calls).Sound :=
    AllSteps.invariant (fun _ _ hm hp => hm.perform hp) hp sound_empty
  exact hsound.filed.orderly

/-! ### Runs -/

/-- People under an identifier. -/
def people : Model :=
  {name := "Person", fields := [{Field.shortId "ID" with primaryKey := true}, Field.title "Name"]}

/-- The rows with a name. -/
def named (name : String) : Condition := .comparison "Person" "Name" .eq (.text name) .bound

/-- A cached person is renamed, saved and moved by a bulk update, and another one comes into
the old place. -/
def renamedAndMoved : List CacheCall :=
  [ .create people [.set "ID" (.text "ADA01"), .set "Name" (.text "Ada")] (some ⟨0⟩),
    .create people [.set "ID" (.text "ADA01"), .set "Name" (.text "Bob")] none,
    .register ⟨0⟩,
    .set ⟨0⟩ "Name" (.text "Eve"),
    .flush ⟨0⟩ (Pattern.rules 0) .sqlite [⟨0⟩],
    .update "Person" (named "Eve") [("ID", .text "EVE01")],
    .register ⟨1⟩ ]

/-- Where nothing is pending after a call, it overwrote no key under pending changes. -/
theorem keepsPendingKeys_of_clean {m m' : Memory}
    (h : m'.heap.instances.toList.all (fun i => !i.isDirty) = true) : m.KeepsPendingKeys m' := by
  intro k i j _ hj hd
  have hclean := List.all_eq_true.1 h j (Array.mem_toList_iff.2 (Array.mem_of_getElem? hj))
  rw [hd] at hclean
  cases hclean

theorem orderly_renamedAndMoved :
    ({} : Memory).PermitsAll renamedAndMoved ∧ (({} : Memory).performAll renamedAndMoved).Orderly := by
  have hp : ({} : Memory).PermitsAll renamedAndMoved := by
    refine ⟨trivial, trivial, ?_, trivial, trivial, ⟨keepsPendingKeys_of_clean ?_, fun e he => ?_⟩, ?_, trivial⟩
    · show ∀ i ∈ Heap.get? _ _, _
      decide +kernel
    · decide +kernel
    · have hfailed : _ = false := congrArg Except.toBool he
      exact absurd hfailed (by decide +kernel)
    · show ∀ i ∈ Heap.get? _ _, _
      decide +kernel
  exact ⟨hp, orderly_performAll _ hp⟩

/-- An entry that does not stand under the key of its row. -/
theorem not_orderly_of_entry {m : Memory} (model : String) (e : String × Handle)
    (he : e ∈ (m.cache.shelf model).filed) (hkey : e.1 ≠ Value.keyText (m.persistedKey e.2)) : ¬m.Orderly := by
  intro hm
  obtain ⟨i, hi, -, hfiled⟩ := hm.under model e he
  apply hkey
  rw [hfiled, persistedKey, hi]
  rfl

/-- A person who got an identifier after a change, was registered, and is changed back. -/
def changedBeforeKeyed : List CacheCall :=
  [ .create people [.set "Name" (.text "Ada"), .set "Name" (.text "Eve"), .set "ID" (.text "ADA01")] none,
    .register ⟨0⟩,
    .set ⟨0⟩ "Name" (.text "Ada") ]

/-- A bulk update that moves a person and then fails at a field that there is not. -/
def movedByFailure : List CacheCall :=
  [ .create people [.set "ID" (.text "ADA01"), .set "Name" (.text "Ada")] none,
    .register ⟨0⟩,
    .update "Person" (named "Ada") [("ID", .text "EVE01"), ("Age", .int 36)] ]

/-- It is not enough that keys are set when instances are registered, and that none is
overwritten under pending changes. -/
theorem not_orderly_changedBeforeKeyed_movedByFailure :
    ((∀ i ∈ (({} : Memory).performAll (changedBeforeKeyed.take 1)).heap.get? ⟨0⟩, i.KeySet) ∧
      ¬(({} : Memory).performAll changedBeforeKeyed).Orderly) ∧
    ((∀ i ∈ (({} : Memory).performAll (movedByFailure.take 1)).heap.get? ⟨0⟩, i.KeySet) ∧
      (({} : Memory).performAll (movedByFailure.take 2)).KeepsPendingKeys
        (({} : Memory).performAll movedByFailure) ∧
      ¬(({} : Memory).performAll movedByFailure).Orderly) := by
  refine ⟨⟨by decide +kernel, ?_⟩, by decide +kernel, keepsPendingKeys_of_clean (by decide +kernel), ?_⟩
  · exact not_orderly_of_entry "Person" ("[\"Null\"]", ⟨0⟩) (by decide +kernel)
      (by decide +kernel)
  · exact not_orderly_of_entry "Person" ("[\x7b\"Text\":\"ADA01\"\x7d]", ⟨0⟩)
      (by decide +kernel) (by decide +kernel)

end Memory

end RecordMapper
