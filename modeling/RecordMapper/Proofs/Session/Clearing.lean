import RecordMapper.Proofs.Instance.Record
import RecordMapper.Proofs.Session.Over

/-! Cached instances that lose values.

The referrers of a removed instance may lose the value by which they refer to it: NULL is committed in
the field, and they are filed anew. As long as none of them moves to the key of another one, a run of such
steps clears the fields it is made for and does nothing else (`Cleared.clearAll`). Outside of the key none
moves at all, if they are filed under the committed keys (`Moored.clearAll`). -/
namespace RecordMapper

/-! ### Cleared fields -/

namespace Cell

/-- The cells with NULL committed in some fields. -/
def nulled (names : List String) (cells : List Cell) : List Cell :=
  cells.map fun c => if c.field.name ∈ names then c.settled .null else c

theorem nulled_nil (cells : List Cell) : nulled [] cells = cells := by
  simp [nulled]

theorem nulled_nulled (name : String) (names : List String) (cells : List Cell) :
    nulled [name] (nulled names cells) = nulled (name :: names) cells := by
  rw [nulled, nulled, nulled, List.map_map]
  refine List.map_congr_left fun c _ => ?_
  rw [Function.comp_apply]
  by_cases hold : c.field.name ∈ names
  · rw [if_pos hold, if_pos (List.mem_cons_of_mem _ hold)]
    split <;> rfl
  · rw [if_neg hold]
    simp only [List.mem_cons, hold, or_false, List.not_mem_nil]

theorem update_eq_nulled {cells : List Cell} (hn : (cells.map (·.field.name)).Nodup) (name : String) :
    update name (·.settled .null) cells = nulled [name] cells := by
  induction cells with
  | nil => rfl
  | cons c rest ih =>
    obtain ⟨hne, hn⟩ := List.nodup_cons.1 hn
    by_cases hc : c.field.name = name
    · have hrest : nulled [name] rest = rest := by
        refine (List.map_congr_left fun d hd => ?_).trans (List.map_id rest)
        rw [if_neg fun hmem => hne (List.mem_map.2 ⟨d, hd, (List.mem_singleton.1 hmem).trans hc.symm⟩)]
        rfl
      rw [update, if_pos hc]
      show c.settled .null :: rest = (if c.field.name ∈ [name] then c.settled .null else c) :: nulled [name] rest
      rw [if_pos (List.mem_singleton.2 hc), hrest]
    · rw [update, if_neg hc, ih hn]
      show c :: nulled [name] rest = (if c.field.name ∈ [name] then c.settled .null else c) :: nulled [name] rest
      rw [if_neg fun hmem => hc (List.mem_singleton.1 hmem)]

theorem find?_nulled (names : List String) (cells : List Cell) (name : String) :
    (nulled names cells).find? (·.field.name = name) =
      (cells.find? (·.field.name = name)).map fun c => if name ∈ names then c.settled .null else c := by
  have hname : ((fun c : Cell => decide (c.field.name = name)) ∘
      fun c => if c.field.name ∈ names then c.settled .null else c) = fun c => decide (c.field.name = name) := by
    funext c
    simp only [Function.comp_apply]
    split <;> rfl
  rw [nulled, List.find?_map, hname]
  refine Option.map_congr fun c hc => ?_
  obtain rfl : c.field.name = name := by simpa using List.find?_some hc
  rfl

/-- What is not changed can be filtered before or after. -/
theorem filter_update {p : Cell → Bool} {f : Cell → Cell} {name : String} {cells : List Cell}
    (h : ∀ c ∈ cells, c.field.name = name → p c = false ∧ p (f c) = false) :
    (update name f cells).filter p = cells.filter p := by
  induction cells with
  | nil => rfl
  | cons c rest ih =>
    have hrest := ih fun d hd => h d (.tail _ hd)
    by_cases hc : c.field.name = name
    · obtain ⟨hbefore, hafter⟩ := h c (.head _) hc
      rw [update, if_pos hc, List.filter_cons, List.filter_cons, hbefore, hafter]
      rfl
    · rw [update, if_neg hc, List.filter_cons, List.filter_cons, hrest]

end Cell

namespace Instance

theorem cell?_of_nulled {i j : Instance} {names : List String} (h : j.cells = Cell.nulled names i.cells)
    (name : String) : j.cell? name = (i.cell? name).map fun c => if name ∈ names then c.settled .null else c := by
  unfold cell?
  rw [h, Cell.find?_nulled]

theorem get?_of_nulled {i j : Instance} {names : List String} (h : j.cells = Cell.nulled names i.cells)
    {name : String} (hn : name ∉ names) : j.get? name = i.get? name := by
  unfold get?
  rw [cell?_of_nulled h, Option.map_map]
  exact Option.map_congr fun c _ => by rw [Function.comp_apply, if_neg hn]

theorem eq_null_of_nulled {i j : Instance} {names : List String} (h : j.cells = Cell.nulled names i.cells)
    {name : String} (hn : name ∈ names) {v : Value} (hv : j.get? name = some v) : v = .null := by
  unfold get? at hv
  rw [cell?_of_nulled h, Option.map_map] at hv
  obtain ⟨c, -, rfl⟩ := Option.map_eq_some_iff.1 hv
  rw [Function.comp_apply, if_pos hn]
  rfl

theorem hasValue_of_nulled {i j : Instance} {names : List String} (h : j.cells = Cell.nulled names i.cells)
    {name : String} (hn : name ∈ names) {v : Value} (hv : v.isNull = false) : Cache.hasValue name v j = false := by
  unfold Cache.hasValue
  cases hget : j.get? name with
  | none => rfl
  | some w =>
    obtain rfl := eq_null_of_nulled h hn hget
    cases v with
    | null => cases hv
    | _ => rfl

theorem committedKey_clear {i : Instance} {name : String}
    (hkey : ∀ c ∈ i.cells, c.field.name = name → c.field.primaryKey = false) :
    (i.clear name).committedKey = i.committedKey := by
  unfold committedKey clear
  rw [cells_settle]
  exact congrArg (List.map _) (Cell.filter_update fun c hc hname => ⟨hkey c hc hname, hkey c hc hname⟩)

end Instance

/-- Whatever has this name is outside of the key. -/
def Model.Spares (m : Model) (name : String) : Prop := ∀ f ∈ m.fields, f.name = name → f.primaryKey = false

namespace Memory

/-! ### Instances under their committed keys -/

/-- Every cached instance is filed under the key that is committed. -/
def KeysCommitted (m : Memory) : Prop :=
  ∀ {h : Handle} {i : Instance}, m.cache.contains m.heap h = true → m.heap.get? h = some i →
    i.persistedKey = i.committedKey

theorem Sound.keysCommitted {m : Memory} (hm : m.Sound) : m.KeysCommitted := fun hc hi => (hm.anchored hi hc).key

/-- An instance that takes values over outside of its key goes nowhere. -/
theorem KeysCommitted.move {m : Memory} (hm : m.KeysCommitted) (hfiled : m.Filed) (hcoherent : m.heap.Coherent)
    {f : Instance → Instance} (hf : ∀ i : Instance, i.TakesOver (f i)) {h : Handle}
    (hkey : ∀ i, m.heap.get? h = some i → (f i).committedKey = i.committedKey) :
    m.MovesFreely f h ∧ (m.move f h).KeysCommitted := by
  have hmoved : ∀ {i}, m.heap.get? h = some i → m.cache.contains m.heap h = true →
      (f i).persistedKey = (f i).committedKey :=
    fun hi hc => (hf _).persistedKey_eq (hcoherent hi) (hm hc hi) fun _ => hkey _ hi
  constructor
  · intro hc k hk
    obtain ⟨j, hj, hheld⟩ := keyHolder?_eq_some_iff.1 hk
    have hj : (m.heap.modify h f).get? h = some j := hj
    rw [Heap.get?_modify_self] at hj
    obtain ⟨i, hi, rfl⟩ := Option.map_eq_some_iff.1 hj
    have hsame : (f i).keyText = i.keyText := by
      unfold Instance.keyText
      rw [hmoved hi hc, hkey i hi, hm hc hi]
    have hheld : m.cache.filed? (f i).model.name (f i).keyText = some k := hheld
    rw [hsame, (hf i).model, (Cache.contains_iff_filed hi).1 hc] at hheld
    exact (Option.some.inj hheld).symm
  · intro k j hc hj
    have hbefore := (hfiled.follows_move hf h).cached hc
    have hj : (m.heap.modify h f).get? k = some j := hj
    by_cases hk : k = h
    · subst hk
      rw [Heap.get?_modify_self] at hj
      obtain ⟨i, hi, rfl⟩ := Option.map_eq_some_iff.1 hj
      exact hmoved hi hbefore
    · rw [Heap.get?_modify_of_ne _ hk] at hj
      exact hm hbefore hj

/-- A cache of registered instances under their committed keys. -/
structure Moored (r : Registry) (m : Memory) : Prop where
  filed : m.Filed
  ofRegistry : m.Over r
  committed : m.KeysCommitted

section

variable {r : Registry} {m : Memory}

theorem Moored.clearField (hm : m.Moored r) {h : Handle} {name : String}
    (hspares : ∀ i, m.heap.get? h = some i → i.model.Spares name) :
    m.MovesFreely (·.clear name) h ∧ (clearField name m h).Moored r := by
  have hkey : ∀ i, m.heap.get? h = some i → (i.clear name).committedKey = i.committedKey := fun i hi =>
    Instance.committedKey_clear fun c hc => by
      have hfield : c.field ∈ i.model.fields := (hm.ofRegistry.coherent hi).fields ▸ List.mem_map_of_mem hc
      exact hspares i hi c.field hfield
  obtain ⟨hfree, hcommitted⟩ :=
    KeysCommitted.move hm.committed hm.filed hm.ofRegistry.coherent (fun i => i.takesOver_clear name) hkey
  exact ⟨hfree, (hm.filed.follows_clearField name h).filed, hm.ofRegistry.clearField name h, hcommitted⟩

/-- Where instances of a model lose a field outside of the key, none of them moves. -/
theorem Moored.clearAll (hm : m.Moored r) {owner : Model} {name : String} (hspares : owner.Spares name)
    {hs : List Handle} (hmodel : ∀ h ∈ hs, ∀ i, m.heap.get? h = some i → i.model = owner) :
    AllSteps (move (·.clear name)) (MovesFreely (·.clear name)) hs m ∧
      (hs.foldl (Memory.clearField name) m).Moored r := by
  let Inv (m : Memory) : Prop := m.Moored r ∧ ∀ h ∈ hs, ∀ i, m.heap.get? h = some i → i.model = owner
  have hall : AllSteps (move (·.clear name)) (MovesFreely (·.clear name)) hs m ∧
      Inv (hs.foldl (move (·.clear name)) m) := by
    refine AllSteps.of_invariant (fun m h hh ⟨hm, hmodel⟩ => ?_) ⟨hm, hmodel⟩
    obtain ⟨hfree, hnext⟩ := hm.clearField fun i hi => hmodel h hh i hi ▸ hspares
    refine ⟨hfree, hnext, fun k hk j hj => ?_⟩
    obtain ⟨i, hi, hij⟩ := (hm.filed.follows_clearField name h).heap.before hj
    exact hij.model.trans (hmodel k hk i hi)
  exact ⟨hall.1, hall.2.1⟩

end

/-! ### Clearing fields one after the other -/

section

variable {before m : Memory}

/-- The cached instances are those of a memory before, with some fields cleared. -/
structure Cleared (before : Memory) (cleared : Handle → String → Prop) (m : Memory) : Prop where
  filed : m.Filed
  coherent : m.heap.Coherent
  cells : ∀ {h : Handle} {j : Instance}, m.cache.contains m.heap h = true → m.heap.get? h = some j →
    ∃ i names, before.heap.get? h = some i ∧ before.cache.contains before.heap h = true ∧ j.model = i.model ∧
      j.cells = Cell.nulled names i.cells ∧ ∀ name, name ∈ names ↔ cleared h name

variable {cleared : Handle → String → Prop}

theorem Cleared.congr {cleared' : Handle → String → Prop} (hm : Cleared before cleared m)
    (h : ∀ h name, m.cache.contains m.heap h = true → (cleared h name ↔ cleared' h name)) :
    Cleared before cleared' m where
  filed := hm.filed
  coherent := hm.coherent
  cells hc hj := by
    obtain ⟨i, names, hi, hb, hmodel, hcells, hnames⟩ := hm.cells hc hj
    exact ⟨i, names, hi, hb, hmodel, hcells, fun name => (hnames name).trans (h _ name hc)⟩

/-- Clearing a field of a cached instance changes that instance and nothing else, if it does not move to the
key of another one. -/
theorem Cleared.clearField (hm : Cleared before cleared m) {h : Handle} (hc : m.cache.contains m.heap h = true)
    {name : String} (hnodup : ∀ i, before.heap.get? h = some i → (i.model.fields.map (·.name)).Nodup)
    (hfree : m.MovesFreely (·.clear name) h) :
    Cleared before (fun k field => cleared k field ∨ k = h ∧ field = name) (clearField name m h) ∧
      (∀ k, (clearField name m h).cache.contains (clearField name m h).heap k = true ↔
        m.cache.contains m.heap k = true) ∧
      ∀ k, k ≠ h → (clearField name m h).heap.get? k = m.heap.get? k := by
  obtain ⟨j, hj, -⟩ := Cache.contains_iff.1 hc
  obtain ⟨i, names, hi, hbefore, hmodel, hcells, hnames⟩ := hm.cells hc hj
  have hfollows := hm.filed.follows_clearField name h
  have hkeeps := (hm.filed.keepsCached_move_iff (f := (·.clear name)) (fun i => i.takesOver_clear name) h).2 hfree
  have hcached : ∀ k, (Memory.clearField name m h).cache.contains (Memory.clearField name m h).heap k = true ↔
      m.cache.contains m.heap k = true := fun k => ⟨hfollows.cached, hkeeps k⟩
  have hother : ∀ k, k ≠ h → (Memory.clearField name m h).heap.get? k = m.heap.get? k := fun k hk =>
    m.heap.get?_modify_of_ne hk _
  refine ⟨⟨hfollows.filed, hfollows.heap.coherent hm.coherent, fun {k l} hk hl => ?_⟩, hcached, hother⟩
  by_cases he : k = h
  · subst he
    have hl : (m.heap.modify k (·.clear name)).get? k = some l := hl
    rw [Heap.get?_modify_self, hj] at hl
    obtain rfl : j.clear name = l := Option.some.inj hl
    refine ⟨i, name :: names, hi, hbefore, (j.takesOver_clear name).model.trans hmodel, ?_, fun field => ?_⟩
    · have hcellnames : (j.cells.map (·.field.name)).Nodup := by
        have hfields := hnodup i hi
        rw [← hmodel, ← (hm.coherent hj).fields, List.map_map] at hfields
        exact hfields
      rw [Instance.clear, Instance.cells_settle, Cell.update_eq_nulled hcellnames, hcells, Cell.nulled_nulled]
    · rw [List.mem_cons, hnames, or_comm, and_iff_right rfl]
  · rw [hother k he] at hl
    obtain ⟨i', names', hi', hbefore', hmodel', hcells', hnames'⟩ := hm.cells ((hcached k).1 hk) hl
    exact ⟨i', names', hi', hbefore', hmodel', hcells', fun field => by rw [hnames', or_iff_left fun hk => he hk.1]⟩

theorem Cleared.clearAll {hs : List Handle} {name : String} (hm : Cleared before cleared m)
    (hc : ∀ h ∈ hs, m.cache.contains m.heap h = true)
    (hnodup : ∀ h ∈ hs, ∀ i, before.heap.get? h = some i → (i.model.fields.map (·.name)).Nodup)
    (hfree : AllSteps (move (·.clear name)) (MovesFreely (·.clear name)) hs m) :
    Cleared before (fun k field => cleared k field ∨ k ∈ hs ∧ field = name) (hs.foldl (Memory.clearField name) m) ∧
      (∀ k, (hs.foldl (Memory.clearField name) m).cache.contains (hs.foldl (Memory.clearField name) m).heap k = true ↔
        m.cache.contains m.heap k = true) ∧
      ∀ k ∉ hs, (hs.foldl (Memory.clearField name) m).heap.get? k = m.heap.get? k := by
  induction hs generalizing m cleared with
  | nil =>
    exact ⟨hm.congr fun _ _ _ => ⟨.inl, fun h => h.resolve_right fun h => nomatch h.1⟩, fun _ => .rfl, fun _ _ => rfl⟩
  | cons h rest ih =>
    obtain ⟨hfirst, hcached, hother⟩ := hm.clearField (hc h (.head _)) (hnodup h (.head _)) hfree.1
    obtain ⟨hall, hcached', hothers⟩ := ih hfirst (fun k hk => (hcached k).2 (hc k (.tail _ hk)))
      (fun k hk => hnodup k (.tail _ hk)) hfree.2
    refine ⟨hall.congr fun k field _ => ?_, fun k => (hcached' k).trans (hcached k), fun k hk => ?_⟩
    · rw [List.mem_cons, or_and_right, or_assoc]
    · rw [List.mem_cons, not_or] at hk
      exact (hothers k hk.2).trans (hother k hk.1)

/-- What a navigation leads to is as before, or it is gone with everything that referred to it. -/
def Leads (before : Memory) (cleared : Handle → String → Prop) (gone : Handle) (g g' : Instance)
    (d : Model × Navigation) : Prop :=
  g'.get? d.2.targetField = g.get? d.2.targetField ∨
    (∀ v, g'.get? d.2.targetField = some v → v.isNull = true) ∧ ∀ h ∈ before.referrers d.1 d.2 gone, cleared h d.2.field

/-- An instance that is still cached refers to a removed one as before, unless the field is cleared. -/
theorem Cleared.mem_referrers (hm : Cleared before cleared m) (hb : before.Filed) {gone : Handle} {g g' : Instance}
    (hg : before.heap.get? gone = some g) (hg' : m.heap.get? gone = some g') {d : Model × Navigation}
    (hleads : Leads before cleared gone g g' d) {h : Handle} :
    h ∈ m.referrers d.1 d.2 gone ↔
      h ∈ before.referrers d.1 d.2 gone ∧ m.cache.contains m.heap h = true ∧ ¬cleared h d.2.field := by
  rcases hleads with htarget | ⟨hnone, hcleared⟩
  · rw [hm.filed.mem_referrers hg', hb.mem_referrers hg, htarget]
    constructor
    · rintro ⟨v, hv, hnull, hc, j, hj, hname, hvalue⟩
      obtain ⟨i, names, hi, hbefore, hmodel, hcells, hnames⟩ := hm.cells hc hj
      have hkept : d.2.field ∉ names := fun hmem => by
        rw [Instance.hasValue_of_nulled hcells hmem hnull] at hvalue
        cases hvalue
      refine ⟨⟨v, hv, hnull, hbefore, i, hi, hmodel ▸ hname, ?_⟩, hc, fun hcleared => hkept ((hnames _).2 hcleared)⟩
      unfold Cache.hasValue at hvalue ⊢
      rw [← Instance.get?_of_nulled hcells hkept]
      exact hvalue
    · rintro ⟨⟨v, hv, hnull, hbefore, i, hi, hname, hvalue⟩, hc, hkept⟩
      obtain ⟨j, hj, -⟩ := Cache.contains_iff.1 hc
      obtain ⟨i', names, hi', -, hmodel, hcells, hnames⟩ := hm.cells hc hj
      obtain rfl : i' = i := Option.some.inj (hi'.symm.trans hi)
      refine ⟨v, hv, hnull, hc, j, hj, hmodel ▸ hname, ?_⟩
      unfold Cache.hasValue at hvalue ⊢
      rw [Instance.get?_of_nulled hcells fun hmem => hkept ((hnames _).1 hmem)]
      exact hvalue
  · constructor
    · intro hh
      obtain ⟨v, hv, hnull, -⟩ := (hm.filed.mem_referrers hg').1 hh
      rw [hnone v hv] at hnull
      cases hnull
    · exact fun ⟨hh, _, hkept⟩ => absurd (hcleared h hh) hkept

end

end Memory

end RecordMapper
