import RecordMapper.Proofs.Session.Reconcile

/-! What applying a plan does to the cache.

A plan remembers for each instance the key that its row had when the plan was made. When it
is applied, an instance that is planned twice is found committed the second time, and its
remembered key is out of date; an update is `Current` when neither can do harm. Every update of
a new plan is current (`make_current`), and stays so while the plan is applied
(`follows_apply`). -/
namespace RecordMapper

namespace Instance

/-- Committing an instance without pending changes changes nothing. -/
theorem Coherent.commit_eq {i : Instance} (hi : i.Coherent) (h : i.isDirty = false) : i.commit = i := by
  have hcells : i.cells.map Cell.committed = i.cells := by
    refine (List.map_congr_left fun c hc => ?_).trans (List.map_id _)
    exact congrArg (fun v => ({c with baseline := v} : Cell)) (not_isDirty_iff.1 h c hc)
  show {i with cells := i.cells.map Cell.committed, keySnapshot := none} = i
  rw [hcells, ← hi.snapshot_none h]

end Instance

namespace Memory

/-- Filing a cached instance anew from any key leaves the cache filed: only from its own key
does it do anything. -/
theorem Filed.follows_rekey {m : Memory} (hm : m.Filed) (h : Handle) (oldKey : List Value) :
    m.Follows (m.rekey h oldKey) := by
  cases hi : m.heap.get? h with
  | none =>
    have hsame : m.rekey h oldKey = m := by
      unfold rekey
      rw [m.cache.rekey_missing hi]
    rw [hsame]
    exact hm.follows_refl
  | some i =>
    by_cases hfiled : m.cache.filed? i.model.name (Value.keyText oldKey) = some h
    · have htext : Value.keyText oldKey = Value.keyText (m.persistedKey h) :=
        (hm.eq_of_filed hfiled hi).2.trans (keyText_persistedKey hi).symm
      have hsame : m.rekey h oldKey = rekey {m with heap := m.heap} h (m.persistedKey h) := by
        unfold rekey Cache.rekey
        rw [hi, htext]
      rw [hsame]
      exact hm.follows_moved (fun _ _ => rfl) (.refl _)
    · have hsame : m.rekey h oldKey = m := by
        unfold rekey Cache.rekey
        rw [hi]
        simp only [Cache.isFiled, beq_iff_eq, if_neg hfiled]
      rw [hsame]
      exact hm.follows_refl

theorem takesOver_modify_commit (heap : Heap) (h : Handle) :
    heap.TakesOver (heap.modify h (·.commit)) :=
  heap.takesOver_modify h fun i _ => i.takesOver_commit

end Memory

/-- The remembered key is that of the row, or there is nothing left to commit. -/
def PlannedUpdate.Current (u : PlannedUpdate) (m : Memory) : Prop :=
  u.persistedKey = m.persistedKey u.handle ∨ ∀ i, m.heap.get? u.handle = some i → i.isDirty = false

namespace FlushPlan

theorem planOne_ok {owner : Owner} {rules : Rules} {d : Dialect} {h : Handle} {i : Instance}
    {u : PlannedUpdate} (hu : planOne owner rules d h i = .ok u) :
    u.handle = h ∧ u.persistedKey = i.persistedKey ∧ i.updateStatement rules d = .ok u.statement := by
  unfold planOne at hu
  dsimp only at hu
  obtain ⟨_, hu⟩ := unless_ok hu
  obtain ⟨_, hu⟩ := unless_ok hu
  obtain ⟨_, hu⟩ := unless_ok hu
  obtain ⟨_, hstatement, hu⟩ := bind_ok hu
  cases hu
  exact ⟨rfl, rfl, hstatement⟩

theorem planned_ok {owner : Owner} {rules : Rules} {d : Dialect} {m : Memory} {h : Handle} {u : PlannedUpdate}
    (hu : (match m.heap.get? h with
      | some i => planOne owner rules d h i
      | none => .error (.consistency .foreignModel)) = .ok u) :
    u.handle = h ∧ u.persistedKey = m.persistedKey h ∧
      ∃ i, m.heap.get? h = some i ∧ i.updateStatement rules d = .ok u.statement := by
  split at hu
  · next i hi =>
    obtain ⟨hhandle, hkey, hstatement⟩ := planOne_ok hu
    refine ⟨hhandle, ?_, i, hi, hstatement⟩
    rw [hkey, Memory.persistedKey, hi]
    rfl
  · cases hu

/-- A plan holds the candidates, each with the key of its row. -/
theorem make_ok {owner : Owner} {rules : Rules} {d : Dialect} {m : Memory} {candidates : List Handle}
    {p : FlushPlan} (h : make owner rules d m.heap candidates = .ok p) :
    p.map (·.handle) = candidates ∧ ∀ u ∈ p, u.persistedKey = m.persistedKey u.handle := by
  refine ⟨map_of_mapM_inverse h fun k u hu => (planned_ok hu).1, fun u hu => ?_⟩
  obtain ⟨k, _, hk⟩ := mem_of_mapM_ok h hu
  obtain ⟨rfl, hkey, -⟩ := planned_ok hk
  exact hkey

/-- Each update in a plan is the one of its instance. -/
theorem statement_of_make {owner : Owner} {rules : Rules} {d : Dialect} {m : Memory} {candidates : List Handle}
    {p : FlushPlan} (h : make owner rules d m.heap candidates = .ok p) {u : PlannedUpdate} (hu : u ∈ p) :
    ∃ i, m.heap.get? u.handle = some i ∧ i.updateStatement rules d = .ok u.statement := by
  obtain ⟨k, _, hk⟩ := mem_of_mapM_ok h hu
  obtain ⟨rfl, -, hstatement⟩ := planned_ok hk
  exact hstatement

theorem make_current {owner : Owner} {rules : Rules} {d : Dialect} {m : Memory} {candidates : List Handle}
    {p : FlushPlan} (h : make owner rules d m.heap candidates = .ok p) : ∀ u ∈ p, u.Current m :=
  fun u hu => .inl ((make_ok h).2 u hu)

theorem heap_applyOne_of_ne (m : Memory) (u : PlannedUpdate) {h : Handle} (hne : h ≠ u.handle) :
    (applyOne m u).heap.get? h = m.heap.get? h :=
  m.heap.get?_modify_of_ne hne _

theorem isDirty_applyOne (m : Memory) (u : PlannedUpdate) {i : Instance}
    (hi : (applyOne m u).heap.get? u.handle = some i) : i.isDirty = false := by
  have hi : (m.heap.modify u.handle (·.commit)).get? u.handle = some i := hi
  rw [Heap.get?_modify_self] at hi
  obtain ⟨j, _, rfl⟩ := Option.map_eq_some_iff.1 hi
  exact j.isDirty_commit

/-- Updates stay current while others, or themselves, are applied. -/
theorem current_applyOne {m : Memory} {v : PlannedUpdate} (hv : v.Current m) (u : PlannedUpdate) :
    v.Current (applyOne m u) := by
  by_cases hne : v.handle = u.handle
  · exact .inr fun i hi => isDirty_applyOne m u (hne ▸ hi)
  · have hsame := heap_applyOne_of_ne m u hne
    refine hv.imp (fun hkey => ?_) fun hclean i hi => hclean i (hsame ▸ hi)
    unfold Memory.persistedKey
    rw [hsame]
    exact hkey

theorem follows_applyOne {m : Memory} (hm : m.Filed) (hc : m.heap.Coherent) {u : PlannedUpdate}
    (hu : u.Current m) : m.Follows (applyOne m u) := by
  rcases hu with hkey | hclean
  · unfold applyOne
    rw [hkey]
    exact hm.follows_moved (fun _ hk => m.heap.get?_modify_of_ne hk _)
      (Memory.takesOver_modify_commit m.heap u.handle)
  · have hkept : ∀ {k i}, m.heap.get? k = some i → ∃ j, (m.commit u.handle).heap.get? k = some j ∧ j = i := by
      intro k i hi
      refine ⟨i, ?_, rfl⟩
      show (m.heap.modify u.handle (·.commit)).get? k = some i
      rw [Heap.get?_modify]
      split
      · next he => rw [hi, Option.map_some, (hc hi).commit_eq (hclean i (he ▸ hi))]
      · exact hi
    obtain ⟨hfiled, hcached⟩ := hm.unmoved fun {k i} hi => by
      obtain ⟨j, hj, rfl⟩ := hkept hi
      exact ⟨j, hj, rfl, fun _ => rfl⟩
    have hcommit : m.Follows (m.commit u.handle) :=
      ⟨hfiled, Memory.takesOver_modify_commit m.heap u.handle, fun h => (hcached _).symm.trans h⟩
    exact hcommit.trans (hcommit.filed.follows_rekey _ _)

theorem follows_apply {m : Memory} (hm : m.Filed) (hc : m.heap.Coherent) {p : FlushPlan}
    (hp : ∀ u ∈ p, u.Current m) : m.Follows (p.apply m) := by
  induction p generalizing m with
  | nil => exact hm.follows_refl
  | cons u rest ih =>
    have hstep := follows_applyOne hm hc (hp u (.head _))
    exact hstep.trans (ih hstep.filed (hstep.heap.coherent hc) fun v hv =>
      current_applyOne (hp v (.tail _ hv)) u)

/-- What is pending after a plan was applied was not in it. -/
theorem apply_pending {m : Memory} {p : FlushPlan} {h : Handle} {j : Instance}
    (hj : (p.apply m).heap.get? h = some j) (hd : j.isDirty = true) : m.heap.get? h = some j := by
  induction p generalizing m with
  | nil => exact hj
  | cons u rest ih =>
    have hj := ih hj
    by_cases hne : h = u.handle
    · rw [isDirty_applyOne m u (hne ▸ hj)] at hd
      cases hd
    · rw [heap_applyOne_of_ne m u hne] at hj
      exact hj

end FlushPlan

end RecordMapper
