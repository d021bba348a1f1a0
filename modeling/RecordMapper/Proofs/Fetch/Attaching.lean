import RecordMapper.Proofs.Fetch.Documents

/-! What stands in a heap when everything of a row was kept.

A keeper that keeps each instance as a new one is given the root of a tree, the single targets that there are and the
elements of the collections, in this order and each once, and in the end the root has just these targets
(`deliver_recorder`). Each navigation is attached once, under a name of its own, and what was kept stays as it is;
only the root changes. -/
namespace RecordMapper

/-- A row of a model, and the rows that its navigations lead to. -/
structure Tree where
  root : Record
  single : Joined → Option Record
  targets : Joined → List Record

/-- The instances of a tree: the root, the single targets that there are, and the elements of the collections. -/
def Tree.instances (t : Tree) (p : FetchPlan) : List Instance :=
  .ofRecord p.root t.root ::
    (p.singles.flatMap (fun j => (t.single j).toList.map (.ofRecord j.target)) ++
      p.collections.flatMap fun j => (t.targets j).map (.ofRecord j.target))

theorem KeyedList.put_of_not_mem {κ α : Type} [DecidableEq κ] {key : κ} {entries : List (κ × α)}
    (h : key ∉ KeyedList.keys entries) (a : α) : KeyedList.put key a entries = entries ++ [(key, a)] := by
  induction entries with
  | nil => rfl
  | cons e rest ih =>
    obtain ⟨hne, hrest⟩ := not_or.1 (mt List.mem_cons.2 h)
    rw [put, if_neg (Ne.symm hne), ih hrest]
    rfl

/-! ### Targets in a heap -/

namespace Heap

variable {heap heap' : Heap} {root : Handle}

/-- Handles other than the root name the instances of rows. -/
def Stores (heap : Heap) (root : Handle) (m : Model) (handles : List Handle) (rows : List Record) : Prop :=
  List.Forall₂ (fun h row => h ≠ root ∧ heap.get? h = some (.ofRecord m row)) handles rows

/-- What is attached under the names of navigations are rows of their targets. -/
def Attaches {α : Type} (heap : Heap) (root : Handle) (handles : α → List Handle) (rows : Joined → List Record) :
    List Joined → List (String × α) → Prop :=
  List.Forall₂ fun j e => j.navigation.name = e.1 ∧ heap.Stores root j.target (handles e.2) (rows j)

/-- Everything in a heap stays as it is. -/
def Stays (heap heap' : Heap) : Prop := ∀ h i, heap.get? h = some i → heap'.get? h = some i

/-- Everything in a heap stays as it is, but for the root. -/
def StaysAround (root : Handle) (heap heap' : Heap) : Prop :=
  ∀ h i, h ≠ root → heap.get? h = some i → heap'.get? h = some i

theorem Stays.around (h : heap.Stays heap') (root : Handle) : StaysAround root heap heap' := fun k i _ => h k i

theorem stays_add (heap : Heap) (i : Instance) : heap.Stays (heap.add i).2 := fun _ _ hi => get?_add_of_some hi i

theorem StaysAround.trans {heap'' : Heap} (h : StaysAround root heap heap') (h' : StaysAround root heap' heap'') :
    StaysAround root heap heap'' := fun k i hk hi => h' k i hk (h k i hk hi)

theorem staysAround_modify (heap : Heap) (root : Handle) (f : Instance → Instance) :
    StaysAround root heap (heap.modify root f) := by
  intro h i hne hi
  rw [get?_modify_of_ne heap hne, hi]

theorem Stores.stays (hs : StaysAround root heap heap') {m : Model} {handles : List Handle} {rows : List Record}
    (h : heap.Stores root m handles rows) : heap'.Stores root m handles rows :=
  List.Forall₂.imp (fun k _ hk => ⟨hk.1, hs k _ hk.1 hk.2⟩) h

section

variable {α : Type} {handles : α → List Handle} {rows : Joined → List Record} {js : List Joined}
  {entries : List (String × α)} (h : heap.Attaches root handles rows js entries)
include h

theorem Attaches.stays (hs : StaysAround root heap heap') : heap'.Attaches root handles rows js entries :=
  List.Forall₂.imp (fun _ _ he => ⟨he.1, he.2.stays hs⟩) h

theorem Attaches.keys_eq : KeyedList.keys entries = js.map (·.navigation.name) := by
  induction h with
  | nil => rfl
  | cons he _ ih => exact congrArg₂ List.cons he.1.symm ih

/-- One more navigation goes to the end, under its new name. -/
theorem Attaches.put {j : Joined} (hname : j.navigation.name ∉ js.map (·.navigation.name)) {a : α}
    (hrows : heap.Stores root j.target (handles a) (rows j)) :
    heap.Attaches root handles rows (js ++ [j]) (KeyedList.put j.navigation.name a entries) := by
  rw [KeyedList.put_of_not_mem (h.keys_eq ▸ hname)]
  exact List.rel_append h (.cons ⟨rfl, hrows⟩ .nil)

end

end Heap

/-! ### Trees in a heap -/

/-- The root of a tree stands in a heap, with the targets of these navigations in their order and no others. -/
def Tree.StandsAt (t : Tree) (p : FetchPlan) (singles collections : List Joined) (root : Handle) (heap : Heap) : Prop :=
  ∃ i, heap.get? root = some i ∧ i.unlinked = .ofRecord p.root t.root ∧
    heap.Attaches root Option.toList (fun j => (t.single j).toList) singles i.singles ∧
    heap.Attaches root id t.targets collections i.collections

namespace Tree.StandsAt

variable {t : Tree} {p : FetchPlan} {singles collections : List Joined} {root : Handle} {heap : Heap} {j : Joined}

theorem stays (h : t.StandsAt p singles collections root heap) {heap' : Heap} (hs : heap.Stays heap') :
    t.StandsAt p singles collections root heap' := by
  obtain ⟨i, hi, hunlinked, hsingles, hcollections⟩ := h
  exact ⟨i, hs root i hi, hunlinked, hsingles.stays (hs.around root), hcollections.stays (hs.around root)⟩

theorem attachSingle (h : t.StandsAt p singles collections root heap)
    (hname : j.navigation.name ∉ singles.map (·.navigation.name)) {target : Option Handle}
    (htarget : heap.Stores root j.target target.toList (t.single j).toList) :
    t.StandsAt p (singles ++ [j]) collections root (heap.modify root (·.attachSingle j.navigation.name target)) := by
  obtain ⟨i, hi, hunlinked, hsingles, hcollections⟩ := h
  have hs := heap.staysAround_modify root (·.attachSingle j.navigation.name target)
  refine ⟨i.attachSingle j.navigation.name target, ?_, hunlinked, (hsingles.put hname htarget).stays hs,
    hcollections.stays hs⟩
  rw [Heap.get?_modify_self, hi]
  rfl

theorem attachCollection (h : t.StandsAt p singles collections root heap)
    (hname : j.navigation.name ∉ collections.map (·.navigation.name)) {targets : List Handle}
    (htargets : heap.Stores root j.target targets (t.targets j)) :
    t.StandsAt p singles (collections ++ [j]) root
      (heap.modify root (·.attachCollection j.navigation.name targets)) := by
  obtain ⟨i, hi, hunlinked, hsingles, hcollections⟩ := h
  have hs := heap.staysAround_modify root (·.attachCollection j.navigation.name targets)
  refine ⟨i.attachCollection j.navigation.name targets, ?_, hunlinked, hsingles.stays hs,
    (hcollections.put hname htargets).stays hs⟩
  rw [Heap.get?_modify_self, hi]
  rfl

end Tree.StandsAt

/-! ### Keeping everything -/

namespace FetchPlan

/-- Keeps every instance as a new one, and lists what it was given. -/
def recorder : Keeper (Heap × List Instance) where
  resolve i := Attempt.change fun s => ((s.1.add i).1, (s.1.add i).2, s.2 ++ [i])
  modify h f s := (s.1.modify h f, s.2)

variable {t : Tree} {p : FetchPlan} {root : Handle} {heap : Heap}

/-- A new instance goes beside the root, and nothing that there was changes. -/
theorem resolve_recorder {i : Instance} (hroot : heap.get? root = some i) (made : Instance) (log : List Instance) :
    ∃ h heap', (recorder.resolve made).runOn (heap, log) = (.ok h, heap', log ++ [made]) ∧
      h ≠ root ∧ heap'.get? h = some made ∧ heap.Stays heap' := by
  refine ⟨_, _, rfl, ?_, heap.get?_add_self made, heap.stays_add made⟩
  rintro rfl
  rw [heap.get?_add_fresh] at hroot
  cases hroot

theorem collect_recorder {i : Instance} (hroot : heap.get? root = some i) (m : Model) (rows : List Record)
    (log : List Instance) : ∃ handles heap',
      (Attempt.collect rows fun row => recorder.resolve (.ofRecord m row)).runOn (heap, log) =
        (.ok handles, heap', log ++ rows.map (.ofRecord m)) ∧
      heap'.Stores root m handles rows ∧ heap.Stays heap' := by
  induction rows generalizing heap log with
  | nil => exact ⟨[], heap, by rw [List.map_nil, List.append_nil]; rfl, .nil, fun _ _ h => h⟩
  | cons row rest ih =>
    obtain ⟨h, heap₁, hrun, hne, hh, hstays⟩ := resolve_recorder hroot (.ofRecord m row) log
    obtain ⟨handles, heap', hrest, hstores, hmore⟩ := ih (hstays root i hroot) (log ++ [.ofRecord m row])
    refine ⟨h :: handles, heap', ?_, .cons ⟨hne, hmore _ _ hh⟩ hstores, fun k j hj => hmore k j (hstays k j hj)⟩
    rw [Attempt.collect, Attempt.runOn_bind, hrun]
    dsimp only
    rw [Attempt.runOn_bind, hrest, List.append_assoc]
    rfl

/-- What attaches one navigation after another attaches all of them. -/
theorem forEach_recorder (f : Joined → Attempt (Heap × List Instance) Unit) (made : Joined → List Instance)
    (P : List Joined → Heap → Prop)
    (hf : ∀ {done j heap log}, j.navigation.name ∉ done.map (·.navigation.name) → P done heap →
      ∃ heap', (f j).runOn (heap, log) = (.ok (), heap', log ++ made j) ∧ P (done ++ [j]) heap' ∧
        heap.StaysAround root heap')
    (done js : List Joined) (hnames : ((done ++ js).map (·.navigation.name)).Nodup) {heap : Heap} (hdone : P done heap)
    (log : List Instance) :
    ∃ heap', (Attempt.forEach js f).runOn (heap, log) = (.ok (), heap', log ++ js.flatMap made) ∧ P (done ++ js) heap' ∧
      heap.StaysAround root heap' := by
  induction js generalizing done heap log with
  | nil =>
    rw [List.append_nil, List.flatMap_nil, List.append_nil]
    exact ⟨heap, rfl, hdone, fun _ _ _ h => h⟩
  | cons j rest ih =>
    have hj : j.navigation.name ∉ done.map (·.navigation.name) := fun hmem => by
      rw [List.map_append] at hnames
      exact (List.nodup_append.1 hnames).2.2 _ hmem _ (.head _) rfl
    obtain ⟨heap₁, hrun, hstep, haround⟩ := hf hj hdone
    rw [List.append_cons] at hnames ⊢
    obtain ⟨heap', hrest, hall, hmore⟩ := ih _ hnames hstep (log ++ made j)
    refine ⟨heap', ?_, hall, haround.trans hmore⟩
    rw [Attempt.forEach, Attempt.runOn_bind, hrun]
    dsimp only
    rw [hrest, List.flatMap_cons, List.append_assoc]

theorem deliverSingle_recorder {singles collections : List Joined} {j : Joined}
    (hname : j.navigation.name ∉ singles.map (·.navigation.name)) (h : t.StandsAt p singles collections root heap)
    {log : List Instance} :
    ∃ heap', (deliverSingle recorder root j (t.single j)).runOn (heap, log) =
        (.ok (), heap', log ++ (t.single j).toList.map (.ofRecord j.target)) ∧
      t.StandsAt p (singles ++ [j]) collections root heap' ∧ heap.StaysAround root heap' := by
  cases htarget : t.single j with
  | none =>
    have hnone : heap.Stores root j.target (none : Option Handle).toList (t.single j).toList := htarget ▸ .nil
    refine ⟨_, ?_, h.attachSingle hname hnone, heap.staysAround_modify root _⟩
    rw [Option.toList_none, List.map_nil, List.append_nil]
    rfl
  | some row =>
    obtain ⟨i, hi, -⟩ := id h
    obtain ⟨k, heap₁, hrun, hne, hk, hstays⟩ := resolve_recorder hi (.ofRecord j.target row) log
    have htargets : heap₁.Stores root j.target (some k).toList (t.single j).toList := htarget ▸ .cons ⟨hne, hk⟩ .nil
    refine ⟨_, ?_, (h.stays hstays).attachSingle hname htargets,
      (hstays.around root).trans (heap₁.staysAround_modify root _)⟩
    rw [deliverSingle, Attempt.runOn_bind, Attempt.runOn_map, hrun]
    rfl

theorem deliverCollection_recorder {singles collections : List Joined} {j : Joined}
    (hname : j.navigation.name ∉ collections.map (·.navigation.name)) (h : t.StandsAt p singles collections root heap)
    {log : List Instance} :
    ∃ heap', (deliverCollection recorder root j (t.targets j)).runOn (heap, log) =
        (.ok (), heap', log ++ (t.targets j).map (.ofRecord j.target)) ∧
      t.StandsAt p singles (collections ++ [j]) root heap' ∧ heap.StaysAround root heap' := by
  obtain ⟨i, hi, -⟩ := id h
  obtain ⟨handles, heap₁, hrun, hstores, hstays⟩ := collect_recorder hi j.target (t.targets j) log
  refine ⟨_, ?_, (h.stays hstays).attachCollection hname hstores,
    (hstays.around root).trans (heap₁.staysAround_modify root _)⟩
  rw [deliverCollection, Attempt.runOn_bind, hrun]
  rfl

theorem deliver_recorder (hnames : (p.joined.map (·.navigation.name)).Nodup) (heap : Heap) (log : List Instance) :
    ∃ heap', (p.deliver recorder t.root t.single t.targets).runOn (heap, log) =
        (.ok ⟨heap.size⟩, heap', log ++ t.instances p) ∧
      t.StandsAt p p.singles p.collections ⟨heap.size⟩ heap' ∧ heap.Stays heap' := by
  have hstart : t.StandsAt p [] [] ⟨heap.size⟩ (heap.add (.ofRecord p.root t.root)).2 :=
    ⟨.ofRecord p.root t.root, heap.get?_add_self _, rfl, .nil, .nil⟩
  have hsingles : (p.singles.map (·.navigation.name)).Nodup := hnames.sublist (List.filter_sublist.map _)
  have hcollections : (p.collections.map (·.navigation.name)).Nodup := hnames.sublist (List.filter_sublist.map _)
  obtain ⟨heap₁, hrun₁, hstands₁, haround₁⟩ := forEach_recorder
    (fun j => deliverSingle recorder ⟨heap.size⟩ j (t.single j))
    (fun j => (t.single j).toList.map (.ofRecord j.target)) (fun done => t.StandsAt p done [] ⟨heap.size⟩)
    (fun hname h => deliverSingle_recorder hname h) [] p.singles hsingles hstart (log ++ [.ofRecord p.root t.root])
  obtain ⟨heap₂, hrun₂, hstands₂, haround₂⟩ := forEach_recorder
    (fun j => deliverCollection recorder ⟨heap.size⟩ j (t.targets j))
    (fun j => (t.targets j).map (.ofRecord j.target)) (fun done => t.StandsAt p p.singles done ⟨heap.size⟩)
    (fun hname h => deliverCollection_recorder hname h) [] p.collections hcollections hstands₁
    (log ++ [.ofRecord p.root t.root] ++ p.singles.flatMap fun j => (t.single j).toList.map (.ofRecord j.target))
  refine ⟨heap₂, ?_, hstands₂, fun h i hi => haround₁.trans haround₂ h i ?_ (Heap.get?_add_of_some hi _)⟩
  · have hresolve : (recorder.resolve (.ofRecord p.root t.root)).runOn (heap, log) =
        (.ok ⟨heap.size⟩, (heap.add (.ofRecord p.root t.root)).2, log ++ [.ofRecord p.root t.root]) := rfl
    rw [deliver, Attempt.runOn_bind, hresolve]
    dsimp only
    rw [Attempt.runOn_bind, hrun₁]
    dsimp only
    rw [Attempt.runOn_bind, hrun₂]
    simp [Tree.instances]
  · rintro rfl
    have hfresh : heap.get? ⟨heap.size⟩ = none := heap.get?_add_fresh (.ofRecord p.root t.root)
    rw [hfresh] at hi
    cases hi

end FetchPlan

end RecordMapper
