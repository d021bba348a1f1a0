import Mathlib.Data.List.Forall2
import RecordMapper.Proofs.Fetch.Hydrate

/-! What a fetch gives to its keeper, and in which order.

The instances of a row are its root, the targets that there are, and the elements of its
documents (`occurrences`). A run of a fetch gives exactly these to the keeper, row after row,
and only attaches targets in between (`takes_hydrate`). So what a keeper makes of the
instances that it is given is what a fetch makes of its rows. -/
namespace RecordMapper

namespace FetchPlan

/-! ### Occurrences -/

/-- The instances of a collection's elements. -/
def elementInstances (p : FetchPlan) (row : Row) (j : Joined) : Except Error (List Instance) := do
  (← elementsOf row (p.documentLabel j)).mapM (elementInstance (p.documentLabel j) j)

/-- The instances of a row in the order in which they are built. -/
def occurrences (p : FetchPlan) (row : Row) : Except Error (List Instance) := do
  let root ← columnInstance row p.root p.rootLabel
  let targets ← p.singles.mapM fun j => Option.toList <$> singleInstance row j
  let elements ← p.collections.mapM (p.elementInstances row)
  return root :: (targets.flatten ++ elements.flatten)

theorem fresh_occurrences {p : FetchPlan} {row : Row} {made : List Instance} (h : p.occurrences row = .ok made)
    {i : Instance} (hi : i ∈ made) : i.Fresh ∧ (i.model = p.root ∨ ∃ j ∈ p.joined, i.model = j.target) := by
  obtain ⟨root, hroot, h⟩ := bind_ok h
  obtain ⟨targets, htargets, h⟩ := bind_ok h
  obtain ⟨elements, helements, h⟩ := bind_ok h
  cases h
  rcases List.mem_cons.1 hi with rfl | hi
  · obtain ⟨hmodel, hfresh⟩ := fresh_columnInstance hroot
    exact ⟨hfresh, .inl hmodel⟩
  rcases List.mem_append.1 hi with hi | hi
  · obtain ⟨_, hmade, hi⟩ := List.mem_flatten.1 hi
    obtain ⟨j, hj, hsingle⟩ := mem_of_mapM_ok htargets hmade
    cases hfound : singleInstance row j with
    | error e => rw [hfound] at hsingle; cases hsingle
    | ok target =>
      rw [hfound] at hsingle
      cases hsingle
      obtain rfl := Option.mem_toList.1 hi
      obtain ⟨hmodel, hfresh⟩ := fresh_singleInstance hfound
      exact ⟨hfresh, .inr ⟨j, (List.mem_filter.1 hj).1, hmodel⟩⟩
  · obtain ⟨_, hmade, hi⟩ := List.mem_flatten.1 hi
    obtain ⟨j, hj, hcollection⟩ := mem_of_mapM_ok helements hmade
    obtain ⟨_, _, hcollection⟩ := bind_ok hcollection
    obtain ⟨_, _, helement⟩ := mem_of_mapM_ok hcollection hi
    obtain ⟨hmodel, hfresh⟩ := fresh_elementInstance helement
    exact ⟨hfresh, .inr ⟨j, (List.mem_filter.1 hj).1, hmodel⟩⟩

end FetchPlan

/-! ### Runs of a keeper -/

/-- An instance that a keeper was given, in which state, and what it named for it. -/
structure Taken (σ : Type) where
  made : Instance
  before : σ
  handle : Handle

namespace Keeper

variable {σ : Type} {keeper : Keeper σ}

/-- From one state to another a keeper took instances in turn. In between, those that were taken last
were attached as targets. -/
inductive Takes (keeper : Keeper σ) (s : σ) : List (Taken σ) → σ → Prop
  | start : keeper.Takes s [] s
  | take {log : List (Taken σ)} {t t' : σ} {i : Instance} {h : Handle} (before : keeper.Takes s log t)
      (run : (keeper.resolve i).runOn t = (.ok h, t')) : keeper.Takes s (log ++ [⟨i, t, h⟩]) t'
  | attachSingle {log : List (Taken σ)} {t : σ} (root : Handle) (navigation : String) (target : Option (Taken σ))
      (last : target.toList <:+ log) (before : keeper.Takes s log t) :
      keeper.Takes s log (keeper.modify root (·.attachSingle navigation (target.map (·.handle))) t)
  | attachCollection {log : List (Taken σ)} {t : σ} (root : Handle) (navigation : String) (targets : List (Taken σ))
      (last : targets <:+ log) (before : keeper.Takes s log t) :
      keeper.Takes s log (keeper.modify root (·.attachCollection navigation (targets.map (·.handle))) t)

namespace Takes

variable {s t u : σ} {log more : List (Taken σ)}

theorem one {i : Instance} {h : Handle} (run : (keeper.resolve i).runOn s = (.ok h, t)) :
    keeper.Takes s [⟨i, s, h⟩] t :=
  .take .start run

theorem trans (h : keeper.Takes s log t) (h' : keeper.Takes t more u) : keeper.Takes s (log ++ more) u := by
  induction h' with
  | start => rwa [List.append_nil]
  | take _ run ih =>
    rw [← List.append_assoc]
    exact .take ih run
  | attachSingle root navigation target last _ ih =>
    exact .attachSingle root navigation target (last.trans (List.suffix_append ..)) ih
  | attachCollection root navigation targets last _ ih =>
    exact .attachCollection root navigation targets (last.trans (List.suffix_append ..)) ih

/-- What a fetch does for each element of a list, it does for the list. -/
theorem of_forEach {α : Type} {f : α → Attempt σ Unit} {made : α → Except Error (List Instance)}
    (hf : ∀ x s t, (f x).runOn s = (.ok (), t) →
      ∃ log, made x = .ok (log.map (·.made)) ∧ keeper.Takes s log t)
    {xs : List α} (h : (Attempt.forEach xs f).runOn s = (.ok (), t)) :
    ∃ lists log, xs.mapM made = .ok lists ∧ lists.flatten = log.map (·.made) ∧ keeper.Takes s log t := by
  induction xs generalizing s with
  | nil =>
    cases h
    exact ⟨[], [], rfl, rfl, .start⟩
  | cons x rest ih =>
    obtain ⟨s₁, hx, hrest⟩ := Attempt.runOn_forEach_cons_ok h
    obtain ⟨first, hmade, htakes⟩ := hf x s s₁ hx
    obtain ⟨lists, log, hlists, hflat, hlog⟩ := ih hrest
    refine ⟨first.map (·.made) :: lists, first ++ log, ?_, ?_, htakes.trans hlog⟩
    · rw [List.mapM_cons, hmade, hlists]
      rfl
    · rw [List.flatten_cons, hflat, List.map_append]

end Takes

end Keeper

/-! ### Rows -/

namespace FetchPlan

variable {σ : Type} {keeper : Keeper σ} {p : FetchPlan} {row : Row} {root : Handle} {j : Joined} {s t : σ}

theorem takes_hydrateSingle (h : (hydrateSingle keeper row root j).runOn s = (.ok (), t)) :
    ∃ log, Option.toList <$> singleInstance row j = .ok (log.map (·.made)) ∧ keeper.Takes s log t := by
  obtain ⟨found, hfound, h⟩ := Attempt.runOn_ofExcept_bind_ok h
  rw [hfound]
  cases found with
  | none =>
    cases h
    exact ⟨[], rfl, .attachSingle root j.navigation.name none (List.suffix_refl _) .start⟩
  | some i =>
    obtain ⟨target, s₁, htarget, h⟩ := Attempt.runOn_bind_ok h
    obtain ⟨k, hresolve, rfl⟩ := Attempt.runOn_map_ok htarget
    cases h
    exact ⟨[⟨i, s, k⟩], rfl,
      .attachSingle root j.navigation.name (some ⟨i, s, k⟩) (List.suffix_refl _) (.one hresolve)⟩

/-- The elements of a document are taken one after the other. -/
theorem takes_elements {label : String} {elements : List Json} {targets : List Handle}
    (h : (Attempt.collect elements fun element => do
      keeper.resolve (← Attempt.ofExcept (elementInstance label j element))).runOn s = (.ok targets, t)) :
    ∃ log, elements.mapM (elementInstance label j) = .ok (log.map (·.made)) ∧ log.map (·.handle) = targets ∧
      keeper.Takes s log t := by
  induction elements generalizing s targets with
  | nil =>
    cases h
    exact ⟨[], rfl, rfl, .start⟩
  | cons element rest ih =>
    obtain ⟨k, more, s₁, hfirst, hrest, rfl⟩ := Attempt.runOn_collect_cons_ok h
    obtain ⟨i, hi, hresolve⟩ := Attempt.runOn_ofExcept_bind_ok hfirst
    obtain ⟨log, hlog, htargets, htakes⟩ := ih hrest
    refine ⟨⟨i, s, k⟩ :: log, ?_, congrArg (k :: ·) htargets, (Keeper.Takes.one hresolve).trans htakes⟩
    rw [List.mapM_cons, hi, hlog]
    rfl

theorem takes_hydrateCollection (h : (p.hydrateCollection keeper row root j).runOn s = (.ok (), t)) :
    ∃ log, p.elementInstances row j = .ok (log.map (·.made)) ∧ keeper.Takes s log t := by
  obtain ⟨elements, helements, h⟩ := Attempt.runOn_ofExcept_bind_ok h
  obtain ⟨targets, s₁, htargets, h⟩ := Attempt.runOn_bind_ok h
  cases h
  obtain ⟨log, hlog, rfl, htakes⟩ := takes_elements htargets
  refine ⟨log, ?_, .attachCollection root j.navigation.name log (List.suffix_refl _) htakes⟩
  unfold elementInstances
  rw [helements]
  exact hlog

/-- A row gives all its instances to the keeper, and is mapped to what that names for the root. -/
theorem takes_hydrate (h : (p.hydrate keeper row).runOn s = (.ok root, t)) :
    ∃ log, p.occurrences row = .ok (log.map (·.made)) ∧ log.head?.map (·.handle) = some root ∧
      keeper.Takes s log t := by
  obtain ⟨i, hi, h⟩ := Attempt.runOn_ofExcept_bind_ok h
  obtain ⟨k, s₁, hresolve, h⟩ := Attempt.runOn_bind_ok h
  obtain ⟨_, s₂, hsingles, h⟩ := Attempt.runOn_bind_ok h
  obtain ⟨_, s₃, hcollections, h⟩ := Attempt.runOn_bind_ok h
  cases h
  obtain ⟨targets, single, htargets, hsingle, htakes⟩ :=
    Keeper.Takes.of_forEach (fun j _ _ => takes_hydrateSingle (j := j)) hsingles
  obtain ⟨elements, collection, helements, hcollection, htakes'⟩ :=
    Keeper.Takes.of_forEach (fun j _ _ => takes_hydrateCollection (j := j)) hcollections
  refine ⟨⟨i, s, root⟩ :: (single ++ collection), ?_, rfl, (Keeper.Takes.one hresolve).trans (htakes.trans htakes')⟩
  unfold occurrences
  rw [hi, htargets, helements, List.map_cons, List.map_append, ← hsingle, ← hcollection]
  rfl

/-- Rows are taken in turn. -/
theorem takes_hydrateAll {rows : List Row} {roots : List Handle}
    (h : (Attempt.collect rows (p.hydrate keeper)).runOn s = (.ok roots, t)) :
    ∃ logs : List (List (Taken σ)),
      List.Forall₂ (fun row log => p.occurrences row = .ok (log.map (·.made))) rows logs ∧
      logs.map (fun log => log.head?.map (·.handle)) = roots.map some ∧ keeper.Takes s logs.flatten t := by
  induction rows generalizing s roots with
  | nil =>
    cases h
    exact ⟨[], .nil, rfl, .start⟩
  | cons row rest ih =>
    obtain ⟨root, more, s₁, hrow, hrest, rfl⟩ := Attempt.runOn_collect_cons_ok h
    obtain ⟨log, hoccurrences, hroot, htakes⟩ := takes_hydrate hrow
    obtain ⟨logs, hall, hroots, htakes'⟩ := ih hrest
    refine ⟨log :: logs, .cons hoccurrences hall, ?_, htakes.trans htakes'⟩
    rw [List.map_cons, List.map_cons, hroot, hroots]

theorem fresh_of_logs {rows : List Row} {logs : List (List (Taken σ))}
    (h : List.Forall₂ (fun row log => p.occurrences row = .ok (log.map (·.made))) rows logs) :
    ∀ e ∈ logs.flatten, e.made.Fresh ∧ (e.made.model = p.root ∨ ∃ j ∈ p.joined, e.made.model = j.target) := by
  induction h with
  | nil => nofun
  | cons hrow _ ih =>
    intro e he
    rcases List.mem_append.1 he with he | he
    · exact fresh_occurrences hrow (List.mem_map_of_mem he)
    · exact ih e he

end FetchPlan

end RecordMapper
