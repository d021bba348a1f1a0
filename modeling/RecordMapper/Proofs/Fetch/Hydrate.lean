import RecordMapper.Fetch.Hydrate
import RecordMapper.Proofs.Field.Coerce
import RecordMapper.Proofs.Instance.Pending
import RecordMapper.Proofs.Model.Registry

/-! What a fetch builds from rows.

Every instance that is built is `Fresh`: all its fields are set to committed values in their
canonical form. What a keeper keeps for fresh instances of the planned models, and when targets
are attached, is kept by a whole row (`keeps_hydrate`). -/
namespace RecordMapper

/-- An instance as it comes from a row. -/
structure Instance.Fresh (i : Instance) : Prop where
  fields : i.cells.map (·.field) = i.model.fields
  settled : ∀ c ∈ i.cells, c.isSet = true ∧ c.baseline = c.current ∧ c.field.coerce c.current = .ok c.current
  snapshot : i.keySnapshot = none

namespace Instance.Fresh

variable {i : Instance} (hi : i.Fresh)
include hi

theorem not_isDirty : i.isDirty = false :=
  not_isDirty_iff.2 fun c hc => (hi.settled c hc).2.1.symm

theorem coherent : i.Coherent where
  fields := hi.fields
  snapshot := by rw [hi.snapshot, hi.not_isDirty]; rfl
  unset c hc hs := by
    rw [(hi.settled c hc).1] at hs
    cases hs

theorem anchored : i.Anchored :=
  ⟨fun c hc _ => (hi.settled c hc).1, hi.coherent.persistedKey_of_not_isDirty hi.not_isDirty⟩

theorem persistedKey : i.persistedKey = i.primaryKey := by
  unfold Instance.persistedKey
  rw [hi.snapshot]
  rfl

theorem setValues : i.setValues = i.cells.map fun c => (c.field.name, c.current) := by
  unfold Instance.setValues
  rw [List.filter_eq_self.2 fun c hc => (hi.settled c hc).1]

end Instance.Fresh

/-! ### Building -/

theorem Field.loaded_ok {f : Field} {column : String} {v : Value} {c : Cell} (h : f.loaded column v = .ok c) :
    c.field = f ∧ c.isSet = true ∧ c.baseline = c.current ∧ c.field.coerce c.current = .ok c.current := by
  unfold loaded at h
  split at h
  · next w hw =>
    cases h
    exact ⟨rfl, rfl, rfl, Field.coerce_ok_iff.2 (FieldKind.coerce_coerce hw)⟩
  · cases h

namespace FetchPlan

/-- Cells that were loaded for the fields of a model make a fresh instance. -/
theorem fresh_of_mapM {m : Model} {f : Field → Except Error Cell} {cells : List Cell}
    (h : m.fields.mapM f = .ok cells)
    (hf : ∀ field c, f field = .ok c → ∃ column v, field.loaded column v = .ok c) :
    Instance.Fresh {model := m, cells} where
  fields := map_of_mapM_inverse h fun field c hc => by
    obtain ⟨_, _, hloaded⟩ := hf field c hc
    exact (Field.loaded_ok hloaded).1
  settled c hc := by
    obtain ⟨field, _, hc⟩ := mem_of_mapM_ok h hc
    obtain ⟨_, _, hloaded⟩ := hf field c hc
    exact (Field.loaded_ok hloaded).2
  snapshot := rfl

theorem fresh_columnInstance {row : Row} {m : Model} {label : Field → String} {i : Instance}
    (h : columnInstance row m label = .ok i) : i.model = m ∧ i.Fresh := by
  obtain ⟨cells, hcells, h⟩ := bind_ok h
  cases h
  refine ⟨rfl, fresh_of_mapM hcells fun f c hc => ?_⟩
  unfold columnCell at hc
  split at hc
  · exact ⟨_, _, hc⟩
  · cases hc

theorem fresh_singleInstance {row : Row} {j : Joined} {i : Instance}
    (h : singleInstance row j = .ok (some i)) : i.model = j.target ∧ i.Fresh := by
  unfold singleInstance at h
  split at h
  · cases h
  · cases hc : columnInstance row j.target j.columnLabel with
    | error e => rw [hc] at h; cases h
    | ok i' =>
      rw [hc] at h
      cases h
      exact fresh_columnInstance hc

theorem fresh_elementInstance {label : String} {j : Joined} {element : Json} {i : Instance}
    (h : elementInstance label j element = .ok i) : i.model = j.target ∧ i.Fresh := by
  unfold elementInstance at h
  split at h
  · obtain ⟨cells, hcells, h⟩ := bind_ok h
    cases h
    refine ⟨rfl, fresh_of_mapM hcells fun f c hc => ?_⟩
    exact ⟨_, _, hc⟩
  · cases h

/-! ### Keeping -/

section

variable {σ : Type} {P : σ → Prop} {keeper : Keeper σ} (Known : Model → Prop)
  (hresolve : ∀ i : Instance, i.Fresh → Known i.model → Attempt.Keeps P (keeper.resolve i))
  (hmodify : ∀ (h : Handle) (f : Instance → Instance) (s : σ),
    (∀ i, (f i).unlinked = i.unlinked) → P s → P (keeper.modify h f s))
include hresolve hmodify

theorem keeps_hydrateSingle {row : Row} {root : Handle} {j : Joined} (hj : Known j.target) :
    Attempt.Keeps P (hydrateSingle keeper row root j) := by
  have hattach : ∀ target, Attempt.Keeps P
      (modify (keeper.modify root fun i => i.attachSingle j.navigation.name target) : Attempt σ Unit) :=
    fun _ => Attempt.keeps_modify fun s hs => hmodify root _ s (fun _ => rfl) hs
  refine Attempt.Keeps.bind_ofExcept fun found hfound => ?_
  cases found with
  | none => exact (Attempt.keeps_pure none).bind hattach
  | some i =>
    obtain ⟨hmodel, hfresh⟩ := fresh_singleInstance hfound
    exact ((hresolve i hfresh (hmodel ▸ hj)).map some).bind hattach

theorem keeps_hydrateCollection {p : FetchPlan} {row : Row} {root : Handle} {j : Joined}
    (hj : Known j.target) : Attempt.Keeps P (p.hydrateCollection keeper row root j) := by
  refine Attempt.Keeps.bind_ofExcept fun elements _ => ?_
  refine Attempt.Keeps.bind (Attempt.Keeps.collect fun element _ => ?_) fun targets => ?_
  · refine Attempt.Keeps.bind_ofExcept fun i hi => ?_
    obtain ⟨hmodel, hfresh⟩ := fresh_elementInstance hi
    exact hresolve i hfresh (hmodel ▸ hj)
  · exact Attempt.keeps_modify fun s hs => hmodify root _ s (fun _ => rfl) hs

/-- What is kept by every instance of a row is kept by the row. -/
theorem keeps_hydrate {p : FetchPlan} (hroot : Known p.root) (hjoined : ∀ j ∈ p.joined, Known j.target)
    (row : Row) : Attempt.Keeps P (p.hydrate keeper row) := by
  refine Attempt.Keeps.bind_ofExcept fun i hi => ?_
  obtain ⟨hmodel, hfresh⟩ := fresh_columnInstance hi
  refine (hresolve i hfresh (hmodel ▸ hroot)).bind fun root => ?_
  refine Attempt.Keeps.bind (Attempt.Keeps.forEach fun j hj => ?_) fun _ => ?_
  · exact keeps_hydrateSingle Known hresolve hmodify (hjoined j (List.mem_filter.1 hj).1)
  refine Attempt.Keeps.bind (Attempt.Keeps.forEach fun j hj => ?_) fun _ => Attempt.keeps_pure root
  exact keeps_hydrateCollection Known hresolve hmodify (hjoined j (List.mem_filter.1 hj).1)

end

/-! ### Plans -/

/-- The models of a plan are registered ones. -/
theorem known_joinAll {r : Registry} {used : List String} {included : List Navigation} {joined : List Joined}
    (h : joinAll r used included = .ok joined) : ∀ j ∈ joined, r.model j.navigation.target = .ok j.target := by
  induction included generalizing used joined with
  | nil =>
    cases h
    exact fun _ h => absurd h List.not_mem_nil
  | cons n rest ih =>
    obtain ⟨target, htarget, h⟩ := bind_ok h
    obtain ⟨more, hmore, h⟩ := bind_ok h
    cases h
    intro j hj
    rcases List.mem_cons.1 hj with rfl | hj
    · exact htarget
    · exact ih hmore j hj

theorem make_ok {r : Registry} {root : Model} {included : List Navigation} {p : FetchPlan}
    (h : make r root included = .ok p) :
    p.root = root ∧ ∀ j ∈ p.joined, r.model j.navigation.target = .ok j.target := by
  obtain ⟨joined, hjoined, h⟩ := bind_ok h
  cases h
  exact ⟨rfl, known_joinAll hjoined⟩

end FetchPlan

end RecordMapper
