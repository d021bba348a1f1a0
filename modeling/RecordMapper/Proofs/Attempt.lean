import RecordMapper.Attempt

/-! What operations keep.

A property of states is kept by an operation when it holds after every run from a state in
which it holds, failed runs included. What is kept by the parts of an operation is kept by
the whole, and what is kept by every step of a run is kept by the run. -/
namespace RecordMapper

/-! ### Runs of steps -/

section

variable {σ α : Type} {step : σ → α → σ} {P : σ → α → Prop}

/-- Each step of a run is taken where a property holds. -/
def AllSteps (step : σ → α → σ) (P : σ → α → Prop) : List α → σ → Prop
  | [], _ => True
  | a :: rest, s => P s a ∧ AllSteps step P rest (step s a)

instance AllSteps.decidable [∀ s a, Decidable (P s a)] : ∀ xs s, Decidable (AllSteps step P xs s)
  | [], _ => .isTrue trivial
  | a :: rest, s => @instDecidableAnd _ _ _ (AllSteps.decidable rest (step s a))

/-- An invariant of the steps holds after the run. -/
theorem AllSteps.invariant {Inv : σ → Prop} (hstep : ∀ s a, Inv s → P s a → Inv (step s a)) {xs : List α}
    {s : σ} (h : AllSteps step P xs s) (hs : Inv s) : Inv (xs.foldl step s) := by
  induction xs generalizing s with
  | nil => exact hs
  | cons a rest ih => exact ih h.2 (hstep s a hs h.1)

/-- What an invariant has for every step, a run has at each of them. -/
theorem AllSteps.of_invariant {Inv : σ → Prop} {xs : List α} (hstep : ∀ s, ∀ a ∈ xs, Inv s → P s a ∧ Inv (step s a))
    {s : σ} (hs : Inv s) : AllSteps step P xs s ∧ Inv (xs.foldl step s) := by
  induction xs generalizing s with
  | nil => exact ⟨trivial, hs⟩
  | cons a rest ih =>
    obtain ⟨hfirst, hnext⟩ := hstep s a (.head _) hs
    obtain ⟨hrest, hend⟩ := ih (fun s b hb => hstep s b (.tail _ hb)) hnext
    exact ⟨⟨hfirst, hrest⟩, hend⟩

end

/-! ### Chains that may fail -/

/-- A chain that succeeds has succeeded at each link. -/
theorem bind_ok {ε α β : Type} {a : Except ε α} {f : α → Except ε β} {r : β} (h : a >>= f = .ok r) :
    ∃ x, a = .ok x ∧ f x = .ok r := by
  cases a with
  | error e => cases h
  | ok x => exact ⟨x, rfl, h⟩

/-- What remains without the error is the result. -/
theorem ok_of_toOption {ε α : Type} {r : Except ε α} {a : α} (h : r.toOption = some a) : r = .ok a := by
  cases r with
  | error e => cases h
  | ok x => exact congrArg Except.ok (Option.some.inj h)

theorem unless_ok {ε β : Type} {fault : Prop} [Decidable fault] {e : ε} {f : Unit → Except ε β} {r : β}
    (h : (if fault then throw e >>= f else f ()) = .ok r) : ¬fault ∧ f () = .ok r := by
  split at h
  · cases h
  · next hfault => exact ⟨hfault, h⟩

instance decidableForallOk {ε α : Type} {P : α → Prop} [∀ a, Decidable (P a)] (r : Except ε α) :
    Decidable (∀ a, r = .ok a → P a) :=
  match r with
  | .ok a => decidable_of_iff (P a) ⟨fun h _ hb => Except.ok.inj hb ▸ h, fun h => h a rfl⟩
  | .error _ => .isTrue fun _ h => nomatch h

theorem map_eq_ok {ε α β : Type} {r : Except ε α} {f : α → β} {b : β} (h : r.map f = .ok b) :
    ∃ a, r = .ok a ∧ f a = b := by
  cases r with
  | error e => cases h
  | ok a => exact ⟨a, rfl, Except.ok.inj h⟩

theorem mapError_ok {ε ε' α : Type} {r : Except ε α} {f : ε → ε'} {a : α} (h : r.mapError f = .ok a) :
    r = .ok a := by
  cases r with
  | error e => cases h
  | ok b => cases h; rfl

/-- What a function makes of each element of a list, if it succeeds on all of them. -/
theorem map_of_mapM_ok {ε α β : Type} {f : α → Except ε β} {xs : List α} {ys : List β}
    (h : xs.mapM f = .ok ys) : xs.map f = ys.map .ok := by
  induction xs generalizing ys with
  | nil =>
    cases h
    rfl
  | cons x rest ih =>
    rw [List.mapM_cons] at h
    cases hx : f x with
    | error e => rw [hx] at h; cases h
    | ok y =>
      cases hrest : rest.mapM f with
      | error e => rw [hx, hrest] at h; cases h
      | ok zs =>
        rw [hx, hrest] at h
        cases h
        rw [List.map_cons, List.map_cons, hx, ih hrest]

/-- A function succeeds on all elements of a list if it makes something of each of them. -/
theorem mapM_ok {ε α β : Type} {f : α → Except ε β} {xs : List α} {ys : List β} (h : xs.map f = ys.map .ok) :
    xs.mapM f = .ok ys := by
  induction xs generalizing ys with
  | nil =>
    obtain rfl := List.map_eq_nil_iff.1 h.symm
    rfl
  | cons x rest ih =>
    obtain ⟨y, more, rfl, hy, hmore⟩ := List.map_eq_cons_iff.1 h.symm
    rw [List.mapM_cons, ← hy, ih hmore.symm]
    rfl

/-- Each result was made from an element. -/
theorem exists_of_mem_results {ε α β : Type} {f : α → Except ε β} {xs : List α} {ys : List β}
    (h : xs.map f = ys.map .ok) {y : β} (hy : y ∈ ys) : ∃ x ∈ xs, f x = .ok y := by
  have hy : Except.ok y ∈ ys.map (.ok : β → Except ε β) := List.mem_map_of_mem hy
  rw [← h] at hy
  exact List.mem_map.1 hy

/-- Each element has a result. -/
theorem exists_result {ε α β : Type} {f : α → Except ε β} {xs : List α} {ys : List β}
    (h : xs.map f = ys.map .ok) {x : α} (hx : x ∈ xs) : ∃ y ∈ ys, f x = .ok y := by
  have hx : f x ∈ xs.map f := List.mem_map_of_mem hx
  rw [h] at hx
  obtain ⟨y, hy, hresult⟩ := List.mem_map.1 hx
  exact ⟨y, hy, hresult.symm⟩

/-- There are results if every element has one. -/
theorem exists_results_iff {ε α β : Type} {f : α → Except ε β} {xs : List α} :
    (∃ ys : List β, xs.map f = ys.map .ok) ↔ ∀ x ∈ xs, ∃ y, f x = .ok y := by
  constructor
  · rintro ⟨ys, h⟩ x hx
    obtain ⟨y, -, hy⟩ := exists_result h hx
    exact ⟨y, hy⟩
  · intro h
    induction xs with
    | nil => exact ⟨[], rfl⟩
    | cons x rest ih =>
      obtain ⟨y, hy⟩ := h x (.head _)
      obtain ⟨ys, hys⟩ := ih fun x hx => h x (.tail _ hx)
      exact ⟨y :: ys, by rw [List.map_cons, List.map_cons, hy, hys]⟩

theorem mem_of_mapM_ok {ε α β : Type} {f : α → Except ε β} {xs : List α} {ys : List β}
    (h : xs.mapM f = .ok ys) {y : β} (hy : y ∈ ys) : ∃ x ∈ xs, f x = .ok y :=
  exists_of_mem_results (map_of_mapM_ok h) hy

/-- What every link of a chain over a list keeps. -/
theorem invariant_of_foldlM_ok {ε α β : Type} (P : β → Prop) {f : β → α → Except ε β}
    (hf : ∀ b x b', f b x = .ok b' → P b → P b') {xs : List α} {b c : β} (h : xs.foldlM f b = .ok c)
    (hb : P b) : P c := by
  induction xs generalizing b with
  | nil =>
    cases h
    exact hb
  | cons x rest ih =>
    obtain ⟨b', hb', h⟩ := bind_ok h
    exact ih h (hf b x b' hb' hb)

/-- What the results tell of the elements that they were made from. -/
theorem map_of_mapM_map {ε α β γ : Type} {f : α → Except ε β} {g : β → γ} {k : α → γ} {xs : List α} {ys : List β}
    (h : xs.mapM f = .ok ys) (hg : ∀ x y, f x = .ok y → g y = k x) : ys.map g = xs.map k := by
  have hmap := map_of_mapM_ok h
  clear h
  induction ys generalizing xs with
  | nil => rw [List.map_eq_nil_iff.1 hmap]; rfl
  | cons y rest ih =>
    obtain ⟨x, more, rfl, hx, hmore⟩ := List.map_eq_cons_iff.1 hmap
    rw [List.map_cons, List.map_cons, hg x y hx, ih hmore]

/-- What a function was applied to, from the results that tell. -/
theorem map_of_mapM_inverse {ε α β : Type} {f : α → Except ε β} {g : β → α} {xs : List α} {ys : List β}
    (h : xs.mapM f = .ok ys) (hg : ∀ x y, f x = .ok y → g y = x) : ys.map g = xs :=
  (map_of_mapM_map h hg).trans (List.map_id xs)

namespace Attempt

variable {σ τ α β : Type} {P : σ → Prop}

def Keeps (P : σ → Prop) (a : Attempt σ α) : Prop := ∀ s, P s → P (a.runOn s).2

theorem keeps_pure (a : α) : Keeps P (pure a : Attempt σ α) := fun _ h => h

theorem keeps_throw (e : Error) : Keeps P (throw e : Attempt σ α) := fun _ h => h

theorem keeps_ofExcept (r : Except Error α) : Keeps P (ofExcept r) := fun _ h => h

theorem keeps_get : Keeps P (get : Attempt σ σ) := fun _ h => h

theorem keeps_modify {f : σ → σ} (hf : ∀ s, P s → P (f s)) : Keeps P (modify f : Attempt σ Unit) := hf

theorem Keeps.bind {a : Attempt σ α} {f : α → Attempt σ β} (ha : Keeps P a)
    (hf : ∀ r, Keeps P (f r)) : Keeps P (a >>= f) := by
  intro s hs
  have hstep := ha s hs
  rw [runOn_bind]
  generalize a.runOn s = out at hstep
  obtain ⟨r | e, t⟩ := out
  · exact hstep
  · exact hf _ t hstep

/-- What follows a result only has to keep what that result makes it keep. -/
theorem Keeps.bind_ofExcept {r : Except Error α} {f : α → Attempt σ β}
    (hf : ∀ a, r = .ok a → Keeps P (f a)) : Keeps P (ofExcept r >>= f) := by
  intro s hs
  rw [runOn_bind, runOn_ofExcept]
  cases r with
  | ok a => exact hf a rfl s hs
  | error e => exact hs

theorem Keeps.map {a : Attempt σ α} (ha : Keeps P a) (f : α → β) : Keeps P (f <$> a) := by
  intro s hs
  rw [runOn_map]
  exact ha s hs

theorem Keeps.forEach {xs : List α} {f : α → Attempt σ Unit} (hf : ∀ x ∈ xs, Keeps P (f x)) :
    Keeps P (forEach xs f) := by
  induction xs with
  | nil => exact keeps_pure ()
  | cons x rest ih =>
    exact (hf x (.head _)).bind fun _ => ih fun y hy => hf y (.tail _ hy)

/-- A run that succeeds has succeeded at each link. -/
theorem runOn_bind_ok {a : Attempt σ α} {f : α → Attempt σ β} {s t : σ} {r : β}
    (h : (a >>= f).runOn s = (.ok r, t)) :
    ∃ x s₁, a.runOn s = (.ok x, s₁) ∧ (f x).runOn s₁ = (.ok r, t) := by
  rw [runOn_bind] at h
  split at h
  · next x s₁ hx => exact ⟨x, s₁, hx, h⟩
  · cases h

theorem runOn_ofExcept_bind_ok {a : Except Error α} {f : α → Attempt σ β} {s t : σ} {r : β}
    (h : (ofExcept a >>= f).runOn s = (.ok r, t)) : ∃ x, a = .ok x ∧ (f x).runOn s = (.ok r, t) := by
  obtain ⟨x, _, hx, h⟩ := runOn_bind_ok h
  cases hx
  exact ⟨x, rfl, h⟩

theorem runOn_map_ok {a : Attempt σ α} {f : α → β} {s t : σ} {r : β}
    (h : (f <$> a : Attempt σ β).runOn s = (.ok r, t)) : ∃ x, a.runOn s = (.ok x, t) ∧ r = f x := by
  rw [map_eq_pure_bind] at h
  obtain ⟨x, _, hx, h⟩ := runOn_bind_ok h
  cases h
  exact ⟨x, hx, rfl⟩

theorem runOn_forEach_cons_ok {x : α} {xs : List α} {f : α → Attempt σ Unit} {s t : σ}
    (h : (forEach (x :: xs) f).runOn s = (.ok (), t)) :
    ∃ s₁, (f x).runOn s = (.ok (), s₁) ∧ (forEach xs f).runOn s₁ = (.ok (), t) := by
  obtain ⟨_, s₁, hx, hxs⟩ := runOn_bind_ok h
  exact ⟨s₁, hx, hxs⟩

theorem runOn_collect_cons_ok {x : α} {xs : List α} {f : α → Attempt σ β} {s t : σ} {rs : List β}
    (h : (collect (x :: xs) f).runOn s = (.ok rs, t)) :
    ∃ r more s₁, (f x).runOn s = (.ok r, s₁) ∧ (collect xs f).runOn s₁ = (.ok more, t) ∧ rs = r :: more := by
  obtain ⟨r, s₁, hx, h⟩ := runOn_bind_ok h
  obtain ⟨more, _, hxs, h⟩ := runOn_bind_ok h
  cases h
  exact ⟨r, more, s₁, hx, hxs, rfl⟩

theorem runOn_forEach_cons_error {x : α} {xs : List α} {f : α → Attempt σ Unit} {s t : σ} {e : Error}
    (h : (forEach (x :: xs) f).runOn s = (.error e, t)) :
    (f x).runOn s = (.error e, t) ∨
      ∃ s₁, (f x).runOn s = (.ok (), s₁) ∧ (forEach xs f).runOn s₁ = (.error e, t) := by
  unfold forEach at h
  rw [runOn_bind] at h
  split at h
  · next s₁ hx => exact .inr ⟨s₁, hx, h⟩
  · next hx =>
    cases h
    exact .inl hx

theorem Keeps.collect {xs : List α} {f : α → Attempt σ β} (hf : ∀ x ∈ xs, Keeps P (f x)) :
    Keeps P (collect xs f) := by
  induction xs with
  | nil => exact keeps_pure []
  | cons x rest ih =>
    exact (hf x (.head _)).bind fun _ => (ih fun y hy => hf y (.tail _ hy)).bind fun _ => keeps_pure _

end Attempt

end RecordMapper
