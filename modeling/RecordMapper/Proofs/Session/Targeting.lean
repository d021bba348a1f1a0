import RecordMapper.Proofs.Session.Saving
import RecordMapper.Proofs.Session.Table

/-! What the condition for a key picks out.

A key of any number of fields is turned into one condition. Among the instances of a model that condition holds of
those with the key as their current one, and among the rows of a table it selects the row under the key, if there is
one, and no other (`tellsKey_compileKey`). An UPDATE that is planned for an instance has the condition for the key
that the row is stored under, so it goes to that row (`targets_planned`). -/
namespace RecordMapper

namespace Instance

/-- The current values. -/
def values (i : Instance) : Record := i.cells.map fun c => (c.field, c.current)

theorem key_values (i : Instance) : i.values.key = i.primaryKey := by
  unfold Record.key Record.keyPart values primaryKey
  rw [List.filter_map, List.map_map]
  rfl

theorem value?_values (i : Instance) (name : String) : i.values.value? name = i.get? name := by
  unfold Record.value? values get? cell?
  rw [List.find?_map, Option.map_map]
  rfl

theorem Canonical.suits_values {i : Instance} (hi : i.Canonical) : i.model.Suits i.values where
  fields := by
    rw [values, List.map_map]
    exact hi.fields
  canonical e he := by
    obtain ⟨c, hc, rfl⟩ := List.mem_map.1 he
    exact hi.current c hc

end Instance

/-! ### Conditions for keys -/

theorem Table.filter_key {m : Model} (t : Table m) (key : List Value) :
    t.rows.filter (·.key = key) = (t.row? key).toList := by
  have hdistinct := t.distinct
  unfold Table.row?
  generalize t.rows = rows at hdistinct
  induction rows with
  | nil => rfl
  | cons row rest ih =>
    obtain ⟨hne, hdistinct⟩ := List.nodup_cons.1 hdistinct
    by_cases hrow : row.key = key
    · -- No other row has the key.
      have hrest : rest.filter (·.key = key) = [] := List.filter_eq_nil_iff.2 fun other hother hkey =>
        hne (List.mem_map.2 ⟨other, hother, (of_decide_eq_true hkey).trans hrow.symm⟩)
      rw [List.filter_cons_of_pos (by simpa using hrow), List.find?_cons_of_pos (by simpa using hrow), hrest]
      rfl
    · rw [List.filter_cons_of_neg (by simpa using hrow), List.find?_cons_of_neg (by simpa using hrow), ih hdistinct]

namespace Condition

variable {m : Model} {rules : Rules}

/-- A condition holds of what has a key, and of nothing else: in memory by the current values, in a table by the
rows. -/
structure TellsKey (c : Condition) (m : Model) (key : List Value) : Prop where
  instances : ∀ i : Instance, i.model = m → i.Canonical → (c.evaluate i = true ↔ i.primaryKey = key)
  rows : ∀ t : Table m, t.rows.filter (fun row => c.holdsOf row.value?) = (t.row? key).toList

theorem tellsKey_compileKey (hn : (m.fields.map (·.name)).Nodup) {key : List Value} (hkey : m.FitsKey key)
    {c : Condition} (h : compileKey m rules key = .ok c) : c.TellsKey m key where
  instances := by
    rintro i rfl hi
    rw [c.evaluate_eq_holdsOf, ← funext i.value?_values, ← i.key_values]
    exact holdsOf_compileKey hn hkey h hi.suits_values
  rows t := by
    rw [← t.filter_key]
    refine List.filter_congr fun row hrow => Bool.eq_iff_iff.2 ?_
    rw [decide_eq_true_iff]
    exact holdsOf_compileKey hn hkey h (t.suits row hrow)

end Condition

/-! ### Planned updates -/

/-- An UPDATE writes the pending changes of an instance to the row with the key that the instance is stored under,
and to no other. -/
structure PlannedUpdate.Targets (u : PlannedUpdate) (i : Instance) (rules : Rules) (d : Dialect) : Prop where
  key : u.persistedKey = i.persistedKey
  query : ∃ q c, i.SavedBy rules d q u.statement ∧ q.filter = some c ∧ c.TellsKey i.model u.persistedKey

theorem PlannedUpdate.Targets.of_update {u : PlannedUpdate} {i : Instance} {rules : Rules} {d : Dialect}
    (hi : i.Coherent) (hcanonical : i.Canonical) (hn : (i.model.fields.map (·.name)).Nodup)
    (hkey : u.persistedKey = i.persistedKey) (hstatement : i.updateStatement rules d = .ok u.statement) :
    u.Targets i rules d where
  key := hkey
  query := by
    obtain ⟨q, hq⟩ := i.saves_updateStatement hi hcanonical hn hstatement
    obtain ⟨c, hfilter, hc, -⟩ := hq.filter
    exact ⟨q, c, hq, hfilter, hkey ▸ Condition.tellsKey_compileKey hn hcanonical.persistedKey hc⟩

namespace Session

variable {β : Type}

/-- The condition for a key of a registered model tells by that key, and what is planned in any state that a session
reaches goes to the rows that the planned instances are stored under. All instances have values in the form of their
fields, so the conditions can tell them apart: those in such a state, and those that calls have made. -/
theorem targets_planned (s : Session β) {rules : Rules} {decls : List ModelDecl}
    (hr : Registry.build rules decls = .ok s.registry) :
    (∀ {name m}, s.registry.model name = .ok m → ∀ {key c}, m.FitsKey key →
      Condition.compileKey m s.registry.rules key = .ok c → c.TellsKey m key) ∧
    (∀ m calls, ((Instance.new m).performAll calls).Canonical) ∧
    ∀ (database : β) (steps : List SessionStep), let t := steps.foldl s.step {database}
      (∀ {h i}, t.heap.get? h = some i → i.Canonical) ∧
      ∀ {candidates plan},
        FlushPlan.make s.owner s.registry.rules s.dialect t.heap candidates = .ok plan →
          plan.map (·.handle) = candidates ∧
          ∀ u ∈ plan, ∃ i, t.heap.get? u.handle = some i ∧ u.Targets i s.registry.rules s.dialect := by
  refine ⟨fun hm _ _ hkey hc => ?_, Instance.canonical_performAll, fun database steps => ?_⟩
  · exact Condition.tellsKey_compileKey (Registry.nodup_fields hr (Registry.model?_of_model hm).2) hkey hc
  · intro t
    have ht : s.Ready t := ready_reached hr database steps
    refine ⟨fun hi => ht.canonical hi, fun hplan => ?_⟩
    obtain ⟨hhandles, hkeys⟩ := FlushPlan.make_ok (m := t.memory) hplan
    refine ⟨hhandles, fun u hu => ?_⟩
    obtain ⟨i, hi, hstatement⟩ := FlushPlan.statement_of_make (m := t.memory) hplan hu
    have hkey : u.persistedKey = i.persistedKey := by
      rw [hkeys u hu, Memory.persistedKey, hi]
      rfl
    have hnames := Registry.nodup_fields hr (List.mem_of_find?_eq_some (ht.models.models hi))
    exact ⟨i, hi, .of_update (ht.models.coherent hi) (ht.canonical hi) hnames hkey hstatement⟩

/-! ### A booking without a day -/

def bookingDecl : ModelDecl where
  name := "Booking"
  fields :=
    [ {Field.shortId "Room" with primaryKey := true}, {Field.date "Day" with primaryKey := true, required := false},
      Field.title "Guest" ]

def bookingSession : Session Script where
  registry := ⟨[{name := "Booking", fields := bookingDecl.fields}], Pattern.rules 0⟩
  backend := Script.backend .sqlite .sqlite
  owner := ⟨0⟩

/-- Two bookings are made for one room, one of them for no day yet; then that one is given a day. -/
def bookings : List SessionStep :=
  [ .call (.insert "Booking" [.set "Room" (.text "BLUE1"), .set "Day" .null, .set "Guest" (.text "Ada")] none),
    .call (.insert "Booking" [.set "Room" (.text "BLUE1"), .set "Day" (.date 7), .set "Guest" (.text "Bob")] none),
    .change ⟨0⟩ (.set "Day" (.date 8)) ]

/-- The day is set in the row that has none, not in that of the other booking for the room. -/
theorem targets_bookings :
    let t := bookings.foldl bookingSession.step {database := {}}
    ∃ u i, FlushPlan.make ⟨0⟩ (Pattern.rules 0) .sqlite t.heap [⟨0⟩] = .ok [u] ∧ t.heap.get? ⟨0⟩ = some i ∧
      u.Targets i (Pattern.rules 0) .sqlite ∧
      i.primaryKey = [.text "BLUE1", .date 8] ∧ u.persistedKey = [.text "BLUE1", .null] ∧
      u.statement =
        ⟨"UPDATE \"Booking\" SET \"Day\" = ?1 WHERE \"Booking\".\"Room\" = 'BLUE1' AND \"Booking\".\"Day\" IS NULL",
          [.date 8]⟩ := by
  intro t
  have hbuild : Registry.build (Pattern.rules 0) [bookingDecl] = .ok bookingSession.registry := rfl
  have hplan : FlushPlan.make ⟨0⟩ (Pattern.rules 0) .sqlite t.heap [⟨0⟩] = .ok
      [ ⟨⟨0⟩, [.text "BLUE1", .null],
          "UPDATE \"Booking\" SET \"Day\" = ?1 WHERE \"Booking\".\"Room\" = 'BLUE1' AND \"Booking\".\"Day\" IS NULL",
          [.date 8]⟩ ] := by decide +kernel
  obtain ⟨i, hi, htargets⟩ := ((targets_planned bookingSession hbuild).2.2 {} bookings).2 hplan |>.2 _ (.head _)
  have hkey : (t.heap.get? ⟨0⟩).map (·.primaryKey) = some [.text "BLUE1", .date 8] := by decide +kernel
  refine ⟨_, i, hplan, hi, htargets, ?_, rfl, rfl⟩
  rw [show t.heap.get? ⟨0⟩ = some i from hi] at hkey
  exact Option.some.inj hkey

end Session

end RecordMapper
