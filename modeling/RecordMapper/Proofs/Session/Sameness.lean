import RecordMapper.Proofs.Field.Order
import RecordMapper.Proofs.Session.Probing

/-! Which values are the same.

Values are brought into the form of their field, checked, compared by order and compared for equality, each by a match
over kinds and values of its own. On the forms of one field these agree: a form is its own form, its type is never at
fault, any two but NULL stand in a total order, and equal are exactly the same ones. So an equality leaf, the index
and a removed row that is referred to all recognize an instance by the same values (`Field.agrees_on_kept`). -/
namespace RecordMapper

/-- Asked for the instances that have `v` in a field, the equality leaf, the index once it leads there, and the removal
of a row with `v` in the field that is referred to give this one exactly if it has the same value. -/
structure Memory.Recognizes (m : Memory) (h : Handle) (field : String) (v : Value) (same : Prop) : Prop where
  leaf : ∀ table literal, m.heap.holds (Condition.comparison table field .eq v literal).evaluate h = true ↔ same
  index : ∀ model key, KeyedList.get? (field, v.plainText) (m.cache.shelf model).index = some key →
    m.cache.filed? model key = some h → (m.cache.findUnique? m.heap model field v = some h ↔ same)
  reference : ∀ (owner : Model) (n : Navigation) (k : Handle), n.field = field →
    (m.heap.get? k).bind (·.get? n.targetField) = some v → h ∈ m.cache.entries owner.name →
    (h ∈ m.referrers owner n k ↔ same)

namespace Field

variable {f : Field} {a b : Value}

theorem Keeps.comparisonHolds_eq (ha : f.Keeps a) (hb : f.Keeps b) :
    Condition.comparisonHolds .eq a b = true ↔ a = b := by
  rw [← f.totallyOrdered_keeps.eq_iff a b ha hb]
  unfold Condition.comparisonHolds
  cases a.compare? b with
  | none => exact ⟨nofun, nofun⟩
  | some o => cases o <;> decide

theorem Keeps.recognizes (ha : f.Keeps a) (hb : f.Keeps b) {m : Memory} {h : Handle} {i : Instance} {name : String}
    (hi : m.heap.get? h = some i) (hcurrent : i.get? name = some a) : m.Recognizes h name b (a = b) := by
  have hvalue : m.heap.holds (Cache.hasValue name b) h = true ↔ a = b := by
    rw [Heap.holds_of_get? hi, Cache.hasValue, hcurrent]
    exact hb.equal_iff
  constructor
  · intro table literal
    rw [Heap.holds_of_get? hi, Condition.evaluate, hcurrent]
    exact ha.comparisonHolds_eq hb
  · intro model key hkey hfiled
    rw [Cache.findUnique?, hkey, Option.bind_eq_bind, Option.bind_some, hfiled, Option.bind_eq_bind, Option.bind_some,
      ← hvalue]
    by_cases hholds : m.heap.holds (Cache.hasValue name b) h = true
    · rw [if_pos hholds]
      exact iff_of_true rfl hholds
    · rw [if_neg hholds]
      exact iff_of_false (Option.some_ne_none h).symm hholds
  · rintro owner n k rfl hv hentry
    rw [Memory.referrers, hv]
    dsimp only
    rw [hb.2, if_neg (by decide), Memory.cachedWith, List.mem_filter, hvalue]
    exact ⟨And.right, And.intro hentry⟩

/-- A form is its own form, and the check finds no fault with its type. The forms other than NULL stand in a total
order, of which the equal ones are equal as values and the same; and whoever looks for an instance by one of
them recognizes those that have the same value. -/
theorem agrees_on_kept (f : Field) :
    (∀ v w, f.coerce v = .ok w → f.coerce w = .ok w ∧
      ∀ rules e, f.check rules w = .error e → e.fault.rule ≠ .type) ∧
    Value.TotallyOrdered f.Keeps ∧
    ∀ a b, f.Keeps a → f.Keeps b → (a.compare? b = some .eq ↔ a.equal b = true) ∧ (a.equal b = true ↔ a = b) ∧
      ∀ (m : Memory) h i name, m.heap.get? h = some i → i.get? name = some a → m.Recognizes h name b (a = b) := by
  refine ⟨fun v w h => ⟨coerce_coerce h, fun rules e => rule_of_check h⟩, f.totallyOrdered_keeps,
    fun a b ha hb => ⟨?_, hb.equal_iff, fun m h i name => ha.recognizes hb⟩⟩
  rw [hb.equal_iff]
  exact f.totallyOrdered_keeps.eq_iff a b ha hb

/-- From a reading to those of the same moment. -/
def simultaneous : Navigation where
  name := "simultaneous"
  kind := .collection
  field := "At"
  target := "Reading"
  targetField := "At"
  onDelete := .cascade

/-- Two readings lie within one second, and the text of it leads to the later one. It is not recognized by the moment of
the earlier one, by which it was asked for, but by its own. -/
theorem agrees_on_readings :
    (timestamp "At").coerce (.date 1) = .ok (.timestamp 86400000000) ∧
    (timestamp "At").coerce (.timestamp 86400000000) = .ok (.timestamp 86400000000) ∧
    (timestamp "At").Keeps (.timestamp 2) ∧ (timestamp "At").Keeps (.timestamp 1) ∧
    (Value.timestamp 2).equal (.timestamp 1) = false ∧
    (∃ key, KeyedList.get? ("At", (Value.timestamp 1).plainText) (Memory.cachedReadings.cache.shelf "Reading").index =
      some key ∧ Memory.cachedReadings.cache.filed? "Reading" key = some ⟨1⟩) ∧
    Memory.cachedReadings.cache.findUnique? Memory.cachedReadings.heap "Reading" "At" (.timestamp 1) ≠ some ⟨1⟩ ∧
    ¬ Memory.cachedReadings.heap.holds (Memory.hasMoment 1).evaluate ⟨1⟩ = true ∧
    Memory.cachedReadings.heap.holds (Memory.hasMoment 2).evaluate ⟨1⟩ = true ∧
    ⟨1⟩ ∉ Memory.cachedReadings.referrers Memory.readings simultaneous ⟨0⟩ := by
  obtain ⟨hform, -, hsame⟩ := agrees_on_kept (timestamp "At")
  have hkeeps : ∀ micros, (timestamp "At").Keeps (.timestamp micros) := fun micros => ⟨⟨.timestamp micros, rfl⟩, rfl⟩
  have hne : ¬ Value.timestamp 2 = .timestamp 1 := by decide
  obtain ⟨i, hi⟩ : ∃ i, Memory.cachedReadings.heap.get? ⟨1⟩ = some i := Option.isSome_iff_exists.1 (by decide +kernel)
  have hcurrent : (Memory.cachedReadings.heap.get? ⟨1⟩).bind (·.get? "At") = some (.timestamp 2) := by decide +kernel
  rw [hi, Option.bind_some] at hcurrent
  obtain ⟨key, hkey, hfiled⟩ : ∃ key, KeyedList.get? ("At", (Value.timestamp 1).plainText)
      (Memory.cachedReadings.cache.shelf "Reading").index = some key ∧
      Memory.cachedReadings.cache.filed? "Reading" key = some ⟨1⟩ := Option.bind_eq_some_iff.1 (by decide +kernel)
  obtain ⟨-, hequal, hother⟩ := hsame _ _ (hkeeps 2) (hkeeps 1)
  obtain ⟨-, -, hown⟩ := hsame _ _ (hkeeps 2) (hkeeps 2)
  have hother := hother Memory.cachedReadings ⟨1⟩ i "At" hi hcurrent
  refine ⟨rfl, (hform (.date 1) _ rfl).1, hkeeps 2, hkeeps 1, Bool.eq_false_iff.2 (mt hequal.1 hne),
    ⟨key, hkey, hfiled⟩, mt (hother.index "Reading" key hkey hfiled).1 hne, mt (hother.leaf _ _).1 hne,
    ((hown Memory.cachedReadings ⟨1⟩ i "At" hi hcurrent).leaf _ _).2 rfl,
    mt (hother.reference Memory.readings simultaneous ⟨0⟩ rfl ?_ ?_).1 hne⟩
  · decide +kernel
  · decide +kernel

end Field

end RecordMapper
