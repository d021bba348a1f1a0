import RecordMapper.Condition.Predicate
import RecordMapper.Proofs.Attempt
import RecordMapper.Proofs.Field.Coerce
import RecordMapper.Proofs.Model.Registry

/-! What compiled conditions are like.

Every leaf of a compiled condition concerns a field of the model: it compares it with a checked
value in its canonical form, written as the field writes its literals, or it asks of an optional
field whether it is NULL (`compiledFor_of_compile`). -/
namespace RecordMapper

/-- What holds of all literals of a predicate. -/
def Predicate.Literals (P : Value → Prop) : Predicate → Prop
  | compare _ _ v => P v
  | combine left _ right => left.Literals P ∧ right.Literals P

theorem Predicate.literals_true (p : Predicate) : p.Literals fun _ => True := by
  induction p with
  | compare field op v => trivial
  | combine left logic right ihl ihr => exact ⟨ihl, ihr⟩

namespace Condition

variable {P : Value → Prop}

/-- A comparison that a model's field can be part of, its value made of a literal. -/
structure ComparesField (P : Value → Prop) (m : Model) (rules : Rules) (name : String) (op : Operator) (v : Value)
    (literal : Literal) (f : Field) : Prop where
  found : m.field? name = some f
  coerced : ∃ u, P u ∧ f.coerce u = .ok v
  notNull : v.isNull = false
  checked : f.check rules v = .ok ()
  ordered : op.isRelational = true → f.kind.isOrdered = true
  literal : literal = f.literal v

/-- A condition on the rows of a model, leaf by leaf. -/
def CompiledFor (P : Value → Prop) (m : Model) (rules : Rules) : Condition → Prop
  | comparison table name op v literal =>
    table = m.name ∧ ∃ f, ComparesField P m rules name op v literal f
  | nullCheck table name _ => table = m.name ∧ ∃ f, m.field? name = some f ∧ f.required = false
  | combination left _ right => left.CompiledFor P m rules ∧ right.CompiledFor P m rules

theorem compiledFor_of_compileNull {m : Model} {f : Field} {op : Operator} {c : Condition} (rules : Rules)
    (hf : m.field? f.name = some f) (h : compileNull m f op = .ok c) : c.CompiledFor P m rules := by
  unfold compileNull at h
  split at h
  · cases h
  · split at h
    · cases h
    · next hrequired =>
      cases h
      exact ⟨rfl, f, hf, by simpa using hrequired⟩

theorem compiledFor_of_compileLeaf {m : Model} {rules : Rules} {name : String} {op : Operator} {v : Value}
    {c : Condition} (hv : P v) (h : compileLeaf m rules name op v = .ok c) : c.CompiledFor P m rules := by
  obtain ⟨f, hf, h⟩ := bind_ok h
  have hf := Model.field?_of_requireField hf
  split at h
  · exact compiledFor_of_compileNull rules hf h
  · next hnull =>
    split at h
    · cases h
    · next hordered =>
      obtain ⟨w, hw, h⟩ := bind_ok h
      obtain ⟨_, hchecked, h⟩ := bind_ok h
      cases h
      have hw := mapError_ok hw
      refine ⟨rfl, f, hf, ⟨v, hv, hw⟩, ?_, mapError_ok hchecked, fun hop => ?_, rfl⟩
      · rw [Field.isNull_coerce hw]
        simpa using hnull
      · simpa [hop] using hordered

theorem compiledFor_of_compile {m : Model} {rules : Rules} {p : Predicate} {c : Condition} (hp : p.Literals P)
    (h : compile m rules p = .ok c) : c.CompiledFor P m rules := by
  induction p generalizing c with
  | compare field op value => exact compiledFor_of_compileLeaf hp h
  | combine left logic right ihl ihr =>
    obtain ⟨l, hl, h⟩ := bind_ok h
    obtain ⟨r, hr, h⟩ := bind_ok h
    cases h
    exact ⟨ihl hp.1 hl, ihr hp.2 hr⟩

end Condition

end RecordMapper
