import RecordMapper.Field.Check
import RecordMapper.Model.Declaration

/-! The registry: all models, checked and wired together once. -/
namespace RecordMapper

/-- The models in the order of their declaration, and what the rules of their fields rest
on. -/
structure Registry where
  models : List Model
  rules : Rules
  deriving Inhabited

namespace Registry

/-- Checks every declaration by itself and then resolves all navigations, both in the
order of declaration; the first fault is reported. -/
def build (rules : Rules) (decls : List ModelDecl) : Except Error Registry := do
  let bare ← bareModels rules.engine [] decls
  let models ← decls.mapM (ModelDecl.resolve bare)
  return {models, rules}

def model? (r : Registry) (name : String) : Option Model := r.models.find? (·.name = name)

/-- Looks a model up. -/
def model (r : Registry) (name : String) : Except Error Model :=
  match r.model? name with
  | some m => .ok m
  | none => .error (.compilation name .notRegistered)

/-- The single-valued navigations to a model, each with the model that owns it. -/
def dependents (r : Registry) (target : String) : List (Model × Navigation) :=
  r.models.flatMap fun m =>
    (m.navigations.filter fun n => n.kind = .single ∧ n.target = target).map fun n => (m, n)

end Registry

end RecordMapper
