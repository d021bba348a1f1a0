import RecordMapper.Model.Basic
import RecordMapper.Pattern.Engine

/-! Declarations of models, and what is asked of them.

Field names of a model are distinct, every pattern can be read, and there is a primary
key; a key of one field is unique without being declared so. A navigation may leave out
the field on the side of a sole primary key. What it refers to on its one side, the
target of a single navigation or the owner of a collection, must be unique. -/
namespace RecordMapper

structure NavigationDecl where
  name : String
  kind : NavigationKind
  field : Option String
  target : String
  targetField : Option String
  onDelete : OnDelete := .noAction
  deriving DecidableEq, Inhabited

namespace NavigationDecl

/-- The owner's `field` refers to `targetField` of the target. -/
def single (name field target targetField : String) : NavigationDecl :=
  {name, kind := .single, field := some field, target, targetField := some targetField}

/-- The owner's `field` refers to the primary key of the target. -/
def toPrimary (name field target : String) : NavigationDecl :=
  {name, kind := .single, field := some field, target, targetField := none}

/-- The rows of the target whose `targetField` equals the owner's `field`. -/
def collection (name field target targetField : String) : NavigationDecl :=
  {name, kind := .collection, field := some field, target, targetField := some targetField}

/-- The rows of the target whose `targetField` equals the owner's primary key. -/
def fromPrimary (name target targetField : String) : NavigationDecl :=
  {name, kind := .collection, field := none, target, targetField := some targetField}

end NavigationDecl

structure ModelDecl where
  name : String
  fields : List Field
  navigations : List NavigationDecl := []
  deriving DecidableEq, Inhabited

/-! ### A model by itself -/

/-- Why a field's pattern cannot be read, if it has one that cannot. -/
def Field.patternFault? (f : Field) (engine : PatternEngine) : Option String :=
  match f.kind with
  | .text _ _ (some pattern) =>
    match engine.read pattern with
    | .ok _ => none
    | .error reason => some reason
  | _ => none

/-- The first fault among fields, after fields with the names in `earlier`. -/
def fieldsFault? (engine : PatternEngine) (earlier : List String) : List Field → Option ModelFault
  | [] => none
  | f :: rest =>
    if f.name ∈ earlier then some (.duplicateField f.name)
    else match f.patternFault? engine with
      | some reason => some (.invalidPattern f.name reason)
      | none => fieldsFault? engine (f.name :: earlier) rest

/-- A sole key field made unique. -/
def markSoleKey (fields : List Field) : List Field :=
  if (fields.filter (·.primaryKey)).length = 1 then
    fields.map fun f => if f.primaryKey then {f with unique := true} else f
  else fields

/-- The first fault of a declaration by itself, after models with the names in `earlier`. -/
def ModelDecl.fault? (d : ModelDecl) (engine : PatternEngine) (earlier : List String) : Option ModelFault :=
  if d.name ∈ earlier then some .registeredTwice
  else match fieldsFault? engine [] d.fields with
    | some fault => some fault
    | none => if d.fields.any (·.primaryKey) then none else some .noPrimaryKey

/-- The declared model, its navigations not yet resolved. -/
def ModelDecl.bare (d : ModelDecl) : Model := {name := d.name, fields := markSoleKey d.fields}

/-- The declared models by themselves, after models with the names in `earlier`. -/
def bareModels (engine : PatternEngine) (earlier : List String) : List ModelDecl → Except Error (List Model)
  | [] => .ok []
  | d :: rest =>
    match d.fault? engine earlier with
    | some fault => .error (.compilation d.name fault)
    | none => (bareModels engine (d.name :: earlier) rest).map (d.bare :: ·)

/-! ### Navigations -/

/-- The named field, or the sole key field when no name is given. -/
def Model.fieldOrKey (m : Model) (name : Option String) (composite : Error) : Except Error Field :=
  match name with
  | some name => m.requireField name
  | none =>
    match m.soleKey? with
    | some key => .ok key
    | none => .error composite

/-- Resolves a navigation of `owner` among the declared models. -/
def NavigationDecl.resolve (models : List Model) (owner : Model) (d : NavigationDecl) :
    Except Error Navigation :=
  match models.find? (·.name = d.target) with
  | none => .error (.compilation owner.name (.unknownTarget d.name d.target))
  | some target => do
    let field ← owner.fieldOrKey d.field (.compilation owner.name (.compositeOwner d.name))
    let targetField ←
      target.fieldOrKey d.targetField (.compilation owner.name (.compositeTarget d.name))
    let oneSide := match d.kind with
      | .single => targetField
      | .collection => field
    if oneSide.unique then
      return { name := d.name, kind := d.kind, field := field.name, target := target.name
               targetField := targetField.name, onDelete := d.onDelete }
    else throw (.compilation owner.name (.notUnique d.name))

/-- Resolves the navigations of a model. -/
def ModelDecl.resolve (models : List Model) (d : ModelDecl) : Except Error Model := do
  let owner := d.bare
  let navigations ← d.navigations.mapM (NavigationDecl.resolve models owner)
  return {owner with navigations}

end RecordMapper
