import RecordMapper.Calendar.Text
import RecordMapper.Condition.Operator

/-! Errors, by their causes.

Each family of errors is an inductive type of causes with one function that gives
the kind under which callers sort them and one that gives the wording. A `stated`
cause carries a kind and a wording of the caller's own. -/
namespace RecordMapper

/-! ### Fields -/

/-- The rule of a field that a value breaks. -/
inductive FieldRule where
  | required | null | length | minLength | maxLength | pattern | min | max | enum | format | type
  deriving DecidableEq, Inhabited

/-- Why a value does not suit a field. -/
inductive FieldFault where
  | unset
  | isNull
  | lengthNot (length : Nat)
  | shorterThan (min : Nat)
  | longerThan (max : Nat)
  | strayCharacter (c : Char)
  | unmatched (pattern : String)
  | notEmail
  | lessThan (min : Int)
  | greaterThan (max : Int)
  | noVariant (text : String) (typeName : String)
  | beforeDay (day : Int)
  | afterDay (day : Int)
  | unreadable (text : String) (label : String)
  | mismatch (label : String)
  | stated (rule : FieldRule) (message : String)
  deriving DecidableEq, Inhabited

namespace FieldFault

def rule : FieldFault → FieldRule
  | unset => .required
  | isNull => .null
  | lengthNot _ => .length
  | shorterThan _ => .minLength
  | longerThan _ => .maxLength
  | strayCharacter _ => .pattern
  | unmatched _ => .pattern
  | notEmail => .format
  | lessThan _ => .min
  | greaterThan _ => .max
  | noVariant _ _ => .enum
  | beforeDay _ => .min
  | afterDay _ => .max
  | unreadable _ _ => .format
  | mismatch _ => .type
  | stated rule _ => rule

/-- `an` before a vowel, else `a`. -/
def article (label : String) : String :=
  match label.toList with
  | c :: _ => if c ∈ ['a', 'e', 'i', 'o', 'u'] then "an" else "a"
  | [] => "a"

def message : FieldFault → String
  | unset => "Value is required"
  | isNull => "Value cannot be null"
  | lengthNot length => "Value length is not " ++ Text.ofInt length
  | shorterThan min => "Value is shorter than " ++ Text.ofInt min
  | longerThan max => "Value is longer than " ++ Text.ofInt max
  | strayCharacter c => "Value contains invalid character '" ++ String.singleton c ++ "'"
  | unmatched pattern => "Value does not match pattern " ++ pattern
  | notEmail => "Value is not a valid email address"
  | lessThan min => "Value is less than " ++ Text.ofInt min
  | greaterThan max => "Value is greater than " ++ Text.ofInt max
  | noVariant text typeName => "Value '" ++ text ++ "' is not a valid " ++ typeName
  | beforeDay day => "Value is before " ++ String.ofList (Calendar.dateText day)
  | afterDay day => "Value is after " ++ String.ofList (Calendar.dateText day)
  | unreadable text label => "Value '" ++ text ++ "' is not a valid " ++ label
  | mismatch label => "Value is not " ++ article label ++ " " ++ label
  | stated _ message => message

end FieldFault

/-- A fault and the field it concerns. -/
structure FieldError where
  field : String
  fault : FieldFault
  deriving DecidableEq, Inhabited

def FieldError.text (e : FieldError) : String :=
  "Invalid value for field " ++ e.field ++ ": " ++ e.fault.message

/-- One text for the faults of all fields. -/
def validationText : List FieldError → String
  | [] => "validation passed"
  | [e] => e.text
  | errors => "Model validation failed: " ++ String.intercalate ", " (errors.map FieldError.text)

/-! ### Models and predicates -/

inductive ModelRule where
  | unknownModel | unknownField | unsupportedOperator | unknownNavigation | duplicateInclude
  | invalidModel | invalidNavigation
  deriving DecidableEq, Inhabited

/-- Why a declaration, a predicate or an include cannot be resolved. -/
inductive ModelFault where
  | notRegistered
  | unknownField (name : String)
  | unsupportedOperator (op : Operator) (field : String)
  | nullOperator (op : Operator) (field : String)
  | unknownNavigation (name : String)
  | includedTwice (navigation : String)
  | registeredTwice
  | duplicateField (name : String)
  | invalidPattern (field : String) (reason : String)
  | noPrimaryKey
  | unknownTarget (navigation : String) (target : String)
  | compositeOwner (navigation : String)
  | compositeTarget (navigation : String)
  | notUnique (navigation : String)
  | stated (rule : ModelRule) (message : String)
  deriving DecidableEq, Inhabited

namespace ModelFault

def rule : ModelFault → ModelRule
  | notRegistered => .unknownModel
  | unknownField _ => .unknownField
  | unsupportedOperator _ _ => .unsupportedOperator
  | nullOperator _ _ => .unsupportedOperator
  | unknownNavigation _ => .unknownNavigation
  | includedTwice _ => .duplicateInclude
  | registeredTwice => .invalidModel
  | duplicateField _ => .invalidModel
  | invalidPattern _ _ => .invalidModel
  | noPrimaryKey => .invalidModel
  | unknownTarget _ _ => .unknownModel
  | compositeOwner _ => .invalidNavigation
  | compositeTarget _ => .invalidNavigation
  | notUnique _ => .invalidNavigation
  | stated rule _ => rule

/-- The wording of a fault of the named model. -/
def message (model : String) : ModelFault → String
  | notRegistered => "Model " ++ model ++ " is not registered"
  | unknownField name => "Unknown field " ++ name
  | unsupportedOperator op field => "Operator " ++ op.sql ++ " is not supported by field " ++ field
  | nullOperator op field => "Operator " ++ op.sql ++ " cannot compare field " ++ field ++ " with null"
  | unknownNavigation name => "Unknown navigation " ++ name
  | includedTwice navigation => "Navigation " ++ navigation ++ " is included twice"
  | registeredTwice => "Model is registered twice"
  | duplicateField name => "Duplicate field " ++ name
  | invalidPattern field reason => "Invalid pattern for field " ++ field ++ ": " ++ reason
  | noPrimaryKey => "Model has no primary key"
  | unknownTarget navigation target =>
    "Navigation " ++ navigation ++ " targets unknown model " ++ target
  | compositeOwner navigation => "Navigation " ++ navigation ++ ": owner has a composite primary key"
  | compositeTarget navigation =>
    "Navigation " ++ navigation ++ ": target has a composite primary key"
  | notUnique navigation => "Navigation " ++ navigation ++ ": referenced field is not unique"
  | stated _ message => message

end ModelFault

/-! ### Statements and sessions -/

inductive SessionRule where
  | foreignModel | noChanges | duplicateAssignment | noAssignments | noTable | noColumns
  | parameterMismatch
  deriving DecidableEq, Inhabited

/-- Why a statement cannot be built or an operation is not allowed. -/
inductive SessionFault where
  | foreignModel
  | noChanges
  | assignedTwice (field : String)
  | noAssignments
  | noTable
  | noColumns
  | tooFewValues
  | tooManyValues
  | parameterCount (expected : Nat) (given : Nat)
  | stated (rule : SessionRule) (message : String)
  deriving DecidableEq, Inhabited

namespace SessionFault

def rule : SessionFault → SessionRule
  | foreignModel => .foreignModel
  | noChanges => .noChanges
  | assignedTwice _ => .duplicateAssignment
  | noAssignments => .noAssignments
  | noTable => .noTable
  | noColumns => .noColumns
  | tooFewValues => .parameterMismatch
  | tooManyValues => .parameterMismatch
  | parameterCount _ _ => .parameterMismatch
  | stated rule _ => rule

def message : SessionFault → String
  | foreignModel => "Model not managed by this session."
  | noChanges => "No changes to save."
  | assignedTwice field => "Field " ++ field ++ " is set twice."
  | noAssignments => "No fields have been set for update."
  | noTable => "No table has been specified for the query."
  | noColumns => "No fields have been set for insertion."
  | tooFewValues => "Not enough values to execute query."
  | tooManyValues => "Too many values to execute query."
  | parameterCount expected given =>
    "Statement expects " ++ Text.ofInt expected ++ " parameters but " ++ Text.ofInt given ++
      " were given"
  | stated _ message => message

end SessionFault

/-! ### Databases -/

/-- What a state reported by a database means. -/
inductive DatabaseCode where
  | success | duplicateEntry | foreignKeyViolation | invalidModel | invalidField | unknown
  deriving DecidableEq, Inhabited

def DatabaseCode.text : DatabaseCode → String
  | success => "success"
  | duplicateEntry => "duplicate entry"
  | foreignKeyViolation => "foreign key violation"
  | invalidModel => "invalid model"
  | invalidField => "invalid field"
  | unknown => "unknown"

/-- A failure reported by a database: its state as sent, and what that means. -/
structure DatabaseError where
  code : DatabaseCode
  state : Option String
  message : String
  sql : Option String
  deriving DecidableEq, Inhabited

/-! ### All errors -/

inductive Error where
  | validation (errors : List FieldError)
  | compilation (model : String) (fault : ModelFault)
  | notFound (model : String) (sql : Option String)
  | multipleRows (model : String) (count : Nat)
  | database (failure : DatabaseError)
  | consistency (fault : SessionFault)
  | type (expected : String) (actual : String) (column : Option String)
  | serialization (message : String)
  deriving DecidableEq, Inhabited

namespace Error

def message : Error → String
  | validation errors => validationText errors
  | compilation model fault => "Compilation error in model " ++ model ++ ": " ++ fault.message model
  | notFound model _ => "Model " ++ model ++ " not found"
  | multipleRows model count =>
    "Expected a single " ++ model ++ " but the query returned " ++ Text.ofInt count ++ " rows"
  | database failure =>
    let state := match failure.state with
      | some state => ", code " ++ state
      | none => ""
    "Database error (" ++ failure.code.text ++ state ++ "): " ++ failure.message
  | consistency fault => fault.message
  | type expected actual column =>
    let place := match column with
      | some column => " in column '" ++ column ++ "'"
      | none => ""
    "Type error" ++ place ++ ": expected " ++ expected ++ ", found " ++ actual
  | serialization message => "Serialization error: " ++ message

def isValidation : Error → Bool
  | validation _ => true
  | _ => false

def isCompilation : Error → Bool
  | compilation _ _ => true
  | _ => false

def isNotFound : Error → Bool
  | notFound _ _ => true
  | _ => false

def isConsistency : Error → Bool
  | consistency _ => true
  | _ => false

/-- What a database reported, if this is its error. -/
def databaseCode? : Error → Option DatabaseCode
  | database failure => some failure.code
  | _ => none

/-- The statement that failed, if it is known. -/
def sql? : Error → Option String
  | database failure => failure.sql
  | notFound _ sql => sql
  | _ => none

/-- The error of a single field. -/
def ofField (e : FieldError) : Error := validation [e]

end Error

end RecordMapper
