import RecordMapper.Error
import RecordMapper.Field.Basic
import RecordMapper.Statement.Select

/-! The names that JSON documents use for operators, rules, codes and other choices. -/
namespace RecordMapper.Document

/-- What a name stands for. -/
def named? {α : Type} (names : List (String × α)) (name : String) : Option α := names.lookup name

/-- The name that stands for something, empty if there is none. -/
def nameOf {α : Type} [BEq α] (names : List (String × α)) (a : α) : String :=
  ((names.find? fun e => e.2 == a).map (·.1)).getD ""

def fieldRules : List (String × FieldRule) :=
  [("Required", .required), ("Null", .null), ("Length", .length), ("MinLength", .minLength),
   ("MaxLength", .maxLength), ("Pattern", .pattern), ("Min", .min), ("Max", .max),
   ("Enum", .enum), ("Format", .format), ("Type", .type)]

def modelRules : List (String × ModelRule) :=
  [("UnknownModel", .unknownModel), ("UnknownField", .unknownField),
   ("UnsupportedOperator", .unsupportedOperator), ("UnknownNavigation", .unknownNavigation),
   ("DuplicateInclude", .duplicateInclude), ("InvalidModel", .invalidModel),
   ("InvalidNavigation", .invalidNavigation)]

def sessionRules : List (String × SessionRule) :=
  [("ForeignModel", .foreignModel), ("NoChanges", .noChanges),
   ("DuplicateAssignment", .duplicateAssignment), ("NoAssignments", .noAssignments),
   ("NoTable", .noTable), ("NoColumns", .noColumns), ("ParameterMismatch", .parameterMismatch)]

def databaseCodes : List (String × DatabaseCode) :=
  [("Success", .success), ("DuplicateEntry", .duplicateEntry),
   ("ForeignKeyViolation", .foreignKeyViolation), ("InvalidModel", .invalidModel),
   ("InvalidField", .invalidField), ("Unknown", .unknown)]

def operators : List (String × Operator) :=
  [("=", .eq), ("!=", .ne), ("<", .lt), ("<=", .le), (">", .gt), (">=", .ge)]

def dialects : List (String × Dialect) :=
  [("postgres", .postgres), ("sqlite", .sqlite), ("mysql", .mysql), ("named", .named)]

def deletions : List (String × OnDelete) :=
  [("NoAction", .noAction), ("Restrict", .restrict), ("Cascade", .cascade), ("SetNull", .setNull)]

def directions : List (String × Direction) := [("asc", .ascending), ("desc", .descending)]

end RecordMapper.Document
