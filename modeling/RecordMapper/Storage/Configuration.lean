import RecordMapper.Classifier

/-! How a database file is opened. -/
namespace RecordMapper.Storage

structure OpenFlags where
  readOnly : Bool := false
  readWrite : Bool := false
  create : Bool := false
  deriving DecidableEq, Inhabited

namespace OpenFlags

/-- Reads a database that exists. -/
def reading : OpenFlags := {readOnly := true}

/-- Reads and writes a database that exists. -/
def writing : OpenFlags := {readWrite := true}

/-- Reads and writes a database, and creates it if it is missing. -/
def creating : OpenFlags := {readWrite := true, create := true}

end OpenFlags

def memoryPath : String := ":memory:"

structure Configuration where
  /-- The path of the file, or `:memory:` for a database without one. -/
  path : String := memoryPath
  flags : OpenFlags := .creating
  /-- How long to wait for a busy database, in milliseconds. -/
  busyTimeout : UInt32 := 5000
  /-- Whether to ask for the enforcement of foreign keys. -/
  foreignKeys : Bool := true
  deriving DecidableEq, Inhabited

/-- Text given to a database must not contain a NUL character. -/
def hasNul (s : String) : Bool := s.toList.contains '\x00'

/-- The path of the opened database. Whether the file at a path can be opened is for the
file system to say. -/
def Configuration.open? (c : Configuration) (canOpen : String → Bool) : Except Error String :=
  if hasNul c.path then .error (Classifier.sqlite.error none "Invalid path: contains null byte" none)
  else if c.path = memoryPath ∨ canOpen c.path then .ok c.path
  else
    .error (Classifier.sqlite.error (some "14")
      "Failed to open database: unable to open database file" none)

end RecordMapper.Storage
