import RecordMapper.Error
import RecordMapper.Value.Basic

/-! Fields of a model.

The kind of a field decides its column type, which values it takes and which rule they
are checked against. The constructors below give the usual fields with their usual
bounds; whether literals of a field may be written into SQL text is part of the field. -/
namespace RecordMapper

/-- What happens to the rows that refer to a deleted row. -/
inductive OnDelete where
  | noAction | restrict | cascade | setNull
  deriving DecidableEq, Inhabited

def OnDelete.sql : OnDelete → String
  | noAction => "NO ACTION"
  | restrict => "RESTRICT"
  | cascade => "CASCADE"
  | setNull => "SET NULL"

inductive FieldKind where
  /-- Identifiers of a fixed length over a pool of characters. -/
  | id (length : Nat) (pool : String)
  | text (min max : Nat) (pattern : Option String)
  | email (min max : Nat)
  | integer (min max : Int)
  | boolean
  /-- One of the named variants. -/
  | enum (typeName : String) (variants : List String)
  | date
  | timestamp
  deriving DecidableEq, Inhabited

namespace FieldKind

/-- Whether values of the kind can be compared by order, not only for equality. -/
def isOrdered : FieldKind → Bool
  | integer _ _ => true
  | date => true
  | timestamp => true
  | _ => false

/-- The word for the kind in messages. -/
def label : FieldKind → String
  | id _ _ => "text"
  | text _ _ _ => "text"
  | email _ _ => "text"
  | integer _ _ => "integer"
  | boolean => "boolean"
  | enum _ _ => "enum"
  | date => "date"
  | timestamp => "timestamp"

def isEnum : FieldKind → Bool
  | enum _ _ => true
  | _ => false

/-- The column type. -/
def sqlType : FieldKind → String
  | id length _ => "VARCHAR(" ++ Text.ofInt length ++ ")"
  | text _ max _ => "VARCHAR(" ++ Text.ofInt max ++ ")"
  | email _ max => "VARCHAR(" ++ Text.ofInt max ++ ")"
  | integer min max =>
    if -32768 ≤ min ∧ max ≤ 32767 then "SMALLINT"
    else if -2147483648 ≤ min ∧ max ≤ 2147483647 then "INT"
    else "BIGINT"
  | boolean => "BOOLEAN"
  | enum _ variants =>
    "ENUM (" ++ String.intercalate "," (variants.map fun v => "'" ++ v ++ "'") ++ ")"
  | date => "DATE"
  | timestamp => "TIMESTAMP(0)"

end FieldKind

structure Field where
  name : String
  kind : FieldKind
  required : Bool := true
  primaryKey : Bool := false
  unique : Bool := false
  /-- The weight in full-text search, for fields that take part in it. -/
  searchWeight : Option Char := none
  /-- Whether literals may be written into SQL text. -/
  embeddable : Bool
  deriving DecidableEq, Inhabited

namespace Field

def isEnum (f : Field) : Bool := f.kind.isEnum

/-! ### The usual fields -/

def idPool : String := "ABCDEFGHIJKLMNOPQRSTUVWXYZ0123456789"

def idOf (name : String) (length : Nat) (pool : String) : Field :=
  {name, kind := .id length pool, embeddable := true}

def id (name : String) : Field := idOf name 10 idPool
def shortId (name : String) : Field := idOf name 5 idPool

def text (name : String) (min max : Nat) : Field :=
  {name, kind := .text min max none, embeddable := false}

/-- The name of a person or thing. -/
def title (name : String) : Field := text name 1 50

def emailWithin (name : String) (min max : Nat) : Field :=
  {name, kind := .email min max, embeddable := false}

def email (name : String) : Field := emailWithin name 5 255

def patterned (name : String) (min max : Nat) (pattern : String) (embeddable : Bool) : Field :=
  {name, kind := .text min max (some pattern), embeddable}

def phone (name : String) : Field := patterned name 7 20 "^[\\+0-9 \\-]+$" true

/-- A salted hash. -/
def hash (name : String) : Field := patterned name 1 255 "^s[0-9a-f]+$" true

def slug (name : String) : Field := patterned name 3 255 "^[a-z0-9\\-]+$" false
def hexColor (name : String) : Field := patterned name 6 6 "^[0-9A-Fa-f]+$" false
def postcode (name : String) : Field := patterned name 1 15 "^[0-9A-Z ]+$" true

def int (name : String) (min max : Int) : Field :=
  {name, kind := .integer min max, embeddable := true}

/-- An amount in the smallest unit of a currency. -/
def price (name : String) : Field := int name 0 999999999

def boolean (name : String) : Field := {name, kind := .boolean, embeddable := true}

def enumeration (name typeName : String) (variants : List String) : Field :=
  {name, kind := .enum typeName variants, embeddable := true}

def date (name : String) : Field := {name, kind := .date, embeddable := true}
def timestamp (name : String) : Field := {name, kind := .timestamp, embeddable := true}

end Field

end RecordMapper
