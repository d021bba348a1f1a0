import RecordMapper.Dialect.Markers
import RecordMapper.Error
import RecordMapper.Value.Basic

/-! Pieces of SQL text with the values they bind.

A fragment marks each bound value by a `?`, so that pieces can be put together without
counting. Only `finish` gives the markers of a dialect; it refuses a fragment whose
markers outside quoted text are not as many as its values. -/
namespace RecordMapper

/-- Final SQL text with its values in order. -/
structure Statement where
  sql : String
  params : List Value
  deriving DecidableEq, Inhabited

structure Fragment where
  sql : String := ""
  params : List Value := []
  deriving DecidableEq, Inhabited

namespace Fragment

/-- SQL text that binds nothing. -/
def raw (sql : String) : Fragment := {sql}

/-- A marker and the value it stands for. -/
def param (v : Value) : Fragment := ⟨"?", [v]⟩

def append (a b : Fragment) : Fragment := ⟨a.sql ++ b.sql, a.params ++ b.params⟩

instance : Append Fragment := ⟨append⟩

/-- Fragments one after another with a text between each two. -/
def joined (separator : String) : List Fragment → Fragment
  | [] => {}
  | [f] => f
  | f :: rest => f ++ raw separator ++ joined separator rest

def isEmpty (f : Fragment) : Bool := f.sql.isEmpty

/-- The statement that a dialect makes of a fragment. -/
def finish (f : Fragment) (d : Dialect) : Except Error Statement :=
  let (sql, markers) := d.substitute f.sql
  if f.params.length < markers then .error (.consistency .tooFewValues)
  else if markers < f.params.length then .error (.consistency .tooManyValues)
  else .ok ⟨sql, f.params⟩

@[simp] theorem sql_append (a b : Fragment) : (a ++ b).sql = a.sql ++ b.sql := rfl
@[simp] theorem params_append (a b : Fragment) : (a ++ b).params = a.params ++ b.params := rfl
@[simp] theorem sql_raw (s : String) : (raw s).sql = s := rfl
@[simp] theorem params_raw (s : String) : (raw s).params = [] := rfl
@[simp] theorem sql_param (v : Value) : (param v).sql = "?" := rfl
@[simp] theorem params_param (v : Value) : (param v).params = [v] := rfl

end Fragment

end RecordMapper
