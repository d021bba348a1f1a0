import RecordMapper.Text.Digits
import RecordMapper.Text.Quoted

/-! SQL dialects: how names and literals are quoted, which marker stands for a bound
parameter, and how many rows are folded into one JSON document. -/
namespace RecordMapper

/-- `named` is a dialect with named parameters; the others are databases. -/
inductive Dialect where
  | postgres | sqlite | mysql | named
  deriving DecidableEq, Inhabited

namespace Dialect

/-- The marker of the parameter at a position, counted from one. Named parameters are
counted from zero. -/
def placeholder (d : Dialect) (index : Nat) : String :=
  match d with
  | postgres => "$" ++ Text.ofInt index
  | sqlite => "?" ++ Text.ofInt index
  | mysql => "?"
  | named => "@p" ++ Text.ofInt (Int.ofNat (index - 1))

/-- The character around identifiers. -/
def identifierQuote : Dialect → Char
  | mysql => '\x60'
  | _ => '"'

/-- A name between quotes, quotes inside doubled. -/
def quoteIdentifier (d : Dialect) (name : String) : String := Text.quoted d.identifierQuote name

/-- A column with its table. -/
def qualify (d : Dialect) (table column : String) : String :=
  d.quoteIdentifier table ++ "." ++ d.quoteIdentifier column

/-- A string literal. -/
def quoteLiteral (_ : Dialect) (text : String) : String := Text.quoted '\'' text

/-- Whether enumerations are types of their own, so that literals need a cast. -/
def castsEnums : Dialect → Bool
  | postgres => true
  | _ => false

/-- The literal of a variant, cast to the type `table_field` where the dialect needs it. -/
def enumLiteral (d : Dialect) (table field variant : String) : String :=
  if d.castsEnums then
    d.quoteLiteral variant ++ "::" ++ d.quoteIdentifier (table ++ "_" ++ field)
  else d.quoteLiteral variant

/-! ### Documents -/

/-- A column of an aggregated document: its key and the expression it is read from. -/
structure DocumentColumn where
  key : String
  expression : String
  deriving DecidableEq

def documentPairs (d : Dialect) (columns : List DocumentColumn) : String :=
  String.intercalate ", " (columns.map fun c => d.quoteLiteral c.key ++ ", " ++ c.expression)

/-- Folds the joined rows of one parent into an array of objects, empty when there are
none. `present` is a column that is NULL exactly in the row of a parent without any. -/
def aggregate (d : Dialect) (columns : List DocumentColumn) (present : String) : String :=
  let pairs := d.documentPairs columns
  match d with
  | postgres =>
    "COALESCE(jsonb_agg(jsonb_build_object(" ++ pairs ++ ")) FILTER (WHERE " ++ present ++
      " IS NOT NULL), '[]'::jsonb)"
  | sqlite =>
    "COALESCE(json_group_array(json_object(" ++ pairs ++ ")) FILTER (WHERE " ++ present ++
      " IS NOT NULL), '[]')"
  | _ =>
    "CASE WHEN COUNT(" ++ present ++ ") = 0 THEN JSON_ARRAY() ELSE JSON_ARRAYAGG(JSON_OBJECT(" ++
      pairs ++ ")) END"

end Dialect

end RecordMapper
