/-! Engines for patterns.

A pattern is a regular expression in its written form. What such an expression means is up
to an engine, and all that checks texts against patterns is given one. -/
namespace RecordMapper

/-- An engine reads a written pattern as a test of texts, or says why it cannot. -/
structure PatternEngine where
  read : String → Except String (String → Bool)
  deriving Inhabited

/-- Whether a text matches a written pattern; what cannot be read matches nothing. -/
def PatternEngine.accepts (engine : PatternEngine) (pattern : String) (s : String) : Bool :=
  match engine.read pattern with
  | .ok test => test s
  | .error _ => false

end RecordMapper
