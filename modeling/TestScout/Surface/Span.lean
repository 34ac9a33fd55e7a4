/-! Where the parts of a source stand, as byte offsets. -/

namespace TestScout.Surface

/-- A stretch of source text. -/
structure Span where
  start : Nat := 0
  stop : Nat := 0
deriving Repr, DecidableEq, Inhabited

/-- The stretch from the beginning of one span to the end of another. -/
def Span.to (first last : Span) : Span := ⟨first.start, last.stop⟩

/-- A comment as it is written. -/
structure Remark where
  text : String
  span : Span
deriving Repr, DecidableEq, Inhabited

end TestScout.Surface
