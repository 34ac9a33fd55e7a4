/-! Globs: patterns that whole paths match or do not match. -/

namespace TestScout.Glob

inductive Token where
  | literal (c : Char)
  /-- One byte other than a slash. -/
  | single
  /-- Any number of bytes other than slashes. -/
  | run
  /-- Two stars in front: nothing, a slash, or any directories with their slashes. -/
  | leading
  /-- Two stars at the end: a slash and anything behind it. -/
  | trailing
  /-- Two stars between slashes: a slash, or any directories with slashes around them. -/
  | between
  /-- One byte of a class, or one that is not of it. -/
  | oneOf (negated : Bool) (ranges : List (Char × Char))
  /-- One of several patterns. -/
  | choice (branches : List (List Token))
deriving Repr, Inhabited

end TestScout.Glob

namespace TestScout

/-- A pattern for whole paths. -/
structure Glob where
  tokens : List Glob.Token
deriving Repr, Inhabited

end TestScout
