import TestScout.Text.Piece

/-! Places in a source text. Rows and columns count from zero, columns in bytes: the row of
an offset is the number of line feeds before it, the column the number of bytes since the
last of them. -/

namespace TestScout.Source

structure Point where
  row : Nat := 0
  column : Nat := 0
deriving Repr, DecidableEq, Inhabited

/-- The places where a stretch of text starts and where it has stopped. -/
structure Extent where
  start : Point := {}
  stop : Point := {}
deriving Repr, DecidableEq, Inhabited

/-- The byte offsets at which the lines of a text start, in order. -/
structure LineIndex where
  starts : List Nat
deriving Repr, Inhabited

namespace LineIndex

/-- The starts of the lines that follow a line feed, for a text that begins at `offset`. -/
def startsAfter : (offset : Nat) → List Char → List Nat
  | _, [] => []
  | offset, c :: rest =>
    let next := offset + c.utf8Size
    if c = '\n' then next :: startsAfter next rest else startsAfter next rest

def ofText (text : String) : LineIndex := ⟨0 :: startsAfter 0 text.toList⟩

/-- The line that holds an offset is the last one that starts at or before it. -/
def point (index : LineIndex) (offset : Nat) : Point :=
  let before := index.starts.takeWhile (· ≤ offset)
  ⟨before.length - 1, offset - before.getLast?.getD 0⟩

def extent (index : LineIndex) (start stop : Nat) : Extent := ⟨index.point start, index.point stop⟩

end LineIndex

end TestScout.Source
