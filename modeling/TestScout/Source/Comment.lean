import TestScout.Source.Point
import TestScout.Text.Blank

/-! Comments, without the line breaks that a grammar may count among their characters. -/

namespace TestScout.Source

inductive CommentKind where
  | line
  | block
  | doc
deriving Repr, DecidableEq, Inhabited

structure Comment where
  kind : CommentKind
  value : String
  extent : Extent
deriving Repr, DecidableEq, Inhabited

def isLineBreak (c : Char) : Bool := c == '\r' || c == '\n'

namespace Comment

def kindOf (text : List Char) : CommentKind :=
  if (Text.after? ['/', '*', '*'] text).isSome then .doc
  else if (Text.after? ['/', '*'] text).isSome then .block
  else .line

/-- The place reached from a place by passing over a text. -/
def advance (start : Point) (text : List Char) : Point :=
  let rows := text.count '\n'
  let tail := Text.byteLength (Text.lastPiece '\n' text)
  if rows = 0 then ⟨start.row, start.column + tail⟩ else ⟨start.row + rows, tail⟩

/-- The comment written as `raw` at the given place. When line breaks at its end are cut
off, the comment stops behind the last character that is left. -/
def ofText (raw : String) (extent : Extent) : Comment :=
  let value := Text.dropEndWhile isLineBreak raw.toList
  let stop := if value.length = raw.toList.length then extent.stop else advance extent.start value
  ⟨kindOf value, String.ofList value, ⟨extent.start, stop⟩⟩

end Comment

end TestScout.Source
