import TestScout.Surface.Strict.Reading
import TestScout.Surface.Strict.Source

/-! The strict way to read a source: one with a mistake in it has no tree. -/

namespace TestScout.Surface.Strict
open Code Source

/-- Blanks in front of a source. -/
def leadingBlanks (source : String) : Nat := Text.byteLength (source.toList.takeWhile Scan.isGap)

/-- The tree of a source without mistakes. -/
def program? (source : String) : Option Program :=
  (statements? source).map fun items =>
    let index := LineIndex.ofText source
    ⟨Reading.statements index items, index.extent (leadingBlanks source) source.utf8ByteSize⟩

end TestScout.Surface.Strict
