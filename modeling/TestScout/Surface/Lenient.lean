import TestScout.Surface.Lenient.Reading
import TestScout.Surface.Lenient.Source

/-! The lenient way to read a source: every source has a tree. -/

namespace TestScout.Surface.Lenient
open Code Source

/-- The tree of a source; what cannot be made sense of is left out. -/
def program (source : String) : Program :=
  let index := LineIndex.ofText source
  ⟨Reading.statements index (statements source), index.extent 0 source.utf8ByteSize⟩

end TestScout.Surface.Lenient
