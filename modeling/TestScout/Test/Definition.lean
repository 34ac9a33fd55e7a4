import TestScout.Path.Basic
import TestScout.Test.Annotations

/-! Definitions: the units that discovery finds. A definition knows how deep it lies, and in
a forest it holds what lies below it. A list of definitions is nested by depth into a forest,
and a forest is flattened into the list of what is in it. -/

namespace TestScout.Test

/-- A place in a file. Lines count from one and characters from zero. -/
structure Position where
  line : Nat := 0
  character : Nat := 0
deriving Repr, DecidableEq, Inhabited

inductive DefinitionKind where
  | space
  | classLike
  | describe
  | method
  | dataSet
deriving Repr, DecidableEq, Inhabited

structure Definition where
  kind : DefinitionKind
  id : String
  label : String
  file : Path := ⟨""⟩
  start : Position := {}
  stop : Position := {}
  depth : Nat := 0
  annotations : Annotations := {}
  /-- The class with its namespace. -/
  qualifiedClass : Option String := none
  space : Option String := none
  className : Option String := none
  methodName : Option String := none
  suite : Option String := none
  /-- The keys of the data sets that the source tells of. -/
  dataSets : List String := []
  children : List Definition := []
deriving Repr, Inhabited

namespace Definition

mutual

/-- A definition and everything below it, in document order. -/
def flatten : Definition → List Definition
  | definition@⟨_, _, _, _, _, _, _, _, _, _, _, _, _, _, children⟩ => definition :: flattenAll children

def flattenAll : List Definition → List Definition
  | [] => []
  | definition :: rest => definition.flatten ++ flattenAll rest

end

/-- Puts every definition below the closest one before it that is less deep. -/
def nest : List Definition → List Definition
  | [] => []
  | definition :: rest =>
    let isBelow := fun (other : Definition) => decide (definition.depth < other.depth)
    { definition with children := definition.children ++ nest (rest.takeWhile isBelow) } ::
      nest (rest.dropWhile isBelow)
termination_by definitions => definitions.length
decreasing_by
  · exact Nat.lt_succ_of_le (List.takeWhile_sublist _).length_le
  · exact Nat.lt_succ_of_le (List.dropWhile_sublist _).length_le

/-- The forest of the definitions found in a file. Namespaces are not a part of it. -/
def forest (definitions : List Definition) : List Definition :=
  nest (definitions.filter (·.kind != .space))

end Definition

end TestScout.Test
