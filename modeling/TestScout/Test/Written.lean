import TestScout.Json.Value
import TestScout.Test.Definition

/-! Definitions as JSON. What is empty is left out. -/

namespace TestScout.Test
open Json

def stringsMember (key : String) (texts : List String) : List (String × Value) :=
  if texts.isEmpty then [] else [(key, Value.strings texts)]

def Annotations.toJson (annotations : Annotations) : Value :=
  .object (stringsMember "group" annotations.group ++ stringsMember "depends" annotations.depends ++
    stringsMember "dataProvider" annotations.dataProvider ++ stringsMember "testdox" annotations.testdox ++
    if annotations.isTest then [("test", .bool true)] else [])

def Position.toJson (position : Position) : Value :=
  .object [("line", Value.ofNat position.line), ("character", Value.ofNat position.character)]

def DefinitionKind.name : DefinitionKind → String
  | .space => "namespace"
  | .classLike => "class"
  | .describe => "describe"
  | .method => "method"
  | .dataSet => "dataset"

namespace Definition

/-- The members of a definition, apart from its children. -/
def ownMembers (definition : Definition) : List (String × Value) :=
  [("type", .string definition.kind.name), ("id", .string definition.id), ("label", .string definition.label),
    ("file", .string definition.file.text), ("start", definition.start.toJson), ("end", definition.stop.toJson),
    ("depth", Value.ofNat definition.depth)] ++
  (if definition.annotations.isEmpty then [] else [("annotations", definition.annotations.toJson)]) ++
  Value.member? "classFQN" (definition.qualifiedClass.map .string) ++
  Value.member? "namespace" (definition.space.map .string) ++
  Value.member? "className" (definition.className.map .string) ++
  Value.member? "methodName" (definition.methodName.map .string) ++
  Value.member? "testsuite" (definition.suite.map .string) ++
  stringsMember "dataSets" definition.dataSets

mutual

def toJson : Definition → Value
  | definition@⟨_, _, _, _, _, _, _, _, _, _, _, _, _, _, children⟩ =>
    let below := allToJson children
    .object (definition.ownMembers ++ if below.isEmpty then [] else [("children", .array below)])

def allToJson : List Definition → List Value
  | [] => []
  | definition :: rest => definition.toJson :: allToJson rest

end

end Definition

end TestScout.Test
