import TestScout.Json.Member
import TestScout.Test.Written

/-! Definitions from JSON. Members may be missing; a label that is missing is the id. -/

namespace TestScout.Test
open Json

def Annotations.ofJson (value : Value) : Annotations where
  group := value.textsAt "group"
  depends := value.textsAt "depends"
  dataProvider := value.textsAt "dataProvider"
  testdox := value.textsAt "testdox"
  isTest := value.flagAt "test"

def Position.ofJson (value : Value) : Position := ⟨value.naturalAt "line", value.naturalAt "character"⟩

theorem Position.ofJson_toJson (position : Position) : ofJson position.toJson = position := rfl

/-- Any other name stands for a method. -/
def DefinitionKind.ofName : String → DefinitionKind
  | "namespace" => .space
  | "class" => .classLike
  | "describe" => .describe
  | "dataset" => .dataSet
  | _ => .method

theorem DefinitionKind.ofName_name (kind : DefinitionKind) : ofName kind.name = kind := by cases kind <;> rfl

def Definition.ofJson (value : Value) : Definition := {
  kind := .ofName (value.textAt "type")
  id := value.textAt "id"
  label := (value.textAt? "label").getD (value.textAt "id")
  file := ⟨value.textAt "file"⟩
  start := .ofJson (value.get "start")
  stop := .ofJson (value.get "end")
  depth := value.naturalAt "depth"
  annotations := .ofJson (value.get "annotations")
  qualifiedClass := value.textAt? "classFQN"
  space := value.textAt? "namespace"
  className := value.textAt? "className"
  methodName := value.textAt? "methodName"
  suite := value.textAt? "testsuite"
  dataSets := value.textsAt "dataSets"
  children := (value.itemsAt "children").attach.map fun ⟨child, _⟩ => ofJson child }
termination_by sizeOf value
decreasing_by exact Value.sizeOf_lt_of_mem_itemsAt ‹_›

end TestScout.Test
