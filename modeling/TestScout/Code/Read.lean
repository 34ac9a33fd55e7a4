import TestScout.Code.Tree
import TestScout.Source.Json

/-! Syntax trees from JSON. What is missing reads as what is most common; an object that
does not say what it is, and anything that is no object, reads as an unknown node. -/

namespace TestScout.Code
open Json Source

def Visibility.ofName? : String → Option Visibility
  | "public" => some .publicAccess
  | "protected" => some .protectedAccess
  | "private" => some .privateAccess
  | _ => none

def visibilityAt? (value : Value) : Option Visibility := (value.textAt? "visibility").bind Visibility.ofName?

def Adaptation.ofJson (value : Value) : Adaptation :=
  if value.textAt "kind" == "precedence" then
    .precedence (value.textAt "trait") (value.textAt "method") (value.textsAt "insteadof")
  else
    .rename (value.textAt? "trait") (value.textAt "method") (value.textAt? "alias") (visibilityAt? value)

def ImportKind.ofName : String → ImportKind
  | "function" => .function
  | "const" => .const
  | _ => .classLike

def CallKind.ofName : String → CallKind
  | "method" => .method
  | "static" => .static
  | _ => .function

def IncludeKind.ofName : String → IncludeKind
  | "include_once" => .plainOnce
  | "require" => .required
  | "require_once" => .requiredOnce
  | _ => .plain

def Import.ofJson (value : Value) : Import where
  name := value.textAt "name"
  newName := value.textAt? "alias"
  kind := .ofName (value.textAt "use")

def ImportGroup.ofJson (value : Value) : ImportGroup where
  kind := .ofName (value.textAt "use")
  shared := value.textAt? "prefix"
  items := (value.itemsAt "items").map Import.ofJson
  extent := extentAt? value

def TraitUse.ofJson (value : Value) : TraitUse where
  traits := value.textsAt "traits"
  adaptations := (value.itemsAt "adaptations").map Adaptation.ofJson
  extent := extentAt? value

def commentsAt (value : Value) : List Comment := (value.itemsAt "comments").map Comment.ofJson

def attributesAt (value : Value) : List AttributeGroup := (value.itemsAt "attributes").map AttributeGroup.ofJson

mutual

def Node.ofJson (value : Value) : Node :=
  let name := value.textAt "name"
  let extent := extentAt? value
  match value.textAt "kind" with
  | "Program" => .program ⟨nodesAt value "children", extent⟩
  | "Namespace" => .space ⟨name, nodesAt value "children", extentAt value⟩
  | "Class" => .classDecl {
      name, isAbstract := value.flagAt "abstract", parent := value.textAt? "extends", body := nodesAt value "body"
      comments := commentsAt value, attributes := attributesAt value, extent := extentAt value }
  | "Trait" => .traitDecl {
      name, body := nodesAt value "body", comments := commentsAt value, attributes := attributesAt value
      extent := extentAt value }
  | "Method" => .method (Method.ofJson value)
  | "TraitUse" => .traitUse (.ofJson value)
  | "UseGroup" => .imports (.ofJson value)
  | "ExpressionStatement" => .statement ⟨nodeAt value "expression", commentsAt value, extentAt value⟩
  | "Call" => .call (Call.ofJson value)
  | "String" => .string ⟨value.textAt "value", value.textAt "raw", extent⟩
  | "Number" => .number ⟨value.textAt "raw", extent⟩
  | "NamedArgument" => .namedArgument ⟨name, nodeAt value "value", extent⟩
  | "Closure" => .closure ⟨value.flagAt "arrow", (blockAt? value "body").getD {}, extent⟩
  | "Block" => .block (Block.ofJson value)
  | "Return" => .returned ⟨nodeAt? value "expr", extent⟩
  | "Yield" => .yielded ⟨nodeAt? value "key", nodeAt? value "value", value.flagAt "from", extent⟩
  | "Include" => .included ⟨.ofName (value.textAt "include"), nodeAt value "target", extent⟩
  | "Array" => .array ⟨entriesAt value "entries", extent⟩
  | "Entry" => .entry (Entry.ofJson value)
  | "Name" => .name ⟨name, extent⟩
  | _ => .unknown extent
termination_by (sizeOf value, 4)

def Block.ofJson (value : Value) : Block := ⟨nodesAt value "children", extentAt? value⟩
termination_by (sizeOf value, 3)

def Entry.ofJson (value : Value) : Entry :=
  ⟨nodeAt? value "key", nodeAt value "value", value.flagAt "spread", extentAt? value⟩
termination_by (sizeOf value, 3)

/-- Methods can also be read from objects that do not say that they are methods. -/
def Method.ofJson (value : Value) : Method := {
  name := value.textAt "name"
  visibility := (visibilityAt? value).getD .publicAccess
  isAbstract := value.flagAt "abstract"
  isStatic := value.flagAt "static"
  body := blockAt? value "body"
  comments := commentsAt value
  attributes := attributesAt value
  extent := extentAt value }
termination_by (sizeOf value, 3)

def Call.ofJson (value : Value) : Call := {
  kind := .ofName (value.textAt "call")
  name := value.textAt "name"
  scope := value.textAt? "class"
  arguments := nodesAt value "arguments"
  chain := callAt? value "chain"
  extent := extentAt value }
termination_by (sizeOf value, 3)

def nodesAt (value : Value) (key : String) : List Node :=
  (value.itemsAt key).attach.map fun ⟨item, _⟩ => Node.ofJson item
termination_by (sizeOf value, 0)
decreasing_by exact Prod.Lex.left _ _ (Value.sizeOf_lt_of_mem_itemsAt ‹_›)

def entriesAt (value : Value) (key : String) : List Entry :=
  (value.itemsAt key).attach.map fun ⟨item, _⟩ => Entry.ofJson item
termination_by (sizeOf value, 0)
decreasing_by exact Prod.Lex.left _ _ (Value.sizeOf_lt_of_mem_itemsAt ‹_›)

def nodeAt? (value : Value) (key : String) : Option Node :=
  (value.find? key).attach.map fun ⟨member, _⟩ => Node.ofJson member
termination_by (sizeOf value, 0)
decreasing_by exact Prod.Lex.left _ _ (Value.sizeOf_lt_of_find? ‹_›)

def nodeAt (value : Value) (key : String) : Node := (nodeAt? value key).getD (.unknown none)
termination_by (sizeOf value, 1)

def blockAt? (value : Value) (key : String) : Option Block :=
  (value.find? key).attach.map fun ⟨member, _⟩ => Block.ofJson member
termination_by (sizeOf value, 0)
decreasing_by exact Prod.Lex.left _ _ (Value.sizeOf_lt_of_find? ‹_›)

def callAt? (value : Value) (key : String) : Option Call :=
  (value.find? key).attach.map fun ⟨member, _⟩ => Call.ofJson member
termination_by (sizeOf value, 0)
decreasing_by exact Prod.Lex.left _ _ (Value.sizeOf_lt_of_find? ‹_›)

end

end TestScout.Code
