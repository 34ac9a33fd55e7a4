import TestScout.Code.Tree
import TestScout.Source.Json

/-! Syntax trees as JSON. Every node is an object whose member `kind` says what it is. -/

namespace TestScout.Code
open Json Source

def Visibility.name : Visibility → String
  | .publicAccess => "public"
  | .protectedAccess => "protected"
  | .privateAccess => "private"

def Adaptation.toJson : Adaptation → Value
  | .precedence ofTrait method insteadOf =>
    .object [("kind", .string "precedence"), ("trait", .string ofTrait), ("method", .string method),
      ("insteadof", Value.strings insteadOf)]
  | .rename ofTrait method newName visibility =>
    .object [("kind", .string "alias"), ("trait", Value.orNull (ofTrait.map .string)), ("method", .string method),
      ("alias", Value.orNull (newName.map .string)),
      ("visibility", Value.orNull (visibility.map fun visibility => .string visibility.name))]

def ImportKind.name : ImportKind → String
  | .classLike => "class"
  | .function => "function"
  | .const => "const"

def CallKind.name : CallKind → String
  | .function => "function"
  | .method => "method"
  | .static => "static"

def IncludeKind.name : IncludeKind → String
  | .plain => "include"
  | .plainOnce => "include_once"
  | .required => "require"
  | .requiredOnce => "require_once"

def Import.toJson (item : Import) : Value :=
  .object [("name", .string item.name), ("alias", Value.orNull (item.newName.map .string)),
    ("use", .string item.kind.name)]

def kindMember (kind : String) : String × Value := ("kind", .string kind)

def nameMember (name : String) : String × Value := ("name", .string name)

def commentsMember (comments : List Comment) : String × Value := ("comments", .array (comments.map Comment.toJson))

def attributesMember (groups : List AttributeGroup) : String × Value :=
  ("attributes", .array (groups.map AttributeGroup.toJson))

def ImportGroup.toJson (group : ImportGroup) : Value :=
  .object [kindMember "UseGroup", ("use", .string group.kind.name), ("prefix", Value.orNull (group.shared.map .string)),
    ("items", .array (group.items.map Import.toJson)), extentMember group.extent]

def TraitUse.toJson (node : TraitUse) : Value :=
  .object [kindMember "TraitUse", ("traits", Value.strings node.traits),
    ("adaptations", .array (node.adaptations.map Adaptation.toJson)), extentMember node.extent]

mutual

def Node.toJson : Node → Value
  | .program ⟨children, extent⟩ =>
    .object [kindMember "Program", ("children", .array (nodesToJson children)), extentMember extent]
  | .space ⟨name, children, extent⟩ =>
    .object [kindMember "Namespace", nameMember name, ("children", .array (nodesToJson children)), extentMember extent]
  | .classDecl ⟨name, isAbstract, parent, body, comments, attributes, extent⟩ =>
    .object [kindMember "Class", nameMember name, ("abstract", .bool isAbstract),
      ("extends", Value.orNull (parent.map .string)), ("body", .array (nodesToJson body)), commentsMember comments,
      attributesMember attributes, extentMember extent]
  | .traitDecl ⟨name, body, comments, attributes, extent⟩ =>
    .object [kindMember "Trait", nameMember name, ("body", .array (nodesToJson body)), commentsMember comments,
      attributesMember attributes, extentMember extent]
  | .method ⟨name, visibility, isAbstract, isStatic, body, comments, attributes, extent⟩ =>
    .object [kindMember "Method", nameMember name, ("visibility", .string visibility.name),
      ("abstract", .bool isAbstract), ("static", .bool isStatic), ("body", optionalBlockToJson body),
      commentsMember comments, attributesMember attributes, extentMember extent]
  | .traitUse node => node.toJson
  | .imports node => node.toJson
  | .statement ⟨expression, comments, extent⟩ =>
    .object [kindMember "ExpressionStatement", ("expression", expression.toJson), commentsMember comments,
      extentMember extent]
  | .call node => node.toJson
  | .string node =>
    .object [kindMember "String", ("value", .string node.value), ("raw", .string node.raw), extentMember node.extent]
  | .number node => .object [kindMember "Number", ("raw", .string node.raw), extentMember node.extent]
  | .namedArgument ⟨name, value, extent⟩ =>
    .object [kindMember "NamedArgument", nameMember name, ("value", value.toJson), extentMember extent]
  | .closure ⟨isArrow, body, extent⟩ =>
    .object [kindMember "Closure", ("arrow", .bool isArrow), ("body", body.toJson), extentMember extent]
  | .block node => node.toJson
  | .returned ⟨value, extent⟩ =>
    .object [kindMember "Return", ("expr", optionalNodeToJson value), extentMember extent]
  | .yielded ⟨key, value, delegates, extent⟩ =>
    .object [kindMember "Yield", ("key", optionalNodeToJson key), ("value", optionalNodeToJson value),
      ("from", .bool delegates), extentMember extent]
  | .included ⟨kind, target, extent⟩ =>
    .object [kindMember "Include", ("include", .string kind.name), ("target", target.toJson), extentMember extent]
  | .array ⟨entries, extent⟩ =>
    .object [kindMember "Array", ("entries", .array (entriesToJson entries)), extentMember extent]
  | .entry node => node.toJson
  | .name node => .object [kindMember "Name", nameMember node.name, extentMember node.extent]
  | .unknown extent => .object [kindMember "Unknown", extentMember extent]

def Block.toJson : Block → Value
  | ⟨children, extent⟩ =>
    .object [kindMember "Block", ("children", .array (nodesToJson children)), extentMember extent]

def Entry.toJson : Entry → Value
  | ⟨key, value, isSpread, extent⟩ =>
    .object [kindMember "Entry", ("key", optionalNodeToJson key), ("value", value.toJson), ("spread", .bool isSpread),
      extentMember extent]

def Call.toJson : Call → Value
  | ⟨kind, name, scope, arguments, chain, extent⟩ =>
    .object [kindMember "Call", ("call", .string kind.name), nameMember name,
      ("class", Value.orNull (scope.map .string)), ("arguments", .array (nodesToJson arguments)),
      ("chain", optionalCallToJson chain), extentMember extent]

def nodesToJson : List Node → List Value
  | [] => []
  | node :: rest => node.toJson :: nodesToJson rest

def entriesToJson : List Entry → List Value
  | [] => []
  | entry :: rest => entry.toJson :: entriesToJson rest

def optionalNodeToJson : Option Node → Value
  | none => .null
  | some node => node.toJson

def optionalBlockToJson : Option Block → Value
  | none => .null
  | some block => block.toJson

def optionalCallToJson : Option Call → Value
  | none => .null
  | some call => call.toJson

end

end TestScout.Code
