import TestScout.Json.Member
import TestScout.Source.Attribute
import TestScout.Source.Comment

/-! Places, comments and attributes as JSON. A place is a pair of numbers and an extent a
pair of places. Main statements: reading gives back what was written. -/

namespace TestScout.Source
open Json

def Point.toJson (point : Point) : Value := .array [Value.ofNat point.row, Value.ofNat point.column]

def Point.ofJson : Value → Point
  | .array [row, column] => ⟨row.natural, column.natural⟩
  | _ => {}

theorem Point.ofJson_toJson (point : Point) : ofJson point.toJson = point := rfl

def Extent.toJson (extent : Extent) : Value := .array [extent.start.toJson, extent.stop.toJson]

def Extent.ofJson? : Value → Option Extent
  | .array [start, stop] => some ⟨Point.ofJson start, Point.ofJson stop⟩
  | _ => none

/-- A missing extent lies at the start of the text. -/
def Extent.ofJson (value : Value) : Extent := (ofJson? value).getD {}

theorem Extent.ofJson_toJson (extent : Extent) : ofJson extent.toJson = extent := rfl

def extentMember (extent : Option Extent) : String × Value := ("loc", Value.orNull (extent.map Extent.toJson))

def extentAt? (value : Value) : Option Extent := Extent.ofJson? (value.get "loc")

def extentAt (value : Value) : Extent := Extent.ofJson (value.get "loc")

def CommentKind.name : CommentKind → String
  | .line => "line"
  | .block => "block"
  | .doc => "doc"

def CommentKind.ofName : String → CommentKind
  | "block" => .block
  | "doc" => .doc
  | _ => .line

def Comment.toJson (comment : Comment) : Value :=
  .object [("kind", .string comment.kind.name), ("value", .string comment.value), extentMember (some comment.extent)]

def Comment.ofJson (value : Value) : Comment where
  kind := .ofName (value.textAt "kind")
  value := value.textAt "value"
  extent := extentAt value

theorem Comment.ofJson_toJson (comment : Comment) : ofJson comment.toJson = comment := by
  obtain ⟨kind, value, extent⟩ := comment
  cases kind <;> rfl

def Attribute.toJson (item : Attribute) : Value :=
  .object [("name", .string item.name), ("arguments", Value.strings item.arguments)]

def Attribute.ofJson (value : Value) : Attribute := ⟨value.textAt "name", value.textsAt "arguments"⟩

def AttributeGroup.toJson (group : AttributeGroup) : Value :=
  .object [("attributes", .array (group.attributes.map Attribute.toJson)), extentMember group.extent]

def AttributeGroup.ofJson (value : Value) : AttributeGroup :=
  ⟨(value.itemsAt "attributes").map Attribute.ofJson, extentAt? value⟩

end TestScout.Source
