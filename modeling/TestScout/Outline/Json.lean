import TestScout.Json.Value
import TestScout.Outline.Basic

/-! Outlines as JSON. -/

namespace TestScout
open Json

def cursorToJson (point : Source.Point) : Value :=
  .object [("line", Value.ofNat point.row), ("character", Value.ofNat point.column)]

def rangeToJson (range : Source.Extent) : Value :=
  .object [("start", cursorToJson range.start), ("end", cursorToJson range.stop)]

/-- The members of an item, apart from the items below it. -/
def Item.members (item : Item) : List (String × Value) :=
  [("id", .string item.id), ("label", .string item.label), ("uri", Value.orNull (item.uri.map .string)),
    ("range", Value.orNull (item.range.map rangeToJson)), ("tags", Value.strings item.tags),
    ("canResolveChildren", .bool item.canResolve), ("sortText", Value.orNull (item.sortText.map .string))]

namespace Outline

/-- An item with the items below it, at most so many levels down. -/
def itemToJson (outline : Outline) : (levels : Nat) → Ref → Value
  | 0, ref => .object ((outline.item ref).members ++ [("children", .array [])])
  | levels + 1, ref =>
    .object ((outline.item ref).members ++
      [("children", .array ((outline.childrenOf (some ref)).map (outline.itemToJson levels)))])

def toJson (outline : Outline) : Value := .array (outline.top.map (outline.itemToJson outline.nodes.size))

end Outline

end TestScout
