import TestScout.Json.Decode
import TestScout.Suite.Basic

/-! Configurations as JSON. -/

namespace TestScout
open Json

namespace Suite

def Tag.ofDraft : Decoder Tag := Decoder.choice Tag.ofName?

def Rule.ofDraft : Decoder Rule := fun draft => do
  let found ← Decoder.record ["name", "tag", "value", "suffix"] (fun
    | "tag", draft => discard (Tag.ofDraft draft)
    | "suffix", draft => discard (Decoder.optional Decoder.string draft)
    | _, draft => discard (Decoder.string draft)) draft
  return {
    suite := ← Decoder.field found "name" Decoder.string
    tag := ← Decoder.field found "tag" Tag.ofDraft
    value := ← Decoder.field found "value" Decoder.string
    suffix := ← Decoder.fieldOr found "suffix" none (Decoder.optional Decoder.string) }

def Rule.toJson (rule : Rule) : Value :=
  .object ([("name", .string rule.suite), ("tag", .string rule.tag.name), ("value", .string rule.value)] ++
    Value.member? "suffix" (rule.suffix.map .string))

end Suite

namespace Configuration

def ofDraft : Decoder Configuration := fun draft => do
  let rules := Decoder.list Suite.Rule.ofDraft
  let found ← Decoder.record ["root", "testSuites"] (fun
    | "testSuites", draft => discard (rules draft)
    | _, draft => discard (Decoder.string draft)) draft
  return {
    root := ⟨← Decoder.field found "root" Decoder.string⟩
    rules := ← Decoder.fieldOr found "testSuites" [] rules }

def ofJson (text : String) : Except Fault Configuration := Decoder.run ofDraft text

def toJson (configuration : Configuration) : Value :=
  .object [
    ("root", .string configuration.root.text),
    ("testSuites", .array (configuration.rules.map Suite.Rule.toJson))]

end Configuration

end TestScout
