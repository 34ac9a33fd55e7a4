import TestScout.Editor.Basic
import TestScout.Json.Decode

/-! What an editor asks of the outline: the tests in a file, at a place, in a group, or in a
request to run some. -/

namespace TestScout

/-- Which tests to run. -/
structure RunRequest where
  /-- None for all tests. -/
  included : Option (List String) := none
  excluded : List String := []
deriving Repr, DecidableEq, Inhabited

namespace RunRequest
open Json

def ofDraft : Decoder RunRequest := fun draft => do
  let texts := Decoder.list Decoder.string
  let found ← Decoder.record ["include", "exclude"] (fun
    | "include", draft => discard (Decoder.optional texts draft)
    | _, draft => discard (texts draft)) draft
  return {
    included := ← Decoder.fieldOr found "include" none (Decoder.optional texts)
    excluded := ← Decoder.fieldOr found "exclude" [] texts }

end RunRequest

namespace Editor
open Test Outline

/-- The classes of a file, and what stands for one. -/
def testsInFile (editor : Editor) (file : Path) : List Ref :=
  ((editor.fileItems file).filter (·.definition.kind = .classLike)).map (·.ref)

/-- Whether a definition is a test or a group of tests that a line is in. Lines count from zero here. -/
def spans (line : Nat) (definition : Definition) : Bool :=
  (definition.kind = .describe || definition.kind = .method) &&
    definition.start.line - 1 ≤ line && line ≤ definition.stop.line - 1

/-- The tests around a line, the one that starts last first, or the classes of the file. -/
def testsAt (editor : Editor) (file : Path) (line : Nat) : List Ref :=
  match (editor.fileItems file).filter fun indexed => spans line indexed.definition with
  | [] => editor.testsInFile file
  | found => (found.mergeSort fun first second =>
      first.definition.start.line ≥ second.definition.start.line).map (·.ref)

/-- The items that a request names; none when it means all tests. -/
def requested (editor : Editor) (request : RunRequest) : Option (List Ref) :=
  request.included.map fun ids =>
    (ids.filter fun id => !request.excluded.contains id).filterMap fun id =>
      (editor.item? id).or (editor.outline.find? id)

/-- The groups in the order of their names. -/
def groupNames (editor : Editor) : List String := (editor.groups.map (·.1)).mergeSort (· ≤ ·)

def testsInGroup (editor : Editor) (group : String) : List Ref := (editor.groups.lookup group).getD []

end Editor

end TestScout
