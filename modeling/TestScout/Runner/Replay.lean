import TestScout.Editor.Basic
import TestScout.Runner.Event
import TestScout.Runner.Transition
import TestScout.Test.DataSet

/-! What a runner reports about data sets. Each data set of a test is reported as a test of
its own; the first event that names it puts an item for it below the test, and later events
find that item. Events about anything else are passed over. -/

namespace TestScout.Runner
open Test Outline

structure Replay where
  /-- The items that the run was started with and those below them, by their ids. -/
  queue : List (String × Ref)
  /-- The ids of the data sets that have failed. -/
  failed : List String := []
deriving Inhabited

namespace Replay

/-- A run of some items. Of items with one id the last one counts. -/
def start (outline : Outline) (refs : List Ref) : Replay where
  queue := ((refs.flatMap outline.descendants).map fun ref => (outline.idOf ref, ref)).reverse

/-- Where the item of a data set is sorted: known ones by their place in the source, the
others behind them. -/
def sortTextOf (definition child : Definition) : String :=
  let key := (dataSetKey? child.id).getD ""
  match definition.dataSetIndex? key with
  | some index => sixDigits index
  | none => "~" ++ key

/-- The item of the data set that a result is about. -/
def target? (replay : Replay) (editor : Editor) (result : Result) : Option (Editor × Ref) := do
  let parent ← replay.queue.lookup result.id
  let definition ← editor.definition? result.id
  let child ← definition.dataSetChild? result.name
  match editor.outline.child? (some parent) child.id with
  | some ref => return (editor, ref)
  | none =>
    let above := editor.outline.item parent
    let (outline, ref) := editor.outline.create {
      id := child.id
      uri := above.uri
      label := labelOf child.kind child.label
      range := some (rangeOf child)
      sortText := some (sortTextOf definition child)
      tags := above.tags }
    return ({ editor with outline := outline.add (some parent) ref }, ref)

/-- What an event says about an item. An item that has failed passes only when it has been started again. -/
def step (replay : Replay) (id : String) (ref : Ref) (event : Event) : Replay × List Transition :=
  let result := event.result
  match event.kind with
  | .started => ({ replay with failed := replay.failed.filter (· != id) }, [{ state := .started, ref }])
  | .finished =>
    (replay, if replay.failed.contains id then [] else [{ state := .passed, ref, duration := result.duration }])
  | .failed =>
    ({ replay with failed := id :: replay.failed },
      [{ state := .failed, ref, message := some (result.message.getD ""), duration := result.duration }])
  | .ignored => (replay, [{ state := .skipped, ref }])

/-- Takes in an event. -/
def dispatch (replay : Replay) (editor : Editor) (event : Event) : Replay × Editor × List Transition :=
  match replay.target? editor event.result with
  | none => (replay, editor, [])
  | some (editor, ref) =>
    let (replay, transitions) := replay.step (editor.outline.idOf ref) ref event
    (replay, editor, transitions)

end Replay

end TestScout.Runner
