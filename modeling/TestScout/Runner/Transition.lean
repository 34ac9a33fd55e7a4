import TestScout.Json.Value
import TestScout.Outline.Basic

/-! What a run has to say about the items of an outline. -/

namespace TestScout.Runner
open Json

inductive RunState where
  | started
  | passed
  | failed
  | skipped
deriving Repr, DecidableEq, Inhabited

def RunState.name : RunState → String
  | .started => "started"
  | .passed => "passed"
  | .failed => "failed"
  | .skipped => "skipped"

/-- An item goes into a state. -/
structure Transition where
  state : RunState
  ref : Outline.Ref
  message : Option String := none
  /-- Milliseconds. -/
  duration : Option Nat := none
deriving Repr, DecidableEq, Inhabited

/-- The members of a transition, with the item named by its id. -/
def Transition.members (outline : Outline) (transition : Transition) : List (String × Value) :=
  [("state", .string transition.state.name), ("id", .string (outline.idOf transition.ref))] ++
    Value.member? "message" (transition.message.map .string) ++
    Value.member? "durationMs" (transition.duration.map Value.ofNat)

def Transition.toJson (outline : Outline) (transition : Transition) : Value := .object (transition.members outline)

end TestScout.Runner
