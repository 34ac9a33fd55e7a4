import TestScout.Json.Decode

/-! What a test runner reports while it runs. -/

namespace TestScout.Runner

inductive EventKind where
  | started
  | finished
  | failed
  | ignored
deriving Repr, DecidableEq, Inhabited

/-- What all events tell. -/
structure Result where
  /-- The id of the test. -/
  id : String
  /-- The name of the test, with its data set where there is one. -/
  name : String
  flow : Option Nat := none
  /-- Milliseconds. -/
  duration : Option Nat := none
  message : Option String := none
  details : Option String := none
deriving Repr, DecidableEq, Inhabited

structure Event where
  kind : EventKind
  result : Result
deriving Repr, DecidableEq, Inhabited

end TestScout.Runner
