import TestScout.Runner.Event

/-! Events as JSON, one on a line. The kind of an event is a member like the others, which
may stand anywhere; the other members are looked at only when the whole object has been
read, so that a mistake in the text comes before a value of the wrong kind. -/

namespace TestScout.Runner
open Json

def EventKind.name : EventKind → String
  | .started => "testStarted"
  | .finished => "testFinished"
  | .failed => "testFailed"
  | .ignored => "testIgnored"

def EventKind.ofName? : String → Option EventKind
  | "testStarted" => some .started
  | "testFinished" => some .finished
  | "testFailed" => some .failed
  | "testIgnored" => some .ignored
  | _ => none

/-- The member that tells the kind of an event. -/
def kindKey : String := "event"

def kindOfDraft : Decoder EventKind := fun draft => do
  match EventKind.ofName? (← Decoder.string draft) with
  | some kind => return kind
  | none => throw .mismatch

def asText : Value → Except Fault String
  | .string text => .ok text
  | _ => .error .mismatch

def asCount : Value → Except Fault Nat
  | .integer value => if value < 0 then .error .mismatch else .ok value.toNat
  | _ => .error .mismatch

/-- Null stands for no value. -/
def asOptional (read : Value → Except Fault α) : Value → Except Fault (Option α)
  | .null => .ok none
  | value => some <$> read value

namespace Result

/-- The members of a result in their order. -/
def keys : List String := ["id", "name", "flowId", "duration", "message", "details"]

/-- The result that members tell. The first one that is wrong counts, and none of them may be given twice. -/
def ofMembers (members : List (String × Value)) : Except Fault Result := do
  let known := members.filter fun (key, _) => keys.contains key
  if ¬(known.map (·.1)).Nodup then throw .mismatch
  let required (key : String) : Except Fault String :=
    match known.lookup key with
    | some value => asText value
    | none => .error .mismatch
  let optional {α : Type} (key : String) (read : Value → Except Fault α) : Except Fault (Option α) :=
    match known.lookup key with
    | some value => asOptional read value
    | none => .ok none
  return {
    id := ← required "id"
    name := ← required "name"
    flow := ← optional "flowId" asCount
    duration := ← optional "duration" asCount
    message := ← optional "message" asText
    details := ← optional "details" asText }

end Result

namespace Event

/-- How deep the members of an event can nest, which takes up one level itself. -/
def nesting : Nat := Decoder.maxNesting - 1

/-- Reads the members of an event up to the end of the object. -/
def readMembers : List (Option String × Draft) → (kind : Option EventKind) → (members : List (String × Value)) →
    Except Fault (Option EventKind × List (String × Value))
  | [], kind, members => .ok (kind, members)
  | (none, _) :: _, _, _ => .error .malformed
  | (some key, item) :: rest, kind, members => do
    if key == kindKey then
      if kind.isSome then throw .mismatch
      readMembers rest (some (← kindOfDraft item)) members
    else readMembers rest kind (members ++ [(key, ← Decoder.any nesting item)])

/-- An event is an object, or the list of its members with the kind in front. -/
def ofDraft : Decoder Event
  | .object members fault => do
    let (kind, members) ← readMembers members none []
    Decoder.closed fault ()
    match kind with
    | some kind => return { kind, result := ← Result.ofMembers members }
    | none => throw .mismatch
  | .array [] fault => .error (fault.getD .mismatch)
  | .array (first :: rest) fault => do
    let kind ← kindOfDraft first
    let values ← rest.mapM (Decoder.any nesting)
    Decoder.closed fault ()
    if values.length > Result.keys.length then throw .mismatch
    return { kind, result := ← Result.ofMembers (Result.keys.zip values) }
  | draft => .error (Decoder.refuse draft)

def ofLine (line : String) : Except Fault Event := Decoder.run ofDraft line

def toJson (event : Event) : Value :=
  let result := event.result
  .object ([(kindKey, .string event.kind.name), ("id", .string result.id), ("name", .string result.name)] ++
    Value.member? "flowId" (result.flow.map Value.ofNat) ++ Value.member? "duration" (result.duration.map Value.ofNat) ++
    Value.member? "message" (result.message.map .string) ++ Value.member? "details" (result.details.map .string))

end Event

end TestScout.Runner
