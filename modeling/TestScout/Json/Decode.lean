import TestScout.Json.Draft

/-! Getting values of known shapes out of a JSON text. The text is looked at from the front,
and the first thing that is wrong with it is reported. -/

namespace TestScout.Json

/-- How a value of some kind is got out of a draft. -/
abbrev Decoder (α : Type) := Draft → Except Fault α

/-- The number that digits stand for; zero when there are none. -/
def ofDigits (digits : List Char) : Nat := (String.ofList digits).toNat?.getD 0

/-- The parts of a number as it is written, without its sign: the digits in front of the point,
those behind it, and the exponent. -/
def numberParts (text : String) : List Char × List Char × Int :=
  let text := text.toList.dropWhile (· == '-')
  let rest := text.dropWhile Char.isDigit
  let fraction := (rest.dropWhile (· == '.')).takeWhile Char.isDigit
  let exponent := (rest.dropWhile fun c => c == '.' || c.isDigit).drop 1
  let size : Int := ofDigits (exponent.filter Char.isDigit)
  (text.takeWhile Char.isDigit, fraction, if exponent.head? == some '-' then -size else size)

/-- How many digits the largest doubles have in front of the point. -/
def maxDigits : Nat := 309

/-- Halfway between the largest double and the power of two behind it. Numbers from here on
are rounded out of the range of doubles. -/
def excess : Nat := 1 <<< 1024 - 1 <<< 970

/-- Whether a number is so large that no double stands for it. -/
def isExcessive (text : String) : Bool :=
  let (whole, fraction, exponent) := numberParts text
  let digits := (whole ++ fraction).dropWhile (· == '0')
  let size : Int := digits.length - fraction.length + exponent
  !digits.isEmpty && (maxDigits < size || size == maxDigits &&
    excess ≤ ofDigits ((digits ++ List.replicate maxDigits '0').take maxDigits))

namespace Decoder

/-- The fault of a draft that is not of the kind that is wanted. -/
def refuse : Draft → Fault
  | .broken fault => fault
  | .string none => .malformed
  | .number text => if isExcessive text then .malformed else .mismatch
  | _ => .mismatch

def string : Decoder String
  | .string (some text) => .ok text
  | draft => .error (refuse draft)

/-- The largest number that can be counted to. -/
def maxCount : Nat := UInt64.size - 1

/-- The natural number that digits stand for, when it is not too large. -/
def count? (text : String) : Option Nat :=
  if text.toList.all Char.isDigit then text.toNat?.filter (· ≤ maxCount) else none

def count : Decoder Nat
  | .number text =>
    match count? text with
    | some value => .ok value
    | none => .error (refuse (.number text))
  | draft => .error (refuse draft)

/-- Null stands for no value. -/
def optional (decoder : Decoder α) : Decoder (Option α)
  | .null => .ok none
  | draft => some <$> decoder draft

def closed (fault : Option Fault) (result : α) : Except Fault α :=
  match fault with
  | some fault => .error fault
  | none => .ok result

def list (decoder : Decoder α) : Decoder (List α)
  | .array items fault => do
    let values ← items.mapM decoder
    closed fault values
  | draft => .error (refuse draft)

/-- Whether some part of a draft is not written as JSON, in a place that nobody looks at. -/
def ignore (draft : Draft) : Except Fault Unit :=
  match draft with
  | .broken fault => .error fault
  | .array items fault => do
    ignoreAll items
    closed fault ()
  | .object members fault => do
    ignoreMembers members
    closed fault ()
  | _ => .ok ()
where
  ignoreAll : List Draft → Except Fault Unit
    | [] => .ok ()
    | item :: rest => do
      ignore item
      ignoreAll rest
  ignoreMembers : List (Option String × Draft) → Except Fault Unit
    | [] => .ok ()
    | (_, item) :: rest => do
      ignore item
      ignoreMembers rest

/-- How deep arrays and objects can lie in each other. -/
def maxNesting : Nat := 127

/-- One level of nesting less. -/
def inner : (room : Nat) → Except Fault Nat
  | 0 => .error .malformed
  | room + 1 => .ok room

/-- Whatever the draft holds, as a value that nests no deeper than there is room. -/
def any (room : Nat) (draft : Draft) : Except Fault Value :=
  match draft with
  | .null => .ok .null
  | .bool value => .ok (.bool value)
  | .number text =>
    match text.toList with
    | '-' :: rest =>
      if rest.all Char.isDigit && text.length ≤ 18 && text != "-0" then
        .ok (.integer (-(String.ofList rest).toNat!))
      else real text
    | _ =>
      match count? text with
      | some value => .ok (.integer value)
      | none => real text
  | .string (some text) => .ok (.string text)
  | .string none => .error .malformed
  | .array items fault => do
    let room ← inner room
    let items ← anyAll room items
    closed fault (.array items)
  | .object members fault => do
    let room ← inner room
    let members ← anyMembers room members
    closed fault (.object members)
  | .broken fault => .error fault
where
  real (text : String) : Except Fault Value :=
    if isExcessive text then .error .malformed else .ok (.real text)
  anyAll (room : Nat) : List Draft → Except Fault (List Value)
    | [] => .ok []
    | item :: rest => do
      let first ← any room item
      return first :: (← anyAll room rest)
  anyMembers (room : Nat) : List (Option String × Draft) → Except Fault (List (String × Value))
    | [] => .ok []
    | (none, _) :: _ => .error .malformed
    | (some key, item) :: rest => do
      let first ← any room item
      return (key, first) :: (← anyMembers room rest)

/-- The members of a record, each looked at when its turn comes. A record can also be
written as the list of its members in their order. Members that are not known are passed
over, and one that is given twice is a mismatch. -/
def record (names : List String) (check : String → Draft → Except Fault Unit) : Decoder (List (String × Draft))
  | .object members fault => do
    let found ← named members []
    closed fault found
  | .array items fault => do
    let found ← listed names items
    closed fault found
  | draft => .error (refuse draft)
where
  named : List (Option String × Draft) → List (String × Draft) → Except Fault (List (String × Draft))
    | [], found => .ok found
    | (none, _) :: _, _ => .error .malformed
    | (some key, item) :: rest, found => do
      if names.contains key then
        if found.any (·.1 == key) then throw .mismatch
        check key item
        named rest (found ++ [(key, item)])
      else
        ignore item
        named rest found
  listed : List String → List Draft → Except Fault (List (String × Draft))
    | _, [] => .ok []
    | [], item :: _ => .error (match item with | .broken fault => fault | _ => .malformed)
    | name :: names, item :: rest => do
      check name item
      return (name, item) :: (← listed names rest)

/-- A member of a record that has to be there. -/
def field (found : List (String × Draft)) (name : String) (decoder : Decoder α) : Except Fault α :=
  match found.lookup name with
  | some draft => decoder draft
  | none => .error .mismatch

/-- A member of a record that has a value when it is missing. -/
def fieldOr (found : List (String × Draft)) (name : String) (fallback : α) (decoder : Decoder α) : Except Fault α :=
  match found.lookup name with
  | some draft => decoder draft
  | none => .ok fallback

/-- One of several names. The name can also be the only member of an object, without a value. -/
def choice (choose : String → Option α) : Decoder α
  | .string (some name) => chosen name
  | .object [] fault => .error (fault.getD .malformed)
  | .object ((none, _) :: _) _ => .error .malformed
  | .object ((some name, item) :: rest) fault => do
    let value ← chosen name
    match item with
    | .null =>
      match rest, fault with
      | [], none => .ok value
      | [], some fault => .error fault
      | _ :: _, _ => .error .malformed
    | item => .error (refuse item)
  | .broken fault => .error fault
  | _ => .error .malformed
where
  chosen (name : String) : Except Fault α :=
    match choose name with
    | some value => .ok value
    | none => .error .mismatch

/-- Gets a value out of a whole text. -/
def run (decoder : Decoder α) (text : String) : Except Fault α := do
  let document := Document.ofText text
  let value ← decoder document.root
  if document.hasMore then .error .malformed else .ok value

end Decoder

/-- The value that a text writes. -/
def Value.ofText? (text : String) : Except Fault Value := Decoder.run (Decoder.any Decoder.maxNesting) text

end TestScout.Json
