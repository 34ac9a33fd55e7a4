/-! JSON values and their written forms. -/

namespace TestScout.Json

inductive Value where
  | null
  | bool (value : Bool)
  | integer (value : Int)
  /-- A number that is no integer, or one too large to be kept as an integer, as it is written. -/
  | real (text : String)
  | string (text : String)
  | array (items : List Value)
  /-- The members in the order in which they are written. -/
  | object (members : List (String × Value))
deriving Repr, Inhabited

namespace Value

def ofNat (value : Nat) : Value := .integer value

/-- A member that is left out when there is nothing to write. -/
def member? (key : String) (value : Option Value) : List (String × Value) :=
  match value with
  | some value => [(key, value)]
  | none => []

/-- The value, or null when there is none. -/
def orNull : Option Value → Value
  | some value => value
  | none => .null

def strings (texts : List String) : Value := .array (texts.map .string)

def hexDigit (value : Nat) : Char := Char.ofNat (if value < 10 then 48 + value else 87 + value)

/-- A character inside of a string. Control characters are escaped. -/
def escapeChar (c : Char) : List Char :=
  match c with
  | '"' => ['\\', '"']
  | '\\' => ['\\', '\\']
  | '\x08' => ['\\', 'b']
  | '\x0c' => ['\\', 'f']
  | '\n' => ['\\', 'n']
  | '\r' => ['\\', 'r']
  | '\t' => ['\\', 't']
  | c => if c.toNat < 32 then ['\\', 'u', '0', '0', hexDigit (c.toNat / 16), hexDigit (c.toNat % 16)] else [c]

def quoted (text : String) : String := String.ofList ('"' :: text.toList.flatMap escapeChar ++ ['"'])

def openBrace : String := "\x7b"
def closeBrace : String := "\x7d"

mutual

/-- The value on one line, without blanks. -/
def compact : Value → String
  | .null => "null"
  | .bool value => if value then "true" else "false"
  | .integer value => toString value
  | .real text => text
  | .string text => quoted text
  | .array items => "[" ++ ",".intercalate (compactItems items) ++ "]"
  | .object members => openBrace ++ ",".intercalate (compactMembers members) ++ closeBrace

def compactItems : List Value → List String
  | [] => []
  | item :: rest => item.compact :: compactItems rest

def compactMembers : List (String × Value) → List String
  | [] => []
  | (key, value) :: rest => (quoted key ++ ":" ++ value.compact) :: compactMembers rest

end

/-- Lines in brackets, two blanks further in than the bracket that closes them. -/
def enclosed (first last : String) (margin : String) (lines : List String) : String :=
  match lines with
  | [] => first ++ last
  | _ =>
    let inner := margin ++ "  "
    first ++ "\n" ++ (",\n").intercalate (lines.map (inner ++ ·)) ++ "\n" ++ margin ++ last

mutual

/-- The value over several lines, with a margin that grows by two blanks. -/
def pretty (margin : String) : Value → String
  | .array items => enclosed "[" "]" margin (prettyItems (margin ++ "  ") items)
  | .object members => enclosed openBrace closeBrace margin (prettyMembers (margin ++ "  ") members)
  | value => value.compact

def prettyItems (margin : String) : List Value → List String
  | [] => []
  | item :: rest => item.pretty margin :: prettyItems margin rest

def prettyMembers (margin : String) : List (String × Value) → List String
  | [] => []
  | (key, value) :: rest => (quoted key ++ ": " ++ value.pretty margin) :: prettyMembers margin rest

end

end Value

end TestScout.Json
