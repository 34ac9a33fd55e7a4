import TestScout.Surface.Strict.Template

/-! What stands around the bodies of functions and classes: names, attributes, arguments,
types, modifiers and parameters. -/

namespace TestScout.Surface.Strict
open Strict.Parser Code

/-- The words that nothing can be declared by. -/
def reservedWords : List String :=
  ["abstract", "and", "array", "as", "bool", "break", "callable", "case", "catch", "class", "clone",
   "const", "continue", "declare", "default", "do", "echo", "else", "elseif", "enddeclare", "endfor",
   "endforeach", "endif", "endswitch", "endwhile", "exit", "extends", "false", "final", "finally",
   "float", "fn", "for", "foreach", "function", "global", "goto", "if", "implements", "include",
   "include_once", "instanceof", "insteadof", "int", "interface", "iterable", "match", "mixed",
   "namespace", "never", "new", "null", "object", "or", "print", "private", "protected",
   "public", "readonly", "require", "require_once", "return", "static", "string", "switch",
   "throw", "trait", "true", "try", "use", "var", "void", "while", "xor", "yield"]

/-- Words that are reserved in small letters only. -/
def exactWords : List String := ["list", "parent", "self", "unset"]

/-- The name that a declaration gives. -/
def declaredName : Parser String := do
  let word := wordOf (← due)
  if Scan.isAnyKeyword reservedWords word || exactWords.any (·.toList == word) then failure
  anyWord

/-- The further segments of a name, each behind a backslash. -/
def segments : Parser Unit :=
  discard <| many (atSymbol "\\") do
    takeToken 1
    anyWord

/-- A name of one segment or several. Blanks and comments inside of it are a part of it. -/
def fullName : Parser String := do
  let start ← start
  if !(← atSymbol "\\") then discard anyWord
  segments
  textOf (← spanFrom start)

variable (rules : Rules)

/-- What comes out of parentheses behind a callee. -/
inductive Arguments where
  | given (items : List Argument)
  /-- Three dots in place of all arguments. -/
  | deferred

/-- The words that begin an expression and cannot be labels of arguments. -/
def unlabelledWords : List String :=
  ["clone", "include", "include_once", "new", "print", "require", "require_once", "yield"]

/-- The label of an argument, when there is one. -/
def label? : Parser (Option String) := do
  let word := wordOf (← due)
  let labels : Parser Unit := do
    discard anyWord
    expect ":"
  if Scan.isAnyKeyword unlabelledWords word || word == "list".toList || word.isEmpty then return none
  else if (← ahead labels).isSome then
    labels
    return some (String.ofList word)
  else return none

/-- Whether a word stands for a class that depends on where it is read. -/
def isScope (word : List Char) : Bool :=
  word == "self".toList || word == "parent".toList || Scan.isKeyword "static" word

/-- The value of an argument or of an element: dots may stand in front of it. -/
def spreadValue : Parser (Expr × Bool × Span) := do
  let start ← start
  let isSpread ← accept "..."
  let value ← value rules
  return (value, isSpread, ← spanFrom start)

/-- A word for a class, when it stands alone up to the end of an argument. -/
def loneScope? : Parser (Option Expr) := do
  let word := wordOf (← due)
  let alone : Parser Span := do
    let start ← start
    discard anyWord
    let span ← spanFrom start
    let text ← due
    if [",", ")"].contains (symbolOf text) then return span else failure
  if !isScope word then return none
  match ← ahead alone with
  | some span =>
    discard anyWord
    return some (.name (String.ofList word) span)
  | none => return none

def argument : Parser Argument := do
  let start ← start
  let label ← label?
  let markStart ← Parser.start
  let isReference ← accept "&"
  if let some value ← loneScope? then
    let marked ← spanFrom markStart
    return { label, value := if isReference then .reference value marked else value, span := ← spanFrom start }
  let (value, isSpread, written) ← spreadValue rules
  let span ← spanFrom start
  if isSpread then
    if label.isNone && !isReference then return { isSpread, value, span }
    else return { label, value := .other written, span }
  else
    let marked ← spanFrom markStart
    return { label, value := if isReference then .reference value marked else value, span }

def arguments : Parser Arguments := inside do
  expect "("
  let deferred : Parser Unit := do
    expect "..."
    expect ")"
  if (← ahead deferred).isSome then
    deferred
    return .deferred
  else
    let items ← listedOrNone ")" (argument rules)
    expect ")"
    return .given items

/-- One group of attributes, at least one. -/
def attributeGroup : Parser AttributeText := inside do
  let start ← start
  expect "#["
  discard single
  discard <| many (accept ",") do
    if !(← atSymbol "]") then discard single
  expect "]"
  let span ← spanFrom start
  return ⟨← textOf span, span⟩
where
  single : Parser Unit := do
    discard fullName
    if ← atSymbol "(" then discard <| arguments rules

def attributeGroups : Parser (List AttributeText) := many (atSymbol "#[") (attributeGroup rules)

/-- A type without an operator. -/
def simpleType : Parser Unit := do
  discard <| accept "?"
  discard fullName

/-- Whether another type is to be met besides the one before. A mark for a reference looks
alike, but belongs to the variable behind it. -/
def meetsType : Parser Bool := do
  let joined : Parser Unit := do
    expect "&"
    let text ← due
    if text.head?.any fun c => "$.&)=,".toList.contains c then failure
  if (← ahead joined).isSome then
    expect "&"
    return true
  else return false

/-- A choice between types, some of which may be several types at once, in parentheses. -/
def typeHint : Parser Unit := do
  if ← alternative then
    if ← atSymbol "|" then choices
    else discard <| many meetsType simpleType
  else choices
where
  /-- Tells whether the alternative is a type without an operator. -/
  alternative : Parser Bool := do
    if ← accept "(" then
      simpleType
      discard <| many meetsType simpleType
      expect ")"
      return false
    else
      simpleType
      return true
  choices : Parser Unit := discard <| many (accept "|") alternative

/-- The type of what a function gives, when it is written. -/
def returnType : Parser Unit := do
  if ← accept ":" then typeHint

/-- The words that set who sees a member. -/
def visibilityWords : List String := ["public", "protected", "private"]

def modifierWords : List String := visibilityWords ++ ["static", "abstract", "final", "readonly", "var"]

def atAnyWord (keywords : List String) : Parser Bool := return Scan.isAnyKeyword keywords (wordOf (← next))

/-- A modifier, in small letters. Its restriction to writing follows it at once. -/
def modifier : Parser String := do
  let word := (← anyWord).toList.map Scan.fold
  let restriction := ((← get).rest.take 5).map Char.toLower
  if visibilityWords.any (·.toList == word) && restriction == "(set)".toList then
    takeToken 5
    return String.ofList (word ++ restriction)
  else return String.ofList word

def modifiers : Parser (List String) := many (atAnyWord modifierWords) modifier

def variableName : Parser Unit := do
  expect "$"
  discard anyWord

/-- The accessors of a property, in braces. -/
def accessors : Parser Unit := do
  expect "\x7b"
  discard <| many (return !(← atSymbol "\x7d")) do
    discard <| attributeGroups rules
    discard <| acceptWord "final"
    discard <| accept "&"
    discard anyWord
    if ← atSymbol "(" then rules.parameters
    if ← accept "=>" then
      discard <| closing (value rules)
      discard semicolon
    else if ← atSymbol "\x7b" then discard rules.block
    else discard semicolon
  expect "\x7d"

/-- The value that a parameter or a property begins with. -/
def initialValue : Parser Unit := do
  if ← accept "=" then discard <| value rules

def parameter : Parser Unit := do
  discard <| attributeGroups rules
  let isPromoted ← atAnyWord ("readonly" :: visibilityWords)
  if isPromoted then
    let first ← modifier
    if first != "readonly" then discard <| acceptWord "readonly"
  if !(["$", "&", "..."].contains (symbolOf (← due))) then typeHint
  discard <| accept "&"
  if !isPromoted && (← accept "...") then variableName
  else
    variableName
    initialValue rules
    if isPromoted && (← atSymbol "\x7b") then accessors rules

def parameters : Parser Unit := inside do
  expect "("
  discard <| listedOrNone ")" (parameter rules)
  expect ")"

/-- The names behind `extends` or `implements`, when they are written. -/
def nameList (keyword : String) : Parser (List String) := do
  if ← acceptWord keyword then separated fullName else return []

end TestScout.Surface.Strict
