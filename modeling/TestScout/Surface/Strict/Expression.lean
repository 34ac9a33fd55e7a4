import TestScout.Surface.Strict.Signature

/-! Expressions. An operand is followed by what hangs on it, such as calls and member
accesses, and operands are joined by operators. How strongly an operator binds does not
matter, as nothing is kept of the operands that it joins. -/

namespace TestScout.Surface.Strict
open Strict.Parser

variable (rules : Rules)

def otherFrom (start : Nat) : Parser Expr := return .other (← spanFrom start)

/-- What is inside of brackets; a stretch outside of the tags in front stands for it. -/
def firstOf (outside : Option Span) (value : Expr) : Expr := (outside.map Expr.other).getD value

/-- An expression in parentheses. Dots may stand there alone. -/
def parenthesized : Parser Expr := inside do
  let start ← start
  expect "("
  let outside ← outside?
  let dots : Parser Span := do
    let span ← token fun text => if symbolOf text == "..." then 3 else 0
    expect ")"
    return span
  match ← ahead dots with
  | some span =>
    discard dots
    return .parenthesized (.other span) (← spanFrom start)
  | none =>
    let inner ← value rules
    expect ")"
    return .parenthesized (firstOf outside inner) (← spanFrom start)

/-- A variable; another variable or an expression in braces may give its name. -/
def simpleVariable : Parser Unit := do
  expect "$"
  discard <| many (atSymbol "$") (expect "$")
  if ← accept "\x7b" then
    inside do
      discard <| value rules
      expect "\x7d"
  else discard anyWord

/-- An expression in braces that stands for a name. -/
def bracedName : Parser Selector := inside do
  expect "\x7b"
  let inner ← value rules
  expect "\x7d"
  return .computed (← textOf inner.span)

/-- The name of a member behind an arrow or two colons. -/
def selector : Parser Selector := do
  let start ← start
  if ← atSymbol "$" then
    simpleVariable rules
    return .computed (← textOf (← spanFrom start))
  else if ← atSymbol "\x7b" then bracedName rules
  else return .plain (← anyWord)

def index : Parser Unit := inside do
  expect "["
  if !(← atSymbol "]") then discard <| value rules
  expect "]"

def assignmentSymbols : List String :=
  ["=", "+=", "-=", "*=", "/=", ".=", "%=", "**=", "??=", "&=", "|=", "^=", "<<=", ">>="]

def binarySymbols : List String :=
  ["??", "||", "&&", "|", "^", "&", "==", "!=", "===", "!==", "<>", "<=>", "<", "<=", ">", ">=", "|>", ".",
   "<<", ">>", "+", "-", "*", "/", "%", "**"]

/-- Whether a symbol of several characters may stand behind an operand. -/
def mayFollow (operand : Operand) (symbol : String) : Bool :=
  match symbol with
  | "++" | "--" => operand.isVariable
  | "->" | "?->" => operand.isObject
  | "::" => operand.isScope
  | "..." | "#[" => false
  | _ => operand.isVariable || !assignmentSymbols.contains symbol

/-- The symbol behind an operand. Attributes do not stand there, so a hash in front of a bracket
is a comment by itself. -/
def symbolBehind (operand : Operand) : Parser String := do
  if (Text.after? ['#', '['] (← next)).isSome then
    passOver 1 fun span taken => some (.remark ⟨String.ofList taken, span⟩)
  return String.ofList (Scan.symbol (mayFollow operand) (← next))

def callOf (start : Nat) (target : Target) : Parser Operand := do
  match ← arguments rules with
  | .given items => return .holder (.call { target, arguments := items, span := ← spanFrom start })
  | .deferred => return .holder (.call { target, isPartial := true, span := ← spanFrom start })

/-- What hangs on an operand. -/
def suffixes (start : Nat) : (bound : Nat) → Operand → Parser Operand
  | 0, _ => failure
  | bound + 1, operand => do
    match ← symbolBehind operand with
    | "(" =>
      if !operand.isCallable then return operand
      let callee ← textOf operand.value.span
      suffixes start bound (← callOf rules start (.function callee))
    | "[" =>
      if !operand.isObject then return operand
      index rules
      suffixes start bound (.holder (← otherFrom start))
    | "->" =>
      takeToken 2
      suffixes start bound (← member operand)
    | "?->" =>
      takeToken 3
      suffixes start bound (← member operand)
    | "::" =>
      takeToken 2
      let scope ← textOf operand.value.span
      let isProperty ← atSymbol "$"
      let selector ← selector rules
      if ← atSymbol "(" then suffixes start bound (← callOf rules start (.static scope selector))
      else
        let value ← otherFrom start
        suffixes start bound { Operand.object value with isVariable := isProperty, isCallable := false }
    | "++" | "--" =>
      takeToken 2
      return { value := ← otherFrom start }
    | _ => return operand
where
  member (operand : Operand) : Parser Operand := do
    let selector ← selector rules
    if ← atSymbol "(" then callOf rules start (.method operand.value selector)
    else return { Operand.holder (← otherFrom start) with isCallable := false }

/-- A part of a list in brackets, and whether it may stand in a pattern of each kind. -/
structure Part where
  element : Element
  isValue : Bool
  fits : Pattern → Bool

/-- Whether an operand may take a value inside of a pattern. -/
def fitsIn (operand : Operand) (pattern : Pattern) : Bool :=
  operand.isVariable || operand.pattern? == some pattern

/-- The value of an element, which may be a reference to a variable. -/
def elementValue : Parser Operand := do
  let start ← start
  if ← accept "&" then
    let target ← rules.operand
    if !target.isVariable then failure
    return { value := .reference target.value (← spanFrom start), isVariable := true }
  else rules.expression

def element : Parser Part := do
  let start ← start
  if ← accept "..." then
    let value ← value rules
    return ⟨{ value, isSpread := true, span := ← spanFrom start }, true, fun _ => false⟩
  else
    let isReference ← atSymbol "&"
    let first ← elementValue rules
    let outside ← beforeArrow
    if !isReference && first.isValue && (← accept "=>") then
      let outside := outside <|> (← outside?)
      let second ← elementValue rules
      let value := firstOf outside second.value
      return ⟨{ key := some first.value, value, span := ← spanFrom start }, second.isValue, fitsIn second⟩
    else return ⟨{ value := first.value, span := ← spanFrom start }, first.isValue, fitsIn first⟩
where
  beforeArrow : Parser (Option Span) := do
    if ← atSymbol "=>" then outside? else return none

/-- The parts up to a closing bracket, some of which may be left out. -/
def parts (closing : String) : Parser (List (Option Part)) := do
  loop (← read).bound
where
  loop : Nat → Parser (List (Option Part))
    | 0 => failure
    | bound + 1 => do
      if ← atSymbol closing then return [none]
      if ← accept "," then return none :: (← loop bound)
      let first ← element rules
      if ← accept "," then return some first :: (← loop bound) else return [some first]

/-- A list in brackets is a value when nothing is left out of it but what stands behind the
last comma. -/
def isListValue (parts : List (Option Part)) : Bool :=
  parts.all (fun part => part.all (·.isValue)) && (parts.length == 2 && parts.all Option.isNone || parts.dropLast.all Option.isSome)

def elementsOf (parts : List (Option Part)) : List Element := parts.filterMap fun part => part.map (·.element)

def bracketed (start : Nat) : Parser Operand := do
  let parts ← inside do
    expect "["
    let parts ← parts rules "]"
    expect "]"
    return parts
  let isPattern := parts.all fun part => part.all (·.fits .brackets)
  let array := Operand.object (.array (elementsOf parts) (← spanFrom start))
  if isListValue parts then return { array with pattern? := if isPattern then some .brackets else none }
  else if isPattern then return { value := array.value, isValue := false, pattern? := some .brackets }
  else failure

/-- An array or a pattern that is written with a keyword and parentheses. -/
def keyworded (start : Nat) (isPattern : Bool) : Parser Operand := do
  discard anyWord
  let parts ← inside do
    expect "("
    let parts ← parts rules ")"
    expect ")"
    return parts
  let value := Expr.array (elementsOf parts) (← spanFrom start)
  if isPattern then
    if parts.all fun part => part.all (·.fits .words) then
      return { value, isValue := false, pattern? := some .words }
    else failure
  else if isListValue parts then return .object value
  else failure

/-- A function without a name, behind its attributes. -/
def functionLiteral (start : Nat) : Parser Operand := do
  discard <| acceptWord "static"
  if ← acceptWord "fn" then
    discard <| accept "&"
    rules.parameters
    returnType
    expect "=>"
    let body ← value rules
    return { value := .arrow body (← spanFrom start) }
  else
    expectWord "function"
    discard <| accept "&"
    rules.parameters
    if ← acceptWord "use" then
      inside do
        expect "("
        let captured : Parser Unit := do
          discard <| accept "&"
          variableName
        captured
        discard <| many (accept ",") do
          if !(← atSymbol ")") then captured
        expect ")"
    returnType
    let body ← rules.block
    return { value := .closure body (← spanFrom start) }

/-- What a class is named by where an object is made or tested. -/
def classReference : Parser Unit := do
  if ← atSymbol "(" then discard <| parenthesized rules
  else if ← atSymbol "$" then
    simpleVariable rules
    hanging
  else
    discard fullName
    if ← accept "::" then
      simpleVariable rules
      hanging
where
  hanging : Parser Unit := do
    loop (← read).bound
  loop : Nat → Parser Unit
    | 0 => failure
    | bound + 1 => do
      match symbolOf (← next) with
      | "[" =>
        index rules
        loop bound
      | "->" | "?->" =>
        if !(← accept "->") then expect "?->"
        discard <| selector rules
        loop bound
      | "::" =>
        expect "::"
        simpleVariable rules
        loop bound
      | _ => return ()

/-- A new object. Only one whose arguments are written has members that can be named. -/
def newObject (start : Nat) : Parser Operand := do
  expectWord "new"
  let groups ← attributeGroups rules
  let anonymous : Parser Unit := do
    discard modifiers
    expectWord "class"
  if (← ahead anonymous).isSome then
    anonymous
    if ← atSymbol "(" then discard <| arguments rules
    discard <| nameList "extends"
    discard <| nameList "implements"
    discard rules.members
    return .object (← otherFrom start)
  else if !groups.isEmpty then failure
  else
    classReference rules
    if ← atSymbol "(" then
      discard <| arguments rules
      return .object (← otherFrom start)
    else return { value := ← otherFrom start }

def matching (start : Nat) : Parser Operand := do
  expectWord "match"
  discard <| parenthesized rules
  inside do
    expect "\x7b"
    discard <| listedOrNone "\x7d" do
      if ← acceptWord "default" then pure ()
      else
        discard <| value rules
        discard <| many (accept ",") do
          if !(← atSymbol "=>") then discard <| value rules
      expect "=>"
      value rules
    expect "\x7d"
  return { value := ← otherFrom start, isTight := false }

/-- Whether nothing follows the keyword that gives a value to the caller. -/
def endsYield (text : List Char) : Bool :=
  match text with
  | [] => true
  | c :: _ =>
    if Scan.isNameStart c then Scan.isAnyKeyword ["and", "or", "xor", "as"] (wordOf text)
    else if Scan.number text != 0 || (Text.after? ['<', '<', '<'] text).isSome then false
    else
      let symbol := symbolOf text
      [";", ")", ",", "]", "\x7d", ":", "?", "?>", "=>"].contains symbol ||
        (binarySymbols.contains symbol && !(["+", "-", "&"].contains symbol))

/-- A value for the caller. The two words that take them from elsewhere are one token. -/
def yielding (start : Nat) : Parser Operand := do
  expectWord "yield"
  if ((← get).rest.take 5).map Scan.fold == " from".toList then
    takeToken 5
    let outside ← outside?
    let iterator ← value rules
    return { value := .delegated (firstOf outside iterator) (← spanFrom start), isTight := false }
  else if endsYield (← next) then return { value := .yielded none none (← spanFrom start), isTight := false }
  else
    let outside ← outside?
    let part ← element rules
    if !part.isValue then failure
    let value := if part.element.isSpread then .other part.element.span else part.element.value
    let span ← spanFrom start
    match outside with
    | some place => return { value := .yielded none (some (.other place)) span, isTight := false }
    | none => return { value := .yielded part.element.key (some value) span, isTight := false }

def included (start : Nat) (kind : Code.IncludeKind) : Parser Operand := do
  discard anyWord
  let outside ← outside?
  let target ← value rules
  return { value := .included kind (firstOf outside target) (← spanFrom start), isTight := false }

/-- A keyword that makes an expression of the one behind it. -/
def prefixed (start : Nat) : Parser Operand := do
  discard anyWord
  discard <| value rules
  return { value := ← otherFrom start }

/-- An operand that begins with a word. -/
def wordOperand (start : Nat) (word : List Char) : Parser Operand := do
  match String.ofList (word.map Scan.fold) with
  | "true" | "false" | "null" =>
    discard anyWord
    return { value := ← otherFrom start }
  | "array" => keyworded rules start false
  | "fn" | "function" => functionLiteral rules start
  | "new" => newObject rules start
  | "print" | "throw" => prefixed rules start
  | "static" =>
    let literal : Parser Unit := do
      expectWord "static"
      if Scan.isAnyKeyword ["fn", "function"] (wordOf (← due)) then return () else failure
    if (← ahead literal).isSome then functionLiteral rules start else scope
  | "namespace" =>
    discard anyWord
    if !(← atSymbol "\\") then failure
    segments
    return .object (← otherFrom start)
  | _ =>
    if word == "list".toList then keyworded rules start true
    else if isScope word then scope
    else
      let name ← fullName
      return .object (.name name (← spanFrom start))
where
  scope : Parser Operand := do
    let name ← anyWord
    return {
      value := .name name (← spanFrom start)
      isValue := false, isScope := true, isCallable := true }

/-- An operand that begins with a quote, behind the letter for binary text if there is one. -/
def textOperand? (start : Nat) (text : List Char) : Parser (Option Operand) := do
  match text with
  | '<' :: '<' :: '<' :: _ =>
    document rules
    return some (.object (← otherFrom start))
  | '\x60' :: _ =>
    takeToken 1
    discard <| template rules (.quote '\x60')
    return some { value := ← otherFrom start }
  | _ =>
    let lead := if text.head?.any fun c => c == 'b' || c == 'B' then 1 else 0
    match (text.drop lead).head? with
    | some mark =>
      if mark == '\x27' || mark == '"' then return some (.object (← quoted rules start lead mark)) else return none
    | none => return none

/-- An operand without anything that hangs on it. -/
def atom : Parser Operand := do
  let start ← start
  let text ← due
  if let some operand ← textOperand? rules start text then return operand
  match text with
  | '$' :: _ =>
    simpleVariable rules
    return .holder (← otherFrom start)
  | '(' :: _ => return .object (← parenthesized rules)
  | '[' :: _ => bracketed rules start
  | '#' :: '[' :: _ =>
    discard <| attributeGroups rules
    functionLiteral rules start
  | '\\' :: _ =>
    let name ← fullName
    return .object (.name name (← spanFrom start))
  | c :: _ =>
    if Scan.isNameStart c && Scan.decimal text < Scan.word text then wordOperand rules start (wordOf text)
    else
      let span ← token Scan.number
      return { value := .number (← textOf span) span }
  | [] => failure

def primary : Parser Operand := do
  let start ← start
  suffixes rules start (← read).bound (← atom rules)

def castWords : List String :=
  ["array", "binary", "bool", "boolean", "double", "float", "int", "integer", "object", "real", "string", "unset"]

/-- The type that an operand is converted to, in parentheses. A word for one cannot stand for
anything else there, but for the one that arrays may begin with. -/
def cast? : Parser Bool := do
  let cast : Parser String := inside do
    expect "("
    let word ← anyWord
    if Scan.isAnyKeyword castWords word.toList then return word else failure
  match ← ahead cast with
  | none => return false
  | some word =>
    let whole : Parser Unit := do
      discard cast
      expect ")"
    if (← ahead whole).isSome then
      whole
      return true
    else if Scan.isKeyword "array" word.toList then return false
    else failure

/-- An operand with the operators in front of it. -/
def operand : Parser Operand := do
  let start ← start
  let text ← due
  match text with
  | '+' :: '+' :: _ | '-' :: '-' :: _ =>
    takeToken 2
    let target ← rules.operand
    if !target.isVariable then failure
    return { value := ← otherFrom start }
  | c :: _ =>
    if "!+-~@".toList.contains c then
      takeToken 1
      discard <| value rules
      return { value := ← otherFrom start }
    else if ← cast? then
      let word := wordOf (← due)
      if Scan.isAnyKeyword ["include", "include_once"] word then prefixed rules start
      else
        let inner ← rules.operand
        if !inner.isValue then failure
        return { value := ← otherFrom start, isVariable := inner.isVariable }
    else if ← acceptWord "clone" then
      let isCast ← cast?
      let inner ← if isCast then rules.operand else primary rules
      if !inner.isValue || (isCast && !inner.isVariable) then failure
      return { value := ← otherFrom start }
    else primary rules
  | [] => failure

/-- An operand where any expression may stand. -/
def looseOperand : Parser Operand := do
  let start ← start
  let word := wordOf (← due)
  match String.ofList (word.map Scan.fold) with
  | "match" => matching rules start
  | "yield" => yielding rules start
  | "include" => included rules start .plain
  | "include_once" => included rules start .plainOnce
  | "require" => included rules start .required
  | "require_once" => included rules start .requiredOnce
  | _ => operand rules

/-- Joins an operand with what follows it by operators. -/
def joined (start : Nat) : (bound : Nat) → (whole : Option Expr) → (last : Operand) → Parser Operand
  | 0, _, _ => failure
  | bound + 1, whole, last => do
    let text ← next
    let symbol ← symbolBehind last
    if (last.isVariable && assignmentSymbols.contains symbol) || (last.pattern?.isSome && symbol == "=") then
      takeToken symbol.length
      if symbol == "=" then discard <| accept "&"
      discard <| value rules
      let result ← otherFrom start
      joined start bound (some result) { value := result }
    else if last.isValue && symbol == "?" then
      takeToken 1
      if !(← accept ":") then
        discard <| value rules
        expect ":"
      discard <| value rules
      let result ← otherFrom start
      joined start bound (some result) { value := result }
    else if last.isValue && (binarySymbols.contains symbol || Scan.isAnyKeyword ["and", "or", "xor"] (wordOf text)) then
      if binarySymbols.contains symbol then takeToken symbol.length else discard anyWord
      let right ← looseOperand rules
      joined start bound (some (← otherFrom start)) right
    else if last.isValue && last.isTight && (← acceptWord "instanceof") then
      classReference rules
      let result ← otherFrom start
      joined start bound (some result) { value := result, isTight := false }
    else return { value := whole.getD last.value, isValue := last.isValue
                  isVariable := whole.isNone && last.isVariable
                  pattern? := if whole.isNone then last.pattern? else none }

def expression : Parser Operand := do
  let start ← start
  joined rules start (← read).bound none (← looseOperand rules)

end TestScout.Surface.Strict
