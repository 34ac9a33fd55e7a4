import TestScout.Surface.Lenient.Signature

/-! Expressions. An operand is followed by what hangs on it, such as calls and member
accesses, and operands are joined by operators as strongly as the operators bind. -/

namespace TestScout.Surface.Lenient
open Lenient.Parser

namespace Binding

/-! How strongly operators bind. -/

def logicalOr : Nat := 1
def logicalXor : Nat := 2
def logicalAnd : Nat := 3
def printing : Nat := 4
def yielding : Nat := 5
def assignment : Nat := 6
def conditional : Nat := 7
def coalesce : Nat := 8
def negation : Nat := 21
def typeTest : Nat := 22
def sign : Nat := 23
def power : Nat := 24

/-- A new object: members and elements of a value may give its class, but the parentheses
behind them hold the arguments. -/
def creation : Nat := 25

/-- The binding of an operator between two operands, and the floor of its second operand. -/
def ofSymbol? (symbol : String) : Option (Nat × Nat) :=
  match symbol with
  | "??" => some (coalesce, coalesce)
  | "||" => some (9, 10)
  | "&&" => some (10, 11)
  | "|" => some (11, 12)
  | "^" => some (12, 13)
  | "&" => some (13, 14)
  | "==" | "!=" | "===" | "!==" | "<>" | "<=>" => some (14, 15)
  | "<" | "<=" | ">" | ">=" => some (15, 16)
  | "|>" => some (16, 17)
  | "." => some (17, 18)
  | "<<" | ">>" => some (18, 19)
  | "+" | "-" => some (19, 20)
  | "*" | "/" | "%" => some (20, 21)
  | "**" => some (power, power)
  | _ => none

def ofToken? (token : Token) : Option (Nat × Nat) :=
  match token.kind with
  | .symbol => ofSymbol? token.text
  | .word =>
    match token.text.toLower with
    | "or" => some (logicalOr, logicalXor)
    | "xor" => some (logicalXor, logicalAnd)
    | "and" => some (logicalAnd, printing)
    | "instanceof" => some (typeTest, sign)
    | _ => none
  | _ => none

end Binding

def assignmentSymbols : List String :=
  ["=", "+=", "-=", "*=", "/=", ".=", "%=", "**=", "??=", "&=", "|=", "^=", "<<=", ">>="]

def isAssignment (token : Token) : Bool := token.kind == .symbol && assignmentSymbols.contains token.text

def constructWords : List String := ["isset", "empty", "eval", "exit", "die"]

variable (rules : Rules)

def otherFrom (start : Nat) : Parser Expr := return .other (← spanFrom start)

/-- An element of an array, or none when it is left out. -/
def element : Parser (Option Element) := do
  let first ← peek
  let start := first.span.start
  if first.isSymbol "," then return none
  if ← accept "..." then
    let value ← rules.expression 0
    return some { value, isSpread := true, span := ← spanFrom start }
  let value ← rules.expression 0
  if ← accept "=>" then
    let target ← rules.expression 0
    return some { key := some value, value := target, span := ← spanFrom start }
  else return some { value, span := ← spanFrom start }

/-- The elements of an array or a list between brackets. -/
def elements (opening closing : String) : Parser (List Element) := do
  return (← bracketed opening closing (element rules)).filterMap id

/-- A variable; another variable or an expression in braces may give its name. -/
def variableName : Parser Unit := do
  discard <| repeatWhile (·.isSymbol "$") take
  if ← accept "$\x7b" then
    discard <| rules.expression 0
    expect "\x7d"
  else discard <| takeIf (·.kind == .variable)

/-- The name of a member behind an arrow or two colons, which may be missing. -/
def selector : Parser Selector := do
  let next ← peek
  let start := next.span.start
  if next.kind == .word then return .plain (← take).text
  else if next.kind == .variable || next.isSymbol "$" || next.isSymbol "$\x7b" then
    variableName rules
    return .computed (← textOf (← spanFrom start))
  else if ← accept "\x7b" then
    let inner ← rules.expression 0
    expect "\x7d"
    return .computed (← textOf inner.span)
  else if next.isEnding then throw .unexpected
  else return .computed ""

def callOf (start : Nat) (target : Target) : Parser Expr := do
  let ⟨items, isPartial⟩ ← callArguments rules
  return .call { target, arguments := items, isPartial, span := ← spanFrom start }

/-- What hangs on an operand. -/
def suffixes (floor start : Nat) : (bound : Nat) → Expr → Parser Expr
  | 0, operand => return operand
  | bound + 1, operand => do
    let next ← peek
    if next.kind != .symbol then return operand
    match next.text with
    | "(" =>
      if !mayCall then return operand
      let callee ← textOf operand.span
      suffixes floor start bound (← callOf rules start (.function callee))
    | "[" =>
      discard take
      if !(← peek).isSymbol "]" then discard <| rules.expression 0
      expect "]"
      suffixes floor start bound (← otherFrom start)
    | "->" | "?->" =>
      discard take
      let selector ← selector rules
      if mayCall && (← peek).isSymbol "(" then
        suffixes floor start bound (← callOf rules start (.method operand selector))
      else suffixes floor start bound (← otherFrom start)
    | "::" =>
      discard take
      let scope ← textOf operand.span
      let selector ← selector rules
      if mayCall && (← peek).isSymbol "(" then
        suffixes floor start bound (← callOf rules start (.static scope selector))
      else suffixes floor start bound (← otherFrom start)
    | "++" | "--" =>
      if !mayCall then return operand
      discard take
      suffixes floor start bound (← otherFrom start)
    | _ => return operand
where
  mayCall : Bool := floor < Binding.creation

/-- A function without a name; its attributes and modifiers are already taken. -/
def functionLiteral (start : Nat) : Parser Expr := do
  if ← acceptWord "fn" then
    discard <| accept "&"
    parameters rules
    returnType
    expect "=>"
    let value ← rules.expression 0
    return .arrow value (← spanFrom start)
  else
    expectWord "function"
    discard <| accept "&"
    parameters rules
    if ← acceptWord "use" then
      discard <| bracketed "(" ")" do
        discard <| accept "&"
        takeIf (·.kind == .variable)
    returnType
    let body ← rules.block
    return .closure body (← spanFrom start)

/-- The names behind `extends` or `implements`. -/
def nameList (keyword : String) : Parser (List String) := do
  if ← acceptWord keyword then return (← separated fullName).map (·.text) else return []

def newObject (start : Nat) : Parser Expr := do
  discard <| attributeGroups rules
  let hasModifiers := isModifier (← peek) && !(← peek).isWord "static"
  if hasModifiers then discard modifiers
  if ← acceptWord "class" then
    if (← peek).isSymbol "(" then discard <| arguments rules
    discard <| nameList "extends"
    discard <| nameList "implements"
    discard rules.members
  else
    discard <| rules.expression Binding.creation
    if (← peek).isSymbol "(" then discard <| arguments rules
  otherFrom start

def matchArms : Parser Unit := do
  expect "("
  discard <| rules.expression 0
  expect ")"
  discard <| bracketed "\x7b" "\x7d" do
    if ← acceptWord "default" then discard <| accept ","
    else discard <| listedTo (·.isSymbol "=>") (rules.expression 0)
    expect "=>"
    rules.expression 0

def endsYield (token : Token) : Bool :=
  [";", ")", ",", "]", "\x7d"].any token.isSymbol || token.kind == .closeTag || token.isEnding

def yielding (start : Nat) : Parser Expr := do
  if ← acceptWord "from" then
    let iterator ← rules.expression 0
    return .delegated iterator (← spanFrom start)
  else if endsYield (← peek) then return .yielded none none (← spanFrom start)
  else
    let first ← rules.expression 0
    if ← accept "=>" then
      let value ← rules.expression 0
      return .yielded (some first) (some value) (← spanFrom start)
    else return .yielded none (some first) (← spanFrom start)

/-- A prefix that makes an expression of the operand behind it. -/
def prefixed (floor : Nat) : Parser Expr := do
  let start := (← take).span.start
  discard <| rules.expression floor
  otherFrom start

def included (kind : Code.IncludeKind) : Parser Expr := do
  let start := (← take).span.start
  let target ← rules.expression 0
  return .included kind target (← spanFrom start)

/-- A string with code embedded in it, up to a token that closes it. -/
def composite (closes : Token → Bool) : Parser Unit := do
  discard take
  discard <| repeatWhile (!closes ·) do
    if ← acceptIf (·.kind == .part) then pure ()
    else if ← acceptIf fun token => token.isSymbol "\x7b" || token.isSymbol "$\x7b" then
      discard <| rules.expression 0
      expect "\x7d"
    else discard <| rules.expression 0
  discard <| takeIf closes

/-- A token that cannot begin an operand is one by itself. -/
def strayOperand : Parser Expr := do
  let token ← take
  if token.kind == .unclosed then throw .unexpected else return .other token.span

/-- A language construct that is written as a call is. -/
def construct (token : Token) : Parser Expr := do
  let start := (← take).span.start
  match token.text.toLower with
  | "isset" => discard <| bracketed "(" ")" (rules.expression 0)
  | "empty" | "eval" =>
    expect "("
    discard <| rules.expression 0
    expect ")"
  | _ => if (← peek).isSymbol "(" then discard <| callArguments rules
  otherFrom start

/-- Whether a comma stands between the parentheses that a text of tokens begins inside of. -/
def separates (depth : Nat) : List Token → Bool
  | [] => false
  | token :: rest =>
    if depth == 0 && token.isSymbol "," then true
    else if ["(", "[", "#[", "\x7b", "$\x7b"].any token.isSymbol then separates (depth + 1) rest
    else if [")", "]", "\x7d"].any token.isSymbol then
      match depth with
      | 0 => false
      | depth + 1 => separates depth rest
    else separates depth rest

/-- A copy of an object. With anything but one value in parentheses behind it, the keyword is
the name of a function. -/
def cloned : Parser Expr := do
  let start := (← peek).span.start
  let inner := (← get).rest.drop 2
  if (← peekAt 1).isSymbol "(" && (["...", ")"].any (← peekAt 2).isSymbol || separates 0 inner) then
    let callee := (← take).text
    callOf rules start (.function callee)
  else prefixed rules Binding.sign

/-- An operand that begins with a word. -/
def wordOperand (token : Token) : Parser Expr := do
  let start := token.span.start
  match token.text.toLower with
  | "true" | "false" | "null" =>
    discard take
    otherFrom start
  | "array" =>
    if (← peekAt 1).isSymbol "(" then
      discard take
      return .array (← elements rules "(" ")") (← spanFrom start)
    else strayOperand
  | "list" =>
    if (← peekAt 1).isSymbol "(" then
      discard take
      return .array (← elements rules "(" ")") (← spanFrom start)
    else strayOperand
  | "static" =>
    discard take
    if (← peek).isWord "fn" || (← peek).isWord "function" then functionLiteral rules start else otherFrom start
  | "fn" | "function" => functionLiteral rules start
  | "new" =>
    discard take
    newObject rules start
  | "clone" => cloned rules
  | "print" => prefixed rules Binding.printing
  | "throw" => prefixed rules 0
  | "yield" =>
    discard take
    yielding rules start
  | "include" => included rules .plain
  | "include_once" => included rules .plainOnce
  | "require" => included rules .required
  | "require_once" => included rules .requiredOnce
  | "match" =>
    discard take
    matchArms rules
    otherFrom start
  | word =>
    if constructWords.contains word then construct rules token
    else if token.isReserved then strayOperand
    else
      discard take
      return .name token.text (← spanFrom start)

/-- An operand that begins with a symbol. -/
def symbolOperand (token : Token) : Parser Expr := do
  let start := token.span.start
  match token.text with
  | "(" =>
    discard take
    let inner ← rules.expression 0
    expect ")"
    return .parenthesized inner (← spanFrom start)
  | "[" => return .array (← elements rules "[" "]") (← spanFrom start)
  | "#[" =>
    discard <| attributeGroups rules
    discard <| acceptWord "static"
    functionLiteral rules start
  | "$" | "$\x7b" =>
    variableName rules
    otherFrom start
  | "!" => prefixed rules Binding.negation
  | "&" =>
    discard take
    let inner ← rules.expression Binding.sign
    return .reference inner (← spanFrom start)
  | "-" | "+" | "~" | "@" | "++" | "--" => prefixed rules Binding.sign
  | _ => strayOperand

def atom : Parser Expr := do
  let token ← peek
  let start := token.span.start
  match token.kind with
  | .variable =>
    discard take
    otherFrom start
  | .number =>
    discard take
    return .number token.text token.span
  | .literal =>
    discard take
    return .quoted token.text false token.span
  | .mark =>
    let closing := String.ofList (token.text.toList.getLast?.toList)
    composite rules fun next => next.kind == .mark && next.text == closing
    let span ← spanFrom start
    if closing == "\x60" then return .other span else return .quoted (← textOf span) true span
  | .documentStart =>
    composite rules (·.kind == .documentEnd)
    otherFrom start
  | .cast => prefixed rules Binding.sign
  | .qualified | .absolute =>
    discard take
    return .name token.text token.span
  | .word => wordOperand rules token
  | .symbol => symbolOperand rules token
  | _ => strayOperand

/-- Joins an operand with what follows it by operators that bind at least as strongly as the
floor. An assignment takes what stands in front of it whatever the floor. -/
def joined (floor start : Nat) : (bound : Nat) → Expr → Parser Expr
  | 0, operand => return operand
  | bound + 1, operand => do
    let next ← peek
    if isAssignment next then
      discard take
      discard <| rules.expression Binding.assignment
      joined floor start bound (← otherFrom start)
    else if next.isSymbol "?" && floor ≤ Binding.conditional then
      discard take
      if !(← accept ":") then
        discard <| rules.expression 0
        expect ":"
      discard <| rules.expression Binding.coalesce
      joined floor start bound (← otherFrom start)
    else
      match Binding.ofToken? next with
      | some (binding, operandFloor) =>
        if binding < floor then return operand
        discard take
        discard <| rules.expression operandFloor
        joined floor start bound (← otherFrom start)
      | none => return operand

def expression (floor : Nat) : Parser Expr := do
  let start := (← peek).span.start
  let bound := (← get).rest.length + 1
  let operand ← suffixes rules floor start bound (← atom rules)
  joined rules floor start bound operand

end TestScout.Surface.Lenient
