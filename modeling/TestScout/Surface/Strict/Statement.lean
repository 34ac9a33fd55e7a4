import TestScout.Surface.Strict.Declaration

/-! Statements. Those that discovery does not look into are read for where they end. -/

namespace TestScout.Surface.Strict
open Strict.Parser Code

variable (rules : Rules)

/-- The statements and the stretches outside of the tags, up to a keyword or a symbol that
ends them. -/
def statementsTo (closing : List String) : Parser (List Stmt) := do
  loop (← read).bound
where
  outsides : Parser (List Stmt) := do
    discard due
    return (← get).extras.filterMap fun
      | .remark _ => none
      | .outside span => some (.other span)
  loop : Nat → Parser (List Stmt)
    | 0 => failure
    | bound + 1 => do
      let passed ← outsides
      let text ← due
      let word := wordOf text
      if text.isEmpty || closing.contains (symbolOf text) || Scan.isAnyKeyword closing word then return passed
      else
        let first ← rules.statement
        return passed ++ first :: (← loop bound)

/-- Gives a namespace without braces what follows it, up to the next namespace. -/
def gathered (statements : List Stmt) : List Stmt :=
  let (near, far) := statements.foldr gather ([], [])
  near ++ far
where
  gather (statement : Stmt) : List Stmt × List Stmt → List Stmt × List Stmt
    | (near, far) =>
      match statement with
      | .space node =>
        if node.isBraced then ([], statement :: near ++ far)
        else
          let stop := (near.getLast?.map (·.span.stop)).getD node.span.stop
          ([], .space { node with statements := near, span := ⟨node.span.start, stop⟩ } :: far)
      | _ => (statement :: near, far)

def block : Parser Block := inside do
  let start ← start
  expect "\x7b"
  let statements ← statementsTo rules ["\x7d"]
  expect "\x7d"
  return ⟨statements, ← spanFrom start⟩

def otherStatement (start : Nat) : Parser Stmt := return .other (← spanFrom start)

/-- The end of a statement that discovery does not look into. -/
def ended (start : Nat) : Parser Stmt := return .other (← boundsFrom start).span

def values : Parser (List Expr) := separated (value rules)

/-- Statements between a colon and a keyword. -/
def colonBody (start : Nat) (last : String) : Parser Stmt := do
  expect ":"
  discard <| statementsTo rules [last]
  expectWord last
  ended start

/-- The body of a loop: one statement, or statements behind a colon. -/
def body (start : Nat) (last : String) : Parser Stmt := do
  if ← atSymbol ":" then colonBody rules start last
  else
    discard rules.statement
    otherStatement start

/-- A body as above, which may also be only the end of a statement. -/
def bodyOrEnd (start : Nat) (last : String) : Parser Stmt := do
  if ← closing (atSymbol "?>") then ended start else body rules start last

/-- The branches of an `if` that is written with colons. -/
def colonBranches : Parser Unit := do
  branch
  discard <| many (acceptWord "elseif") do
    discard <| parenthesized rules
    branch
  if ← acceptWord "else" then branch
  expectWord "endif"
where
  branch : Parser Unit := do
    expect ":"
    discard <| statementsTo rules ["elseif", "else", "endif"]

def conditional (start : Nat) : Parser Stmt := do
  discard anyWord
  discard <| parenthesized rules
  if ← atSymbol ":" then
    colonBranches rules
    ended start
  else
    discard rules.statement
    discard <| many (acceptWord "elseif") do
      discard <| parenthesized rules
      rules.statement
    if ← acceptWord "else" then discard rules.statement
    otherStatement start

def loopFor (start : Nat) : Parser Stmt := do
  discard anyWord
  inside do
    expect "("
    valuesTo ";"
    valuesTo ";"
    valuesTo ")"
  bodyOrEnd rules start "endfor"
where
  valuesTo (closing : String) : Parser Unit := do
    if !(← atSymbol closing) then discard <| values rules
    expect closing

def loopEach (start : Nat) : Parser Stmt := do
  discard anyWord
  inside do
    expect "("
    discard <| value rules
    expectWord "as"
    let first ← target
    if first.isValue && (← accept "=>") then discard target
    expect ")"
  bodyOrEnd rules start "endforeach"
where
  target : Parser Operand := do
    let operand ← elementValue rules
    if operand.isValue || operand.pattern?.isSome then return operand else failure

def cases (last : String) : Parser Unit := do
  discard <| many (atAnyWord ["case", "default"]) do
    closing do
      if !(← acceptWord "default") then
        expectWord "case"
        discard <| value rules
      if !(← accept ":") then discard semicolon
    statementsTo rules ["case", "default", last]

def choice (start : Nat) : Parser Stmt := do
  discard anyWord
  discard <| parenthesized rules
  if ← accept ":" then
    cases rules "endswitch"
    expectWord "endswitch"
    ended start
  else
    expect "\x7b"
    cases rules "\x7d"
    expect "\x7d"
    otherStatement start

def attempt (start : Nat) : Parser Stmt := do
  discard anyWord
  discard rules.block
  handler
  discard <| many (atAnyWord ["catch", "finally"]) handler
  otherStatement start
where
  handler : Parser Unit := do
    if ← acceptWord "finally" then discard rules.block
    else
      expectWord "catch"
      inside do
        expect "("
        discard fullName
        discard <| many (accept "|") fullName
        if ← atSymbol "$" then variableName
        expect ")"
      discard rules.block

/-- The setting that a `declare` is about. Its name is read with regard to case, and its
value is a literal. -/
def directive : Parser Unit := inside do
  expect "("
  let name ← anyWord
  if !(["ticks", "encoding", "strict_types"].contains name) then failure
  expect "="
  let text ← due
  let isLiteral := Scan.isAnyKeyword ["true", "false", "null"] (wordOf text) ||
    !(text.head?.any fun c => "$([#\\\x60".toList.contains c || Scan.isNameStart c) ||
    (match text with
      | c :: mark :: _ => (c == 'b' || c == 'B') && (mark == '"' || mark == '\x27')
      | _ => false)
  if !isLiteral then failure
  discard <| atom rules
  expect ")"

def declaration (start : Nat) : Parser Stmt := do
  discard anyWord
  directive rules
  bodyOrEnd rules start "enddeclare"

/-- A keyword with what it is about, which may be missing. -/
def keywordStatement (start : Nat) (operands : Parser Unit) (mayMiss : Bool) : Parser Stmt := do
  discard anyWord
  closing do
    if !(mayMiss && [";", "?>"].contains (symbolOf (← next))) then operands
  ended start

/-- A namespace. What follows one without braces is not a part of it here. -/
def space (start : Nat) : Parser Stmt := do
  discard anyWord
  let nameStart ← Parser.start
  let isNamed := !(← atSymbol "\x7b")
  if isNamed then
    discard anyWord
    segments
  let name ← if isNamed then textOf (← spanFrom nameStart) else pure ""
  if ← closing (atSymbol "\x7b") then
    let block ← rules.block
    return .space ⟨name, gathered block.statements, true, ← spanFrom start⟩
  else
    let bounds ← boundsFrom start
    return .space ⟨name, [], false, bounds.span⟩

def expressionStatement : Parser Stmt := do
  let start ← start
  let remarks ← remarks
  let value ← closing (value rules)
  return .expression value remarks (← boundsFrom start)

def returned (start : Nat) : Parser Stmt := do
  discard anyWord
  let found ← closing do
    if [";", "?>"].contains (symbolOf (← next)) then pure none
    else
      let outside ← outside?
      some <$> firstOf outside <$> value rules
  return .returned found (← boundsFrom start)

def leaving (start : Nat) : Parser Stmt := do
  discard anyWord
  if ← closing (atSymbol "(") then
    inside do
      expect "("
      if !(← atSymbol ")") then discard <| value rules
      expect ")"
  ended start

def removal (start : Nat) : Parser Stmt := do
  discard anyWord
  inside do
    expect "("
    discard removed
    discard <| many (accept ",") do
      if !(← atSymbol ")") then discard removed
    expect ")"
  ended start
where
  removed : Parser Unit := do
    if !(← rules.operand).isVariable then failure

/-- Whether a function without a name stands here, and so an expression. -/
def isNameless : Parser Bool := do
  let nameless : Parser Unit := do
    discard <| attributeGroups rules
    discard <| acceptWord "static"
    if !(← acceptWord "fn") then
      expectWord "function"
      discard <| accept "&"
      expect "("
  return (← ahead nameless).isSome

/-- A declaration behind attributes or modifiers. -/
def frontedDeclaration : Parser Stmt := do
  let front ← front rules
  if ← atWord "class" then classDecl rules front
  else if ← atWord "const" then
    constants rules
    otherStatement front.start
  else if !front.modifiers.isEmpty then failure
  else if ← atWord "trait" then traitDecl rules front
  else if ← atWord "interface" then interfaceDecl rules front
  else if ← atWord "enum" then enumDecl rules front
  else functionDecl rules front

/-- What stands behind the keyword for what lives as long as the program: variables, a
class by mistake, or an expression. -/
def staticStatement (start : Nat) : Parser Stmt := do
  let named : Parser Unit := do
    discard anyWord
    expect "$"
  let declared : Parser Unit := do
    discard modifiers
    if Scan.isAnyKeyword ["class", "const"] (wordOf (← due)) then return () else failure
  if (← ahead named).isSome then
    let declared : Parser Unit := do
      variableName
      initialValue rules
    keywordStatement start (discard <| separated declared) false
  else if (← ahead declared).isSome then frontedDeclaration rules
  else expressionStatement rules

/-- A mark to jump to, when one stands here. -/
def mark? : Parser (Option Stmt) := do
  let start ← start
  let mark : Parser Unit := do
    discard declaredName
    expect ":"
  if (← ahead mark).isSome then
    mark
    return some (.other (← spanFrom start))
  else return none

def wordStatement (word : List Char) : Parser Stmt := do
  let start ← start
  match String.ofList (word.map Scan.fold) with
  | "namespace" =>
    let relative : Parser Unit := do
      discard anyWord
      expect "\\"
    if (← ahead relative).isSome then expressionStatement rules else space rules start
  | "use" => imports
  | "class" | "trait" | "interface" | "enum" | "abstract" | "final" | "readonly" | "public" | "protected"
  | "private" | "var" | "const" => frontedDeclaration rules
  | "function" => if ← isNameless rules then expressionStatement rules else frontedDeclaration rules
  | "static" => staticStatement rules start
  | "return" => returned rules start
  | "if" => conditional rules start
  | "for" => loopFor rules start
  | "foreach" => loopEach rules start
  | "while" =>
    discard anyWord
    discard <| parenthesized rules
    body rules start "endwhile"
  | "do" =>
    discard anyWord
    discard rules.statement
    expectWord "while"
    discard <| parenthesized rules
    ended start
  | "switch" => choice rules start
  | "try" => attempt rules start
  | "declare" => declaration rules start
  | "goto" => keywordStatement start (discard declaredName) false
  | "echo" => keywordStatement start (discard <| values rules) false
  | "break" | "continue" => keywordStatement start (discard <| value rules) true
  | "global" => keywordStatement start (discard <| separated (simpleVariable rules)) false
  | "exit" => leaving rules start
  | _ =>
    if word == "unset".toList then removal rules start
    else
      match ← mark? with
      | some statement => return statement
      | none => expressionStatement rules

def statement : Parser Stmt := do
  let start ← start
  let text ← due
  match text with
  | '\x7b' :: _ => return .block (← rules.block)
  | ';' :: _ =>
    takeToken 1
    otherStatement start
  | '#' :: '[' :: _ =>
    if ← isNameless rules then expressionStatement rules else frontedDeclaration rules
  | _ =>
    let word := wordOf text
    if word.isEmpty || isText text then expressionStatement rules else wordStatement rules word
where
  /-- Whether the letter for binary text stands in front of a text. -/
  isText : List Char → Bool
    | c :: mark :: _ => (c == 'b' || c == 'B') && (mark == '"' || mark == '\x27')
    | _ => false

end TestScout.Surface.Strict
