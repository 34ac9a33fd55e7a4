import TestScout.Surface.Lenient.Declaration

/-! Statements. Those that discovery does not look into are read for where they end. -/

namespace TestScout.Surface.Lenient
open Lenient.Parser Code

variable (rules : Rules)

/-- Statements as long as the next token continues them. One that fails is lost. -/
def statementsWhile (continues : Token → Bool) : Parser (List Stmt) := survivors continues rules.statement

def block : Parser Block := do
  let start := (← peek).span.start
  expect "\x7b"
  let statements ← statementsWhile rules (!·.isSymbol "\x7d")
  expect "\x7d"
  return ⟨statements, ← spanFrom start⟩

def otherStatement (start : Nat) : Parser Stmt := return .other (← spanFrom start)

/-- The end of a statement that discovery does not look into. -/
def ended (start : Nat) : Parser Stmt := return .other (← boundsFrom start).span

def condition : Parser Unit := do
  expect "("
  discard <| rules.expression 0
  expect ")"

/-- Expressions with commas between them, up to a closing symbol. -/
def expressionsTo (closing : String) : Parser (List Expr) := listedTo (·.isSymbol closing) (rules.expression 0)

/-- The body of a control structure: one statement, or statements between a colon and a keyword. -/
def body (start : Nat) (closing : String) : Parser Stmt := do
  if ← accept ":" then
    discard <| statementsWhile rules (!·.isWord closing)
    expectWord closing
    ended start
  else
    discard rules.statement
    otherStatement start

def isBranch (token : Token) : Bool := token.isWord "elseif" || token.isWord "else" || token.isWord "endif"

/-- The branches of an `if` that is written with colons, behind the first colon. -/
def colonBranches : (bound : Nat) → Parser Unit
  | 0 => throw .nesting
  | bound + 1 => do
    discard <| statementsWhile rules (!isBranch ·)
    if ← acceptWord "elseif" then
      condition rules
      expect ":"
      colonBranches bound
    else if ← acceptWord "else" then
      expect ":"
      colonBranches bound
    else expectWord "endif"

def conditional (start : Nat) : Parser Stmt := do
  discard take
  condition rules
  if ← accept ":" then
    colonBranches rules (← get).rest.length
    ended start
  else
    discard rules.statement
    discard <| repeatWhile (·.isWord "elseif") do
      discard take
      condition rules
      rules.statement
    if ← acceptWord "else" then discard rules.statement
    otherStatement start

def loopFor (start : Nat) : Parser Stmt := do
  discard take
  expect "("
  discard <| expressionsTo rules ";"
  expect ";"
  discard <| expressionsTo rules ";"
  expect ";"
  discard <| expressionsTo rules ")"
  expect ")"
  body rules start "endfor"

def loopEach (start : Nat) : Parser Stmt := do
  discard take
  expect "("
  discard <| rules.expression 0
  expectWord "as"
  discard <| rules.expression 0
  if ← accept "=>" then discard <| rules.expression 0
  expect ")"
  body rules start "endforeach"

def cases (closing : Token → Bool) : Parser Unit := do
  discard <| repeatWhile (fun token => token.isWord "case" || token.isWord "default") do
    if ← acceptWord "default" then pure ()
    else
      expectWord "case"
      discard <| rules.expression 0
    if !(← accept ":") then expect ";"
    statementsWhile rules fun token => !(token.isWord "case" || token.isWord "default" || closing token)

/-- What ends a statement may stand in front of the first case. -/
def choice (start : Nat) : Parser Stmt := do
  discard take
  condition rules
  if ← accept ":" then
    discard terminator
    cases rules (·.isWord "endswitch")
    expectWord "endswitch"
    ended start
  else
    expect "\x7b"
    discard terminator
    cases rules (·.isSymbol "\x7d")
    expect "\x7d"
    otherStatement start

def attempt (start : Nat) : Parser Stmt := do
  discard take
  discard rules.block
  discard <| repeatWhile (·.isWord "catch") do
    discard take
    expect "("
    typeHint
    discard <| acceptIf (·.kind == .variable)
    expect ")"
    rules.block
  if ← acceptWord "finally" then discard rules.block
  otherStatement start

def declaration (start : Nat) : Parser Stmt := do
  discard take
  expect "("
  discard <| listedTo (·.isSymbol ")") do
    discard plainName
    expect "="
    rules.expression 0
  expect ")"
  if endsStatement (← peek) then ended start else body rules start "enddeclare"

/-- A keyword with variables, expressions or nothing behind it. -/
def keywordStatement (start : Nat) : Parser Stmt := do
  discard take
  if !endsStatement (← peek) then discard <| separated (rules.expression 0)
  ended start

/-- A namespace. One without braces goes on to the next one. -/
def space : Parser Stmt := do
  let start := (← peek).span.start
  discard take
  let isNamed := !(← peek).isSymbol "\x7b"
  let name ← if isNamed then (·.text) <$> fullName else pure ""
  if (← peek).isSymbol "\x7b" then
    let block ← rules.block
    return .space ⟨relativeName name, block.statements, true, ← spanFrom start⟩
  else
    let head ← boundsFrom start
    let statements ← statementsWhile rules (!·.isWord "namespace")
    let stop := (statements.getLast?.map (·.span.stop)).getD head.span.stop
    return .space ⟨relativeName name, statements, false, ⟨start, stop⟩⟩

def expressionStatement : Parser Stmt := do
  let first ← peek
  let value ← rules.expression 0
  return .expression value first.remarks (← boundsFrom first.span.start)

def returned (start : Nat) : Parser Stmt := do
  discard take
  let value ← if endsStatement (← peek) then pure none else some <$> rules.expression 0
  return .returned value (← boundsFrom start)

def shown (start : Nat) : Parser Stmt := do
  discard take
  let first ← peek
  let values ← separated (rules.expression 0)
  let bounds ← boundsFrom first.span.start
  match values with
  | value :: _ => return .shown value first.remarks bounds
  | [] => return .other ⟨start, bounds.span.stop⟩

/-- Whether a function that stands here has no name and so is an expression. -/
def isNameless : Parser Bool := do
  let next ← peekAt 1
  if next.isSymbol "(" then return true
  else if next.isSymbol "&" then return (← peekAt 2).isSymbol "("
  else return false

/-- A declaration behind attributes or modifiers; none when an expression stands here. Only
classes have modifiers. -/
def frontedDeclaration : Parser (Option Stmt) := do
  let saved ← get
  let front ← front rules
  let next ← peek
  if next.isWord "class" then return some (← classDecl rules front)
  else if front.modifiers == ["static"] then
    set saved
    return none
  else if !front.modifiers.isEmpty then throw .unexpected
  else if next.isWord "trait" then return some (← traitDecl rules front)
  else if next.isWord "interface" then return some (← interfaceDecl rules front)
  else if next.isWord "enum" then return some (← enumDecl rules front)
  else if next.isWord "function" && !(← isNameless) then return some (← functionDecl rules front)
  else if next.isWord "const" then
    discard take
    constants rules
    return some (← ended front.start)
  else
    set saved
    return none

def wordStatement (token : Token) : Parser Stmt := do
  let start := token.span.start
  match token.text.toLower with
  | "namespace" => space rules
  | "use" => imports
  | "class" => classDecl rules ⟨start, token.remarks, [], []⟩
  | "trait" => traitDecl rules ⟨start, token.remarks, [], []⟩
  | "interface" => interfaceDecl rules ⟨start, token.remarks, [], []⟩
  | "enum" => enumDecl rules ⟨start, token.remarks, [], []⟩
  | "abstract" | "final" | "readonly" =>
    if (← peekAt 1).isSymbol "(" then expressionStatement rules
    else
      match ← frontedDeclaration rules with
      | some statement => return statement
      | none => throw .unexpected
  | "function" =>
    if ← isNameless then expressionStatement rules else functionDecl rules ⟨start, token.remarks, [], []⟩
  | "const" =>
    discard take
    constants rules
    ended start
  | "static" =>
    if (← peekAt 1).kind == .variable then keywordStatement rules start else expressionStatement rules
  | "return" => returned rules start
  | "if" => conditional rules start
  | "for" => loopFor rules start
  | "foreach" => loopEach rules start
  | "while" =>
    discard take
    condition rules
    body rules start "endwhile"
  | "do" =>
    discard take
    discard rules.statement
    expectWord "while"
    condition rules
    ended start
  | "switch" => choice rules start
  | "try" => attempt rules start
  | "declare" => declaration rules start
  | "goto" =>
    discard take
    discard plainName
    ended start
  | "echo" | "global" | "break" | "continue" => keywordStatement rules start
  | "unset" =>
    discard take
    discard <| bracketed "(" ")" (rules.expression 0)
    ended start
  | "__halt_compiler" =>
    discard take
    expect "("
    expect ")"
    ended start
  | _ =>
    if (← peekAt 1).isSymbol ":" && !token.isReserved then
      discard take
      discard take
      otherStatement start
    else expressionStatement rules

def statement : Parser Stmt := do
  let token ← peek
  let start := token.span.start
  match token.kind with
  | .word => wordStatement rules token
  | .inlineText | .openTag | .closeTag =>
    discard take
    otherStatement start
  | .echoTag => shown rules start
  | _ =>
    if token.isSymbol "\x7b" then return .block (← rules.block)
    else if token.isSymbol ";" then
      discard take
      otherStatement start
    else if token.isSymbol "#[" then
      match ← frontedDeclaration rules with
      | some statement => return statement
      | none => expressionStatement rules
    else
      discard <| peekAt 1
      expressionStatement rules

end TestScout.Surface.Lenient
