import TestScout.Surface.Lenient.Expression

/-! Declarations: functions, classes and their members, imports. -/

namespace TestScout.Surface.Lenient
open Lenient.Parser Code

variable (rules : Rules)

/-- What stands in front of a declaration. -/
structure Front where
  start : Nat
  remarks : List Remark
  attributes : List AttributeText := []
  modifiers : List String := []

def front : Parser Front := do
  let first ← peek
  let attributes ← attributeGroups rules
  return { start := first.span.start, remarks := first.remarks, attributes, modifiers := ← modifiers }

/-- Whether a function gives a reference is not kept. -/
def functionHead : Parser String := do
  expectWord "function"
  discard <| accept "&"
  let name ← plainName
  parameters rules
  returnType
  return name.text

/-- The first of the modifiers that sets a visibility. One that is restricted to writing does not. -/
def visibilityOf (modifiers : List String) : Visibility :=
  (modifiers.findSome? Visibility.ofWord?).getD .publicAccess

def method (front : Front) : Parser Method := do
  let name ← functionHead rules
  let body ← if ← accept ";" then pure none else some <$> rules.block
  return {
    name, body
    visibility := visibilityOf front.modifiers
    isAbstract := front.modifiers.contains "abstract"
    isStatic := front.modifiers.contains "static"
    remarks := front.remarks
    attributes := front.attributes
    span := ← spanFrom front.start }

/-- The trait and the method that an adaptation is about. -/
def adapted : Parser (Option String × String) := do
  if (← peekAt 1).isSymbol "::" then
    let ofTrait ← fullName
    expect "::"
    return (some ofTrait.text, (← plainName).text)
  else return (none, (← plainName).text)

def adaptation : Parser AdaptationText := do
  let start := (← peek).span.start
  let (ofTrait, name) ← adapted
  let reading ←
    match ofTrait, (← peek).isWord "insteadof" with
    | some ofTrait, true =>
      discard take
      let names ← separated fullName
      pure (Adaptation.precedence ofTrait name (names.map (·.text)))
    | _, _ =>
      expectWord "as"
      let next ← peek
      let visibility := if next.kind == .word then Visibility.ofWord? next.text else none
      if visibility.isSome then discard take
      let isNamed := !endsStatement (← peek)
      let newName ← if isNamed then some <$> plainName else pure none
      pure (.rename ofTrait name (newName.map (·.text)) visibility)
  let text ← textOf (← spanFrom start)
  discard <| boundsFrom start
  return ⟨text, reading⟩

def traitUse : Parser TraitUse := do
  let start := (← peek).span.start
  expectWord "use"
  let names := (← separated fullName).map (·.text)
  if ← accept "\x7b" then
    let adaptations ← survivors (!·.isSymbol "\x7d") adaptation
    expect "\x7d"
    return ⟨names, adaptations, ← spanFrom start⟩
  else
    let bounds ← boundsFrom start
    return ⟨names, [], bounds.span⟩

/-- Constants of a class or a namespace, behind the keyword, with an optional type. -/
def constants : Parser Unit := do
  if !(← peekAt 1).isSymbol "=" then typeHint
  discard <| separated do
    discard plainName
    expect "="
    rules.expression 0

/-- Accessors belong to a property that is declared alone. -/
def property (start : Nat) : Parser Span := do
  discard <| acceptWord "var"
  let next ← peek
  if isTypeName next || next.isSymbol "?" || next.isSymbol "(" then typeHint
  item
  if (← peek).isSymbol "\x7b" then
    accessors rules
    spanFrom start
  else
    discard <| repeatWhile (·.isSymbol ",") do
      discard take
      item
    return (← boundsFrom start).span
where
  item : Parser Unit := do
    discard <| takeIf (·.kind == .variable)
    if ← accept "=" then discard <| rules.expression 0

def member : Parser Member := do
  if (← peek).isWord "use" then return .traitUse (← traitUse)
  let front ← front rules
  let next ← peek
  if next.isWord "function" then return .method (← method rules front)
  else if next.isWord "const" then
    discard take
    constants rules
    return .other (← boundsFrom front.start).span
  else if next.isWord "case" then
    discard take
    discard plainName
    if ← accept "=" then discard <| rules.expression 0
    return .other (← boundsFrom front.start).span
  else return .other (← property rules front.start)

def members : Parser (List Member) := do
  expect "\x7b"
  let members ← survivors (!·.isSymbol "\x7d") (member rules)
  expect "\x7d"
  return members

def classDecl (front : Front) : Parser Stmt := do
  expectWord "class"
  let name ← plainName
  let parents ← nameList "extends"
  discard <| nameList "implements"
  let body ← rules.members
  return .classDecl {
    name := name.text, parents, body
    isAbstract := front.modifiers.contains "abstract"
    remarks := front.remarks
    attributes := front.attributes
    span := ← spanFrom front.start }

def traitDecl (front : Front) : Parser Stmt := do
  expectWord "trait"
  let name ← plainName
  let body ← rules.members
  return .traitDecl {
    name := name.text, body
    remarks := front.remarks
    attributes := front.attributes
    span := ← spanFrom front.start }

def interfaceDecl (front : Front) : Parser Stmt := do
  expectWord "interface"
  discard plainName
  discard <| nameList "extends"
  discard rules.members
  return .other (← spanFrom front.start)

def enumDecl (front : Front) : Parser Stmt := do
  expectWord "enum"
  discard plainName
  returnType
  discard <| nameList "implements"
  discard rules.members
  return .other (← spanFrom front.start)

def functionDecl (front : Front) : Parser Stmt := do
  discard <| functionHead rules
  discard rules.block
  return .other (← spanFrom front.start)

/-- The keyword for what is imported, when it is written. -/
def importKind? : Parser (Option ImportKind) := do
  if ← acceptWord "function" then return some .function
  else if ← acceptWord "const" then return some .const
  else return none

def importItem (kind : ImportKind) : Parser Import := do
  let name ← fullName
  let newName ← if ← acceptWord "as" then some <$> plainName else pure none
  return ⟨relativeName name.text, newName.map (·.text), kind⟩

/-- An import of a group, which may have a kind of its own if the group has none. -/
def groupItem (kind? : Option ImportKind) : Parser Import := do
  let kind ← if kind?.isNone then importKind? else pure kind?
  importItem (kind.getD .classLike)

def imports : Parser Stmt := do
  let start := (← peek).span.start
  expectWord "use"
  let kind? ← importKind?
  let kind := kind?.getD .classLike
  if (← peekAt 1).isSymbol "\\" then
    let shared ← fullName
    discard take
    expect "\x7b"
    let items ← listedTo (·.isSymbol "\x7d") (groupItem kind?)
    expect "\x7d"
    return .imports { kind, shared := some (relativeName shared.text), items } (← boundsFrom start)
  else
    let items ← separated (importItem kind)
    return .imports { kind, items } (← boundsFrom start)

end TestScout.Surface.Lenient
