import TestScout.Surface.Strict.Expression

/-! Declarations: functions, classes and their members, imports. -/

namespace TestScout.Surface.Strict
open Strict.Parser Code

variable (rules : Rules)

/-- What stands in front of a declaration. -/
structure Front where
  start : Nat
  remarks : List Remark
  attributes : List AttributeText
  modifiers : List String

def front : Parser Front := do
  let start ← start
  let remarks ← remarks
  let attributes ← attributeGroups rules
  return ⟨start, remarks, attributes, ← modifiers⟩

/-- The name of a function, with its parameters and its type. -/
def functionHead : Parser String := do
  expectWord "function"
  discard <| accept "&"
  let name ← anyWord
  parameters rules
  closing returnType
  return name

/-- The visibility that the first modifier for one sets. One that is restricted to writing
leaves everything visible. -/
def visibilityOf (modifiers : List String) : Visibility :=
  match modifiers.find? fun modifier => visibilityWords.any fun word => (Text.after? word.toList modifier.toList).isSome with
  | some modifier => (Visibility.ofWord? modifier).getD .publicAccess
  | none => .publicAccess

def method (front : Front) : Parser Method := do
  let name ← functionHead rules
  let body ←
    if ← atSymbol "\x7b" then some <$> rules.block
    else do
      discard semicolon
      pure none
  return {
    name, body
    visibility := visibilityOf front.modifiers
    isAbstract := front.modifiers.contains "abstract"
    isStatic := front.modifiers.contains "static"
    remarks := front.remarks
    attributes := front.attributes
    span := ← spanFrom front.start }

/-- The trait and the method that an adaptation is about. -/
def adapted : Parser (Option String × String) := do
  let qualified : Parser (String × String) := do
    let ofTrait ← fullName
    expect "::"
    return (ofTrait, ← anyWord)
  match ← ahead qualified with
  | some (ofTrait, name) =>
    discard qualified
    return (some ofTrait, name)
  | none => return (none, ← anyWord)

def adaptation : Parser AdaptationText := do
  let start ← start
  let (ofTrait, name) ← adapted
  let reading ←
    if ← acceptWord "insteadof" then
      pure (Adaptation.precedence (ofTrait.getD "") name [← anyWord])
    else do
      expectWord "as"
      let visibility ← if ← closing (atAnyWord visibilityWords) then some <$> modifier else pure none
      let isNamed := visibility.isNone || Scan.word (← closing next) != 0
      let newName ← if isNamed then some <$> declaredName else pure none
      pure (.rename ofTrait name newName (visibility.bind Visibility.ofWord?))
  let text ← textOf (← spanFrom start)
  discard semicolon
  return ⟨text, reading⟩

def traitUse : Parser TraitUse := do
  let start ← start
  expectWord "use"
  let names ← closing (separated fullName)
  if ← closing (accept "\x7b") then
    let adaptations ← many (return !(← atSymbol "\x7d")) adaptation
    expect "\x7d"
    return ⟨names, adaptations, ← spanFrom start⟩
  else
    discard semicolon
    return ⟨names, [], ← spanFrom start⟩

/-- Constants of a class or a namespace, with an optional type. -/
def constants : Parser Unit := do
  expectWord "const"
  let untyped : Parser Unit := do
    discard anyWord
    expect "="
  if (← ahead untyped).isNone then typeHint
  discard <| closing <| separated do
    untyped
    value rules
  discard semicolon

def property : Parser Unit := do
  if !(← atSymbol "$") then typeHint
  closing do
    discard <| separated do
      variableName
      initialValue rules
  if ← closing (atSymbol "\x7b") then accessors rules else discard semicolon

def enumCase : Parser Unit := do
  expectWord "case"
  closing do
    discard anyWord
    initialValue rules
  discard semicolon

/-- A member of a class, or of an enumeration, which has cases but no properties. -/
def member (inEnum : Bool) : Parser Member := do
  if ← atWord "use" then return .traitUse (← traitUse)
  let front ← front rules
  if ← atWord "function" then return .method (← method rules front)
  else if ← atWord "const" then constants rules
  else if inEnum && front.modifiers.isEmpty && (← atWord "case") then enumCase rules
  else if inEnum || front.modifiers.isEmpty then failure
  else property rules
  return .other (← spanFrom front.start)

def membersOf (inEnum : Bool) : Parser (List Member) := do
  expect "\x7b"
  let members ← many (return !(← atSymbol "\x7d")) (member rules inEnum)
  expect "\x7d"
  return members

def classDecl (front : Front) : Parser Stmt := do
  expectWord "class"
  let name ← declaredName
  let parents ← nameList "extends"
  discard <| nameList "implements"
  let body ← rules.members
  return .classDecl {
    name, parents, body
    isAbstract := front.modifiers.contains "abstract"
    remarks := front.remarks
    attributes := front.attributes
    span := ← spanFrom front.start }

def traitDecl (front : Front) : Parser Stmt := do
  expectWord "trait"
  let name ← declaredName
  let body ← rules.members
  return .traitDecl {
    name, body
    remarks := front.remarks
    attributes := front.attributes
    span := ← spanFrom front.start }

def interfaceDecl (front : Front) : Parser Stmt := do
  expectWord "interface"
  discard declaredName
  discard <| nameList "extends"
  discard rules.members
  return .other (← spanFrom front.start)

def enumDecl (front : Front) : Parser Stmt := do
  expectWord "enum"
  discard declaredName
  returnType
  discard <| nameList "implements"
  discard <| membersOf rules true
  return .other (← spanFrom front.start)

def functionDecl (front : Front) : Parser Stmt := do
  discard <| functionHead rules
  discard rules.block
  return .other (← spanFrom front.start)

/-- The keyword for what is imported, when it is written. -/
def importKind? : Parser (Option ImportKind) := do
  if ← acceptWord "function" then return some .function
  else if ← acceptWord "const" then return some .const
  else return none

/-- An imported name. A kind of its own wins over the one of the group. -/
def importItem (kind : ImportKind) : Parser Import := do
  let own ← importKind?
  let name ← fullName
  let newName ← if ← acceptWord "as" then some <$> declaredName else pure none
  return ⟨relativeName name, newName, own.getD kind⟩

/-- What stands in front of the names of a group: the kind of all and the namespace they share. -/
def groupFront : Parser (ImportKind × String) := do
  let kind := (← importKind?).getD .classLike
  let start ← start
  discard anyWord
  let further : Parser Unit := do
    expect "\\"
    discard anyWord
  discard <| many (return (← ahead further).isSome) further
  let shared ← textOf (← spanFrom start)
  expect "\\"
  expect "\x7b"
  return (kind, shared)

def imports : Parser Stmt := do
  let start ← start
  expectWord "use"
  match ← ahead groupFront with
  | some (kind, shared) =>
    discard groupFront
    let items ← inside (separated (importItem kind))
    expect "\x7d"
    return .imports { kind, shared := some shared, items } (← boundsFrom start)
  | none =>
    let items ← closing (separated (importItem .classLike))
    return .imports { kind := .classLike, items } (← boundsFrom start)

end TestScout.Surface.Strict
