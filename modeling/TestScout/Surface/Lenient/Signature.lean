import TestScout.Surface.Lenient.Parser

/-! What stands around the bodies of functions and classes: attributes, arguments, types,
parameters and modifiers. -/

namespace TestScout.Surface.Lenient
open Lenient.Parser

variable (rules : Rules)

/-- What stands in parentheses behind a callee. -/
structure Arguments where
  items : List Argument
  /-- Whether a mark stands for an argument that is still to come. -/
  isPartial : Bool

/-- An argument, or none when a mark stands for it. -/
def argument (mayMiss : Bool) : Parser (Option Argument) := do
  let first ← peek
  let second ← peekAt 1
  let isLabel := first.kind == .word && second.isSymbol ":"
  if isLabel then
    discard take
    discard take
  if mayMiss && (← peek).isSymbol "?" then
    discard take
    return none
  else if isLabel then
    let value ← rules.expression 0
    return some { label := some first.text, value, span := ← spanFrom first.span.start }
  else if ← accept "..." then
    if mayMiss && ((← peek).isSymbol ")" || (← peek).isSymbol ",") then return none
    let value ← rules.expression 0
    return some { isSpread := true, value, span := ← spanFrom first.span.start }
  else
    let value ← rules.expression 0
    return some { value, span := ← spanFrom first.span.start }

/-- The arguments of a call, some of which may be missing. -/
def callArguments : Parser Arguments := do
  let items ← bracketed "(" ")" (argument rules true)
  return ⟨items.filterMap id, items.any Option.isNone⟩

def arguments : Parser (List Argument) := do
  return (← bracketed "(" ")" (argument rules false)).filterMap id

/-- One group of attributes. -/
def attributeGroup : Parser AttributeText := do
  let start := (← peek).span.start
  discard <| bracketed "#[" "]" do
    discard fullName
    if (← peek).isSymbol "(" then discard <| arguments rules
  let span ← spanFrom start
  return ⟨← textOf span, span⟩

def attributeGroups : Parser (List AttributeText) := repeatWhile (·.isSymbol "#[") (attributeGroup rules)

def isTypeName (token : Token) : Bool :=
  token.isName && (!token.isReserved || ["array", "callable", "static"].any token.isWord)

/-- The names and operators of a type. A reference mark belongs to what follows the type. -/
def typeParts : (bound : Nat) → Parser Unit
  | 0 => throw .nesting
  | bound + 1 => do
    if ← accept "(" then
      typeParts bound
      expect ")"
    else discard <| takeIf isTypeName
    let next ← peek
    if next.isSymbol "|" then
      discard take
      typeParts bound
    else if next.isSymbol "&" then
      let following ← peekAt 1
      if isTypeName following || following.isSymbol "(" then
        discard take
        typeParts bound

def typeHint : Parser Unit := do
  discard <| accept "?"
  typeParts ((← get).rest.length)

/-- The type of what a function gives, when it is written. -/
def returnType : Parser Unit := do
  if ← accept ":" then typeHint

def modifierWords : List String :=
  ["public", "protected", "private", "public(set)", "protected(set)", "private(set)", "static", "abstract",
   "final", "readonly"]

def isModifier (token : Token) : Bool := token.kind == .word && modifierWords.contains token.text.toLower

/-- The modifiers, in lower case. -/
def modifiers : Parser (List String) := repeatWhile isModifier (return (← take).text.toLower)

/-- The accessors of a property, in braces. -/
def accessors : Parser Unit := do
  expect "\x7b"
  discard <| repeatWhile (fun token => !token.isSymbol "\x7d") do
    discard <| attributeGroups rules
    discard modifiers
    discard <| accept "&"
    discard plainName
    if (← peek).isSymbol "(" then
      discard take
      discard <| repeatWhile (fun token => !token.isSymbol ")") take
      expect ")"
    if ← accept "=>" then
      discard <| rules.expression 0
      expect ";"
    else if ← accept ";" then pure ()
    else discard rules.block
  expect "\x7d"

def parameter : Parser Unit := do
  discard <| attributeGroups rules
  discard modifiers
  let next ← peek
  if isTypeName next || next.isSymbol "?" || next.isSymbol "(" then typeHint
  discard <| accept "&"
  discard <| accept "..."
  discard <| takeIf (·.kind == .variable)
  if ← accept "=" then discard <| rules.expression 0
  if (← peek).isSymbol "\x7b" then accessors rules

def parameters : Parser Unit := discard <| bracketed "(" ")" (parameter rules)

end TestScout.Surface.Lenient
