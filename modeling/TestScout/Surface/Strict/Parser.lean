import TestScout.Surface.Strict.Scan
import TestScout.Surface.Tree

/-! The steps that the strict reader of PHP source is built from. A step looks at the text
for the tokens that may stand there and takes them off its front; one that finds none of them
fails, and the whole source has no tree. -/

namespace TestScout.Surface.Strict

/-- What may stand between any two tokens besides blanks. -/
inductive Extra where
  | remark (remark : Remark)
  /-- A stretch outside of the tags, with the tags around it. -/
  | outside (span : Span)

structure State where
  rest : List Char
  offset : Nat := 0
  /-- Where the last token taken stops. -/
  last : Nat := 0
  /-- What has been passed over since then, in order. -/
  extras : List Extra := []

structure Context where
  source : List Char
  /-- More than any sequence in the source has parts. -/
  bound : Nat
  /-- Whether a statement may end behind what is being read, so that a closing tag ends it. -/
  endsStatement : Bool := false

abbrev Parser := ReaderT Context (StateT State Option)

namespace Parser

/-- Passes over what a span tells, without taking it for a token. -/
def passOver (size : Nat) (extra : Span → List Char → Option Extra) : Parser Unit :=
  modify fun state =>
    let taken := state.rest.take size
    let next := state.offset + Text.byteLength taken
    { state with
      rest := state.rest.drop size
      offset := next
      extras := state.extras ++ (extra ⟨state.offset, next⟩ taken).toList }

def passGaps : Parser Unit := do
  let size := ((← get).rest.takeWhile Scan.isGap).length
  if size != 0 then passOver size fun _ _ => none

/-- The number of characters of a stretch outside of the tags, behind the closing tag. It goes
up to and with the next opening tag, or to the last thing that stands in the source but for
blanks and for what looks like comments. -/
def outsideLength (bound : Nat) (text : List Char) : Nat :=
  match bound with
  | 0 => 0
  | bound + 1 =>
    let blank := (text.takeWhile Scan.isGap).length
    let found := text.drop blank
    if found.isEmpty || (Scan.behindRemarks false text).isEmpty then 0
    else
      let tag := Scan.openTag found
      if tag != 0 then blank + tag
      else
        let size := Scan.markup found
        blank + size + outsideLength bound (found.drop size)

/-- Passes over blanks, comments, and stretches outside of the tags. Where a statement may end,
it stops in front of a closing tag, and tells whether it did. -/
def settle (stopsAtTag : Bool) : Parser Bool := do
  loop (← read).bound
where
  loop : Nat → Parser Bool
    | 0 => return false
    | bound + 1 => do
      if stopsAtTag && Scan.endsAtTag (← get).rest then return true
      passGaps
      let text := (← get).rest
      let size := Scan.comment text
      if size != 0 then
        passOver size fun span taken => some (.remark ⟨String.ofList taken, span⟩)
        loop bound
      else if (Text.after? ['?', '>'] text).isSome then
        let size := 2 + outsideLength bound (text.drop 2)
        passOver size fun span _ => some (.outside span)
        loop bound
      else return false

/-- The text in front of which a token has to stand. -/
def due : Parser (List Char) := do
  discard <| settle false
  return (← get).rest

/-- The text in front of which a token may stand. When the statement may also end here, a
closing tag further on is all that counts. -/
def next : Parser (List Char) := do
  if ← settle (← read).endsStatement then return ['?', '>'] else return (← get).rest

/-- Takes a token of so many characters. -/
def takeToken (size : Nat) : Parser Unit :=
  modify fun state =>
    let stop := state.offset + Text.byteLength (state.rest.take size)
    ⟨state.rest.drop size, stop, stop, []⟩

/-- Takes the longest token of a kind, which has to stand here, and gives its span. -/
def token (kind : List Char → Nat) : Parser Span := do
  let text ← due
  let start := (← get).offset
  let size := kind text
  if size == 0 then failure
  takeToken size
  return ⟨start, (← get).last⟩

/-- The symbol at the front of a text, cut off as far as it goes. -/
def symbolOf (text : List Char) : String := String.ofList (Scan.symbol (fun _ => true) text)

def wordOf (text : List Char) : List Char := text.take (Scan.word text)

def expect (symbol : String) : Parser Unit := do
  if symbolOf (← due) == symbol then takeToken symbol.length else failure

/-- Takes the keyword that has to stand here, given in small letters. -/
def expectWord (keyword : String) : Parser Unit := do
  if Scan.isKeyword keyword (wordOf (← due)) then takeToken keyword.length else failure

def atSymbol (symbol : String) : Parser Bool := return symbolOf (← next) == symbol

def atWord (keyword : String) : Parser Bool := return Scan.isKeyword keyword (wordOf (← next))

/-- Takes a symbol if it stands here, and tells whether it did. -/
def accept (symbol : String) : Parser Bool := do
  if ← atSymbol symbol then
    takeToken symbol.length
    return true
  else return false

def acceptWord (keyword : String) : Parser Bool := do
  if ← atWord keyword then
    takeToken keyword.length
    return true
  else return false

/-- Takes a word, whatever it is, and gives it as it is written. -/
def anyWord : Parser String := do
  let word := wordOf (← due)
  if word.isEmpty then failure
  takeToken word.length
  return String.ofList word

/-- Runs a parser and takes nothing back but its result. -/
def ahead (parser : Parser α) : Parser (Option α) := fun context state =>
  match parser context state with
  | some (found, _) => some (some found, state)
  | none => some (none, state)

/-- Reads inside of brackets, where no statement ends. -/
def inside (parser : Parser α) : Parser α := withReader ({ · with endsStatement := false }) parser

/-- Reads the end of a statement. -/
def closing (parser : Parser α) : Parser α := withReader ({ · with endsStatement := true }) parser

/-- Where the next token starts. -/
def start : Parser Nat := do
  discard due
  return (← get).offset

/-- The span from an offset to the last token taken. -/
def spanFrom (start : Nat) : Parser Span := return ⟨start, (← get).last⟩

/-- The source text in a span. -/
def textOf (span : Span) : Parser String := do
  let source := (← read).source
  return String.ofList (Text.takeBytes (span.stop - span.start) (Text.dropBytes span.start source))

/-- The comments in front of the next token that nothing separates from it. -/
def remarks : Parser (List Remark) := do
  discard due
  let near := (← get).extras.reverse.takeWhile fun
    | .remark _ => true
    | .outside _ => false
  return near.reverse.filterMap fun
    | .remark remark => some remark
    | .outside _ => none

/-- The first stretch outside of the tags in front of the next token. -/
def outside? : Parser (Option Span) := do
  discard due
  return (← get).extras.findSome? fun
    | .remark _ => none
    | .outside span => some span

/-- Repeats a parser as long as a condition holds. -/
def many (continues : Parser Bool) (item : Parser α) : Parser (List α) := do
  loop (← read).bound
where
  loop : Nat → Parser (List α)
    | 0 => failure
    | bound + 1 => do
      if ← continues then
        let first ← item
        return first :: (← loop bound)
      else return []

/-- At least one item, with commas between each two. -/
def separated (item : Parser α) : Parser (List α) := do
  let first ← item
  return first :: (← many (accept ",") item)

/-- Items with commas between each two, up to a bracket. A comma may stand behind the last
one, even when there is none. -/
def listed (closing : String) (item : Parser α) : Parser (List α) := do
  loop (← read).bound
where
  loop : Nat → Parser (List α)
    | 0 => failure
    | bound + 1 => do
      if ← atSymbol closing then return []
      let first ← item
      if ← accept "," then return first :: (← loop bound) else return [first]

/-- Items as above; a comma may also stand by itself. -/
def listedOrNone (closing : String) (item : Parser α) : Parser (List α) := do
  if ← accept "," then return [] else listed closing item

/-- The end of a statement: a semicolon, or a closing tag, which is left where it is. What has
been passed over on the way to the tag belongs to the statement. -/
def semicolon : Parser Terminator := closing do
  let text ← next
  if symbolOf text == ";" then
    takeToken 1
    return .semicolon
  else if symbolOf text == "?>" then
    modify fun state => { state with last := lastRemark state.last state.extras }
    return .closeTag
  else failure
where
  lastRemark (stop : Nat) : List Extra → Nat
    | [] => stop
    | .remark remark :: rest => lastRemark remark.span.stop rest
    | .outside _ :: rest => lastRemark stop rest

/-- The end of the statement that starts at an offset. -/
def boundsFrom (start : Nat) : Parser Bounds := do
  let written ← spanFrom start
  let terminator ← semicolon
  let span ← spanFrom start
  return ⟨if terminator = .closeTag then span else written, span, terminator⟩

end Parser

/-- How a list of variables to take values is written. -/
inductive Pattern where
  | brackets
  /-- With the keyword for it. -/
  | words
deriving Repr, DecidableEq

/-- A part of an expression, and what may be done with it. -/
structure Operand where
  value : Expr
  /-- Whether it is a value by itself. -/
  isValue : Bool := true
  /-- Whether it can take a value. -/
  isVariable : Bool := false
  /-- The kind of list of variables to take values that it is, if it is one. -/
  pattern? : Option Pattern := none
  /-- Whether members and elements of it can be named. -/
  isObject : Bool := false
  /-- Whether static members of it can be named. -/
  isScope : Bool := false
  isCallable : Bool := false
  /-- Whether it can be tested for its class. -/
  isTight : Bool := true

namespace Operand

/-- What has members, elements and static members, and can be called. -/
def object (value : Expr) : Operand := { value, isObject := true, isScope := true, isCallable := true }

/-- An object that can take a value. -/
def holder (value : Expr) : Operand := { object value with isVariable := true }

end Operand

/-- The parsers for what nests inside of itself. -/
structure Rules where
  expression : Parser Operand
  /-- An operand without the operators behind it. -/
  operand : Parser Operand
  parameters : Parser Unit
  statement : Parser Stmt
  block : Parser Block
  /-- The members of a class, with the braces around them. -/
  members : Parser (List Member)

end TestScout.Surface.Strict
