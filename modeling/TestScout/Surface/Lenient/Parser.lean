import TestScout.Surface.Lenient.Lexer
import TestScout.Surface.Tree

/-! The steps that the lenient reader of PHP source is built from. A step that fails leaves the
token that it did not expect where it is; what it was reading is lost, and reading goes on there. -/

namespace TestScout.Surface.Lenient

structure State where
  rest : List Token
  /-- Where the last token taken stops. -/
  last : Nat := 0

inductive Fault where
  | unexpected
  | nesting
deriving Repr

structure Context where
  source : List Char
  /-- How deep what is being read is nested. -/
  depth : Nat := 0

abbrev Parser := ReaderT Context (EStateM Fault State)

namespace Parser

/-- The source text in a span. -/
def textOf (span : Span) : Parser String := do
  let source := (← read).source
  return String.ofList (Text.takeBytes (span.stop - span.start) (Text.dropBytes span.start source))

/-- The token so many places ahead, or what is left when one that cannot be read stands in
front of it. That one is dropped, unless it bars the way. -/
def ahead? : (index : Nat) → List Token → Except (List Token) (Option Token)
  | _, [] => .ok none
  | index, token :: rest =>
    if token.kind == .fault then .error rest
    else if token.kind == .barrier then .error (token :: rest)
    else
      match index with
      | 0 => .ok (some token)
      | index + 1 =>
        match ahead? index rest with
        | .ok found => .ok found
        | .error rest => .error (token :: rest)

/-- A token that is still to come; behind the last one there is only the ending. -/
def peekAt (index : Nat) : Parser Token := do
  let state ← get
  match ahead? index state.rest with
  | .ok (some token) => return token
  | .ok none => return ⟨.ending, "", ⟨state.last, state.last⟩, []⟩
  | .error rest =>
    set { state with rest }
    throw .unexpected

def peek : Parser Token := peekAt 0

/-- The next token that can be read, which is not counted as looked at. -/
def glance : Parser Token := do
  let state ← get
  match state.rest.find? (·.kind != .fault) with
  | some token => return token
  | none => return ⟨.ending, "", ⟨state.last, state.last⟩, []⟩

/-- Takes the next token, which must not be the ending. -/
def take : Parser Token := do
  let token ← peek
  if token.isEnding then throw .unexpected
  modify fun state => { state with rest := state.rest.drop 1, last := token.span.stop }
  return token

/-- Takes the next token if it is of the kind that is due, and fails if not. -/
def takeIf (due : Token → Bool) : Parser Token := do
  if due (← peek) then take else throw .unexpected

def expect (symbol : String) : Parser Unit := discard (takeIf (·.isSymbol symbol))

def expectWord (keyword : String) : Parser Unit := discard (takeIf (·.isWord keyword))

/-- Takes the next token if it meets the condition, and tells whether it did. -/
def acceptIf (condition : Token → Bool) : Parser Bool := do
  if condition (← peek) then
    discard take
    return true
  else return false

def accept (symbol : String) : Parser Bool := acceptIf (·.isSymbol symbol)

def acceptWord (keyword : String) : Parser Bool := acceptIf (·.isWord keyword)

/-- A name of any form. Whatever stands in its place is taken. -/
def fullName : Parser Token := do
  let token ← take
  if token.isName then return token else throw .unexpected

/-- A name of one segment. Whatever stands in its place is taken. -/
def plainName : Parser Token := do
  let token ← take
  if token.kind == .word then return token else throw .unexpected

/-- The span from an offset to the last token taken. -/
def spanFrom (start : Nat) : Parser Span := return ⟨start, (← get).last⟩

/-- Runs a parser whose failure loses what it was reading. -/
def orLost (item : Parser α) : Parser (Option α) := tryCatch (some <$> item) fun _ => return none

/-- Runs a parser that loses a token where it fails at the first one. -/
def orSkipped (item : Parser α) : Parser (Option α) := do
  let before := (← glance).span.start
  let found ← orLost item
  if found.isNone && (← glance).span.start == before then discard take
  return found

/-- Repeats a parser as long as the next token continues the sequence; what fails is lost. -/
def survivors (continues : Token → Bool) (item : Parser α) : Parser (List α) := do
  loop ((← get).rest.length + 1)
where
  loop : Nat → Parser (List α)
    | 0 => return []
    | bound + 1 => do
      let next ← glance
      if next.isEnding || !continues next then return []
      match ← orSkipped item with
      | some found => return found :: (← loop bound)
      | none => loop bound

/-- Repeats a parser as long as the next token continues the sequence. -/
def repeatWhile (continues : Token → Bool) (item : Parser α) : Parser (List α) := do
  loop ((← get).rest.length + 1)
where
  loop : Nat → Parser (List α)
    | 0 => return []
    | bound + 1 => do
      let next ← peek
      if next.isEnding || !continues next then return []
      let first ← item
      return first :: (← loop bound)

/-- At least one item, with commas between each two. -/
def separated (item : Parser α) : Parser (List α) := do
  let first ← item
  return first :: (← repeatWhile (·.isSymbol ",") do
    discard take
    item)

/-- Items with commas between them, up to a symbol that is left where it is. -/
def listedTo (closing : Token → Bool) (item : Parser α) : Parser (List α) := do
  loop ((← get).rest.length + 1)
where
  loop : Nat → Parser (List α)
    | 0 => return []
    | bound + 1 => do
      if closing (← peek) then return []
      let first ← item
      if ← accept "," then return first :: (← loop bound) else return [first]

/-- Items in brackets, with commas between them. They end at the first one that fails. If
some other token stands where the bracket is due, the bracket counts as standing in its
place, and the token is not taken. -/
def bracketed (opening closing : String) (item : Parser α) : Parser (List α) := do
  expect opening
  let items ← loop ((← get).rest.length + 1)
  let next ← peek
  if next.isEnding then throw .unexpected
  if next.isSymbol closing then discard take else modify ({ · with last := next.span.stop })
  return items
where
  loop : Nat → Parser (List α)
    | 0 => return []
    | bound + 1 => do
      if (← peek).isSymbol closing then return []
      match ← orLost item with
      | none => return []
      | some first => if ← accept "," then return first :: (← loop bound) else return [first]

/-- Whether a token ends a statement. -/
def endsStatement (token : Token) : Bool := token.isSymbol ";" || token.kind == .closeTag

/-- Takes what ends a statement: a semicolon, or a closing tag with the tag that opens code
again if it follows at once. Any other token is left where it is. -/
def terminator : Parser Terminator := do
  let next ← peek
  if next.isSymbol ";" then
    discard take
    return .semicolon
  else if next.kind == .closeTag then
    let reopens := (← peekAt 1).kind == .openTag
    discard take
    if reopens then discard take
    return .closeTag
  else return .missing

/-- The end of a statement. A token that is none counts as the end without being taken. -/
def boundsFrom (start : Nat) : Parser Bounds := do
  let written ← spanFrom start
  match ← terminator with
  | .missing =>
    let next ← peek
    if next.isEnding then throw .unexpected
    return ⟨written, ⟨start, next.span.stop⟩, .missing⟩
  | ending => return ⟨written, ← spanFrom start, ending⟩

/-- How deep statements and expressions may nest. -/
def nestingLimit : Nat := 512

/-- Reads what is nested one level deeper. -/
def deeper (item : Parser α) : Parser α := do
  if nestingLimit ≤ (← read).depth then throw .nesting
  withReader (fun context => { context with depth := context.depth + 1 }) item

end Parser

/-- The parsers for what nests inside of itself. -/
structure Rules where
  /-- An expression whose operators bind at least as strongly as the floor. -/
  expression : (floor : Nat) → Parser Expr
  statement : Parser Stmt
  block : Parser Block
  /-- The members of a class, with the braces around them. -/
  members : Parser (List Member)

end TestScout.Surface.Lenient
