import TestScout.Surface.Strict.Parser

/-! Strings, some of which have code embedded in them. A variable may stand in a string as it
is, with one member or one element of it named behind; anything else needs braces. -/

namespace TestScout.Surface.Strict
open Strict.Parser

variable (rules : Rules)

/-- An expression that stands for a value by itself. -/
def value : Parser Expr := do
  let operand ← rules.expression
  if operand.isValue then return operand.value else failure

/-- The element in brackets behind a variable in a string: a whole number, a word or a variable. -/
def embeddedIndex : Parser Unit := inside do
  takeToken 1
  let text ← due
  match text with
  | '-' :: _ =>
    takeToken 1
    discard <| token Scan.integer
  | '$' :: _ =>
    takeToken 1
    discard anyWord
  | c :: _ => if c.isDigit then discard <| token Scan.integer else discard anyWord
  | [] => failure
  expect "]"

/-- The number of characters that end a text, when it ends here. A label has to stand on the
lines that follow. -/
def endingLength (ending : Scan.Ending) (text : List Char) : Nat :=
  match ending with
  | .quote mark => if text.head? == some mark then 1 else 0
  | .label label =>
    let gap := (text.takeWhile fun c => Scan.isGap c && !Scan.isLineEnd c).length
    let rest := text.drop gap
    if rest.head?.any Scan.isLineEnd && Scan.closesDocument label rest then
      gap + (rest.takeWhile Scan.isBlank).length + label.length
    else 0

/-- The rest of a text with embedded code; tells whether there is some. -/
def template (ending : Scan.Ending) : Parser Bool := do
  loop (← read).bound false false
where
  loop : Nat → Bool → Bool → Parser Bool
    | 0, _, _ => failure
    | bound + 1, embeds, behindVariable => do
      let text := (← get).rest
      let content := Scan.content ending behindVariable text
      let size := endingLength ending text
      if content != 0 then
        takeToken content
        loop bound embeds false
      else if size != 0 then
        takeToken size
        return embeds
      else
        match text with
        | '\\' :: rest =>
          let size := if ending = .quote '\x60' && rest.head? == some '\x60' then 1 else Scan.escape rest
          if size == 0 then failure
          takeToken (1 + size)
          loop bound embeds false
        | '$' :: '\x7b' :: _ =>
          takeToken 2
          discard <| inside (value rules)
          inside (expect "\x7d")
          loop bound true false
        | '$' :: rest =>
          if !Scan.beginsName rest then failure
          takeToken (1 + Scan.word rest)
          loop bound true true
        | '\x7b' :: '$' :: _ =>
          takeToken 1
          discard <| inside (value rules)
          inside (expect "\x7d")
          loop bound true false
        | '[' :: _ =>
          if !behindVariable then failure
          embeddedIndex
          loop bound embeds false
        | '-' :: '>' :: rest =>
          if !(behindVariable && Scan.beginsName rest) then failure
          takeToken (2 + Scan.word rest)
          loop bound embeds false
        | _ => failure

/-- A string in single or double quotes, behind the quote and the letter for binary text. -/
def quoted (start lead : Nat) (mark : Char) : Parser Expr := do
  takeToken (lead + 1)
  let embeds ←
    if mark == '\x27' then
      match Scan.literal (← get).rest with
      | some size =>
        takeToken size
        pure false
      | none => failure
    else template rules (.quote mark)
  let span ← spanFrom start
  return .quoted (← textOf span) embeds span

/-- The end of a document, with the blanks in front of it. -/
def finish (label : List Char) : Parser Unit := do
  if !Scan.closesDocument label (← get).rest then failure
  takeToken (((← get).rest.takeWhile Scan.isBlank).length + label.length)

/-- The line break in front of the first line or the last one of a document. Comments may stand
before it, and the first line may be the last one already; tells whether it is. -/
def lineBreak (label : List Char) : Parser Bool := do
  loop (← read).bound
where
  loop : Nat → Parser Bool
    | 0 => failure
    | bound + 1 => do
      if Scan.closesDocument label (← get).rest then
        finish label
        return true
      let gap := ((← get).rest.takeWhile fun c => Scan.isGap c && !Scan.isLineEnd c).length
      takeToken gap
      let text := (← get).rest
      match text with
      | '\r' :: '\n' :: _ =>
        takeToken 2
        return false
      | c :: _ =>
        if Scan.isLineEnd c then
          takeToken 1
          return false
        let size := Scan.comment text
        if size == 0 then failure
        takeToken size
        loop bound
      | [] => failure

/-- The lines of a document without embedded code. -/
def rawLines (label : List Char) : Parser Unit := do
  discard <| many (return Scan.rawLine label (← get).rest != 0) do
    takeToken (Scan.rawLine label (← get).rest)
  if !(← lineBreak label) then finish label

/-- The text between two labels, the second of which is on a line of its own. -/
def document : Parser Unit := do
  takeToken 3
  blanks
  let mark := (← get).rest.head?.filter fun c => c == '"' || c == '\x27'
  takeToken mark.toList.length
  blanks
  let label := (← get).rest.takeWhile Scan.isLabelPart
  if label.isEmpty then failure
  takeToken label.length
  if mark.isSome then
    if (← get).rest.head? == mark then takeToken 1 else failure
  if !(← lineBreak label) then
    if mark == some '\x27' then rawLines label else discard <| template rules (.label label)
where
  blanks : Parser Unit := do
    takeToken ((← get).rest.takeWhile Scan.isBlank).length

end TestScout.Surface.Strict
