import TestScout.Surface.Lenient.Token

/-! Cutting PHP source into tokens. Every step takes at least one character off the front,
so the text that is left bounds the work. -/

namespace TestScout.Surface.Lenient

namespace Lexer

def isNameStart (c : Char) : Bool := c.isAlpha || c == '_' || 128 ≤ c.toNat

def isNamePart (c : Char) : Bool := isNameStart c || c.isDigit

/-- Blanks between tokens. -/
def isGap (c : Char) : Bool := c == ' ' || c == '\t' || c == '\n' || c == '\x0c' || c == '\r'

/-- The length of an identifier at the front, zero when there is none. -/
def identifierLength : List Char → Nat
  | [] => 0
  | c :: rest => if isNameStart c then 1 + (rest.takeWhile isNamePart).length else 0

/-- The length of further segments of a name, each after a backslash. -/
def segmentsLength : List Char → Nat
  | [] => 0
  | c :: rest =>
    let segment := identifierLength rest
    if c = '\\' ∧ segment ≠ 0 then 1 + segment + segmentsLength (rest.drop segment) else 0
termination_by text => text.length
decreasing_by simp only [List.length_drop, List.length_cons]; omega

/-- The length of a run of digits, with single separators between them. -/
def digitsLength (isDigit : Char → Bool) : List Char → Nat
  | [] => 0
  | c :: rest =>
    if isDigit c || (c == '_' && rest.head?.any isDigit) then 1 + digitsLength isDigit rest else 0

def isHexDigit (c : Char) : Bool := c.isDigit || ('a' ≤ c.toLower && c.toLower ≤ 'f')

def exponentLength : List Char → Nat
  | mark :: rest =>
    if mark.toLower ≠ 'e' then 0 else
    match rest with
    | c :: digits =>
      if c.isDigit then 1 + digitsLength Char.isDigit rest
      else if (c == '+' || c == '-') && (digits.head?.any Char.isDigit) then 2 + digitsLength Char.isDigit digits
      else 0
    | [] => 0
  | [] => 0

/-- What stands at the front of a text, with its length. -/
inductive Piece where
  | gap (size : Nat)
  | remark (size : Nat)
  | token (kind : Lexeme) (size : Nat)
deriving Repr

def Piece.size : Piece → Nat
  | .gap size | .remark size | .token _ size => size

/-- A number that starts with a digit or with a point before one. Whole numbers that start
with a zero are octal, and none when they have other digits in them. -/
def decimalPiece (text : List Char) : Piece :=
  let whole := digitsLength Char.isDigit text
  let fraction :=
    match text.drop whole with
    | '.' :: rest => if rest.head? == some '_' then 1 else 1 + digitsLength Char.isDigit rest
    | _ => 0
  let power := exponentLength (text.drop (whole + fraction))
  let isOctal := fraction == 0 && power == 0 && text.head? == some '0'
  if isOctal && (text.take whole).any (fun c => c == '8' || c == '9') then .token .fault whole
  else .token .number (whole + fraction + power)

def numberPiece (text : List Char) : Piece :=
  match text with
  | '0' :: mark :: rest =>
    let base := mark.toLower
    if base = 'x' ∧ rest.head?.any isHexDigit then .token .number (2 + digitsLength isHexDigit rest)
    else if (base = 'b' ∨ base = 'o') ∧ rest.head?.any Char.isDigit then
      .token .number (2 + digitsLength Char.isDigit rest)
    else decimalPiece text
  | _ => decimalPiece text

/-- Whether code is embedded in a string in front of a text. -/
def embeds : List Char → Bool
  | '{' :: '$' :: _ => true
  | '$' :: c :: _ => isNameStart c || c == '{'
  | _ => false

/-- Whether the inside of a string in double quotes has code embedded in it. -/
def interpolates : List Char → Bool
  | [] => false
  | '"' :: _ => false
  | '\\' :: _ :: rest => interpolates rest
  | c :: rest => embeds (c :: rest) || interpolates rest

/-- The number of characters up to and with the closing quote. -/
def quotedLength (quote : Char) : List Char → Option Nat
  | [] => none
  | ['\\'] => none
  | '\\' :: _ :: rest => (quotedLength quote rest).map (· + 2)
  | c :: rest => if c = quote then some 1 else (quotedLength quote rest).map (· + 1)

/-- The number of characters in front of embedded code or of the closing mark. -/
def partLength (mark : Char) (isEscaped : Bool) : List Char → Nat
  | [] => 0
  | c :: rest =>
    if !isEscaped && (embeds (c :: rest) || c == mark) then 0
    else 1 + partLength mark (c == '\\' && !isEscaped) rest

/-- The number of characters up to and with the bracket that matches; a blank ends it, too. -/
def indexLength (depth : Nat) : List Char → Nat
  | [] => 0
  | c :: rest =>
    if isGap c then 0
    else if c = '[' then 1 + indexLength (depth + 1) rest
    else if c ≠ ']' then 1 + indexLength depth rest
    else
      match depth with
      | 0 => 1
      | depth + 1 => 1 + indexLength depth rest

/-- The number of characters up to and with the brace that matches, whatever stands between. -/
def braceLength (depth : Nat) : List Char → Nat
  | [] => 0
  | c :: rest =>
    if c = '{' then 1 + braceLength (depth + 1) rest
    else if c ≠ '}' then 1 + braceLength depth rest
    else
      match depth with
      | 0 => 1
      | depth + 1 => 1 + braceLength depth rest

/-- The length of the embedded code in front of a text: what braces enclose, or a variable
with one element or one member of it. -/
def embeddedLength : List Char → Nat
  | '$' :: '{' :: rest => 2 + braceLength 0 rest
  | '{' :: rest => 1 + braceLength 0 rest
  | '$' :: rest =>
    let size := identifierLength rest
    1 + size +
      match rest.drop size with
      | '[' :: index => 1 + indexLength 0 index
      | '-' :: '>' :: member => if identifierLength member = 0 then 0 else 2 + identifierLength member
      | '?' :: '-' :: '>' :: member => if identifierLength member = 0 then 0 else 3 + identifierLength member
      | _ => 0
  | _ => 0

/-- The label of a text on lines of its own, behind the mark that opens it. -/
structure Label where
  name : List Char
  /-- Whether the text has no code embedded in it. -/
  isRaw : Bool
  /-- The number of characters up to and with the line break. -/
  size : Nat

def label? (text : List Char) : Option Label :=
  let blanks := (text.takeWhile isGap).length
  let rest := text.drop blanks
  let quote := match rest with
    | c :: _ => if c == '"' || c == '\x27' then [c] else []
    | [] => []
  let named := rest.drop quote.length
  let size := if named.head?.any fun c => c.isAlpha || c == '_' then identifierLength named else 0
  let label := fun ending => some ⟨named.take size, quote == ['\x27'], blanks + 2 * quote.length + size + ending⟩
  if size = 0 then none
  else
    match Text.after? quote (named.drop size) with
    | some ('\n' :: _) => label 1
    | some ('\r' :: '\n' :: _) => label 2
    | _ => none

/-- Whether a text goes on with a label that ends there. -/
def closesDocument (label text : List Char) : Bool :=
  match Text.after? label text with
  | some rest => !rest.head?.any Char.isAlphanum
  | none => false

/-- The piece at the front of a text that a label closes: the label, if only blanks stand in
front of it, or what is left of the line up to embedded code. -/
def documentPiece (label : List Char) (isRaw : Bool) (size : Nat) (isBlank isEscaped : Bool) : List Char → Piece
  | [] => .token .part size
  | c :: rest =>
    if c = '\n' then .token .part (size + 1)
    else if c = '\r' then .token .part (if rest.head? = some '\n' then size + 2 else size + 1)
    else if isGap c then documentPiece label isRaw (size + 1) isBlank isEscaped rest
    else if !isRaw && !isEscaped && embeds (c :: rest) then .token .part size
    else if isBlank && closesDocument label (c :: rest) then .token .documentEnd (size + label.length)
    else documentPiece label isRaw (size + 1) false (c == '\\' && !isEscaped) rest

/-- The number of characters up to and with a marker. -/
def throughMarker (marker : List Char) : List Char → Option Nat
  | [] => none
  | c :: rest =>
    if (Text.after? marker (c :: rest)).isSome then some marker.length
    else (throughMarker marker rest).map (· + 1)

/-- A line comment goes to the end of the line or in front of a closing tag. -/
def lineCommentLength : List Char → Nat
  | [] => 0
  | '?' :: '>' :: _ => 0
  | c :: rest => if c = '\n' ∨ c = '\r' then 0 else 1 + lineCommentLength rest

/-- The symbols of several characters; of two that fit the longer stands first. -/
def longSymbols : List (List Char) :=
  ["===", "!==", "<=>", "**=", "...", "<<=", ">>=", "??=", "?->", "=>", "->", "::", "==", "!=", "<>",
   "<=", ">=", "&&", "||", "??", "++", "--", "+=", "-=", "*=", "/=", ".=", "%=", "&=", "|=", "^=", "<<",
   ">>", "**", "|>", "#[", "$\x7b"].map String.toList

def symbolLength (text : List Char) : Nat :=
  match longSymbols.find? fun symbol => (Text.after? symbol text).isSome with
  | some symbol => symbol.length
  | none => 1

def castWords : List String :=
  ["array", "binary", "bool", "boolean", "double", "float", "int", "integer", "object", "real", "string", "unset",
   "void"]

/-- The number of characters that a sequence takes with blanks anywhere in it and in any case. -/
def looseLength : (sequence text : List Char) → Option Nat
  | [], _ => some 0
  | _ :: _, [] => none
  | c :: sequence, d :: text =>
    if isGap d then (looseLength (c :: sequence) text).map (· + 1)
    else if c = d.toLower then (looseLength sequence text).map (· + 1)
    else none

/-- A type in parentheses, or a parenthesis. -/
def parenthesisPiece (rest : List Char) : Piece :=
  match castWords.findSome? fun word => looseLength (word.toList ++ [')']) rest with
  | some size => .token .cast (1 + size)
  | none => .token .symbol 1

/-- A text on lines of its own, or the symbol that such a text begins with. -/
def openingPiece (lead : Nat) (text : List Char) : Piece :=
  match (Text.after? ['<', '<', '<'] (text.drop lead)).bind label? with
  | some label => .token .documentStart (lead + 3 + label.size)
  | none => .token .symbol (symbolLength text)

def quotedPiece (lead : Nat) (quote : Char) (rest : List Char) : Piece :=
  if quote == '"' && interpolates rest then .token .mark (lead + 1)
  else
    match quotedLength quote rest with
    | some size => .token .literal (lead + 1 + size)
    | none => .token .unclosed (lead + 1 + rest.length)

/-- The words that a restriction to writing belongs to. -/
def restrictedWords : List String := ["public", "protected", "private"]

def wordPiece (text : List Char) : Piece :=
  let size := identifierLength text
  let further := segmentsLength (text.drop size)
  let word := (text.take size).map Char.toLower
  if further ≠ 0 then .token .qualified (size + further)
  else if restrictedWords.any (·.toList == word) && ((text.drop size).take 5).map Char.toLower == "(set)".toList then
    .token .word (size + 5)
  else .token .word size

/-- The piece at the front of code. -/
def codePiece (text : List Char) : Piece :=
  match text with
  | [] => .token .ending 0
  | '?' :: '>' :: _ => .token .closeTag 2
  | '#' :: '[' :: _ => .token .symbol 2
  | '#' :: rest => .remark (1 + lineCommentLength rest)
  | '/' :: '/' :: rest => .remark (2 + lineCommentLength rest)
  | '/' :: '*' :: rest =>
    match throughMarker ['*', '/'] rest with
    | some size => .remark (2 + size)
    | none => .token .unclosed text.length
  | '<' :: _ => openingPiece 0 text
  | '(' :: rest => parenthesisPiece rest
  | '\\' :: _ =>
    let size := segmentsLength text
    if size = 0 then .token .symbol 1 else .token .absolute size
  | '$' :: rest =>
    let size := identifierLength rest
    if size = 0 then .token .symbol (symbolLength text) else .token .variable (1 + size)
  | '.' :: c :: _ => if c.isDigit then numberPiece text else .token .symbol (symbolLength text)
  | '\x60' :: _ => .token .mark 1
  | c :: rest =>
    if isGap c then .gap (text.takeWhile isGap).length
    else if c = '\x27' ∨ c = '"' then quotedPiece 0 c rest
    else if c.isDigit then numberPiece text
    else if isNameStart c then
      match c.toLower, rest with
      | 'b', '<' :: '<' :: '<' :: body => if (label? body).isSome then openingPiece 1 text else wordPiece text
      | 'b', quote :: body => if quote = '\x27' ∨ quote = '"' then quotedPiece 1 quote body else wordPiece text
      | _, _ => wordPiece text
    else if c < ' ' || c == '\x7f' then .token .barrier text.length
    else .token .symbol (symbolLength text)

/-- The number of characters in front of the next tag. -/
def inlineLength : List Char → Nat
  | [] => 0
  | '<' :: '?' :: _ => 0
  | _ :: rest => 1 + inlineLength rest

/-- The piece at the front of text outside of the tags. -/
def inlinePiece (text : List Char) : Piece :=
  match text with
  | '<' :: '?' :: '=' :: _ => .token .echoTag 3
  | '<' :: '?' :: rest =>
    if (rest.take 3).map Char.toLower = ['p', 'h', 'p'] then .token .openTag 5 else .token .openTag 2
  | _ => .token .inlineText (inlineLength text)

/-- The piece behind the keyword that halts compilation, so many symbols before the halt. -/
def haltingPiece (left : Nat) (text : List Char) : Piece :=
  match left, text with
  | 0, _ => .token .inlineText text.length
  | _, c :: rest =>
    if isGap c then .gap (text.takeWhile isGap).length
    else
      match left, c, rest with
      | 3, '(', _ | 2, ')', _ | 1, ';', _ => .token .symbol 1
      | 1, '?', '>' :: _ => .token .closeTag 2
      | _, _, _ => .token .barrier text.length
  | _, [] => .token .ending 0

/-- What the scan of a source is inside of. -/
inductive Mode where
  | outside
  | code
  /-- A string with embedded code, up to a mark. -/
  | template (mark : Char)
  /-- A text on lines of its own, up to a label. -/
  | document (label : List Char) (isRaw : Bool)
  /-- Code, a number of symbols before compilation halts. -/
  | halting (left : Nat)
deriving Repr, DecidableEq

/-- Code that is embedded in a text: where it ends, and what goes on behind it. -/
structure Embedding where
  stop : Nat
  resumed : Mode

/-- The piece at the front of a text, and whether embedded code begins with it. -/
def pieceAt (mode : Mode) (text : List Char) : Piece × Bool :=
  match mode with
  | .outside => (inlinePiece text, false)
  | .code => (codePiece text, false)
  | .halting left => (haltingPiece left text, false)
  | .template mark =>
    match partLength mark false text with
    | 0 => if text.head? = some mark then (.token .mark 1, false) else (codePiece text, true)
    | size => (.token .part size, false)
  | .document label isRaw =>
    match documentPiece label isRaw 0 true false text with
    | .token .part 0 => (codePiece text, true)
    | piece => (piece, false)

/-- The mode behind a token of code. -/
def behindCode (kind : Lexeme) (text : List Char) : Mode :=
  match kind with
  | .closeTag => .outside
  | .word => if text.map Char.toLower == "__halt_compiler".toList then .halting 3 else .code
  | .mark => .template (text.getLast?.getD '"')
  | .documentStart =>
    match label? (text.dropWhile (· != '<') |>.drop 3) with
    | some label => .document label.name label.isRaw
    | none => .code
  | _ => .code

/-- The mode behind a token. -/
def behind (mode : Mode) (isEmbedded : Bool) (kind : Lexeme) (text : List Char) : Mode :=
  match mode with
  | .outside => if kind == .inlineText then .outside else .code
  | .code => behindCode kind text
  | .halting left => .halting (left - 1)
  | .template mark => if isEmbedded then behindCode kind text else if kind == .mark then .code else .template mark
  | .document label isRaw =>
    if isEmbedded then behindCode kind text else if kind == .documentEnd then .code else .document label isRaw

/-- Goes on behind embedded code with a piece that touches its end. -/
def resume (span : Span) (mode : Mode) (embeddings : List Embedding) : Mode × List Embedding :=
  match embeddings with
  | embedding :: outer =>
    if span.start ≤ embedding.stop && embedding.stop ≤ span.stop then (embedding.resumed, outer) else (mode, embeddings)
  | [] => (mode, [])

/-- The tokens of a text that starts at a byte offset. The last one is the ending. -/
def scan (mode : Mode) (embeddings : List Embedding) (offset : Nat) (remarks : List Remark) (text : List Char) :
    List Token :=
  if _ : text = [] then [⟨.ending, "", ⟨offset, offset⟩, remarks⟩]
  else
    let (piece, isEmbedded) := pieceAt mode text
    let size := max 1 piece.size
    let taken := text.take size
    let span : Span := ⟨offset, offset + Text.byteLength taken⟩
    let embeddings :=
      if isEmbedded then ⟨offset + Text.byteLength (text.take (embeddedLength text)), mode⟩ :: embeddings
      else embeddings
    match piece with
    | .gap _ =>
      let (mode, embeddings) := resume span (if isEmbedded then .code else mode) embeddings
      scan mode embeddings span.stop remarks (text.drop size)
    | .remark _ =>
      let (mode, embeddings) := resume span (if isEmbedded then .code else mode) embeddings
      scan mode embeddings span.stop (remarks ++ [⟨String.ofList taken, span⟩]) (text.drop size)
    | .token kind _ =>
      let (mode, embeddings) := resume span (behind mode isEmbedded kind taken) embeddings
      ⟨kind, String.ofList taken, span, remarks⟩ :: scan mode embeddings span.stop [] (text.drop size)
termination_by text.length
decreasing_by
  all_goals
    have := List.length_pos_iff.mpr ‹¬ text = []›
    simp only [List.length_drop]
    omega

end Lexer

/-- The tokens of a source. A first line that names the program to run it with is one token. -/
def tokens (source : String) : List Token :=
  let text := source.toList
  if (Text.after? ['#', '!'] text).isNone then Lexer.scan .outside [] 0 [] text
  else
    let size := (text.takeWhile (· != '\n')).length + 1
    let line := String.ofList (text.take size)
    ⟨.inlineText, line, ⟨0, line.utf8ByteSize⟩, []⟩ :: Lexer.scan .outside [] line.utf8ByteSize [] (text.drop size)

end TestScout.Surface.Lenient
