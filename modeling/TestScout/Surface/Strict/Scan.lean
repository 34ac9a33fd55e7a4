import TestScout.Text.Piece

/-! The tokens of PHP source for a reader that knows which ones may come next. Each function
here gives the length of one kind of token at the front of a text, zero when it is not there. -/

namespace TestScout.Surface.Strict.Scan

/-- Blanks between tokens. -/
def isGap (c : Char) : Bool :=
  c == ' ' || ('\t' ≤ c && c ≤ '\r') || c == '\u00a0' || c == '\u200b' || c == '\u2060' || c == '\ufeff'

/-- Beyond ASCII, names are made of whatever takes at most three bytes and is no blank. -/
def isNameStart (c : Char) : Bool :=
  c.isAlpha || c == '_' || (128 ≤ c.toNat && c.toNat ≤ 0xffff && !isGap c)

def isNamePart (c : Char) : Bool := isNameStart c || c.isDigit

/-- An identifier or a keyword. -/
def word : List Char → Nat
  | [] => 0
  | c :: rest => if isNameStart c then 1 + (rest.takeWhile isNamePart).length else 0

/-- The small letter of a character, also of the two beyond ASCII that fold to an ASCII letter. -/
def fold (c : Char) : Char :=
  match c with
  | '\u017f' => 's'
  | '\u212a' => 'k'
  | c => c.toLower

/-- Whether a word is a keyword, given in small letters, in any case. -/
def isKeyword (keyword : String) (word : List Char) : Bool := word.map fold == keyword.toList

def isAnyKeyword (keywords : List String) (word : List Char) : Bool := keywords.any (isKeyword · word)

/-- What follows the two slashes or the hash of a comment. A question mark takes the next
character with it, even a line break, but not one that would close the tag. -/
def commentTail : List Char → Nat
  | '?' :: '\n' :: _ => 2
  | '?' :: '\r' :: '\n' :: _ => 3
  | '?' :: c :: rest => if c == '>' || c == '\r' then 0 else 2 + commentTail rest
  | ['?'] => 0
  | c :: rest => if c == '\n' || c == '\r' then 0 else 1 + commentTail rest
  | [] => 0

/-- Blanks that a look further ahead passes over. -/
def isBlank (c : Char) : Bool := c == ' ' || ('\t' ≤ c && c ≤ '\r')

def isLineEnd (c : Char) : Bool := c == '\n' || c == '\r'

/-- The text behind blanks and behind comments that start with two slashes; such a comment
lasts for the whole line here. -/
def behindRemarks : (inRemark : Bool) → List Char → List Char
  | true, c :: rest => behindRemarks (c != '\n') rest
  | false, '/' :: '/' :: rest => behindRemarks true rest
  | false, c :: rest => if isBlank c then behindRemarks false rest else c :: rest
  | _, [] => []

/-- Whether nothing but blanks and such comments stand in front of a closing tag. -/
def endsAtTag (text : List Char) : Bool := (Text.after? ['?', '>'] (behindRemarks false text)).isSome

/-- The number of characters up to and with a marker. -/
def throughMarker (marker : List Char) : List Char → Option Nat
  | [] => none
  | c :: rest =>
    if (Text.after? marker (c :: rest)).isSome then some marker.length
    else (throughMarker marker rest).map (· + 1)

/-- A comment. A hash in front of a question mark or of a line break is one by itself. -/
def comment (text : List Char) : Nat :=
  match text with
  | '/' :: '/' :: rest => 2 + commentTail rest
  | '/' :: '*' :: rest => ((throughMarker ['*', '/'] rest).map (2 + ·)).getD 0
  | '#' :: '[' :: _ => 0
  | '#' :: c :: rest => if c == '?' || c == '\n' || c == '\r' then 1 else 2 + commentTail rest
  | ['#'] => 1
  | _ => 0

/-- The tag that opens code. -/
def openTag (text : List Char) : Nat :=
  match text with
  | '<' :: '?' :: '=' :: _ => 3
  | '<' :: '?' :: rest => if (rest.take 3).map Char.toLower = ['p', 'h', 'p'] then 5 else 2
  | _ => 0

/-- A stretch of text outside of the tags, up to the next angle bracket. -/
def markup (text : List Char) : Nat :=
  match text with
  | [] => 0
  | '<' :: _ => 1
  | text => (text.takeWhile (· != '<')).length

/-- Digits in groups, with a mark between each two groups; a mark may also come first. -/
def digits (isDigit : Char → Bool) : List Char → Nat
  | [] => 0
  | c :: rest =>
    if isDigit c then 1 + digits isDigit rest
    else
      match rest with
      | d :: _ => if c == '_' && isDigit d then 1 + digits isDigit rest else 0
      | [] => 0

def isOctal (c : Char) : Bool := '0' ≤ c && c ≤ '7'

def isHex (c : Char) : Bool := c.isDigit || ('a' ≤ c.toLower && c.toLower ≤ 'f')

def isBinary (c : Char) : Bool := c == '0' || c == '1'

/-- A whole number. A zero in front makes it octal, whether a letter says so or not. -/
def integer (text : List Char) : Nat :=
  match text with
  | '0' :: mark :: rest =>
    if mark.toLower == 'x' && rest.head?.any isHex then 2 + digits isHex rest
    else if mark.toLower == 'b' && rest.head?.any isBinary then 2 + digits isBinary rest
    else if mark.toLower == 'o' then 2 + digits isOctal rest
    else 1 + digits isOctal (mark :: rest)
  | ['0'] => 1
  | c :: rest => if c.isDigit then 1 + digits Char.isDigit rest else 0
  | [] => 0

def exponent (text : List Char) : Nat :=
  match text with
  | mark :: rest =>
    let sign := match rest with
      | '+' :: _ | '-' :: _ => 1
      | _ => 0
    let written := rest.drop sign
    if mark.toLower == 'e' && written.head?.any Char.isDigit then 1 + sign + digits Char.isDigit written else 0
  | [] => 0

/-- A number with a point or an exponent. -/
def decimal (text : List Char) : Nat :=
  let whole := digits Char.isDigit text
  let fraction := match text.drop whole with
    | '.' :: rest => 1 + digits Char.isDigit rest
    | _ => 0
  let size := whole + fraction
  let power := exponent (text.drop size)
  if fraction == 0 && power == 0 then 0 else size + power

/-- The longest number at the front. One without digits before the point needs digits behind it. -/
def number (text : List Char) : Nat :=
  match text with
  | '.' :: _ => if decimal text == 1 then 0 else decimal text
  | c :: _ => if c.isDigit || c == '_' then max (integer text) (decimal text) else 0
  | [] => 0

/-- The symbols of several characters; of two that fit the longer stands first. -/
def longSymbols : List String :=
  ["===", "!==", "<=>", "**=", "...", "<<=", ">>=", "??=", "?->", "=>", "->", "::", "==", "!=", "<>",
   "<=", ">=", "&&", "||", "??", "++", "--", "+=", "-=", "*=", "/=", ".=", "%=", "&=", "|=", "^=", "<<",
   ">>", "**", "|>", "#[", "?>"]

/-- The longest symbol at the front among those that may stand there; a character by itself always may. -/
def symbol (mayStand : String → Bool) (text : List Char) : List Char :=
  match longSymbols.find? fun symbol => mayStand symbol && (Text.after? symbol.toList text).isSome with
  | some symbol => symbol.toList
  | none => text.take 1

/-- The inside of a literal in single quotes, with the quote at its end; none when it does not end. -/
def literal : List Char → Option Nat
  | [] => none
  | ['\\'] => none
  | '\\' :: _ :: rest => (literal rest).map (2 + ·)
  | '\x27' :: _ => some 1
  | _ :: rest => (literal rest).map (1 + ·)

/-- A part of the label of a document. -/
def isLabelPart (c : Char) : Bool := c.isAlphanum || c == '_'

/-- Whether a text, behind blanks, goes on with a label that ends there. -/
def closesDocument (label text : List Char) : Bool := (text.dropWhile isBlank).takeWhile isLabelPart == label

/-- The character behind a backslash that has a meaning of its own there, with the digits that
belong to it; zero when it has none. -/
def escape (text : List Char) : Nat :=
  match text with
  | 'x' :: rest => if rest.head?.any isHex then 1 + ((rest.take 2).takeWhile isHex).length else 0
  | 'u' :: '\x7b' :: rest =>
    let digits := (rest.takeWhile isHex).length
    if digits != 0 && (rest.drop digits).head? == some '\x7d' then 3 + digits else 1
  | c :: _ =>
    if isOctal c then ((text.take 3).takeWhile isOctal).length
    else if "urntvef\\$\"".toList.contains c then 1
    else 0
  | [] => 0

/-- What ends a text with embedded code. -/
inductive Ending where
  | quote (mark : Char)
  /-- A label on a line of its own. -/
  | label (label : List Char)
deriving DecidableEq

/-- A letter that a variable or a member in a text may begin with. -/
def beginsName (text : List Char) : Bool := text.head?.any fun c => c.isAlpha || c == '_'

/-- The characters of a text up to one that means more than itself; zero when there are none.
A backslash does not count as long as it stands alone with what has no meaning behind it. -/
def plain (ending : Ending) (behindVariable counts : Bool) (size : Nat) : List Char → Nat
  | [] => 0
  | '\\' :: 'x' :: rest =>
    if rest.head?.any isHex then found else plain ending false counts (size + 2) rest
  | '\\' :: c :: rest =>
    let isDocument := match ending with
      | .label _ => true
      | .quote _ => false
    if c == '\x7b' || (isDocument && c == '\\') then plain ending false true (size + 2) rest
    else if ending = .quote '\x60' && c == '\x60' || escape [c] != 0 then found
    else plain ending false counts (size + 1) (c :: rest)
  | '$' :: rest =>
    if beginsName rest || rest.head? == some '\x7b' then found else plain ending false true (size + 1) rest
  | '\x7b' :: rest => if rest.head? == some '$' then found else plain ending false true (size + 1) rest
  | '-' :: '>' :: rest =>
    if behindVariable && beginsName rest then found else plain ending false true (size + 2) rest
  | c :: rest =>
    if (behindVariable && c == '[') || ends c then found else plain ending false true (size + 1) rest
where
  found : Nat := if counts then size else 0
  ends (c : Char) : Bool :=
    match ending with
    | .quote mark => c == mark
    | .label _ => isLineEnd c

/-- The characters of a text that mean nothing but themselves. In a document, what starts with
the label behind blanks is none. -/
def content (ending : Ending) (behindVariable : Bool) (text : List Char) : Nat :=
  match ending with
  | .quote _ => plain ending behindVariable false 0 text
  | .label label =>
    if closesDocument label text then 0
    else
      let blank := (text.takeWhile isBlank).length
      let word := ((text.drop blank).takeWhile isLabelPart).length
      plain ending behindVariable (blank + word != 0) (blank + word) (text.drop (blank + word))

/-- A line of a document without embedded code, with the blanks in front of it, or zero when
the document ends here. Behind its label only a blank or one of three marks may stand. -/
def rawLine (label text : List Char) : Nat :=
  let blank := (text.takeWhile isBlank).length
  let behind? := (Text.after? label (text.drop blank)).filter fun behind =>
    behind.head?.any fun c => isBlank c || ";,)".toList.contains c
  let behind := behind?.map (·.dropWhile fun c => isBlank c && !isLineEnd c)
  if behind.any fun behind => behind.head?.any fun c => isLineEnd c || ";,)".toList.contains c then 0
  else
    let line := text.take blank ++ (text.drop blank).takeWhile (!isLineEnd ·)
    if line.length == text.length then 0 else line.length

end TestScout.Surface.Strict.Scan
