import TestScout.Surface.Span
import TestScout.Text.Piece

/-! Tokens of PHP source, as they are when nothing is known of what may come next. Each token
knows where it stands and which comments stand between it and the token before it. -/

namespace TestScout.Surface.Lenient

inductive Lexeme where
  /-- Text outside of the tags, and whatever follows the halt of compilation. -/
  | inlineText
  | openTag
  | echoTag
  | closeTag
  | variable
  /-- An identifier or a keyword. -/
  | word
  /-- A name of several segments. -/
  | qualified
  /-- A name that begins with a backslash. -/
  | absolute
  | number
  /-- A string without embedded code. -/
  | literal
  /-- The mark at either end of a string with embedded code. -/
  | mark
  /-- Text between the code in a string. -/
  | part
  /-- The label in front of a text on lines of its own. -/
  | documentStart
  /-- The label behind such a text. -/
  | documentEnd
  /-- A type in parentheses. -/
  | cast
  | symbol
  /-- A string or a comment whose end is missing; it takes the rest of the source. -/
  | unclosed
  /-- What cannot be made a token. It is met once. -/
  | fault
  /-- What cannot be made a token and cannot be passed. -/
  | barrier
  /-- The end of the source. -/
  | ending
deriving Repr, DecidableEq, Inhabited

structure Token where
  kind : Lexeme
  text : String
  span : Span
  /-- The comments in front, in order. -/
  remarks : List Remark := []
deriving Repr, Inhabited

namespace Token

def isSymbol (token : Token) (text : String) : Bool := token.kind == .symbol && token.text == text

/-- Whether the token is a keyword, given in lower case. -/
def isWord (token : Token) (keyword : String) : Bool := token.kind == .word && token.text.toLower == keyword

def isEnding (token : Token) : Bool := token.kind == .ending || token.kind == .barrier

/-- The words that cannot stand for a name in an expression. -/
def reservedWords : List String :=
  ["abstract", "and", "array", "as", "break", "callable", "case", "catch", "class", "clone", "const",
   "continue", "declare", "default", "do", "echo", "else", "elseif", "enddeclare", "endfor", "endforeach",
   "endif", "endswitch", "endwhile", "extends", "final", "finally", "fn", "for", "foreach",
   "function", "global", "goto", "if", "implements", "include", "include_once", "instanceof", "insteadof",
   "interface", "list", "match", "namespace", "new", "or", "print", "private", "private(set)", "protected",
   "protected(set)", "public", "public(set)", "require", "require_once", "return", "static", "switch", "throw",
   "trait", "try", "unset", "use", "var", "while", "xor", "yield"]

def isReserved (token : Token) : Bool := token.kind == .word && reservedWords.contains token.text.toLower

/-- Whether the token is a name of any form; keywords count. -/
def isName (token : Token) : Bool := token.kind == .word || token.kind == .qualified || token.kind == .absolute

end Token

end TestScout.Surface.Lenient
