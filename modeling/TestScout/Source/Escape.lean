import TestScout.Source.Quoted
import TestScout.Text.Bytes

/-! String literals with every escape that their quotes know. In single quotes only the
quote and the backslash can be escaped; in double quotes there are control characters and
character codes besides. -/

namespace TestScout.Source

namespace Escape

def isOctal (c : Char) : Bool := '0' ≤ c && c ≤ '7'

def isHex (c : Char) : Bool := c.isDigit || ('a' ≤ c.toLower && c.toLower ≤ 'f')

def hexValue (c : Char) : Nat :=
  if c.isDigit then c.toNat - '0'.toNat else c.toLower.toNat - 'a'.toNat + 10

/-- The number that digits of a base stand for. -/
def valueOf (base : Nat) (digits : List Char) : Nat :=
  digits.foldl (fun value c => base * value + hexValue c) 0

/-- The character that a letter or a sign stands for behind a backslash. -/
def control? (c : Char) : Option Char :=
  match c with
  | 'n' => some '\n'
  | 't' => some '\t'
  | 'r' => some '\r'
  | 'v' => some '\x0b'
  | 'e' => some '\x1b'
  | 'f' => some '\x0c'
  | _ => none

/-- The bytes of the inside of a literal in double quotes. A character code gives one byte,
of which digits beyond three octal or two hexadecimal ones are no part. A backslash in front
of anything else without a meaning is dropped; in front of an eight or a nine it brings a
zero with it. -/
def double : (text : List Char) → List UInt8
  | [] => []
  | ['\\'] => Text.bytes ['\\']
  | '\\' :: c :: rest =>
    match control? c with
    | some control => Text.bytes [control] ++ double rest
    | none =>
      if c = 'x' then
        let digits := (rest.take 2).takeWhile isHex
        if digits.isEmpty then Text.bytes ['\\', 'x'] ++ double rest
        else .ofNat (valueOf 16 digits) :: double (rest.drop digits.length)
      else if c.isDigit then
        let digits := (rest.take 2).takeWhile isOctal
        if isOctal c then .ofNat (valueOf 8 (c :: digits)) :: double (rest.drop digits.length)
        else Text.bytes ['\\', '0', c] ++ double rest
      else Text.bytes [c] ++ double rest
  | c :: rest => Text.bytes [c] ++ double rest
termination_by text => text.length
decreasing_by all_goals simp only [List.length_drop, List.length_cons]; omega

end Escape

/-- The text of a literal without embedded code. A letter for binary text may stand in
front. A literal whose bytes make no text has only its quotes and backslashes resolved. -/
def literalText (raw : String) : String :=
  let literal := match raw.toList with
    | 'b' :: rest => rest
    | 'B' :: rest => rest
    | text => text
  match literal with
  | '"' :: rest =>
    (String.fromUTF8? ⟨(Escape.double rest.dropLast).toArray⟩).getD (unquote raw)
  | '\x27' :: rest => String.ofList (Quoted.unescape '\x27' rest.dropLast)
  | _ => unquote raw

end TestScout.Source
