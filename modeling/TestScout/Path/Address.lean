import TestScout.Path.Basic
import TestScout.Text.Bytes

/-! The address of a file as a URL. -/

namespace TestScout.Path

/-- The visible characters that a segment of an address may not hold as they are. -/
def reserved : List Char := ['"', '<', '>', '\x60', '#', '?', '\x7b', '\x7d', '/', '%', '\\']

/-- Whether a byte stands for itself in an address. -/
def isPlain (byte : UInt8) : Bool :=
  32 < byte.toNat && byte.toNat < 127 && !reserved.contains (Char.ofNat byte.toNat)

def hexDigit (value : Nat) : Char := Char.ofNat (if value < 10 then 48 + value else 55 + value)

def encodeByte (byte : UInt8) : List Char :=
  if isPlain byte then [Char.ofNat byte.toNat]
  else ['%', hexDigit (byte.toNat / 16), hexDigit (byte.toNat % 16)]

def Part.encoded : Part → List Char
  | .root => []
  | .here => ['.']
  | .up => ['.', '.']
  | .name text => (Text.bytes text.toList).flatMap encodeByte

/-- The address of a file. A path that does not start at the root has none. -/
def address? (path : Path) : Option String :=
  match path.parts with
  | [.root] => some "file:///"
  | .root :: parts => some ("file://" ++ String.ofList (parts.flatMap fun part => '/' :: part.encoded))
  | _ => none

end TestScout.Path
