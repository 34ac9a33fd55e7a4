import TestScout.Glob.Basic
import TestScout.Text.Bytes

/-! Matching paths byte by byte. Every part of a pattern is given the test that what it
leaves over has to pass. -/

namespace TestScout.Glob

def slash : UInt8 := 47

/-- Whether the case of ASCII letters matters. -/
inductive Casing where
  | exact
  | ignored
deriving Repr, DecidableEq, Inhabited

/-- The byte with the other case, when it is an ASCII letter. -/
def otherCase (byte : UInt8) : UInt8 :=
  if 65 ≤ byte && byte ≤ 90 then byte + 32 else if 97 ≤ byte && byte ≤ 122 then byte - 32 else byte

/-- The bytes that a byte of a path counts as. -/
def Casing.alike (casing : Casing) (byte : UInt8) : List UInt8 :=
  match casing with
  | .exact => [byte]
  | .ignored => [byte, otherCase byte]

/-- What follows given bytes at the front of a text. -/
def afterBytes? (casing : Casing) : (front text : List UInt8) → Option (List UInt8)
  | [], text => some text
  | _ :: _, [] => none
  | first :: front, byte :: text =>
    if (casing.alike byte).contains first then afterBytes? casing front text else none

/-- Passes what is left behind any number of bytes other than slashes. -/
def passRun (next : List UInt8 → Bool) : List UInt8 → Bool
  | [] => next []
  | byte :: rest => next (byte :: rest) || (byte != slash && passRun next rest)

/-- Passes what is left behind any number of bytes. -/
def passAll (next : List UInt8 → Bool) : List UInt8 → Bool
  | [] => next []
  | byte :: rest => next (byte :: rest) || passAll next rest

/-- Passes what is left behind some slash. -/
def passSlash (next : List UInt8 → Bool) : List UInt8 → Bool
  | [] => false
  | byte :: rest => (byte == slash && next rest) || passSlash next rest

/-- Passes what is left behind a slash at the front. -/
def passOneSlash (next : List UInt8 → Bool) : List UInt8 → Bool
  | [] => false
  | byte :: rest => byte == slash && next rest

/-- A range of characters as ranges of bytes. Of characters that take several bytes, the
last byte of the first one and the first byte of the last one make a range. -/
def byteRanges (first last : Char) : List (UInt8 × UInt8) :=
  let firsts := String.utf8EncodeChar first
  let lasts := String.utf8EncodeChar last
  let alone := fun (byte : UInt8) => (byte, byte)
  if first = last then firsts.map alone
  else firsts.dropLast.map alone ++ [(firsts.getLastD 0, lasts.headD 0)] ++ lasts.tail.map alone

/-- Whether a byte is in one of the ranges. -/
def inClass (casing : Casing) (ranges : List (Char × Char)) (byte : UInt8) : Bool :=
  ranges.any fun (first, last) => (byteRanges first last).any fun (low, high) =>
    (casing.alike byte).any fun alike => low ≤ alike && alike ≤ high

mutual

/-- Whether a token says nothing: an alternative of nothing but nothing. -/
def Token.isVoid : Token → Bool
  | .choice branches => voidBranches branches
  | _ => false

def voidTokens : List Token → Bool
  | [] => true
  | token :: rest => token.isVoid && voidTokens rest

def voidBranches : List (List Token) → Bool
  | [] => true
  | tokens :: rest => voidTokens tokens && voidBranches rest

end

mutual

/-- Whether a token takes a front off a text so that the rest passes. Void alternatives
among others are passed over. -/
def Token.pass (casing : Casing) (next : List UInt8 → Bool) (text : List UInt8) : Token → Bool
  | .literal c => (afterBytes? casing (String.utf8EncodeChar c) text).any next
  | .single =>
    match text with
    | [] => false
    | byte :: rest => byte != slash && next rest
  | .run => passRun next text
  | .leading => next text || passSlash next text
  | .trailing => passOneSlash (passAll next) text
  | .between => passOneSlash next text || passOneSlash (passSlash next) text
  | .oneOf negated ranges =>
    match text with
    | [] => false
    | byte :: rest => inClass casing ranges byte != negated && next rest
  | .choice branches => if voidBranches branches then next text else passBranches casing next text branches

def passTokens (casing : Casing) (next : List UInt8 → Bool) (text : List UInt8) : List Token → Bool
  | [] => next text
  | token :: rest => token.pass casing (fun left => passTokens casing next left rest) text

def passBranches (casing : Casing) (next : List UInt8 → Bool) (text : List UInt8) : List (List Token) → Bool
  | [] => false
  | tokens :: rest => (!voidTokens tokens && passTokens casing next text tokens) || passBranches casing next text rest

end

end TestScout.Glob

namespace TestScout

/-- Whether a glob matches a whole text. Two stars alone match everything. -/
def Glob.isMatch (glob : Glob) (casing : Glob.Casing) (text : String) : Bool :=
  match glob.tokens with
  | [.leading] => true
  | tokens => Glob.passTokens casing List.isEmpty (Text.bytes text.toList) tokens

end TestScout
