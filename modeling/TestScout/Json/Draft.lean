import TestScout.Json.Value

/-! JSON texts as far as they make sense. A text that goes wrong somewhere has a draft whose
last part says so; what stands in front of the mistake can still be looked at, and of a
mistake in the text and a value of the wrong kind the one that comes first counts. -/

namespace TestScout.Json

inductive Fault where
  /-- The text is no JSON. -/
  | malformed
  /-- The text is JSON of another shape than wanted. -/
  | mismatch
  /-- The text stops too early. -/
  | unfinished
deriving Repr, DecidableEq, Inhabited

/-- The name of the kind of fault. -/
def Fault.category : Fault → String
  | .malformed => "syntax"
  | .mismatch => "data"
  | .unfinished => "eof"

inductive Draft where
  | null
  | bool (value : Bool)
  /-- A number as it is written. -/
  | number (text : String)
  /-- A string; none when its escapes name half of a pair of surrogates. -/
  | string (text : Option String)
  | array (items : List Draft) (fault : Option Fault)
  | object (members : List (Option String × Draft)) (fault : Option Fault)
  | broken (fault : Fault)
deriving Repr, Inhabited

namespace Draft

def isGap (c : Char) : Bool := c == ' ' || c == '\n' || c == '\t' || c == '\r'

def skipGap (text : List Char) : List Char := text.dropWhile isGap

def hexValue? (c : Char) : Option Nat :=
  if c.isDigit then some (c.toNat - 48)
  else if 'a' ≤ c && c ≤ 'f' then some (c.toNat - 87)
  else if 'A' ≤ c && c ≤ 'F' then some (c.toNat - 55)
  else none

/-- The code unit that four digits name. -/
def unit? (first second third fourth : Char) : Option Nat := do
  return ((← hexValue? first) * 16 + (← hexValue? second)) * 256 + ((← hexValue? third) * 16 + (← hexValue? fourth))

/-- What a scan of a string has found: its text or none, and what follows the closing quote. -/
abbrev Scan := Except Fault (Option (List Char) × List Char)

def Scan.push (c : Char) (scan : Scan) : Scan := scan.map fun (text, rest) => (text.map (c :: ·), rest)

/-- A string with half of a pair in it; nothing worse than that is known of a string that does not end. -/
def Scan.halved (scan : Scan) : Scan :=
  match scan with
  | .ok (_, rest) => .ok (none, rest)
  | .error _ => .error .malformed

def simpleEscape? (c : Char) : Option Char :=
  match c with
  | '"' => some '"'
  | '\\' => some '\\'
  | '/' => some '/'
  | 'b' => some '\x08'
  | 'f' => some '\x0c'
  | 'n' => some '\n'
  | 'r' => some '\r'
  | 't' => some '\t'
  | _ => none

def isHigh (unit : Nat) : Bool := 0xD800 ≤ unit && unit < 0xDC00
def isLow (unit : Nat) : Bool := 0xDC00 ≤ unit && unit < 0xE000

/-- The character that a pair of surrogates stands for. -/
def ofPair (high low : Nat) : Char := Char.ofNat (0x10000 + (high - 0xD800) * 1024 + (low - 0xDC00))

/-- A string behind its opening quote. A high surrogate is pending until its partner comes. -/
def stringText (pending : Option Nat) : (text : List Char) → Scan
  | [] => .error .unfinished
  | '"' :: rest => settle (.ok (some [], rest))
  | '\\' :: 'u' :: a :: b :: c :: d :: rest =>
    match unit? a b c d with
    | none => .error .malformed
    | some unit =>
      if isLow unit then
        match pending with
        | some high => Scan.push (ofPair high unit) (stringText none rest)
        | none => Scan.halved (stringText none rest)
      else if isHigh unit then settle (stringText (some unit) rest)
      else settle (Scan.push (Char.ofNat unit) (stringText none rest))
  | '\\' :: 'u' :: rest => .error (if rest.all fun c => (hexValue? c).isSome then .unfinished else .malformed)
  | ['\\'] => .error .unfinished
  | '\\' :: c :: rest =>
    match simpleEscape? c with
    | some plain => settle (Scan.push plain (stringText none rest))
    | none => .error .malformed
  | c :: rest => if c.toNat < 32 then .error .malformed else settle (Scan.push c (stringText none rest))
where
  settle (scan : Scan) : Scan := if pending.isSome then scan.halved else scan

/-- Digits, of which there must be one. -/
def digits (text : List Char) : Except Fault (List Char × List Char) :=
  match text with
  | [] => .error .unfinished
  | c :: _ => if c.isDigit then .ok (text.takeWhile Char.isDigit, text.dropWhile Char.isDigit) else .error .malformed

/-- The whole part of a number, which starts with a zero only if it is one. -/
def whole (text : List Char) : Except Fault (List Char × List Char) :=
  match text with
  | '0' :: c :: rest => if c.isDigit then .error .malformed else .ok (['0'], c :: rest)
  | _ => digits text

def fraction (text : List Char) : Except Fault (List Char × List Char) :=
  match text with
  | '.' :: rest => (digits rest).map fun (taken, rest) => ('.' :: taken, rest)
  | _ => .ok ([], text)

def exponent (text : List Char) : Except Fault (List Char × List Char) :=
  match text with
  | mark :: rest =>
    if mark.toLower = 'e' then
      match rest with
      | '+' :: rest => (digits rest).map fun (taken, rest) => ('e' :: '+' :: taken, rest)
      | '-' :: rest => (digits rest).map fun (taken, rest) => ('e' :: '-' :: taken, rest)
      | _ => (digits rest).map fun (taken, rest) => ('e' :: taken, rest)
    else .ok ([], text)
  | [] => .ok ([], text)

def numberText (text : List Char) : Except Fault (List Char × List Char) := do
  let (sign, text) := match text with
    | '-' :: rest => (['-'], rest)
    | _ => ([], text)
  let (whole, text) ← whole text
  let (fraction, text) ← fraction text
  let (exponent, text) ← exponent text
  return (sign ++ whole ++ fraction ++ exponent, text)

/-- A word that must stand at the front. -/
def keyword (word : List Char) (draft : Draft) (text : List Char) : Draft × List Char :=
  match word, text with
  | [], _ => (draft, text)
  | _ :: _, [] => (.broken .unfinished, [])
  | c :: word, d :: rest => if c = d then keyword word draft rest else (.broken .malformed, rest)

def isBroken : Draft → Bool
  | .broken _ => true
  | .array _ (some _) => true
  | .object _ (some _) => true
  | _ => false

mutual

/-- The value at the front and what follows it. The bound limits how deep values nest and how many they hold. -/
def value : (bound : Nat) → List Char → Draft × List Char
  | 0, text => (.broken .malformed, text)
  | bound + 1, text =>
    match skipGap text with
    | [] => (.broken .unfinished, [])
    | 'n' :: rest => keyword "ull".toList .null rest
    | 't' :: rest => keyword "rue".toList (.bool true) rest
    | 'f' :: rest => keyword "alse".toList (.bool false) rest
    | '"' :: rest =>
      match stringText none rest with
      | .ok (text, rest) => (.string (text.map String.ofList), rest)
      | .error fault => (.broken fault, [])
    | '[' :: rest =>
      let (items, fault, rest) := items bound true rest
      (.array items fault, rest)
    | '{' :: rest =>
      let (members, fault, rest) := members bound true rest
      (.object members fault, rest)
    | c :: rest =>
      if c = '-' ∨ c.isDigit then
        match numberText (c :: rest) with
        | .ok (text, rest) => (.number (String.ofList text), rest)
        | .error fault => (.broken fault, [])
      else (.broken .malformed, [])

def items : (bound : Nat) → (isFirst : Bool) → List Char → List Draft × Option Fault × List Char
  | 0, _, text => ([], some .malformed, text)
  | bound + 1, isFirst, text =>
    match skipGap text with
    | [] => ([], some .unfinished, [])
    | ']' :: rest => ([], none, rest)
    | c :: rest =>
      if !isFirst && c != ',' then ([], some .malformed, []) else
      let text := if isFirst then c :: rest else skipGap rest
      if text.head? == some ']' then ([], some .malformed, []) else
      let (item, rest) := value bound text
      if item.isBroken then ([item], none, []) else
      let (others, fault, rest) := items bound false rest
      (item :: others, fault, rest)

def members : (bound : Nat) → (isFirst : Bool) → List Char → List (Option String × Draft) × Option Fault × List Char
  | 0, _, text => ([], some .malformed, text)
  | bound + 1, isFirst, text =>
    match skipGap text with
    | [] => ([], some .unfinished, [])
    | '}' :: rest => ([], none, rest)
    | c :: rest =>
      if !isFirst && c != ',' then ([], some .malformed, []) else
      match if isFirst then c :: rest else skipGap rest with
      | [] => ([], some .unfinished, [])
      | '"' :: rest =>
        match stringText none rest with
        | .error fault => ([], some fault, [])
        | .ok (key, rest) =>
          let key := key.map String.ofList
          match skipGap rest with
          | ':' :: rest =>
            let (item, rest) := value bound rest
            if item.isBroken then ([(key, item)], none, []) else
            let (others, fault, rest) := members bound false rest
            ((key, item) :: others, fault, rest)
          | [] => ([(key, .broken .unfinished)], none, [])
          | _ => ([(key, .broken .malformed)], none, [])
      | _ => ([], some .malformed, [])

end

end Draft

/-- The draft of a text, and whether something follows the value. -/
structure Document where
  root : Draft
  hasMore : Bool

def Document.ofText (text : String) : Document :=
  let (root, rest) := Draft.value (2 * text.length + 2) text.toList
  ⟨root, !(Draft.skipGap rest).isEmpty⟩

end TestScout.Json
