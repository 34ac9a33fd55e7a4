import TestScout.Text.Blank

/-! Splitting a text at the separators that stand outside quotes and brackets. -/

namespace TestScout.Source

/-- What a scan from the left knows: one count for all kinds of brackets, the quote it is
inside of, and whether the next character there is escaped. -/
structure Nesting where
  depth : Int := 0
  quote : Option Char := none
  escaped : Bool := false
deriving Repr, DecidableEq

namespace Nesting

def top : Nesting := {}

/-- Passes over one character. -/
def step (nesting : Nesting) (c : Char) : Nesting :=
  match nesting.quote with
  | some quote =>
    if nesting.escaped then { nesting with escaped := false }
    else if c = '\\' then { nesting with escaped := true }
    else if c = quote then { nesting with quote := none }
    else nesting
  | none =>
    if c = '\x27' ∨ c = '"' then { nesting with quote := some c }
    else if c = '(' ∨ c = '[' ∨ c = '{' then { nesting with depth := nesting.depth + 1 }
    else if c = ')' ∨ c = ']' ∨ c = '}' then { nesting with depth := nesting.depth - 1 }
    else nesting

/-- Quotes and brackets nest and never separate. -/
def nests (c : Char) : Bool :=
  c == '\x27' || c == '"' || c == '(' || c == '[' || c == '{' || c == ')' || c == ']' || c == '}'

def separates (nesting : Nesting) (separator c : Char) : Bool :=
  nesting.quote.isNone && nesting.depth == 0 && c == separator && !nests c

/-- All pieces between separators, blank ones included. -/
def pieces (separator : Char) : Nesting → List Char → List (List Char)
  | _, [] => [[]]
  | nesting, c :: rest =>
    if nesting.separates separator c then [] :: pieces separator nesting rest
    else
      match pieces separator (nesting.step c) rest with
      | [] => [[c]]
      | piece :: others => (c :: piece) :: others

end Nesting

/-- The pieces of a text between the separators at top level, without the blank ones. -/
def splitTopLevel (text : List Char) (separator : Char) : List (List Char) :=
  (Nesting.top.pieces separator text).filter (!Text.blank ·)

end TestScout.Source
