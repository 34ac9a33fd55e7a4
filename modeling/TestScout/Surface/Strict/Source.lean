import TestScout.Surface.Strict.Statement

/-! Reading a whole source. -/

namespace TestScout.Surface.Strict
open Strict.Parser

/-- The rules for sources that nest no deeper than the bound. -/
def rulesUpTo : (bound : Nat) → Rules
  | 0 => ⟨failure, failure, failure, failure, failure, failure⟩
  | bound + 1 => {
    expression := fun context state => expression (rulesUpTo bound) context state
    operand := fun context state => operand (rulesUpTo bound) context state
    parameters := fun context state => parameters (rulesUpTo bound) context state
    statement := fun context state => statement (rulesUpTo bound) context state
    block := fun context state => block (rulesUpTo bound) context state
    members := fun context state => membersOf (rulesUpTo bound) false context state }

/-- The text in front of the code, with the tag that opens it. -/
def opening : Parser Unit := do
  let context ← read
  let size := outsideLength context.bound (← get).rest
  if size != 0 then passOver size fun span _ => some (.outside span)

/-- All statements of a source. -/
def source (rules : Rules) : Parser (List Stmt) := do
  opening
  let statements ← statementsTo rules []
  if (← due).isEmpty then return gathered (statements.drop 1) else failure

/-- The statements of a source without mistakes. Nothing nests deeper than there are
characters, and a statement and its expression may begin with the same one. -/
def statements? (text : String) : Option (List Stmt) :=
  let text := text.toList
  let bound := text.length + 1
  ((source (rulesUpTo (2 * bound + 2))).run ⟨text, bound, false⟩).run' { rest := text }

end TestScout.Surface.Strict
