import TestScout.Surface.Lenient.Statement

/-! Reading a whole source. -/

namespace TestScout.Surface.Lenient
open Lenient.Parser

/-- The rules for sources that nest no deeper than the bound. -/
def rulesUpTo : (bound : Nat) → Rules
  | 0 => ⟨fun _ => throw .nesting, throw .nesting, throw .nesting, throw .nesting⟩
  | bound + 1 => {
    expression := fun floor context state => deeper (expression (rulesUpTo bound) floor) context state
    statement := fun context state => deeper (statement (rulesUpTo bound)) context state
    block := fun context state => block (rulesUpTo bound) context state
    members := fun context state => members (rulesUpTo bound) context state }

/-- The statements of a source. Nothing nests deeper than there are tokens, and a statement
and its expression may begin with the same token. -/
def statements (source : String) : List Stmt :=
  let tokens := tokens source
  let rules := rulesUpTo (2 * tokens.length + 4)
  match ((statementsWhile rules fun _ => true).run ⟨source.toList, 0⟩).run { rest := tokens } with
  | .ok statements _ => statements
  | .error _ _ => []

end TestScout.Surface.Lenient
