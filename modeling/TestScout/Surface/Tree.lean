import TestScout.Code.Tree
import TestScout.Surface.Span

/-! The written form of a PHP source, as far as discovery can tell its parts apart. Spans
are byte offsets. What discovery never looks into is `other`. -/

namespace TestScout.Surface
open Code

/-- An attribute group as it is written. -/
structure AttributeText where
  text : String
  span : Span
deriving Repr, Inhabited

/-- What follows the arrow or the colons of a member access. -/
inductive Selector where
  | plain (name : String)
  /-- A variable or an expression in braces, as it is written. -/
  | computed (text : String)
deriving Repr, Inhabited

/-- How a statement ends. -/
inductive Terminator where
  | semicolon
  | closeTag
  /-- Nothing that ends a statement stood where one had to end. -/
  | missing
deriving Repr, DecidableEq, Inhabited

/-- Where a statement stands. -/
structure Bounds where
  /-- The statement without its end. -/
  written : Span
  /-- The statement with its end. -/
  span : Span
  terminator : Terminator
deriving Repr, Inhabited

/-- A clause that adapts used traits, as it is written and as it reads. -/
structure AdaptationText where
  text : String
  reading : Adaptation
deriving Repr, Inhabited

structure TraitUse where
  traits : List String
  adaptations : List AdaptationText := []
  span : Span
deriving Repr, Inhabited

mutual

inductive Expr where
  /-- A constant or a magic constant. -/
  | name (text : String) (span : Span)
  | quoted (raw : String) (interpolates : Bool) (span : Span)
  | number (raw : String) (span : Span)
  | parenthesized (inner : Expr) (span : Span)
  /-- An operand that is meant to be passed on itself, not its value. -/
  | reference (inner : Expr) (span : Span)
  | call (call : Call)
  | array (elements : List Element) (span : Span)
  | closure (body : Block) (span : Span)
  | arrow (value : Expr) (span : Span)
  | yielded (key value : Option Expr) (span : Span)
  | delegated (iterator : Expr) (span : Span)
  | included (kind : IncludeKind) (target : Expr) (span : Span)
  | other (span : Span)

inductive Target where
  /-- A function, by its name or by an expression, as it is written. -/
  | function (callee : String)
  | method (object : Expr) (selector : Selector)
  | static (scope : String) (selector : Selector)

structure Call where
  target : Target
  arguments : List Argument := []
  /-- Whether the call stands for a function with all its parameters open. -/
  isPartial : Bool := false
  span : Span

structure Argument where
  label : Option String := none
  isSpread : Bool := false
  value : Expr
  span : Span

structure Element where
  key : Option Expr := none
  value : Expr
  isSpread : Bool := false
  span : Span

structure Block where
  statements : List Stmt := []
  span : Span

inductive Stmt where
  | space (node : Space)
  | classDecl (node : ClassDecl)
  | traitDecl (node : TraitDecl)
  | imports (group : ImportGroup) (bounds : Bounds)
  | expression (value : Expr) (remarks : List Remark) (bounds : Bounds)
  /-- An expression in a tag that writes it out. -/
  | shown (value : Expr) (remarks : List Remark) (bounds : Bounds)
  | returned (value : Option Expr) (bounds : Bounds)
  | block (node : Block)
  | other (span : Span)

structure Space where
  name : String
  statements : List Stmt := []
  isBraced : Bool
  span : Span

structure ClassDecl where
  name : String
  isAbstract : Bool := false
  /-- What the class extends; more than one only by mistake. -/
  parents : List String := []
  body : List Member := []
  remarks : List Remark := []
  attributes : List AttributeText := []
  span : Span

structure TraitDecl where
  name : String
  body : List Member := []
  remarks : List Remark := []
  attributes : List AttributeText := []
  span : Span

inductive Member where
  | method (node : Method)
  | traitUse (node : TraitUse)
  | other (span : Span)

structure Method where
  name : String
  visibility : Visibility := .publicAccess
  isAbstract : Bool := false
  isStatic : Bool := false
  body : Option Block := none
  remarks : List Remark := []
  attributes : List AttributeText := []
  span : Span

end

instance : Inhabited Expr := ⟨.other {}⟩
instance : Inhabited Stmt := ⟨.other {}⟩
instance : Inhabited Member := ⟨.other {}⟩
instance : Inhabited Block := ⟨{ span := {} }⟩

def Expr.span : Expr → Span
  | .name _ span => span
  | .quoted _ _ span => span
  | .number _ span => span
  | .parenthesized _ span => span
  | .reference _ span => span
  | .call node => node.span
  | .array _ span => span
  | .closure _ span => span
  | .arrow _ span => span
  | .yielded _ _ span => span
  | .delegated _ span => span
  | .included _ _ span => span
  | .other span => span

def Stmt.span : Stmt → Span
  | .space node => node.span
  | .classDecl node => node.span
  | .traitDecl node => node.span
  | .imports _ bounds => bounds.span
  | .expression _ _ bounds => bounds.span
  | .shown _ _ bounds => bounds.span
  | .returned _ bounds => bounds.span
  | .block node => node.span
  | .other span => span

end TestScout.Surface
