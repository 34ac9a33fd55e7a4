import TestScout.Source.Quoted
import TestScout.Surface.Strict.Scan
import TestScout.Surface.Tree

/-! What the strict reading takes written code for. Names count as names
wherever they stand, strings count whatever is embedded in them, a reference mark is no part
of an argument, and a comment belongs to what follows only when no line is left blank between
them. -/

namespace TestScout.Surface.Strict.Reading
open Code Source

variable (index : LineIndex)

def extent (span : Span) : Extent := index.extent span.start span.stop

/-- A closing tag that ends a statement is not a part of it. -/
def extentOf (bounds : Bounds) : Extent :=
  extent index (if bounds.terminator = .closeTag then bounds.written else bounds.span)

/-- The comments, the last one first, that follow each other down to a row without a blank line. -/
def adjacent : (row : Nat) → List Remark → List Comment
  | _, [] => []
  | row, remark :: earlier =>
    let place := extent index remark.span
    if place.stop.row + 1 < row then [] else Comment.ofText remark.text place :: adjacent place.start.row earlier

def comments (start : Nat) (remarks : List Remark) : List Comment :=
  (adjacent index (index.point start).row remarks.reverse).reverse

def attributes (groups : List AttributeText) : List AttributeGroup :=
  groups.map fun group => AttributeGroup.ofText group.text (extent index group.span)

/-- A name relative to the current namespace is not counted among names. -/
def isRelative (name : String) : Bool :=
  let first := name.toList.takeWhile Scan.isNamePart
  Scan.isKeyword "namespace" first && first.length < name.length

def traitUse (node : TraitUse) : Code.TraitUse where
  traits := node.traits.filter (!isRelative ·)
  adaptations := node.adaptations.filterMap (Adaptation.ofText? ·.text)
  extent := extent index node.span

def selectorText : Selector → String
  | .plain name => name
  | .computed text => text

mutual

def expr : Expr → Node
  | .name text span => .name ⟨text, extent index span⟩
  | .quoted raw _ span => .string ⟨unquote raw, raw, extent index span⟩
  | .number raw span => .number ⟨raw, extent index span⟩
  | .parenthesized inner _ => expr inner
  | .reference _ span => .unknown (extent index span)
  | .call node => .call (call node)
  | .array items span => .array ⟨entries items, extent index span⟩
  | .closure body span => .closure ⟨false, block body, extent index span⟩
  | .arrow value span =>
    .closure ⟨true, ⟨[.returned ⟨some (expr value), extent index value.span⟩], none⟩, extent index span⟩
  | .yielded key value span => .yielded ⟨expr? key, expr? value, false, extent index span⟩
  | .delegated iterator span => .yielded ⟨none, some (expr iterator), false, extent index span⟩
  | .included kind target span => .included ⟨kind, expr target, extent index span⟩
  | .other span => .unknown (extent index span)

def expr? : Option Expr → Option Node
  | none => none
  | some value => some (expr value)

def call : Call → Code.Call
  | ⟨.function callee, items, _, span⟩ =>
    { kind := .function, name := callee, arguments := arguments items, extent := extent index span }
  | ⟨.method object selector, items, _, span⟩ =>
    { kind := .method, name := selectorText selector, arguments := arguments items, chain := called object
      extent := extent index span }
  | ⟨.static scope selector, items, _, span⟩ =>
    { kind := .static, name := selectorText selector, scope := scope, arguments := arguments items
      extent := extent index span }

/-- The call that an object is, when it is one as it stands. -/
def called : Expr → Option Code.Call
  | .call node => some (call node)
  | _ => none

def arguments : List Argument → List Node
  | [] => []
  | ⟨some label, _, .reference inner _, span⟩ :: rest =>
    .namedArgument ⟨label, expr inner, extent index span⟩ :: arguments rest
  | ⟨none, false, .reference inner _, _⟩ :: rest => expr inner :: arguments rest
  | ⟨some label, _, value, span⟩ :: rest =>
    .namedArgument ⟨label, expr value, extent index span⟩ :: arguments rest
  | ⟨none, true, _, span⟩ :: rest => .unknown (extent index span) :: arguments rest
  | ⟨none, false, value, _⟩ :: rest => expr value :: arguments rest

def entries : List Element → List Entry
  | [] => []
  | ⟨key, value, isSpread, span⟩ :: rest =>
    let read := if isSpread then .unknown (extent index span) else expr value
    ⟨expr? key, read, isSpread, extent index span⟩ :: entries rest

def block : Block → Code.Block
  | ⟨items, span⟩ => ⟨statements items, extent index span⟩

def statements : List Stmt → List Node
  | [] => []
  | item :: rest =>
    match statement item with
    | some node => node :: statements rest
    | none => statements rest

def statement : Stmt → Option Node
  | .space ⟨name, items, _, span⟩ => some (.space ⟨name, statements items, extent index span⟩)
  | .classDecl ⟨name, isAbstract, parents, body, remarks, groups, span⟩ =>
    some (.classDecl ⟨name, isAbstract, parents.find? (!isRelative ·), members body,
      comments index span.start remarks, attributes index groups, extent index span⟩)
  | .traitDecl ⟨name, body, remarks, groups, span⟩ =>
    some (.traitDecl ⟨name, members body, comments index span.start remarks, attributes index groups,
      extent index span⟩)
  | .imports group bounds => some (.imports { group with extent := extentOf index bounds })
  | .expression value remarks bounds | .shown value remarks bounds =>
    some (.statement ⟨expr value, comments index bounds.span.start remarks, extentOf index bounds⟩)
  | .returned value bounds => some (.returned ⟨expr? value, extentOf index bounds⟩)
  | .block node => some (.block (block node))
  | .other _ => none

def members : List Member → List Node
  | [] => []
  | .method ⟨name, visibility, isAbstract, isStatic, body, remarks, groups, span⟩ :: rest =>
    .method ⟨name, visibility, isAbstract, isStatic, block? body, comments index span.start remarks,
      attributes index groups, extent index span⟩ :: members rest
  | .traitUse node :: rest => .traitUse (traitUse index node) :: members rest
  | .other _ :: rest => members rest

def block? : Option Block → Option Code.Block
  | none => none
  | some node => some (block node)

end

variable {index}

theorem expr_quoted (raw : String) (interpolates : Bool) (span : Span) :
    expr index (.quoted raw interpolates span) = .string ⟨unquote raw, raw, extent index span⟩ := rfl

theorem statements_cons (item : Stmt) (rest : List Stmt) :
    statements index (item :: rest) = (statement index item).toList ++ statements index rest := by
  rw [statements]
  cases statement index item <;> rfl

end TestScout.Surface.Strict.Reading
