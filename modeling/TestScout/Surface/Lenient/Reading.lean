import TestScout.Source.Escape
import TestScout.Surface.Tree

/-! What the lenient reading takes written code for. A name is known as one only where it is
called, strings have to be free of embedded code, a call needs a method that is named
outright, and all comments in front belong to what follows. -/

namespace TestScout.Surface.Lenient.Reading
open Code Source

variable (index : LineIndex)

def extent (span : Span) : Extent := index.extent span.start span.stop

def comments (remarks : List Remark) : List Comment :=
  remarks.map fun remark => Comment.ofText remark.text (extent index remark.span)

def attributes (groups : List AttributeText) : List AttributeGroup :=
  groups.map fun group => AttributeGroup.ofText group.text (extent index group.span)

def traitUse (node : TraitUse) : Code.TraitUse where
  traits := node.traits
  adaptations := node.adaptations.map (·.reading)
  extent := extent index node.span

mutual

def expr : Expr → Node
  | .name _ span => .unknown (extent index span)
  | .quoted raw interpolates span =>
    if interpolates then .unknown (extent index span) else .string ⟨literalText raw, raw, extent index span⟩
  | .number raw span => .number ⟨raw, extent index span⟩
  | .parenthesized inner _ => expr inner
  | .reference _ span => .unknown (extent index span)
  | .call node =>
    match call? node with
    | some read => .call read
    | none => .unknown (extent index node.span)
  | .array items span => .array ⟨entries items, extent index span⟩
  | .closure body span => .closure ⟨false, block body, extent index span⟩
  | .arrow value span =>
    .closure ⟨true, ⟨[.returned ⟨some (expr value), extent index value.span⟩], none⟩, extent index span⟩
  | .yielded key value span => .yielded ⟨expr? key, expr? value, false, extent index span⟩
  | .delegated iterator span => .yielded ⟨none, some (expr iterator), true, extent index span⟩
  | .included kind target span => .included ⟨kind, expr target, extent index span⟩
  | .other span => .unknown (extent index span)

def expr? : Option Expr → Option Node
  | none => none
  | some value => some (expr value)

def call? : Call → Option Code.Call
  | ⟨_, _, true, _⟩ => none
  | ⟨.function callee, items, false, span⟩ =>
    some { kind := .function, name := callee, arguments := arguments items, extent := extent index span }
  | ⟨.method object (.plain name), items, false, span⟩ =>
    some {
      kind := .method, name, arguments := arguments items, chain := called object
      extent := extent index span }
  | ⟨.static scope (.plain name), items, false, span⟩ =>
    some { kind := .static, name, scope := scope, arguments := arguments items, extent := extent index span }
  | ⟨_, _, false, _⟩ => none

/-- The call that an object is, in parentheses or not. -/
def called : Expr → Option Code.Call
  | .call node => call? node
  | .parenthesized inner _ => called inner
  | _ => none

def arguments : List Argument → List Node
  | [] => []
  | ⟨some label, _, value, span⟩ :: rest =>
    .namedArgument ⟨label, expr value, extent index span⟩ :: arguments rest
  | ⟨none, _, value, _⟩ :: rest => expr value :: arguments rest

def entries : List Element → List Entry
  | [] => []
  | ⟨key, value, isSpread, span⟩ :: rest =>
    ⟨expr? key, expr value, isSpread, extent index span⟩ :: entries rest

def block : Block → Code.Block
  | ⟨items, span⟩ => ⟨statements items, extent index span⟩

def statements : List Stmt → List Node
  | [] => []
  | item :: rest =>
    match statement item with
    | some node => node :: statements rest
    | none => statements rest

def statement : Stmt → Option Node
  | .space ⟨name, items, _, span⟩ => some (.space ⟨name, statements items, extent index span⟩)
  | .classDecl ⟨name, isAbstract, parents, body, remarks, groups, span⟩ =>
    some (.classDecl ⟨name, isAbstract, parents.head?, members body, comments index remarks,
      attributes index groups, extent index span⟩)
  | .traitDecl ⟨name, body, remarks, groups, span⟩ =>
    some (.traitDecl ⟨name, members body, comments index remarks, attributes index groups, extent index span⟩)
  | .imports group bounds => some (.imports { group with extent := extent index bounds.span })
  | .expression value remarks bounds =>
    some (.statement ⟨expr value, comments index remarks, extent index bounds.span⟩)
  | .shown _ _ _ => none
  | .returned value bounds => some (.returned ⟨expr? value, extent index bounds.span⟩)
  | .block node => some (.block (block node))
  | .other _ => none

def members : List Member → List Node
  | [] => []
  | .method ⟨name, visibility, isAbstract, isStatic, body, remarks, groups, span⟩ :: rest =>
    .method ⟨name, visibility, isAbstract, isStatic, block? body, comments index remarks,
      attributes index groups, extent index span⟩ :: members rest
  | .traitUse node :: rest => .traitUse (traitUse index node) :: members rest
  | .other _ :: rest => members rest

def block? : Option Block → Option Code.Block
  | none => none
  | some node => some (block node)

end

variable {index}

theorem expr_quoted (raw : String) (interpolates : Bool) (span : Span) : expr index (.quoted raw interpolates span) =
    if interpolates then .unknown (extent index span) else .string ⟨literalText raw, raw, extent index span⟩ := rfl

theorem expr_call (node : Call) : expr index (.call node) =
    match call? index node with
    | some read => .call read
    | none => .unknown (extent index node.span) := rfl

theorem statements_cons (item : Stmt) (rest : List Stmt) :
    statements index (item :: rest) = (statement index item).toList ++ statements index rest := by
  rw [statements]
  cases statement index item <;> rfl

end TestScout.Surface.Lenient.Reading
