import TestScout.Code.Adaptation
import TestScout.Source.Attribute
import TestScout.Source.Comment

/-! The part of a PHP source that test discovery looks at. Everything else is `unknown`. -/

namespace TestScout.Code
open Source

inductive ImportKind where
  | classLike
  | function
  | const
deriving Repr, DecidableEq, Inhabited

structure Import where
  name : String
  newName : Option String := none
  kind : ImportKind := .classLike
deriving Repr, DecidableEq, Inhabited

/-- A `use` declaration, whose names may share a beginning. -/
structure ImportGroup where
  kind : ImportKind := .classLike
  shared : Option String := none
  items : List Import := []
  extent : Option Extent := none
deriving Repr, DecidableEq, Inhabited

/-- The traits that a class-like body uses. -/
structure TraitUse where
  traits : List String := []
  adaptations : List Adaptation := []
  extent : Option Extent := none
deriving Repr, DecidableEq, Inhabited

inductive CallKind where
  | function
  | method
  | static
deriving Repr, DecidableEq, Inhabited

inductive IncludeKind where
  | plain
  | plainOnce
  | required
  | requiredOnce
deriving Repr, DecidableEq, Inhabited

structure StringLiteral where
  value : String
  raw : String
  extent : Option Extent := none
deriving Repr, DecidableEq, Inhabited

structure Number where
  raw : String
  extent : Option Extent := none
deriving Repr, DecidableEq, Inhabited

structure Name where
  name : String
  extent : Option Extent := none
deriving Repr, DecidableEq, Inhabited

mutual

inductive Node where
  | program (node : Program)
  | space (node : Space)
  | classDecl (node : ClassDecl)
  | traitDecl (node : TraitDecl)
  | method (node : Method)
  | traitUse (node : TraitUse)
  | imports (node : ImportGroup)
  | statement (node : ExpressionStatement)
  | call (node : Call)
  | string (node : StringLiteral)
  | number (node : Number)
  | namedArgument (node : NamedArgument)
  | closure (node : Closure)
  | block (node : Block)
  | returned (node : Return)
  | yielded (node : Yield)
  | included (node : Include)
  | array (node : ArrayLiteral)
  | entry (node : Entry)
  | name (node : Name)
  | unknown (extent : Option Extent)

structure Program where
  children : List Node := []
  extent : Option Extent := none

/-- A namespace with the statements it covers, braced or not. -/
structure Space where
  name : String
  children : List Node := []
  extent : Extent := {}

structure ClassDecl where
  name : String
  isAbstract : Bool := false
  /-- The parent class as written. -/
  parent : Option String := none
  body : List Node := []
  comments : List Comment := []
  attributes : List AttributeGroup := []
  extent : Extent := {}

structure TraitDecl where
  name : String
  body : List Node := []
  comments : List Comment := []
  attributes : List AttributeGroup := []
  extent : Extent := {}

structure Method where
  name : String
  visibility : Visibility := .publicAccess
  isAbstract : Bool := false
  isStatic : Bool := false
  body : Option Block := none
  comments : List Comment := []
  attributes : List AttributeGroup := []
  extent : Extent := {}

structure ExpressionStatement where
  expression : Node
  comments : List Comment := []
  extent : Extent := {}

/-- A call. In a fluent chain the last call written comes first and links to the call that
its object is. -/
structure Call where
  kind : CallKind := .function
  name : String
  /-- The class of a static call. -/
  scope : Option String := none
  arguments : List Node := []
  chain : Option Call := none
  extent : Extent := {}

structure NamedArgument where
  name : String
  value : Node
  extent : Option Extent := none

/-- The body of an arrow function is one return. -/
structure Closure where
  isArrow : Bool := false
  body : Block
  extent : Option Extent := none

structure Block where
  children : List Node := []
  extent : Option Extent := none

structure Return where
  value : Option Node := none
  extent : Option Extent := none

structure Yield where
  key : Option Node := none
  value : Option Node := none
  /-- Whether the value is itself an iterator whose elements are yielded. -/
  delegates : Bool := false
  extent : Option Extent := none

structure Include where
  kind : IncludeKind := .plain
  target : Node
  extent : Option Extent := none

structure ArrayLiteral where
  entries : List Entry := []
  extent : Option Extent := none

structure Entry where
  key : Option Node := none
  value : Node
  isSpread : Bool := false
  extent : Option Extent := none

end

instance : Inhabited Node := ⟨.unknown none⟩
instance : Inhabited Program := ⟨{}⟩
instance : Inhabited Block := ⟨{}⟩
instance : Inhabited Entry := ⟨{ value := .unknown none }⟩
instance : Inhabited Method := ⟨{ name := "" }⟩
instance : Inhabited Call := ⟨{ name := "" }⟩

namespace Node

def extent? : Node → Option Extent
  | .program node => node.extent
  | .space node => node.extent
  | .classDecl node => node.extent
  | .traitDecl node => node.extent
  | .method node => node.extent
  | .traitUse node => node.extent
  | .imports node => node.extent
  | .statement node => node.extent
  | .call node => node.extent
  | .string node => node.extent
  | .number node => node.extent
  | .namedArgument node => node.extent
  | .closure node => node.extent
  | .block node => node.extent
  | .returned node => node.extent
  | .yielded node => node.extent
  | .included node => node.extent
  | .array node => node.extent
  | .entry node => node.extent
  | .name node => node.extent
  | .unknown extent => extent

/-- The text of a string literal. -/
def text? : Node → Option String
  | .string node => some node.value
  | _ => none

/-- What an argument passes, named or not. -/
def argument : Node → Node
  | .namedArgument node => node.value
  | node => node

end Node

namespace Call

/-- The calls of a chain, the last one written first. -/
def links : Call → List Call
  | call@⟨_, _, _, _, none, _⟩ => [call]
  | call@⟨_, _, _, _, some inner, _⟩ => call :: inner.links

/-- The call that starts the chain. -/
def root : Call → Call
  | call@⟨_, _, _, _, none, _⟩ => call
  | ⟨_, _, _, _, some inner, _⟩ => inner.root

theorem getLast?_links (call : Call) : call.links.getLast? = some call.root := by
  match call with
  | ⟨_, _, _, _, none, _⟩ => rfl
  | ⟨_, _, _, _, some inner, _⟩ =>
    rw [links, root, ← getLast?_links inner]
    match inner with
    | ⟨_, _, _, _, none, _⟩ => rfl
    | ⟨_, _, _, _, some _, _⟩ => rw [links, List.getLast?_cons_cons]

end Call

end TestScout.Code
