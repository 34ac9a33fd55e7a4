import TestScout.Registry.Basic

/-! The scopes of a program: everything outside of namespaces together, and each namespace
block of its own. A scope knows its imports and what is declared in it. -/

namespace TestScout.Discovery
open Code Source

structure Scope where
  space : Option String := none
  extent : Option Extent := none
  imports : Imports := {}
  classes : List ClassDecl := []
  traits : List TraitDecl := []

namespace Scope

def qualify (scope : Scope) (name : String) : String := TestScout.qualify scope.space name

def resolve (scope : Scope) (name : String) : String := resolveName scope.space scope.imports name

/-- The full name of an imported class, whose beginning it may share with others. -/
def importedName (group : ImportGroup) (item : Import) : String :=
  match group.shared with
  | some shared => shared ++ "\\" ++ item.name
  | none => item.name

/-- Takes in one of the names that are imported, unless it is a function or a constant. -/
def addImport (group : ImportGroup) (imports : Imports) (item : Import) : Imports :=
  if item.kind = .classLike then
    let fullName := importedName group item
    imports.insert (item.newName.getD (shortName fullName)).toLower fullName
  else imports

mutual

/-- Takes in a declaration. Blocks are looked into. -/
def add (scope : Scope) : Node → Scope
  | .imports group => { scope with imports := group.items.foldl (addImport group) scope.imports }
  | .classDecl node => { scope with classes := scope.classes ++ [node] }
  | .traitDecl node => { scope with traits := scope.traits ++ [node] }
  | .block ⟨children, _⟩ => scope.addAll children
  | _ => scope

def addAll (scope : Scope) : List Node → Scope
  | [] => scope
  | node :: rest => (scope.add node).addAll rest

end

/-- The scope of a namespace block. One without a name is as good as none. -/
def ofSpace (node : Space) : Scope :=
  Scope.addAll { space := if node.name.isEmpty then none else some node.name, extent := node.extent } node.children

def space? : Node → Option Space
  | .space node => some node
  | _ => none

/-- The scopes of a program, that outside of namespaces first. -/
def ofProgram (program : Program) : List Scope :=
  Scope.addAll {} (program.children.filter (space? · |>.isNone)) :: (program.children.filterMap space?).map ofSpace

/-! ## Declarations with full names -/

def resolveAdaptation (scope : Scope) : Adaptation → Adaptation
  | .precedence ofTrait method insteadOf => .precedence (scope.resolve ofTrait) method (insteadOf.map scope.resolve)
  | .rename ofTrait method newName visibility => .rename (ofTrait.map scope.resolve) method newName visibility

def method? : Node → Option Method
  | .method node => some node
  | _ => none

def traitUse? : Node → Option TraitUse
  | .traitUse node => some node
  | _ => none

/-- What a class or a trait with a body is known as. -/
def infoOf (scope : Scope) (file : Path) (name : String) (body : List Node) : ClassInfo where
  name := scope.qualify name
  traits := (body.filterMap traitUse?).flatMap fun node => node.traits.map scope.resolve
  adaptations := (body.filterMap traitUse?).flatMap fun node => node.adaptations.map scope.resolveAdaptation
  methods := body.filterMap method?
  imports := scope.imports
  file

def traitInfo (scope : Scope) (file : Path) (node : TraitDecl) : ClassInfo :=
  { scope.infoOf file node.name node.body with kind := .traitDecl }

def classInfo (scope : Scope) (file : Path) (node : ClassDecl) : ClassInfo :=
  { scope.infoOf file node.name node.body with
    isAbstract := node.isAbstract
    parent := node.parent.map scope.resolve }

/-- The traits of a scope and then its classes. -/
def infos (scope : Scope) (file : Path) : List ClassInfo :=
  scope.traits.map (scope.traitInfo file) ++ scope.classes.map (scope.classInfo file)

end Scope

end TestScout.Discovery
