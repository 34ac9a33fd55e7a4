import TestScout.Discovery.Scope
import TestScout.Registry.Methods
import TestScout.Test.Definition
import TestScout.Test.Provider

/-! Tests in classes. A class that is not abstract is a test class when some method that can
be seen on it is a test: a public method with a body of its own whose name says so or which is
marked as a test. -/

namespace TestScout.Discovery
open Code Source Test

/-- Lines of definitions count from one. -/
def positionOf (point : Point) : Position := ⟨point.row + 1, point.column⟩

/-- A definition that stands in a stretch of source. -/
def placed (extent : Extent) (definition : Definition) : Definition :=
  { definition with start := positionOf extent.start, stop := positionOf extent.stop }

def spaceDefinition (space : String) (extent : Extent) : Definition :=
  placed extent {
    kind := .space, id := "namespace:" ++ space, label := space, depth := 1, space := some space }

/-- What is said about a method. Names are resolved where the method is declared. -/
def methodAnnotations (registry : Registry) (member : VisibleMethod) : Annotations :=
  let resolve := match registry.find? member.declaring with
    | some declaring => resolveName (namespaceOf? declaring.name) declaring.imports
    | none => id
  Annotations.ofSource resolve member.method.comments member.method.attributes

def isTest (registry : Registry) (member : VisibleMethod) : Bool :=
  member.method.visibility == .publicAccess && !member.method.isAbstract &&
    ((Text.after? "test".toList member.name.toList).isSome || (methodAnnotations registry member).isTest)

/-- The tests that can be seen on a class. -/
def testsOf (registry : Registry) (className : String) : List VisibleMethod :=
  (registry.methodsOf className).filter (isTest registry)

/-- The keys of a provider: a method that can be seen on the class itself or on another
class that is named in front of it. -/
def providerKeysOf (scope : Scope) (registry : Registry) (className provider : String) : List String :=
  let (holder, method) := match Text.splitOnce [':', ':'] provider.toList with
    | some (holder, method) => (scope.resolve (String.ofList holder), String.ofList method)
    | none => (className, provider)
  match registry.methodOf? holder method with
  | some member => providerKeys (.method member.method)
  | none => []

def classDefinition (scope : Scope) (depth : Nat) (node : ClassDecl) : Definition :=
  let annotations := Annotations.ofSource scope.resolve node.comments node.attributes
  placed node.extent {
    kind := .classLike
    id := scope.qualify node.name
    label := annotations.testdox.head?.getD node.name
    depth
    annotations
    qualifiedClass := scope.qualify node.name
    space := scope.space
    className := node.name }

/-- The definition of a test. One that is inherited stands where the class does. -/
def testDefinition (scope : Scope) (registry : Registry) (depth : Nat) (node : ClassDecl) (member : VisibleMethod) :
    Definition :=
  let className := scope.qualify node.name
  let annotations := methodAnnotations registry member
  placed (if member.isInherited then node.extent else member.method.extent) {
    kind := .method
    id := className ++ "::" ++ member.name
    label := annotations.testdox.head?.getD member.name
    depth := depth + 1
    annotations
    qualifiedClass := className
    space := scope.space
    className := node.name
    methodName := member.name
    dataSets := annotations.dataProvider.flatMap (providerKeysOf scope registry className) }

/-- A class with its tests; nothing when it is no test class. -/
def classDefinitions (scope : Scope) (registry : Registry) (node : ClassDecl) : List Definition :=
  let tests := if node.isAbstract then [] else testsOf registry (scope.qualify node.name)
  if tests.isEmpty then []
  else
    let depth := if scope.space.isSome then 2 else 1
    classDefinition scope depth node :: tests.map (testDefinition scope registry depth node)

/-- The test classes of a scope, below the namespace if there is one. -/
def scopeDefinitions (registry : Registry) (scope : Scope) : List Definition :=
  let found := scope.classes.flatMap (classDefinitions scope registry)
  match scope.space, scope.extent with
  | some space, some extent => if found.isEmpty then [] else spaceDefinition space extent :: found
  | _, _ => found

/-- Makes the classes of a program known. -/
def registerClasses (registry : Registry) (file : Path) (scopes : List Scope) : Registry :=
  (scopes.flatMap (·.infos file)).foldl Registry.register registry

end TestScout.Discovery
