import TestScout.Discovery.ClassTests
import TestScout.Proofs.NameResolution

/-! The data sets of inherited tests. What is said about a test goes with it to every class that inherits it. A provider with a
class in front is looked for on the class that the scope of the inheriting class leads this name to. That is the class that
the name stands for where the test is declared as long as both scopes lead it to one class, as they do with a name in full. -/

namespace TestScout

/-- A name without segments is told apart from the namespace that it is in. -/
theorem namespaceOf?_qualify {space : Option String} {name : String} (named : space ≠ some "") (single : '\\' ∉ name.toList) :
    namespaceOf? (qualify space name) = space := by
  have passed : ∀ rest, (name.toList.reverse ++ rest).dropWhile (· != '\\') = rest.dropWhile (· != '\\') := fun rest =>
    List.dropWhile_append_of_pos fun c member => bne_iff_ne.mpr fun same => single (same ▸ List.mem_reverse.mp member)
  cases space with
  | none =>
    have none := passed []
    rw [List.append_nil] at none
    rw [qualify, namespaceOf?, Text.beforeLast?, none]
    rfl
  | some space =>
    have filled : space.isEmpty = false := by
      rw [← Bool.not_eq_true, String.isEmpty_iff]
      exact fun empty => named (congrArg some empty)
    have split : (space ++ "\\" ++ name).toList.reverse = name.toList.reverse ++ '\\' :: space.toList.reverse := by simp
    rw [qualify, filled, if_neg Bool.false_ne_true, namespaceOf?, Text.beforeLast?, split, passed]
    simp

namespace Discovery
open Code Source Test

variable {registry : Registry} {scope : Scope} {className provider : String} {holder method : List Char}

/-- The keys of a method of a class. -/
def methodKeys (registry : Registry) (holder method : String) : List String :=
  match registry.methodOf? holder method with
  | some member => providerKeys (.method member.method)
  | none => []

/-- What a name in a class or trait stands for. -/
def homeName (declaring : ClassInfo) (name : String) : String := resolveName (namespaceOf? declaring.name) declaring.imports name

/-- Whether a scope declares a class or a trait, under a name without segments. -/
inductive Scope.Declares (scope : Scope) : ClassInfo → Prop
  | classDecl (file : Path) (node : ClassDecl) (single : '\\' ∉ node.name.toList) : scope.Declares (scope.classInfo file node)
  | traitDecl (file : Path) (node : TraitDecl) (single : '\\' ∉ node.name.toList) : scope.Declares (scope.traitInfo file node)

theorem homeName_eq {declaring : ClassInfo} (named : scope.space ≠ some "") (declares : scope.Declares declaring) :
    homeName declaring = scope.resolve := by
  funext name
  have space : namespaceOf? declaring.name = scope.space := by
    cases declares with
    | classDecl file node single => exact namespaceOf?_qualify named single
    | traitDecl file node single => exact namespaceOf?_qualify named single
  rw [homeName, space]
  cases declares <;> rfl

theorem providerKeysOf_named (split : Text.splitOnce [':', ':'] provider.toList = some (holder, method)) :
    providerKeysOf scope registry className provider =
      methodKeys registry (scope.resolve (String.ofList holder)) (String.ofList method) := by
  rw [providerKeysOf, split]
  rfl

/-- What is said about a test is resolved where the test is declared. -/
theorem methodAnnotations_eq {member : VisibleMethod} {declaring : ClassInfo} (declared : registry.find? member.declaring = some declaring) :
    methodAnnotations registry member =
      Annotations.ofSource (homeName declaring) member.method.comments member.method.attributes := by
  rw [methodAnnotations, declared]
  rfl

/-- Every test that can be seen on a class gets a definition there. -/
theorem testDefinition_mem_classDefinitions {node : ClassDecl} (concrete : node.isAbstract = false) {member : VisibleMethod}
    (seen : member ∈ testsOf registry (scope.qualify node.name)) :
    ∃ depth, testDefinition scope registry depth node member ∈ classDefinitions scope registry node := by
  rw [classDefinitions, concrete]
  simp only [Bool.false_eq_true, if_false]
  rw [if_neg (by rw [List.isEmpty_iff]; exact List.ne_nil_of_mem seen)]
  exact ⟨_, List.mem_cons_of_mem _ (List.mem_map_of_mem seen)⟩

/-- **Where the data sets of a test come from.** A class that a test is seen on reports for a provider with a class in front
the keys of the method on the class that its own scope leads the name to. The class that declares the test reports those of
the class that the name stands for there. Both are the same when the two scopes lead the name to one class, as they do when
it is written in full. -/
theorem inherited_keys_resolved (registry : Registry) (scope : Scope) (node : ClassDecl) (concrete : node.isAbstract = false)
    {member : VisibleMethod} (seen : member ∈ testsOf registry (scope.qualify node.name)) {declaring : ClassInfo}
    (declared : registry.find? member.declaring = some declaring) :
    let providers := (methodAnnotations registry member).dataProvider
    let keys := providerKeysOf scope registry (scope.qualify node.name)
    (∃ definition ∈ classDefinitions scope registry node, definition.id = scope.qualify node.name ++ "::" ++ member.name ∧
        definition.annotations = Annotations.ofSource (homeName declaring) member.method.comments member.method.attributes ∧
        definition.dataSets = providers.flatMap keys) ∧
      ∀ provider ∈ providers, ∀ holder method, Text.splitOnce [':', ':'] provider.toList = some (holder, method) →
        let meant := methodKeys registry (homeName declaring (String.ofList holder)) (String.ofList method)
        keys provider = methodKeys registry (scope.resolve (String.ofList holder)) (String.ofList method) ∧
        (∀ home : Scope, home.space ≠ some "" → home.Declares declaring →
          providerKeysOf home registry declaring.name provider = meant) ∧
        (holder.head? = some '\\' ∨ scope.resolve (String.ofList holder) = homeName declaring (String.ofList holder) →
          keys provider = meant) := by
  intro providers keys
  obtain ⟨depth, listed⟩ := testDefinition_mem_classDefinitions concrete seen
  refine ⟨⟨_, listed, rfl, methodAnnotations_eq declared, rfl⟩, ?_⟩
  intro provider _ holder method split meant
  refine ⟨providerKeysOf_named split, ?_, ?_⟩
  · intro home named declares
    simp only [meant, homeName_eq named declares]
    exact providerKeysOf_named split
  · intro agree
    have same : scope.resolve (String.ofList holder) = homeName declaring (String.ofList holder) := by
      refine agree.elim (fun full => ?_) id
      obtain ⟨rest, rfl⟩ := List.head?_eq_some_iff.mp full
      rw [Scope.resolve, homeName, resolveName_full, resolveName_full]
    simp only [meant, ← same]
    exact providerKeysOf_named split

/-- Rows of sums, with a test that gets them from a provider, in one namespace, and in another one a class that inherits it. -/
private def sumScope (provider : String) : Scope where
  space := some "Lib"
  classes := [
    { name := "Rows", body := [.method {
      name := "sums", isStatic := true, body := some { children := [.returned {
        value := some (.array { entries := [{ key := some (.string { value := "a", raw := "a" }), value := .unknown none }] }) }] } }] },
    { name := "SumTest", body := [.method {
      name := "testSum", comments := [Source.Comment.ofText ("/** @dataProvider " ++ provider ++ " */") {}], body := some {} }] }]

private def cartNode : ClassDecl := { name := "CartTest", parent := some "\\Lib\\SumTest" }

private def cartScope : Scope := { space := some "App", classes := [cartNode] }

private def sumRegistry (provider : String) : Registry :=
  registerClasses (registerClasses .empty ⟨"/p/Sum.php"⟩ [sumScope provider]) ⟨"/p/Cart.php"⟩ [cartScope]

/-- A provider that is written in full is found for the class that inherits the test. -/
theorem cart_inherits_keys :
    ∃ definition ∈ classDefinitions cartScope (sumRegistry "\\Lib\\Rows::sums") cartNode,
      definition.id = "App\\CartTest::testSum" ∧ definition.dataSets = ["\"a\""] := by
  obtain ⟨member, seen, name, providers, found⟩ : ∃ member ∈ testsOf (sumRegistry "\\Lib\\Rows::sums") (cartScope.qualify cartNode.name),
      member.name = "testSum" ∧
        (methodAnnotations (sumRegistry "\\Lib\\Rows::sums") member).dataProvider = ["\\Lib\\Rows::sums"] ∧
        ((sumRegistry "\\Lib\\Rows::sums").find? member.declaring).isSome := by decide +kernel
  obtain ⟨declaring, declared⟩ := Option.isSome_iff_exists.mp found
  obtain ⟨⟨definition, listed, id, -, sets⟩, named⟩ := inherited_keys_resolved (sumRegistry "\\Lib\\Rows::sums") cartScope cartNode rfl
    seen declared
  obtain ⟨-, -, keys⟩ := named "\\Lib\\Rows::sums" (by simp [providers]) "\\Lib\\Rows".toList "sums".toList (by decide +kernel)
  have full : homeName declaring "\\Lib\\Rows" = "Lib\\Rows" := resolveName_full _ _ "Lib\\Rows".toList
  refine ⟨definition, listed, id.trans (by rw [name]; decide +kernel), ?_⟩
  rw [sets, providers, List.flatMap_singleton, keys (.inl rfl), String.ofList_toList, full]
  decide +kernel

/-- A provider that the class which declares a test finds in its own namespace is not found by a class in another one. -/
theorem cart_misses_keys :
    let registry := sumRegistry "Rows::sums"
    let view := List.map fun definition : Definition => (definition.id, definition.dataSets)
    view (scopeDefinitions registry (sumScope "Rows::sums")) =
        [("Lib\\SumTest", []), ("Lib\\SumTest::testSum", ["\"a\""])] ∧
      view (classDefinitions cartScope registry cartNode) = [("App\\CartTest", []), ("App\\CartTest::testSum", [])] := by
  decide +kernel

end Discovery

end TestScout
