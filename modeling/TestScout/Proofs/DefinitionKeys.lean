import Mathlib.Data.List.Basic
import TestScout.Discovery.Scout
import TestScout.Proofs.VisibleMethods

/-! The keys of data sets are the only part of a definition for which a source looks at
classes that it does not build on. Without them, what a file defines is settled by the
entries that its own classes lead to. -/

namespace TestScout.Test.Definition

mutual

/-- A definition that tells of no data sets, and nothing below it does. -/
def withoutKeys : Definition → Definition
  | ⟨kind, id, label, file, start, stop, depth, annotations, qualifiedClass, space, className, methodName, suite, _,
      children⟩ =>
    ⟨kind, id, label, file, start, stop, depth, annotations, qualifiedClass, space, className, methodName, suite, [],
      withoutKeysAll children⟩

def withoutKeysAll : List Definition → List Definition
  | [] => []
  | definition :: rest => definition.withoutKeys :: withoutKeysAll rest

end

theorem withoutKeysAll_eq (definitions : List Definition) : withoutKeysAll definitions = definitions.map withoutKeys := by
  induction definitions with
  | nil => rfl
  | cons definition rest ih => rw [withoutKeysAll, ih, List.map_cons]

theorem withoutKeys_eq (definition : Definition) :
    definition.withoutKeys =
      { definition with dataSets := [], children := definition.children.map withoutKeys } := by
  cases definition
  rw [withoutKeys, withoutKeysAll_eq]

theorem nest_map_withoutKeys (definitions : List Definition) :
    nest (definitions.map withoutKeys) = (nest definitions).map withoutKeys := by
  have deep : ∀ depth, (fun other : Definition => decide (depth < other.depth)) ∘ withoutKeys =
      fun other => decide (depth < other.depth) := by
    intro depth
    funext other
    simp [withoutKeys_eq]
  fun_induction nest definitions with
  | case1 => simp [nest]
  | case2 definition rest isBelow below after =>
    have depth : definition.withoutKeys.depth = definition.depth := by simp [withoutKeys_eq]
    rw [List.map_cons, nest, List.map_cons, depth, List.takeWhile_map, List.dropWhile_map, deep, below, after]
    simp [withoutKeys_eq]

theorem forest_map_withoutKeys (definitions : List Definition) :
    forest (definitions.map withoutKeys) = (forest definitions).map withoutKeys := by
  have kinds : (fun definition : Definition => definition.kind != .space) ∘ withoutKeys =
      fun definition => definition.kind != .space := by
    funext definition
    simp [withoutKeys_eq]
  rw [forest, List.filter_map, kinds, nest_map_withoutKeys, forest]

/-- Lists that differ in keys alone nest into forests that differ in keys alone. -/
theorem forest_congr {first second : List Definition} (same : first.map withoutKeys = second.map withoutKeys) :
    (forest first).map withoutKeys = (forest second).map withoutKeys := by
  rw [← forest_map_withoutKeys, same, forest_map_withoutKeys]

end TestScout.Test.Definition

namespace TestScout.Discovery
open Code Test Registry

variable {known : String → Prop} {first second : Registry} {α : Type} {view : Definition → α}

/-- Seen in some way, the tests of a class are the same in two registries. -/
def SameTests (view : Definition → α) (first second : Registry) (scope : Scope) (node : ClassDecl) : Prop :=
  ∀ depth, ∀ member ∈ testsOf first (scope.qualify node.name),
    view (testDefinition scope first depth node member) = view (testDefinition scope second depth node member)

theorem classDefinitions_congr (agree : Agree known first second) {scope : Scope} {node : ClassDecl}
    (reference : known (scope.qualify node.name)) (tests : SameTests view first second scope node) :
    (classDefinitions scope first node).map view = (classDefinitions scope second node).map view := by
  obtain ⟨same, -⟩ := testsOf_congr agree reference
  by_cases isAbstract : node.isAbstract = true
  · simp [classDefinitions, isAbstract]
  · simp only [classDefinitions, isAbstract, Bool.false_eq_true, ite_false, ← same]
    split
    · rfl
    · rw [List.map_cons, List.map_cons, List.map_map, List.map_map]
      congr 1
      exact List.map_congr_left fun member found => tests _ member found

theorem scopeDefinitions_congr {scope : Scope}
    (same : ∀ node ∈ scope.classes, (classDefinitions scope first node).map view = (classDefinitions scope second node).map view) :
    (scopeDefinitions first scope).map view = (scopeDefinitions second scope).map view := by
  have classes : (scope.classes.flatMap (classDefinitions scope first)).map view =
      (scope.classes.flatMap (classDefinitions scope second)).map view := by
    rw [List.map_flatMap, List.map_flatMap]
    exact List.flatMap_congr same
  have empty : (scope.classes.flatMap (classDefinitions scope first)).isEmpty =
      (scope.classes.flatMap (classDefinitions scope second)).isEmpty := by
    rw [← List.isEmpty_map, classes, List.isEmpty_map]
  unfold scopeDefinitions
  split
  · simp only [empty]
    split
    · rfl
    · rw [List.map_cons, List.map_cons, classes]
  · exact classes

/-- What a program defines, seen in some way, is the same in registries that agree on the
names of its classes, if its tests are. -/
theorem definitionsOf_congr (agree : Agree known first second) (file root : Path) {program : Program}
    (same : ∀ scope ∈ Scope.ofProgram program, ∀ node ∈ scope.classes,
      known (scope.qualify node.name) ∧ SameTests view first second scope node) :
    (definitionsOf first file root program).map view = (definitionsOf second file root program).map view := by
  have found : ((Scope.ofProgram program).flatMap (scopeDefinitions first)).map view =
      ((Scope.ofProgram program).flatMap (scopeDefinitions second)).map view := by
    rw [List.map_flatMap, List.map_flatMap]
    refine List.flatMap_congr fun scope inside => scopeDefinitions_congr fun node member => ?_
    obtain ⟨reference, tests⟩ := same scope inside node member
    exact classDefinitions_congr agree reference tests
  unfold definitionsOf
  split
  next none =>
    rw [none, List.map_nil] at found
    rw [List.map_eq_nil_iff.mp found.symm]
  next some =>
    split
    next none =>
      rw [none, List.map_nil] at found
      exact absurd (List.map_eq_nil_iff.mp found) some
    next => exact found

/-- Without keys, a test is the same in registries that agree on where it is declared. -/
theorem testDefinition_withoutKeys (agree : Agree known first second) (scope : Scope) (depth : Nat) (node : ClassDecl)
    {member : VisibleMethod} (declared : known member.declaring) :
    (testDefinition scope first depth node member).withoutKeys =
      (testDefinition scope second depth node member).withoutKeys := by
  simp only [testDefinition, methodAnnotations_congr agree declared, placed, Definition.withoutKeys_eq]

end TestScout.Discovery
