import TestScout.Proofs.MethodLikeness
import TestScout.Discovery.Scout

/-! Scopes that declare classes and traits with alike methods. They are known alike, and the
same test classes are found in them. -/

namespace TestScout
open Code Test

/-! ## Alike declarations -/

/-- Bodies that use the same traits and have alike methods. -/
structure Code.AlikeBodies (first second : List Node) : Prop where
  methods : List.Forall₂ Method.Alike (first.filterMap Discovery.Scope.method?) (second.filterMap Discovery.Scope.method?)
  traitUses : first.filterMap Discovery.Scope.traitUse? = second.filterMap Discovery.Scope.traitUse?

structure Code.ClassDecl.Alike (first second : ClassDecl) : Prop where
  name : first.name = second.name
  isAbstract : first.isAbstract = second.isAbstract
  parent : first.parent = second.parent
  body : AlikeBodies first.body second.body
  documented : Annotations.documented first.comments = Annotations.documented second.comments
  attributes : first.attributes = second.attributes
  extent : first.extent = second.extent

structure Code.TraitDecl.Alike (first second : TraitDecl) : Prop where
  name : first.name = second.name
  body : AlikeBodies first.body second.body

namespace Discovery
open Registry

structure Scope.Alike (first second : Scope) : Prop where
  space : first.space = second.space
  extent : first.extent = second.extent
  imports : first.imports = second.imports
  classes : List.Forall₂ ClassDecl.Alike first.classes second.classes
  traits : List.Forall₂ TraitDecl.Alike first.traits second.traits

variable {scope other : Scope} {first second : Registry}

namespace Scope

theorem Alike.qualify (alike : scope.Alike other) : scope.qualify = other.qualify := by
  funext name
  rw [Scope.qualify, Scope.qualify, alike.space]

theorem Alike.resolve (alike : scope.Alike other) : scope.resolve = other.resolve := by
  funext name
  rw [Scope.resolve, Scope.resolve, alike.space, alike.imports]

theorem Alike.resolveAdaptation (alike : scope.Alike other) : scope.resolveAdaptation = other.resolveAdaptation := by
  funext adaptation
  cases adaptation <;> simp only [Scope.resolveAdaptation, alike.resolve]

/-- Alike bodies are known alike under one name. -/
theorem Alike.infoOf (alike : scope.Alike other) (file : Path) (name : String) {body also : List Node}
    (same : AlikeBodies body also) : (scope.infoOf file name body).Alike (other.infoOf file name also) where
  name := by rw [Scope.infoOf, Scope.infoOf, alike.qualify]
  parent := rfl
  traits := by simp only [Scope.infoOf, same.traitUses, alike.resolve]
  adaptations := by simp only [Scope.infoOf, same.traitUses, alike.resolveAdaptation]
  methods := same.methods
  imports := alike.imports
  file := rfl

theorem Alike.traitInfo (alike : scope.Alike other) (file : Path) {node also : TraitDecl} (same : node.Alike also) :
    (scope.traitInfo file node).Alike (other.traitInfo file also) := by
  have known := alike.infoOf file node.name same.body
  rw [Scope.traitInfo, Scope.traitInfo, ← same.name]
  exact { known with }

theorem Alike.classInfo (alike : scope.Alike other) (file : Path) {node also : ClassDecl} (same : node.Alike also) :
    (scope.classInfo file node).Alike (other.classInfo file also) := by
  have known := alike.infoOf file node.name same.body
  rw [Scope.classInfo, Scope.classInfo, ← same.name, ← same.parent, ← alike.resolve]
  exact { known with parent := rfl }

theorem Alike.infos (alike : scope.Alike other) (file : Path) :
    List.Forall₂ ClassInfo.Alike (scope.infos file) (other.infos file) :=
  List.rel_append (List.rel_map (fun _ _ same => alike.traitInfo file same) alike.traits)
    (List.rel_map (fun _ _ same => alike.classInfo file same) alike.classes)

end Scope

theorem registerClasses_alike (alike : first.Alike second) (file : Path) {scopes others : List Scope}
    (same : List.Forall₂ Scope.Alike scopes others) :
    (registerClasses first file scopes).Alike (registerClasses second file others) := by
  have infos : List.Forall₂ ClassInfo.Alike (scopes.flatMap (·.infos file)) (others.flatMap (·.infos file)) :=
    List.rel_flatMap same fun _ _ scope => scope.infos file
  refine List.rel_foldl ?_ alike infos
  exact fun _ _ sofar _ _ info => Registry.Alike.register sofar info

/-! ## Tests in classes -/

theorem methodAnnotations_alike (alike : first.Alike second) {member also : VisibleMethod} (same : member.Alike also) :
    methodAnnotations first member = methodAnnotations second also := by
  have known := alike.find? member.declaring
  rw [methodAnnotations, methodAnnotations, ← same.declaring]
  generalize first.find? member.declaring = declaring, second.find? member.declaring = alsoDeclaring at known ⊢
  simp only [Annotations.ofSource_eq, same.method.documented, same.method.attributes]
  cases known with
  | none => rfl
  | some found => simp only [found.name, found.imports]

theorem isTest_alike (alike : first.Alike second) {member also : VisibleMethod} (same : member.Alike also) :
    isTest first member = isTest second also := by
  rw [isTest, isTest, methodAnnotations_alike alike same, same.method.visibility, same.method.isAbstract, same.name]

theorem testsOf_alike (alike : first.Alike second) (className : String) :
    VisibleMethod.AllAlike (testsOf first className) (testsOf second className) :=
  List.rel_filter (fun _ _ same => Bool.eq_iff_iff.mp (isTest_alike alike same)) (alike.methodsOf className)

theorem methodKeys_alike (alike : first.Alike second) (holder method : String) :
    (match first.methodOf? holder method with
      | some member => providerKeys (.method member.method)
      | none => []) =
    match second.methodOf? holder method with
      | some member => providerKeys (.method member.method)
      | none => [] := by
  have known := alike.methodOf? holder method
  generalize first.methodOf? holder method = member, second.methodOf? holder method = also at known ⊢
  cases known with
  | none => rfl
  | some member => exact member.method.keys

theorem providerKeysOf_alike (alike : first.Alike second) (same : scope.Alike other) (className provider : String) :
    providerKeysOf scope first className provider = providerKeysOf other second className provider := by
  rw [providerKeysOf, providerKeysOf, same.resolve]
  exact methodKeys_alike alike _ _

theorem testDefinition_alike (alike : first.Alike second) (same : scope.Alike other) (depth : Nat) {node also : ClassDecl}
    (declared : node.Alike also) {member alsoMember : VisibleMethod} (visible : member.Alike alsoMember) :
    testDefinition scope first depth node member = testDefinition other second depth also alsoMember := by
  have keys : providerKeysOf scope first = providerKeysOf other second := by
    funext className provider
    exact providerKeysOf_alike alike same className provider
  simp only [testDefinition, methodAnnotations_alike alike visible, keys, same.qualify, same.space, declared.name,
    declared.extent, visible.name, visible.isInherited, visible.method.extent]

theorem classDefinition_alike (same : scope.Alike other) (depth : Nat) {node also : ClassDecl} (declared : node.Alike also) :
    classDefinition scope depth node = classDefinition other depth also := by
  simp only [classDefinition, Annotations.ofSource_eq, same.qualify, same.resolve, same.space, declared.name,
    declared.documented, declared.attributes, declared.extent]

theorem classDefinitions_alike (alike : first.Alike second) (same : scope.Alike other) {node also : ClassDecl}
    (declared : node.Alike also) : classDefinitions scope first node = classDefinitions other second also := by
  have tests : VisibleMethod.AllAlike (if node.isAbstract then [] else testsOf first (scope.qualify node.name))
      (if also.isAbstract then [] else testsOf second (other.qualify also.name)) := by
    rw [declared.isAbstract, declared.name, same.qualify]
    split
    · exact .nil
    · exact testsOf_alike alike _
  rw [classDefinitions, classDefinitions, ← same.space]
  generalize (if node.isAbstract then [] else testsOf first (scope.qualify node.name)) = shown,
    (if also.isAbstract then [] else testsOf second (other.qualify also.name)) = others at tests ⊢
  have definitions : ∀ depth, shown.map (testDefinition scope first depth node) =
      others.map (testDefinition other second depth also) := fun depth =>
    map_eq_of_rel tests fun _ _ visible => testDefinition_alike alike same depth declared visible
  simp only [definitions, classDefinition_alike same _ declared, List.isEmpty_iff_length_eq_zero, tests.length_eq]

/-- In alike scopes the same test classes are found, whichever of two alike registries is asked. -/
theorem scopeDefinitions_alike (alike : first.Alike second) (same : scope.Alike other) :
    scopeDefinitions first scope = scopeDefinitions second other := by
  have found : scope.classes.flatMap (classDefinitions scope first) = other.classes.flatMap (classDefinitions other second) :=
    flatMap_eq_of_rel same.classes fun _ _ declared => classDefinitions_alike alike same declared
  rw [scopeDefinitions, scopeDefinitions, found, same.space, same.extent]

end Discovery

end TestScout
