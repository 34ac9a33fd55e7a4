import Mathlib.Data.List.Forall2
import TestScout.Discovery.ClassTests

/-! Methods that discovery cannot tell apart. They may have been written with other comments
and another body, as long as the docblock says the same and the same keys come out when they
provide data sets. Registries of such methods show the same methods on every class. -/

namespace TestScout
open Code Test

/-- What the docblock among comments says. -/
def Test.Annotations.documented (comments : List Source.Comment) : Annotations :=
  match comments.reverse.find? (·.kind == .doc) with
  | some comment => ofDocblock comment.value
  | none => {}

theorem Test.Annotations.ofSource_eq (resolve : String → String) (comments : List Source.Comment)
    (groups : List Source.AttributeGroup) :
    ofSource resolve comments groups = (documented comments).merge (ofAttributes resolve groups) := rfl

structure Code.Method.Alike (first second : Method) : Prop where
  name : first.name = second.name
  visibility : first.visibility = second.visibility
  isAbstract : first.isAbstract = second.isAbstract
  attributes : first.attributes = second.attributes
  extent : first.extent = second.extent
  documented : Annotations.documented first.comments = Annotations.documented second.comments
  keys : providerKeys (.method first) = providerKeys (.method second)

structure VisibleMethod.Alike (first second : VisibleMethod) : Prop where
  method : first.method.Alike second.method
  declaring : first.declaring = second.declaring
  isInherited : first.isInherited = second.isInherited

structure ClassInfo.Alike (first second : ClassInfo) : Prop where
  name : first.name = second.name
  parent : first.parent = second.parent
  traits : first.traits = second.traits
  adaptations : first.adaptations = second.adaptations
  methods : List.Forall₂ Method.Alike first.methods second.methods
  imports : first.imports = second.imports
  file : first.file = second.file

def Registry.Alike (first second : Registry) : Prop := List.Forall₂ ClassInfo.Alike first.classes second.classes

abbrev VisibleMethod.AllAlike : List VisibleMethod → List VisibleMethod → Prop := List.Forall₂ VisibleMethod.Alike

/-- What is found first by conditions that agree is alike. -/
theorem rel_find? {α β : Type} {R : α → β → Prop} {first : List α} {second : List β} {condition : α → Bool}
    {other : β → Bool} (alike : List.Forall₂ R first second) (agree : ∀ a b, R a b → condition a = other b) :
    Option.Rel R (first.find? condition) (second.find? other) := by
  induction alike with
  | nil => exact .none
  | @cons a b rest others same _ ih =>
    rw [List.find?_cons, List.find?_cons, agree a b same]
    cases other b with
    | true => exact .some same
    | false => exact ih

theorem map_eq_of_rel {α β γ : Type} {R : α → β → Prop} {first : List α} {second : List β}
    (alike : List.Forall₂ R first second) {f : α → γ} {g : β → γ} (same : ∀ a b, R a b → f a = g b) :
    first.map f = second.map g := by
  induction alike with
  | nil => rfl
  | cons head _ ih => rw [List.map_cons, List.map_cons, same _ _ head, ih]

theorem flatMap_eq_of_rel {α β γ : Type} {R : α → β → Prop} {first : List α} {second : List β}
    (alike : List.Forall₂ R first second) {f : α → List γ} {g : β → List γ} (same : ∀ a b, R a b → f a = g b) :
    first.flatMap f = second.flatMap g := by
  rw [List.flatMap_def, List.flatMap_def, map_eq_of_rel alike same]

theorem rel_zipIdx {α β : Type} {R : α → β → Prop} {first : List α} {second : List β} (alike : List.Forall₂ R first second)
    (start : Nat) :
    List.Forall₂ (fun a b => R a.1 b.1 ∧ a.2 = b.2) (first.zipIdx start) (second.zipIdx start) := by
  induction alike generalizing start with
  | nil => exact .nil
  | cons same _ ih => exact .cons ⟨same, rfl⟩ (ih _)

namespace VisibleMethod

theorem Alike.name {first second : VisibleMethod} (alike : first.Alike second) : first.name = second.name := alike.method.name

theorem AllAlike.addTo {members others : List VisibleMethod} {member other : VisibleMethod}
    (sofar : AllAlike members others) (alike : member.Alike other) :
    AllAlike (VisibleMethod.addTo members member) (VisibleMethod.addTo others other) := by
  have taken : (members.any fun present => sameName present.name member.name) =
      others.any fun present => sameName present.name other.name := by
    rw [alike.name]
    clear alike
    induction sofar with
    | nil => rfl
    | cons same _ ih => rw [List.any_cons, List.any_cons, same.name, ih]
  rw [VisibleMethod.addTo, VisibleMethod.addTo, taken]
  split
  · exact sofar
  · exact List.rel_append sofar (.cons alike .nil)

theorem Alike.appearing {member other : VisibleMethod} (alike : member.Alike other) {name newName : String}
    (named : name = newName) {visibility access : Visibility} (seen : visibility = access) :
    Alike { member with method := { member.method with name, visibility } }
      { other with method := { other.method with name := newName, visibility := access } } where
  method := { alike.method with name := named, visibility := seen }
  declaring := alike.declaring
  isInherited := alike.isInherited

/-- What alike methods become where a trait is used is alike. -/
theorem Alike.adapted {member other : VisibleMethod} (alike : member.Alike other) (adaptations : List Adaptation)
    (ofTrait : String) :
    AllAlike (TestScout.adapted adaptations ofTrait member) (TestScout.adapted adaptations ofTrait other) := by
  simp only [TestScout.adapted, ← alike.name, ← alike.method.visibility]
  refine List.rel_append ?copies ?kept
  case copies =>
    refine List.rel_filterMap ?_ (List.forall₂_eq_eq_eq.symm ▸ rfl)
    rintro ⟨newName, visibility⟩ _ rfl
    cases newName with
    | none => exact .none
    | some newName => exact .some (alike.appearing rfl rfl)
  case kept =>
    split
    · exact .nil
    · exact .cons (alike.appearing alike.name rfl) .nil

theorem AllAlike.foldl_addTo {members others further alsoFurther : List VisibleMethod} (sofar : AllAlike members others)
    (added : AllAlike further alsoFurther) :
    AllAlike (further.foldl VisibleMethod.addTo members) (alsoFurther.foldl VisibleMethod.addTo others) :=
  List.rel_foldl (fun _ _ sofar _ _ alike => sofar.addTo alike) sofar added

end VisibleMethod

namespace Registry

variable {first second : Registry}

theorem Alike.find? (alike : first.Alike second) (name : String) :
    Option.Rel ClassInfo.Alike (first.find? name) (second.find? name) :=
  rel_find? alike fun _ _ same => by rw [same.name]

theorem ownMethods_alike {info other : ClassInfo} (alike : info.Alike other) (isInherited : Bool) :
    VisibleMethod.AllAlike (ownMethods info isInherited) (ownMethods other isInherited) :=
  List.rel_map (fun _ _ same => ⟨same, alike.name, rfl⟩) alike.methods

theorem Alike.members (alike : first.Alike second) (levels : Nat) (isInherited : Bool) {info other : ClassInfo}
    (same : info.Alike other) :
    VisibleMethod.AllAlike (first.members levels isInherited info) (second.members levels isInherited other) := by
  induction levels generalizing isInherited info other with
  | zero => exact ownMethods_alike same isInherited
  | succ levels ih =>
    rw [Registry.members, Registry.members, ← same.traits]
    refine List.foldl_rel (ownMethods_alike same isInherited) fun name _ members others sofar => ?_
    have known := alike.find? name
    generalize first.find? name = used, second.find? name = alsoUsed at known ⊢
    cases known with
    | none => exact sofar
    | some found =>
      refine sofar.foldl_addTo ?_
      rw [← same.adaptations, ← found.name]
      exact List.rel_flatMap (ih true found) fun _ _ member => member.adapted _ _

theorem Alike.ancestors (alike : first.Alike second) (count : Nat) {info other : ClassInfo} (same : info.Alike other) :
    List.Forall₂ ClassInfo.Alike (first.ancestors count info) (second.ancestors count other) := by
  induction count generalizing info other with
  | zero => exact .nil
  | succ count ih =>
    rw [Registry.ancestors, Registry.ancestors, ← same.parent]
    cases info.parent with
    | none => exact .nil
    | some name =>
      have known := alike.find? name
      rw [Option.bind_some, Option.bind_some]
      generalize first.find? name = parent, second.find? name = alsoParent at known ⊢
      cases known with
      | none => exact .nil
      | some found => exact .cons found (ih found)

theorem inherit_alike {members others : List VisibleMethod} {member other : VisibleMethod}
    (sofar : VisibleMethod.AllAlike members others) (alike : member.Alike other) :
    VisibleMethod.AllAlike (inherit members member) (inherit others other) := by
  rw [Registry.inherit, Registry.inherit, ← alike.method.visibility]
  split
  · exact sofar
  · exact sofar.addTo { alike with isInherited := rfl }

theorem Alike.methodsOf (alike : first.Alike second) (name : String) :
    VisibleMethod.AllAlike (first.methodsOf name) (second.methodsOf name) := by
  rw [Registry.methodsOf, Registry.methodsOf]
  have known := alike.find? name
  generalize first.find? name = info, second.find? name = other at known ⊢
  cases known with
  | none => exact .nil
  | some found =>
    have above := alike.ancestors reach found
    refine List.rel_foldl ?_ (alike.members _ _ found) (rel_zipIdx above 0)
    rintro members others sofar ⟨ancestor, index⟩ ⟨alsoAncestor, _⟩ ⟨same, rfl⟩
    refine List.rel_foldl ?_ sofar (alike.members (reach - index) true same)
    exact fun _ _ sofar _ _ member => inherit_alike sofar member

theorem Alike.methodOf? (alike : first.Alike second) (className method : String) :
    Option.Rel VisibleMethod.Alike (first.methodOf? className method) (second.methodOf? className method) :=
  rel_find? (alike.methodsOf className) fun _ _ same => by rw [same.name]

/-! ## Changes -/

theorem Alike.filter (alike : first.Alike second) {keep : ClassInfo → Bool}
    (agree : ∀ info other, info.Alike other → keep info = keep other) :
    (first.filter keep).Alike (second.filter keep) :=
  List.rel_filter (fun info other same => Bool.eq_iff_iff.mp (agree info other same)) alike

theorem Alike.removeFile (alike : first.Alike second) (file : Path) : (first.removeFile file).Alike (second.removeFile file) :=
  alike.filter fun _ _ same => by rw [same.file]

theorem Alike.removeUnder (alike : first.Alike second) (root : Path) : (first.removeUnder root).Alike (second.removeUnder root) :=
  alike.filter fun _ _ same => by rw [same.file]

theorem Alike.register (alike : first.Alike second) {info other : ClassInfo} (same : info.Alike other) :
    (first.register info).Alike (second.register other) := by
  refine List.rel_append ?_ (.cons same .nil)
  refine List.rel_filter (fun entry also known => Bool.eq_iff_iff.mp ?_) alike
  rw [known.name, same.name]

theorem Alike.hasReferences (alike : first.Alike second) (file : Path) :
    first.hasReferences file = second.hasReferences file := by
  have declared : List.Forall₂ ClassInfo.Alike (first.declaredIn file) (second.declaredIn file) :=
    List.rel_filter (fun info other same => Bool.eq_iff_iff.mp (by rw [same.file])) alike
  rw [Registry.hasReferences, Registry.hasReferences]
  generalize first.declaredIn file = infos, second.declaredIn file = others at declared ⊢
  induction declared with
  | nil => rfl
  | cons same _ ih =>
    rw [List.any_cons, List.any_cons, ih, ClassInfo.references, ClassInfo.references, same.parent, same.traits]

end Registry

end TestScout
