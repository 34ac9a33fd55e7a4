import TestScout.Proofs.MethodResolution
import TestScout.Proofs.RegistryReach

/-! Which method a name finds on a class. Putting methods behind others never changes what is found first, so that a name is
looked for in all that is offered, in order. References are looked up letter for letter on the way, whereas the search for
dependent files takes no notice of case: a class that spells its parent in another case depends on it without seeing any of
its methods. -/

namespace TestScout
open Code

/-- The method that a clause is about. -/
def Code.Adaptation.method : Adaptation → String
  | .precedence _ method _ => method
  | .rename _ method _ _ => method

/-- A method of a trait as it is seen under its own name by a class that uses the trait. -/
def kept (adaptations : List Adaptation) (ofTrait : String) (member : VisibleMethod) : VisibleMethod :=
  let given := renamings adaptations ofTrait member.name
  { member with method := { member.method with
      visibility := ((given.find? (·.1.isNone)).bind (·.2)).getD member.method.visibility } }

theorem kept_mem_adapted {adaptations : List Adaptation} {ofTrait : String} {member : VisibleMethod}
    (preferred : isExcluded adaptations ofTrait member.name = false) :
    kept adaptations ofTrait member ∈ adapted adaptations ofTrait member := by
  simp only [adapted, preferred]
  exact List.mem_append_right _ (List.mem_singleton_self _)

namespace VisibleMethod

variable {members offered : List VisibleMethod} {member : VisibleMethod} {name : String}

theorem find?_isSome : (members.find? (sameName ·.name name)).isSome ↔ Names members name := List.find?_isSome

theorem find?_eq_none : members.find? (sameName ·.name name) = none ↔ ¬Names members name := by
  rw [← Option.not_isSome_iff_eq_none, find?_isSome]

theorem named_of_find? (found : members.find? (sameName ·.name name) = some member) :
    member ∈ members ∧ sameName member.name name := by
  have same := List.find?_some found
  exact ⟨List.mem_of_find?_eq_some found, same⟩

theorem find?_addTo :
    (addTo members member).find? (sameName ·.name name) = (members ++ [member]).find? (sameName ·.name name) := by
  rw [addTo_eq, List.find?_append]
  split
  next known =>
    by_cases same : sameName member.name name
    · obtain ⟨found, first⟩ := Option.isSome_iff_exists.mp (find?_isSome.mpr ((names_congr same).mp known))
      rw [first, Option.some_or]
    · rw [List.find?_singleton, if_neg same, Option.or_none]
  next => rw [List.find?_append]

/-- What a name finds among methods that are put behind others is what it finds first in the order in which they come. -/
theorem find?_foldl (members offered : List VisibleMethod) (name : String) :
    (offered.foldl addTo members).find? (sameName ·.name name) =
      (members.find? (sameName ·.name name)).or (offered.find? (sameName ·.name name)) := by
  induction offered generalizing members with
  | nil => rw [List.foldl_nil, List.find?_nil, Option.or_none]
  | cons first rest ih =>
    rw [List.foldl_cons, ih, find?_addTo, List.find?_append, Option.or_assoc, ← List.find?_append, List.singleton_append]

theorem prefix_foldl (members offered : List VisibleMethod) : members <+: offered.foldl addTo members := by
  induction offered generalizing members with
  | nil => exact List.prefix_rfl
  | cons first rest ih =>
    have added : members <+: addTo members first := by
      rw [addTo_eq]
      split
      · exact List.prefix_rfl
      · exact List.prefix_append ..
    exact added.trans (ih _)

theorem names_foldl : Names (offered.foldl addTo members) name ↔ Names members name ∨ Names offered name := by
  rw [← find?_isSome, find?_foldl, Option.isSome_or, Bool.or_eq_true, find?_isSome, find?_isSome]

end VisibleMethod

namespace Registry
open VisibleMethod

variable {registry : Registry} {info : ClassInfo} {name : String}

theorem find?_members (levels : Nat) (isInherited : Bool) :
    (registry.members (levels + 1) isInherited info).find? (sameName ·.name name) =
      ((ownMethods info isInherited).find? (sameName ·.name name)).or
        (info.traits.findSome? fun reference => (registry.offered levels info reference).find? (sameName ·.name name)) := by
  rw [members_succ, find?_foldl, List.find?_flatMap]

/-- A name is looked for on a class and on its ancestors, the closest one first. -/
theorem find?_methodsOf {className : String} (found : registry.find? className = some info) :
    (registry.methodsOf className).find? (sameName ·.name name) =
      ((registry.members (reach + 1) false info).find? (sameName ·.name name)).or
        ((registry.ancestors reach info).zipIdx.findSome? fun (ancestor, index) =>
          (inheritable (registry.members (reach - index) true ancestor)).find? (sameName ·.name name)) := by
  rw [methodsOf_eq found, find?_foldl, List.find?_flatMap]

theorem own_in_front (levels : Nat) (isInherited : Bool) :
    ownMethods info isInherited <+: registry.members levels isInherited info := by
  cases levels with
  | zero => exact List.prefix_rfl
  | succ levels =>
    rw [members_succ]
    exact prefix_foldl _ _

/-! ## References that are followed -/

theorem WellNamed.find?_name (named : registry.WellNamed) (registered : info ∈ registry.classes) :
    registry.find? info.name = some info :=
  find?_eq_some_iff.mpr ⟨registered, (named.full info registered).symm⟩

/-- An entry depends on what it refers to, in whatever case it writes the name. -/
theorem WellNamed.dependent (named : registry.WellNamed) (registered : info ∈ registry.classes) {target : ClassInfo}
    (listed : target ∈ registry.classes) {reference : String} (written : reference ∈ info.references)
    (same : plainName reference = plainName target.name) (foreign : info.file.same target.file = false) :
    ∃ dependent ∈ registry.dependentFiles target.file, dependent.same info.file = true := by
  have leads : registry.LeadsTo target.file info :=
    ⟨target, listed, Path.same_refl _, .single ⟨listed, reference, written, same⟩⟩
  exact (exists_dependent_iff named info.file).mpr ⟨foreign, info, registered, Path.same_refl _, leads⟩

section

variable {className : String} (found : registry.find? className = some info)
include found

theorem names_of_names_members (own : Names (registry.members (reach + 1) false info) name) :
    Names (registry.methodsOf className) name := by
  rw [methodsOf_eq found]
  exact names_foldl.mpr (.inl own)

/-- The methods that a parent does not hide are seen by name, unless the class has something else of that name. -/
theorem exists_of_parent {parent : ClassInfo} (extended : info.parent.bind registry.find? = some parent) {method : Method}
    (declared : method ∈ parent.methods) (shown : method.visibility ≠ .privateAccess) :
    ∃ entry ∈ registry.methodsOf className, sameName entry.name method.name ∧
      (entry ∈ registry.members (reach + 1) false info ∨ entry.declaring = parent.name) := by
  have looked_up : (registry.methodsOf className).find? (sameName ·.name method.name) = _ := find?_methodsOf found
  cases itself : (registry.members (reach + 1) false info).find? (sameName ·.name method.name) with
  | some entry =>
    rw [itself, Option.some_or] at looked_up
    obtain ⟨inside, same⟩ := named_of_find? looked_up
    exact ⟨entry, inside, same, .inl (named_of_find? itself).1⟩
  | none =>
    -- The parent comes first among the ancestors, and its own methods come first among what it has.
    obtain ⟨others, split⟩ : ownMethods parent true <+: registry.members reach true parent := own_in_front reach true
    have handed : Names (inheritable (ownMethods parent true)) method.name :=
      names_inheritable.mpr ⟨_, List.mem_map_of_mem declared, shown, sameName_iff.mpr rfl⟩
    obtain ⟨entry, first⟩ := Option.isSome_iff_exists.mp (find?_isSome.mpr handed)
    have above : registry.ancestors reach info = parent :: registry.ancestors (reach - 1) parent := by
      rw [reach, ancestors, extended]
    have inherited : inheritable (registry.members reach true parent) =
        inheritable (ownMethods parent true) ++ inheritable others := by
      rw [← split, inheritable, List.filter_append, List.map_append, inheritable, inheritable]
    simp only [itself, Option.none_or, above, List.zipIdx_cons, List.findSome?_cons, Nat.sub_zero, inherited, List.find?_append,
      first, Option.some_or] at looked_up
    obtain ⟨inside, same⟩ := named_of_find? looked_up
    refine ⟨entry, inside, same, .inr ?_⟩
    obtain ⟨source, own, -, rfl⟩ := mem_inheritable.mp (named_of_find? first).1
    obtain ⟨_, -, rfl⟩ := List.mem_map.mp own
    rfl

/-- A class whose parent is not found has only what it has itself. -/
theorem methodsOf_of_no_parent (unknown : info.parent.bind registry.find? = none) :
    registry.methodsOf className = registry.members (reach + 1) false info := by
  have alone : registry.ancestors reach info = [] := by
    rw [reach, ancestors, unknown]
  rw [methodsOf_eq found, alone]
  rfl

end

/-- What a used trait declares is seen by name when no other trait is preferred for it. -/
theorem names_of_trait {reference : String} (used : reference ∈ info.traits) {ofTrait : ClassInfo}
    (found : registry.find? reference = some ofTrait) {method : Method} (declared : method ∈ ofTrait.methods)
    (untouched : ∀ adaptation ∈ info.adaptations, ¬sameName adaptation.method method.name) (levels : Nat)
    (isInherited : Bool) : Names (registry.members (levels + 1) isInherited info) method.name := by
  have preferred : isExcluded info.adaptations ofTrait.name method.name = false := by
    rw [isExcluded, List.any_eq_false]
    intro adaptation inside
    cases adaptation with
    | precedence preferred name insteadOf =>
      have other : sameName name method.name = false := Bool.eq_false_iff.mpr (untouched _ inside)
      simp [other]
    | rename => simp
  have present : (⟨method, ofTrait.name, true⟩ : VisibleMethod) ∈ registry.members levels true ofTrait :=
    (own_in_front levels true).subset (List.mem_map_of_mem declared)
  have offered : Names (registry.offered levels info reference) method.name := by
    simp only [Registry.offered, found]
    exact ⟨_, List.mem_flatMap.mpr ⟨_, present, kept_mem_adapted preferred⟩, sameName_iff.mpr rfl⟩
  rw [members_succ]
  obtain ⟨entry, inside, same⟩ := offered
  exact names_foldl.mpr (.inr ⟨entry, List.mem_flatMap.mpr ⟨reference, used, inside⟩, same⟩)

/-- A class depends on a parent or a trait whatever the case in which it writes the name. It sees what that declares when it
writes the name letter for letter, backslashes in front aside; it sees nothing of a parent that it writes otherwise. -/
theorem references_followed (registry : Registry) (named : registry.WellNamed) (info : ClassInfo)
    (registered : info ∈ registry.classes) :
    (∀ reference, info.parent = some reference → ∀ parent ∈ registry.classes, plainName reference = plainName parent.name →
      (info.file.same parent.file = false → ∃ dependent ∈ registry.dependentFiles parent.file, dependent.same info.file = true) ∧
      (relativeName reference = parent.name → ∀ method ∈ parent.methods, method.visibility ≠ .privateAccess →
        ∃ entry ∈ registry.methodsOf info.name, sameName entry.name method.name ∧
          (entry ∈ registry.members (reach + 1) false info ∨ entry.declaring = parent.name)) ∧
      (relativeName reference ≠ parent.name → registry.methodsOf info.name = registry.members (reach + 1) false info)) ∧
    ∀ reference ∈ info.traits, ∀ ofTrait ∈ registry.classes, plainName reference = plainName ofTrait.name →
      (info.file.same ofTrait.file = false → ∃ dependent ∈ registry.dependentFiles ofTrait.file, dependent.same info.file = true) ∧
      (relativeName reference = ofTrait.name → ∀ method ∈ ofTrait.methods,
        (∀ adaptation ∈ info.adaptations, ¬sameName adaptation.method method.name) →
        Names (registry.methodsOf info.name) method.name) := by
  have found := named.find?_name registered
  have looked_up {reference : String} {target : ClassInfo} (listed : target ∈ registry.classes)
      (spelled : relativeName reference = target.name) : registry.find? reference = some target :=
    find?_eq_some_iff.mpr ⟨listed, spelled.symm⟩
  constructor
  · intro reference written parent listed same
    have extended : info.parent.bind registry.find? = registry.find? reference := by rw [written, Option.bind_some]
    refine ⟨named.dependent registered listed (by simp [ClassInfo.references, written]) same, ?_, ?_⟩
    · intro spelled method declared shown
      exact exists_of_parent found (extended.trans (looked_up listed spelled)) declared shown
    · intro otherwise
      refine methodsOf_of_no_parent found (extended.trans ?_)
      by_contra known
      obtain ⟨target, known⟩ := Option.ne_none_iff_exists'.mp known
      obtain ⟨member, spelled⟩ := find?_eq_some_iff.mp known
      -- Another class of that name would differ from the parent by case alone.
      have equal : target.name.toLower = parent.name.toLower := by
        rw [← named.plainName_eq listed, ← same, spelled, plainName]
      exact otherwise (named.eq_of_toLower_eq member listed equal ▸ spelled.symm)
  · intro reference used ofTrait listed same
    refine ⟨named.dependent registered listed (List.mem_append_right _ used) same, ?_⟩
    intro spelled method declared untouched
    exact names_of_names_members found (names_of_trait used (looked_up listed spelled) declared untouched reach false)

private def desk : ClassInfo where
  name := "App\\Desk"
  methods := [{ name := "open" }, { name := "lock", visibility := .privateAccess }, { name := "Clean" }]
  file := ⟨"/p/Desk.php"⟩

private def sells : ClassInfo where
  name := "App\\Sells"
  kind := .traitDecl
  methods := [{ name := "sell" }, { name := "open" }]
  file := ⟨"/p/Sells.php"⟩

private def till : ClassInfo where
  name := "App\\Till"
  parent := some "\\App\\Desk"
  traits := ["\\App\\Sells"]
  adaptations := [.rename (some "App\\Sells") "open" (some "start") none]
  methods := [{ name := "clean" }]
  file := ⟨"/p/Till.php"⟩

private def tillClasses : Registry := ⟨[till, desk, sells], by decide⟩

/-- A till opens as its trait has it and not as a desk does, and sells as the trait does. -/
theorem till_follows_references :
    (∃ dependent ∈ tillClasses.dependentFiles ⟨"/p/Desk.php"⟩, dependent.same till.file = true) ∧
      (∃ entry ∈ tillClasses.methodsOf till.name, sameName entry.name "open" ∧
        (entry ∈ tillClasses.members (reach + 1) false till ∨ entry.declaring = "App\\Desk")) ∧
      Names (tillClasses.methodsOf till.name) "sell" ∧
      (tillClasses.methodsOf till.name).map (fun entry => (entry.name, entry.declaring)) =
        [("clean", "App\\Till"), ("sell", "App\\Sells"), ("start", "App\\Sells"), ("open", "App\\Sells")] := by
  have named : tillClasses.WellNamed := ⟨by decide +kernel, by decide +kernel⟩
  obtain ⟨parents, traits⟩ := references_followed tillClasses named till List.mem_cons_self
  obtain ⟨dependent, inherited, -⟩ := parents "\\App\\Desk" rfl desk (by simp [tillClasses])
    (String.toList_injective (by decide +kernel))
  obtain ⟨-, used⟩ := traits "\\App\\Sells" List.mem_cons_self sells (by simp [tillClasses])
    (String.toList_injective (by decide +kernel))
  refine ⟨dependent (by decide +kernel), ?_, ?_, by cbv⟩
  · exact inherited (String.toList_injective (by decide +kernel)) { name := "open" } List.mem_cons_self (by decide)
  · exact used (String.toList_injective (by decide +kernel)) { name := "sell" } List.mem_cons_self (by decide +kernel)

/-- A stall that writes its parent and its trait in other letters. -/
private def stall : ClassInfo :=
  { name := "App\\Stall", parent := "app\\desk", traits := ["App\\SELLS"], file := ⟨"/p/Stall.php"⟩ }

private def stallClasses : Registry := ⟨[stall, desk, sells], by decide⟩

/-- A stall depends on the files of its parent and of its trait, but sees none of their methods. -/
theorem stall_misses_methods :
    stallClasses.WellNamed ∧ stall.parent = some "app\\desk" ∧ plainName "app\\desk" = plainName desk.name ∧
      stall.traits = ["App\\SELLS"] ∧ stall.adaptations = [] ∧ plainName "App\\SELLS" = plainName sells.name ∧
      (∃ dependent ∈ stallClasses.dependentFiles desk.file, dependent.same stall.file = true) ∧
      (∃ dependent ∈ stallClasses.dependentFiles sells.file, dependent.same stall.file = true) ∧
      desk.methods.head? = some { name := "open" } ∧ ¬Names (stallClasses.methodsOf stall.name) "open" ∧
      sells.methods.head? = some { name := "sell" } ∧ ¬Names (stallClasses.methodsOf stall.name) "sell" := by
  have named : stallClasses.WellNamed := ⟨by decide +kernel, by decide +kernel⟩
  have parent : plainName "app\\desk" = plainName desk.name := String.toList_injective (by decide +kernel)
  have ofTrait : plainName "App\\SELLS" = plainName sells.name := String.toList_injective (by decide +kernel)
  have registered : stall ∈ stallClasses.classes := List.mem_cons_self
  refine ⟨named, rfl, parent, rfl, rfl, ofTrait, ?_, ?_, rfl, by decide +kernel, rfl, by decide +kernel⟩
  · exact named.dependent registered (by simp [stallClasses]) (by decide +kernel) parent (by decide +kernel)
  · exact named.dependent registered (by simp [stallClasses]) (by decide +kernel) ofTrait (by decide +kernel)

end Registry

end TestScout
