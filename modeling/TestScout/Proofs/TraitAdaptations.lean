import TestScout.Proofs.MethodLookup

/-! Which methods the adaptations of a class select from its traits. A clause is found to mean a trait by its full name or by
the last segment of it. As long as the references in the clauses are full names of what they mean, a preferred method is seen
in front of those of all other traits, and a renamed one under its new name even when another trait is preferred for it,
whatever the order of the traits. A trait without a namespace can be taken for another one with the same last segment. -/

namespace TestScout
open Code

namespace Code.Adaptation

/-- The traits that a clause speaks of. -/
def references : Adaptation → List String
  | .precedence ofTrait _ insteadOf => ofTrait :: insteadOf
  | .rename ofTrait _ _ _ => ofTrait.toList

/-- A clause gives a method a further name. -/
def Introduces (name : String) : Adaptation → Prop
  | .precedence _ _ _ => False
  | .rename _ _ newName _ => ∃ given ∈ newName, sameName given name

instance (name : String) (adaptation : Adaptation) : Decidable (adaptation.Introduces name) :=
  match adaptation with
  | .precedence _ _ _ => inferInstanceAs (Decidable False)
  | .rename _ _ newName _ => inferInstanceAs (Decidable (∃ given ∈ newName, sameName given name))

end Code.Adaptation

open VisibleMethod

variable {adaptations : List Adaptation} {ofTrait name method : String} {members : List VisibleMethod} {member : VisibleMethod}

theorem meansTrait_of_sameName {reference : String} (same : sameName (relativeName reference) ofTrait) :
    meansTrait reference ofTrait = true := by
  rw [meansTrait, same, Bool.true_or]

theorem isExcluded_congr (same : sameName name method) : isExcluded adaptations ofTrait name = isExcluded adaptations ofTrait method := by
  rw [isExcluded, isExcluded]
  refine List.any_congr rfl fun adaptation => ?_
  cases adaptation with
  | precedence _ other _ => simp only [sameName, sameName_iff.mp same]
  | rename => rfl

/-- A method under a further name, with another visibility if one is given. -/
def renamedTo (newName : String) (visibility : Option Visibility) (member : VisibleMethod) : VisibleMethod :=
  { member with method := { member.method with
      name := newName
      visibility := visibility.getD member.method.visibility } }

/-- The copy that a clause makes of a method of a trait. -/
def copy? (ofTrait : String) (member : VisibleMethod) : Adaptation → Option VisibleMethod
  | .rename reference method newName visibility =>
    if sameName method member.name && reference.all (meansTrait · ofTrait) then newName.map (renamedTo · visibility member) else none
  | .precedence _ _ _ => none

theorem adapted_eq (adaptations : List Adaptation) (ofTrait : String) (member : VisibleMethod) :
    adapted adaptations ofTrait member = adaptations.filterMap (copy? ofTrait member) ++
      if isExcluded adaptations ofTrait member.name then [] else [kept adaptations ofTrait member] := by
  rw [adapted, renamings, List.filterMap_filterMap]
  refine congrArg (· ++ _) (congrArg (adaptations.filterMap ·) (funext fun adaptation => ?_))
  cases adaptation with
  | precedence => rfl
  | rename =>
    simp only [copy?]
    split <;> rfl

theorem visibility_kept
    (unchanged : ∀ reference name visibility, .rename reference name none visibility ∈ adaptations → ¬sameName name member.name) :
    (kept adaptations ofTrait member).method.visibility = member.method.visibility := by
  have none_given : (renamings adaptations ofTrait member.name).find? (·.1.isNone) = none := by
    rw [List.find?_eq_none]
    intro (newName, visibility) given unnamed
    obtain ⟨adaptation, listed, gives⟩ := List.mem_filterMap.mp given
    cases adaptation with
    | precedence => cases gives
    | rename reference name another changed =>
      simp only [Option.ite_none_right_eq_some, Bool.and_eq_true, Option.some_inj, Prod.mk.injEq] at gives
      obtain ⟨⟨same, -⟩, rfl, rfl⟩ := gives
      obtain rfl := Option.isNone_iff_eq_none.mp unnamed
      exact unchanged reference name changed listed same
  simp [kept, none_given]

/-- A copy has the name that the clause introduces. -/
theorem introduces_of_copy? {adaptation : Adaptation} {copied : VisibleMethod} (made : copy? ofTrait member adaptation = some copied) :
    adaptation.Introduces copied.name := by
  cases adaptation with
  | precedence => cases made
  | rename reference method newName visibility =>
    simp only [copy?] at made
    split at made
    · obtain ⟨given, introduced, rfl⟩ := Option.map_eq_some_iff.mp made
      exact ⟨given, introduced, sameName_iff.mpr rfl⟩
    · cases made

theorem introduces_congr {adaptation : Adaptation} (same : sameName name method) :
    adaptation.Introduces name ↔ adaptation.Introduces method := by
  cases adaptation with
  | precedence => rfl
  | rename => simp only [Adaptation.Introduces, sameName_iff, sameName_iff.mp same]

/-! ## What is found among adapted methods -/

/-- Under a name that no clause introduces, a method itself is found unless another trait is preferred. -/
theorem find?_kept (old : ∀ adaptation ∈ adaptations, ¬adaptation.Introduces name) :
    (members.flatMap (adapted adaptations ofTrait)).find? (sameName ·.name name) =
      if isExcluded adaptations ofTrait name then none
      else (members.find? (sameName ·.name name)).map (kept adaptations ofTrait) := by
  induction members with
  | nil => simp
  | cons member rest ih =>
    have no_copy : (adaptations.filterMap (copy? ofTrait member)).find? (sameName ·.name name) = none := by
      rw [find?_eq_none]
      intro ⟨copied, inside, same⟩
      obtain ⟨adaptation, listed, made⟩ := List.mem_filterMap.mp inside
      exact old adaptation listed ((introduces_congr same).mp (introduces_of_copy? made))
    rw [List.flatMap_cons, List.find?_append, ih, adapted_eq, List.find?_append, no_copy, Option.none_or]
    by_cases same : sameName member.name name
    · have itself : sameName (kept adaptations ofTrait member).name name := same
      rw [isExcluded_congr same, List.find?_cons_of_pos (by simpa using same)]
      split
      · rfl
      · rw [List.find?_cons_of_pos (by simpa using itself), Option.some_or, Option.map_some]
    · have other : ¬sameName (kept adaptations ofTrait member).name name := same
      rw [List.find?_cons_of_neg (by simpa using same)]
      split
      · rw [List.find?_nil, Option.none_or]
      · rw [List.find?_cons_of_neg (by simpa using other), List.find?_nil, Option.none_or]

section

variable {reference : String} {visibility : Option Visibility}
  (introduced : .rename (some reference) method (some name) visibility ∈ adaptations)
  (only : ∀ adaptation ∈ adaptations, adaptation.Introduces name →
    adaptation = .rename (some reference) method (some name) visibility)
include introduced only

theorem find?_copies : (adaptations.filterMap (copy? ofTrait member)).find? (sameName ·.name name) =
    if sameName method member.name && meansTrait reference ofTrait then some (renamedTo name visibility member) else none := by
  have copied : copy? ofTrait member (.rename (some reference) method (some name) visibility) =
      if sameName method member.name && meansTrait reference ofTrait then some (renamedTo name visibility member) else none := rfl
  have made : ∀ other ∈ adaptations.filterMap (copy? ofTrait member), sameName other.name name →
      copy? ofTrait member (.rename (some reference) method (some name) visibility) = some other := by
    intro other inside same
    obtain ⟨adaptation, listed, made⟩ := List.mem_filterMap.mp inside
    rwa [only adaptation listed ((introduces_congr same).mp (introduces_of_copy? made))] at made
  cases found : (adaptations.filterMap (copy? ofTrait member)).find? (sameName ·.name name) with
  | some other =>
    obtain ⟨inside, same⟩ := named_of_find? found
    rw [← copied, made other inside same]
  | none =>
    rw [← copied]
    cases own : copy? ofTrait member (.rename (some reference) method (some name) visibility) with
    | none => rfl
    | some other =>
      refine absurd ⟨other, List.mem_filterMap.mpr ⟨_, introduced, own⟩, ?_⟩ (find?_eq_none.mp found)
      rw [copied] at own
      split at own
      · obtain rfl := Option.some_inj.mp own
        exact sameName_iff.mpr rfl
      · cases own

/-- Under a name that one clause introduces and nothing has before, the method is found that the clause is about. -/
theorem find?_renamed (new : ¬Names members name) :
    (members.flatMap (adapted adaptations ofTrait)).find? (sameName ·.name name) =
      if meansTrait reference ofTrait then (members.find? (sameName ·.name method)).map (renamedTo name visibility) else none := by
  induction members with
  | nil => simp
  | cons member rest ih =>
    have other : ¬sameName member.name name := fun same => new ⟨member, List.mem_cons_self, same⟩
    have later : ¬Names rest name := fun ⟨found, inside, same⟩ => new ⟨found, List.mem_cons_of_mem _ inside, same⟩
    have not_kept : (if isExcluded adaptations ofTrait member.name then [] else [kept adaptations ofTrait member]).find?
        (sameName ·.name name) = none := by
      split
      · rfl
      · refine find?_eq_none.mpr fun ⟨itself, inside, same⟩ => other ?_
        rw [List.mem_singleton.mp inside] at same
        exact same
    rw [List.flatMap_cons, List.find?_append, ih later, adapted_eq, List.find?_append, not_kept, Option.or_none,
      find?_copies introduced only]
    by_cases same : sameName member.name method
    · have spelled : sameName method member.name := by rw [sameName_iff] at same ⊢; exact same.symm
      rw [spelled, Bool.true_and, List.find?_cons_of_pos (by simpa using same)]
      split <;> rfl
    · have spelled : sameName method member.name = false := by
        rw [Bool.eq_false_iff]
        exact fun equal => same (by rw [sameName_iff] at equal ⊢; exact equal.symm)
      rw [spelled, Bool.false_and, List.find?_cons_of_neg (by simpa using same)]
      simp

end

namespace Registry

variable {registry : Registry} {info : ClassInfo}

/-- The entries that the traits of a class stand for. -/
def usedBy (registry : Registry) (info : ClassInfo) : List ClassInfo := info.traits.filterMap registry.find?

/-- No reference in the clauses of a class is the last segment of another trait that the class uses. -/
def FullyReferred (registry : Registry) (info : ClassInfo) : Prop :=
  ∀ adaptation ∈ info.adaptations, ∀ reference ∈ adaptation.references, ∀ ofTrait ∈ registry.usedBy info,
    meansTrait reference ofTrait.name → sameName (relativeName reference) ofTrait.name

instance (registry : Registry) (info : ClassInfo) : Decidable (registry.FullyReferred info) :=
  inferInstanceAs (Decidable (∀ adaptation ∈ info.adaptations, ∀ reference ∈ adaptation.references,
    ∀ ofTrait ∈ registry.usedBy info, meansTrait reference ofTrait.name → sameName (relativeName reference) ofTrait.name))

theorem find?_own {levels : Nat} {isInherited : Bool} {declared : Method}
    (first : info.methods.find? (sameName ·.name name) = some declared) :
    (registry.members levels isInherited info).find? (sameName ·.name name) = some ⟨declared, info.name, isInherited⟩ := by
  obtain ⟨others, split⟩ : ownMethods info isInherited <+: registry.members levels isInherited info :=
    own_in_front levels isInherited
  have own : (ownMethods info isInherited).find? (sameName ·.name name) = some ⟨declared, info.name, isInherited⟩ := by
    rw [ownMethods, List.find?_map]
    exact congrArg (Option.map _) first
  rw [← split, List.find?_append, own, Option.some_or]

private theorem findSome?_eq_some {α β : Type} {elements : List α} {f : α → Option β} {value : β}
    (found : ∃ element ∈ elements, f element = some value)
    (only : ∀ element ∈ elements, ∀ other, f element = some other → other = value) : elements.findSome? f = some value := by
  obtain ⟨element, inside, same⟩ := found
  have present : (elements.findSome? f).isSome := List.findSome?_isSome_iff.mpr ⟨element, inside, by rw [same]; rfl⟩
  obtain ⟨other, first⟩ := Option.isSome_iff_exists.mp present
  obtain ⟨source, listed, equal⟩ := List.exists_of_findSome?_eq_some first
  rw [first, only source listed other equal]

/-- What one trait of a class offers under a name is seen when no other trait offers anything and the class has nothing itself. -/
theorem methodOf?_of_traits (named : registry.WellNamed) (registered : info ∈ registry.classes)
    (foreign : ∀ own ∈ info.methods, ¬sameName own.name name) {selected : ClassInfo} (used : selected ∈ registry.usedBy info)
    {entry : VisibleMethod}
    (offers : ((registry.members reach true selected).flatMap (adapted info.adaptations selected.name)).find?
      (sameName ·.name name) = some entry)
    (others : ∀ ofTrait ∈ registry.usedBy info, ofTrait ≠ selected →
      ((registry.members reach true ofTrait).flatMap (adapted info.adaptations ofTrait.name)).find?
        (sameName ·.name name) = none) :
    registry.methodOf? info.name name = some entry := by
  have own : (ownMethods info false).find? (sameName ·.name name) = none := by
    rw [find?_eq_none]
    intro ⟨other, inside, same⟩
    obtain ⟨method, declared, rfl⟩ := List.mem_map.mp inside
    exact foreign method declared same
  have selects : info.traits.findSome? (fun reference => (registry.offered reach info reference).find? (sameName ·.name name)) =
      some entry := by
    apply findSome?_eq_some
    · obtain ⟨reference, written, found⟩ := List.mem_filterMap.mp used
      exact ⟨reference, written, by rw [offered, found]; exact offers⟩
    · intro reference written other offered
      cases found : registry.find? reference with
      | none => simp [Registry.offered, found] at offered
      | some ofTrait =>
        simp only [Registry.offered, found] at offered
        by_cases same : ofTrait = selected
        · rw [same, offers] at offered
          exact (Option.some_inj.mp offered).symm
        · rw [others ofTrait (List.mem_filterMap.mpr ⟨reference, written, found⟩) same] at offered
          cases offered
  rw [methodOf?, find?_methodsOf (named.find?_name registered), find?_members, own, selects, Option.none_or, Option.some_or]

section

variable (named : registry.WellNamed) (referred : registry.FullyReferred info)
include named referred

/-- A reference that is the full name of a used trait means no other one. -/
theorem eq_of_meansTrait {adaptation : Adaptation} (listed : adaptation ∈ info.adaptations) {reference : String}
    (written : reference ∈ adaptation.references) {selected other : ClassInfo} (used : selected ∈ registry.usedBy info)
    (among : other ∈ registry.usedBy info) (full : sameName (relativeName reference) selected.name)
    (means : meansTrait reference other.name) : other = selected := by
  have known {entry : ClassInfo} (used : entry ∈ registry.usedBy info) : entry ∈ registry.classes := by
    obtain ⟨_, -, found⟩ := List.mem_filterMap.mp used
    exact (find?_eq_some_iff.mp found).1
  have equal := referred adaptation listed reference written other among means
  rw [sameName_iff] at full equal
  exact named.eq_of_toLower_eq (known among) (known used) (equal.symm.trans full)

variable {preferred method : String} {insteadOf : List String}
  (listed : .precedence preferred method insteadOf ∈ info.adaptations)
include listed

theorem isExcluded_other {selected other : ClassInfo} (used : selected ∈ registry.usedBy info)
    (full : sameName (relativeName preferred) selected.name) (among : other ∈ registry.usedBy info) (apart : other ≠ selected)
    (given_up : ∃ reference ∈ insteadOf, sameName (relativeName reference) other.name) :
    isExcluded info.adaptations other.name method = true := by
  obtain ⟨reference, written, same⟩ := given_up
  have not_preferred : meansTrait preferred other.name = false := by
    rw [Bool.eq_false_iff]
    exact fun means => apart (eq_of_meansTrait named referred listed List.mem_cons_self used among full means)
  refine List.any_eq_true.mpr ⟨_, listed, ?_⟩
  simp only [not_preferred, sameName_iff.mpr rfl, Bool.not_false, Bool.true_and]
  exact List.any_eq_true.mpr ⟨reference, written, meansTrait_of_sameName same⟩

end

theorem isExcluded_eq_false (referred : registry.FullyReferred info) {selected : ClassInfo} {method : String}
    (used : selected ∈ registry.usedBy info)
    (held : ∀ preferred name insteadOf, .precedence preferred name insteadOf ∈ info.adaptations → sameName name method →
      ∀ reference ∈ insteadOf, ¬sameName (relativeName reference) selected.name) :
    isExcluded info.adaptations selected.name method = false := by
  rw [Bool.eq_false_iff]
  intro excluded
  obtain ⟨adaptation, listed, excludes⟩ := List.any_eq_true.mp excluded
  cases adaptation with
  | rename => cases excludes
  | precedence preferred name insteadOf =>
    simp only [Bool.and_eq_true] at excludes
    obtain ⟨⟨same, -⟩, given_up⟩ := excludes
    obtain ⟨reference, written, means⟩ := List.any_eq_true.mp given_up
    have full := referred _ listed reference (List.mem_cons_of_mem _ written) selected used means
    exact held preferred name insteadOf listed same reference written full

/-- With full names in its clauses, a class sees the preferred method of those that its traits have under one name, and a
renamed method under its new name whatever is preferred. A clause that gives a visibility only changes just that. -/
theorem adaptations_select_methods (registry : Registry) (named : registry.WellNamed) (info : ClassInfo)
    (registered : info ∈ registry.classes) (referred : registry.FullyReferred info) :
    (∀ preferred method insteadOf, .precedence preferred method insteadOf ∈ info.adaptations →
      ∀ selected ∈ registry.usedBy info, sameName (relativeName preferred) selected.name →
      (∀ own ∈ info.methods, ¬sameName own.name method) →
      (∀ other ∈ registry.usedBy info, other ≠ selected → Names (registry.members reach true other) method →
        ∃ reference ∈ insteadOf, sameName (relativeName reference) other.name) →
      (∀ preferred name insteadOf, .precedence preferred name insteadOf ∈ info.adaptations → sameName name method →
        ∀ reference ∈ insteadOf, ¬sameName (relativeName reference) selected.name) →
      (∀ adaptation ∈ info.adaptations, ¬adaptation.Introduces method) →
      ∀ declared, selected.methods.find? (sameName ·.name method) = some declared →
        ∃ visibility, registry.methodOf? info.name method = some ⟨{ declared with visibility }, selected.name, true⟩ ∧
          ((∀ reference name visibility, .rename reference name none visibility ∈ info.adaptations → ¬sameName name method) →
            visibility = declared.visibility)) ∧
    ∀ reference method newName visibility, .rename (some reference) method (some newName) visibility ∈ info.adaptations →
      ∀ selected ∈ registry.usedBy info, sameName (relativeName reference) selected.name →
      (∀ own ∈ info.methods, ¬sameName own.name newName) →
      (∀ ofTrait ∈ registry.usedBy info, ¬Names (registry.members reach true ofTrait) newName) →
      (∀ adaptation ∈ info.adaptations, adaptation.Introduces newName →
        adaptation = .rename (some reference) method (some newName) visibility) →
      ∀ declared, selected.methods.find? (sameName ·.name method) = some declared →
        registry.methodOf? info.name newName =
          some ⟨{ declared with name := newName, visibility := visibility.getD declared.visibility }, selected.name, true⟩ := by
  constructor
  · intro preferred method insteadOf listed selected used full foreign given_up held old declared first
    have itself : (registry.members reach true selected).find? (sameName ·.name method) = some ⟨declared, selected.name, true⟩ :=
      find?_own first
    refine ⟨(kept info.adaptations selected.name ⟨declared, selected.name, true⟩).method.visibility, ?_, ?_⟩
    · apply methodOf?_of_traits named registered foreign used
      · rw [find?_kept old, isExcluded_eq_false referred used held, itself]
        rfl
      · intro other among apart
        rw [find?_kept old]
        by_cases provides : Names (registry.members reach true other) method
        · rw [isExcluded_other named referred listed used full among apart (given_up other among apart provides)]
          rfl
        · rw [find?_eq_none.mpr provides]
          split <;> rfl
    · intro unchanged
      have same : declared.name.toLower = method.toLower := by
        have named := List.find?_some first
        exact sameName_iff.mp named
      apply visibility_kept
      intro reference name visibility changed
      rw [sameName_iff, VisibleMethod.name, same, ← sameName_iff]
      exact unchanged reference name visibility changed
  · intro reference method newName visibility listed selected used full foreign new only declared first
    have itself : (registry.members reach true selected).find? (sameName ·.name method) = some ⟨declared, selected.name, true⟩ :=
      find?_own first
    apply methodOf?_of_traits named registered foreign used
    · rw [find?_renamed listed only (new selected used), meansTrait_of_sameName full, itself]
      rfl
    · intro other among apart
      have not_meant : ¬meansTrait reference other.name := fun means =>
        apart (eq_of_meansTrait named referred listed (Option.mem_toList.mpr rfl) used among full means)
      rw [find?_renamed listed only (new other among), if_neg not_meant]

private def greets (name method : String) : ClassInfo :=
  { name, kind := .traitDecl, methods := [{ name := method, isStatic := true }], file := ⟨"/p/Greets.php"⟩ }

private def lobby (traits : List String) (adaptations : List Adaptation) : ClassInfo :=
  { name := "App\\Lobby", traits, adaptations, file := ⟨"/p/Lobby.php"⟩ }

private def politeLobby : ClassInfo := lobby ["App\\Greets", "\\Lib\\Greets"]
  [.precedence "Lib\\Greets" "greet" ["App\\Greets"],
    .rename (some "\\App\\Greets") "greet" (some "welcome") (some .protectedAccess)]

private def politeClasses : Registry := ⟨[politeLobby, greets "App\\Greets" "greet", greets "Lib\\Greets" "greet"], by decide⟩

private theorem politeClasses_usedBy :
    politeClasses.usedBy politeLobby = [greets "App\\Greets" "greet", greets "Lib\\Greets" "greet"] := by
  rfl

/-- Two traits go by one short name. The second one is preferred, and the first one's method is seen under a further name. -/
theorem lobby_greets_and_welcomes :
    politeClasses.FullyReferred politeLobby ∧
      (∃ visibility, politeClasses.methodOf? politeLobby.name "greet" =
        some ⟨{ name := "greet", isStatic := true, visibility }, "Lib\\Greets", true⟩) ∧
      politeClasses.methodOf? politeLobby.name "welcome" =
        some ⟨{ name := "welcome", isStatic := true, visibility := .protectedAccess }, "App\\Greets", true⟩ := by
  have referred : politeClasses.FullyReferred politeLobby := by decide +kernel
  have named : politeClasses.WellNamed := ⟨by decide +kernel, by decide +kernel⟩
  have first : greets "App\\Greets" "greet" ∈ politeClasses.usedBy politeLobby := politeClasses_usedBy ▸ List.mem_cons_self
  have second : greets "Lib\\Greets" "greet" ∈ politeClasses.usedBy politeLobby :=
    politeClasses_usedBy ▸ List.mem_cons_of_mem _ List.mem_cons_self
  obtain ⟨prefers, renames⟩ := adaptations_select_methods politeClasses named politeLobby List.mem_cons_self referred
  have given_up : ∀ other ∈ politeClasses.usedBy politeLobby, other ≠ greets "Lib\\Greets" "greet" →
      Names (politeClasses.members reach true other) "greet" →
      ∃ reference ∈ ["App\\Greets"], sameName (relativeName reference) other.name := by
    intro other among apart _
    rw [politeClasses_usedBy] at among
    rcases List.mem_cons.mp among with rfl | last
    · exact ⟨"App\\Greets", List.mem_cons_self, by decide +kernel⟩
    · exact absurd (List.mem_singleton.mp last) apart
  have held : ∀ preferred name insteadOf, .precedence preferred name insteadOf ∈ politeLobby.adaptations →
      sameName name "greet" → ∀ reference ∈ insteadOf, ¬sameName (relativeName reference) "Lib\\Greets" := by
    intro preferred name insteadOf listed _ reference written
    obtain ⟨-, -, rfl⟩ : preferred = "Lib\\Greets" ∧ name = "greet" ∧ insteadOf = ["App\\Greets"] := by
      simpa [politeLobby, lobby] using listed
    rw [List.mem_singleton.mp written]
    decide +kernel
  refine ⟨referred, ?_, ?_⟩
  · obtain ⟨visibility, seen, -⟩ := prefers "Lib\\Greets" "greet" ["App\\Greets"] List.mem_cons_self _ second
      (by decide +kernel) nofun given_up held (by decide +kernel) { name := "greet", isStatic := true }
      (List.find?_cons_of_pos (by decide +kernel))
    exact ⟨visibility, seen⟩
  · refine renames "\\App\\Greets" "greet" "welcome" (some .protectedAccess) (by decide) _ first (by decide +kernel) nofun ?_ ?_
      { name := "greet", isStatic := true } (List.find?_cons_of_pos (by decide +kernel))
    · rw [politeClasses_usedBy]
      decide +kernel
    · decide +kernel

/-- A lobby that prefers a trait without a namespace to one of the same short name, and renames its method. -/
private def rudeLobby : ClassInfo := lobby ["Lib\\Greets", "Greets"]
  [.precedence "Greets" "greet" ["Lib\\Greets"], .rename (some "Greets") "greet" (some "welcome") none]

private def rudeClasses : Registry := ⟨[rudeLobby, greets "Greets" "greet", greets "Lib\\Greets" "greet"], by decide⟩

/-- The trait that comes first is taken for the one that is meant, though every name is full and all traits but one are
given up. -/
theorem lobby_takes_namesake :
    rudeClasses.WellNamed ∧ rudeClasses.usedBy rudeLobby = [greets "Lib\\Greets" "greet", greets "Greets" "greet"] ∧
      rudeLobby.adaptations = [.precedence "Greets" "greet" ["Lib\\Greets"], .rename (some "Greets") "greet" (some "welcome") none] ∧
      rudeLobby.methods = [] ∧
      (rudeClasses.methodOf? rudeLobby.name "greet").map (·.declaring) = some "Lib\\Greets" ∧
      (rudeClasses.methodOf? rudeLobby.name "welcome").map (·.declaring) = some "Lib\\Greets" :=
  ⟨⟨by decide +kernel, by decide +kernel⟩, rfl, rfl, rfl, by cbv, by cbv⟩

end Registry

end TestScout
