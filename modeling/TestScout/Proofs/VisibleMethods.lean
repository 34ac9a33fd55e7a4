import TestScout.Proofs.RegistryDependence
import TestScout.Discovery.ClassTests

/-! What can be seen on a class, and which of it is a test, depends only on the entries that
are found behind its name and behind the references from there on. -/

namespace TestScout
open Code Test

theorem VisibleMethod.mem_of_mem_addTo {members : List VisibleMethod} {member other : VisibleMethod}
    (found : other ∈ addTo members member) : other ∈ members ∨ other = member := by
  unfold addTo at found
  split at found
  · exact .inl found
  · simpa using found

theorem declaring_of_mem_adapted {adaptations : List Adaptation} {ofTrait : String} {member other : VisibleMethod}
    (found : other ∈ adapted adaptations ofTrait member) : other.declaring = member.declaring := by
  simp only [adapted, List.mem_append, List.mem_filterMap, Option.map_eq_some_iff] at found
  rcases found with ⟨_, -, _, -, rfl⟩ | kept
  · rfl
  · split at kept
    · cases kept
    · rw [List.mem_singleton.mp kept]

namespace Registry

/-- Whether an entry goes by a known name and refers to known names only. -/
structure Within (known : String → Prop) (info : ClassInfo) : Prop where
  name : known info.name
  references : ∀ reference ∈ info.references, known reference

/-- Behind known names both registries have the same entries, and these lead to known names. -/
structure Agree (known : String → Prop) (first second : Registry) : Prop where
  same : ∀ name, known name → first.find? name = second.find? name
  inside : ∀ name info, known name → first.find? name = some info → Within known info

/-- The same methods, all of them declared under known names. -/
def SameMembers (known : String → Prop) (first second : List VisibleMethod) : Prop :=
  first = second ∧ ∀ member ∈ first, known member.declaring

variable {known : String → Prop} {first second : Registry}

private theorem sameMembers_own {info : ClassInfo} (inside : Within known info) (isInherited : Bool) :
    SameMembers known (ownMethods info isInherited) (ownMethods info isInherited) := by
  refine ⟨rfl, fun member found => ?_⟩
  obtain ⟨method, -, rfl⟩ := List.mem_map.mp found
  exact inside.name

private theorem sameMembers_adapted {members others : List VisibleMethod} (same : SameMembers known members others)
    (adaptations : List Adaptation) (ofTrait : String) :
    SameMembers known (members.flatMap (adapted adaptations ofTrait)) (others.flatMap (adapted adaptations ofTrait)) := by
  refine ⟨by rw [same.1], fun member found => ?_⟩
  obtain ⟨source, inside, copied⟩ := List.mem_flatMap.mp found
  rw [declaring_of_mem_adapted copied]
  exact same.2 source inside

private theorem sameMembers_foldl {put : List VisibleMethod → VisibleMethod → List VisibleMethod}
    (mem_put : ∀ members member other, other ∈ put members member → other ∈ members ∨ other.declaring = member.declaring)
    {start begin further others : List VisibleMethod} (same : SameMembers known start begin)
    (added : SameMembers known further others) : SameMembers known (further.foldl put start) (others.foldl put begin) := by
  rw [← added.1]
  refine List.foldl_rel same fun member inside members begun sofar => ⟨by rw [sofar.1], fun other found => ?_⟩
  rcases mem_put members member other found with before | declared
  · exact sofar.2 other before
  · exact declared ▸ added.2 member inside

theorem Agree.members (agree : Agree known first second) (levels : Nat) (isInherited : Bool) {info : ClassInfo}
    (inside : Within known info) :
    SameMembers known (first.members levels isInherited info) (second.members levels isInherited info) := by
  induction levels generalizing isInherited info with
  | zero => exact sameMembers_own inside isInherited
  | succ levels ih =>
    refine List.foldl_rel (sameMembers_own inside isInherited) fun name used members others sofar => ?_
    have reference : known name := inside.references name (List.mem_append_right _ used)
    rw [← agree.same name reference]
    cases found : first.find? name with
    | none => exact sofar
    | some ofTrait =>
      have further := ih true (agree.inside name ofTrait reference found)
      refine sameMembers_foldl ?_ sofar (sameMembers_adapted further _ _)
      intro members member other present
      exact (VisibleMethod.mem_of_mem_addTo present).imp_right (congrArg VisibleMethod.declaring)

theorem Agree.ancestors (agree : Agree known first second) (count : Nat) {info : ClassInfo} (inside : Within known info) :
    first.ancestors count info = second.ancestors count info ∧
      ∀ ancestor ∈ first.ancestors count info, Within known ancestor := by
  induction count generalizing info with
  | zero => exact ⟨rfl, fun _ found => nomatch found⟩
  | succ count ih =>
    cases extended : info.parent with
    | none => simp [Registry.ancestors, extended]
    | some name =>
      have reference : known name := inside.references name (by simp [ClassInfo.references, extended])
      simp only [Registry.ancestors, extended, Option.bind_some, ← agree.same name reference]
      cases found : first.find? name with
      | none => simp
      | some parent =>
        have within := agree.inside name parent reference found
        obtain ⟨same, above⟩ := ih within
        refine ⟨congrArg (parent :: ·) same, fun ancestor member => ?_⟩
        rcases List.mem_cons.mp member with rfl | further
        · exact within
        · exact above ancestor further

theorem Agree.methodsOf (agree : Agree known first second) {name : String} (reference : known name) :
    SameMembers known (first.methodsOf name) (second.methodsOf name) := by
  unfold Registry.methodsOf
  rw [← agree.same name reference]
  cases found : first.find? name with
  | none => exact ⟨rfl, fun _ found => nomatch found⟩
  | some info =>
    have inside := agree.inside name info reference found
    obtain ⟨same, above⟩ := agree.ancestors reach inside
    simp only [← same]
    refine List.foldl_rel (agree.members _ _ inside) fun (ancestor, index) listed members others sofar => ?_
    have within := above ancestor (List.fst_mem_of_mem_zipIdx listed)
    refine sameMembers_foldl ?_ sofar (agree.members (reach - index) true within)
    intro members member other present
    unfold inherit at present
    split at present
    · exact .inl present
    · rcases VisibleMethod.mem_of_mem_addTo present with before | rfl
      · exact .inl before
      · exact .inr rfl

/-! ## After a change -/

theorem agree_of_same (same : ∀ info, info ∈ first.classes ↔ info ∈ second.classes) :
    Agree (fun _ => True) first second :=
  ⟨fun _ _ => find?_congr fun info _ => same info, fun _ _ _ _ => ⟨trivial, fun _ _ => trivial⟩⟩

private theorem find?_of_change {file : Path} {name : String} {info : ClassInfo}
    (elsewhere : ∀ info, info.file.same file = false → info ∈ first.classes → info ∈ second.classes)
    (apart : plainName name ∉ first.reached file) (found : first.find? name = some info) :
    second.find? name = some info := by
  obtain ⟨member, named⟩ := find?_eq_some_iff.mp found
  refine find?_eq_some_iff.mpr ⟨elsewhere info ?_ member, named⟩
  rw [Bool.eq_false_iff]
  intro own
  apply apart
  have := reached_own member own
  rwa [named] at this

/-- When registries differ in the entries of one file only, they agree on the names that the
file does not reach in either of them. -/
theorem agree_of_change {file : Path}
    (elsewhere : ∀ info, info.file.same file = false → (info ∈ first.classes ↔ info ∈ second.classes)) :
    Agree (fun name => plainName name ∉ first.reached file ∧ plainName name ∉ second.reached file) first second := by
  have same : ∀ name, plainName name ∉ first.reached file ∧ plainName name ∉ second.reached file →
      first.find? name = second.find? name := by
    intro name ⟨apart, later⟩
    apply Option.ext
    intro info
    exact ⟨find?_of_change (fun info foreign => (elsewhere info foreign).mp) apart,
      find?_of_change (fun info foreign => (elsewhere info foreign).mpr) later⟩
  refine ⟨same, fun name info ⟨apart, later⟩ found => ?_⟩
  obtain ⟨member, named⟩ := find?_eq_some_iff.mp found
  obtain ⟨kept, -⟩ := find?_eq_some_iff.mp (same name ⟨apart, later⟩ ▸ found)
  have plain : info.name.toLower = plainName name := by rw [named, plainName]
  refine ⟨?_, fun reference refers => ⟨fun known => apart ?_, fun known => later ?_⟩⟩
  · rw [named, plainName_relativeName]
    exact ⟨apart, later⟩
  · exact plain ▸ reached_of_reference member refers known
  · exact plain ▸ reached_of_reference kept refers known

/-- Entries of different files go by different names. -/
def Apart (registry : Registry) : Prop :=
  ∀ info ∈ registry.classes, ∀ other ∈ registry.classes,
    info.file.same other.file = false → plainName info.name ≠ plainName other.name

theorem not_mem_reached {registry : Registry} (apart : registry.Apart) {file : Path} {info : ClassInfo}
    (member : info ∈ registry.classes) (foreign : info.file.same file = false)
    (independent : ∀ dependent ∈ registry.dependentFiles file, dependent.same info.file = false) :
    plainName info.name ∉ registry.reached file := by
  intro found
  obtain ⟨other, inside, same, origin⟩ := declared_of_mem_reached found
  have plain := plainName_eq_of_toLower_eq same
  have together : other.file.same info.file = true := by
    rw [← Bool.not_eq_false]
    intro differs
    exact apart other inside info member differs plain
  rcases origin with own | ⟨dependent, listed, spelled⟩
  · rw [← Path.same_congr_left together, own] at foreign
    cases foreign
  · have := independent dependent listed
    rw [Path.same_trans spelled together] at this
    cases this

end Registry

namespace Discovery
open Registry

variable {known : String → Prop} {first second : Registry}

theorem methodAnnotations_congr (agree : Agree known first second) {member : VisibleMethod}
    (declared : known member.declaring) : methodAnnotations first member = methodAnnotations second member := by
  simp only [methodAnnotations, agree.same _ declared]

theorem testsOf_congr (agree : Agree known first second) {className : String} (reference : known className) :
    testsOf first className = testsOf second className ∧ ∀ member ∈ testsOf first className, known member.declaring := by
  obtain ⟨same, declared⟩ := agree.methodsOf reference
  refine ⟨?_, fun member found => declared member (List.mem_filter.mp found).1⟩
  rw [testsOf, testsOf, ← same]
  refine List.filter_congr fun member found => ?_
  rw [isTest, isTest, methodAnnotations_congr agree (declared member found)]

end Discovery

end TestScout
