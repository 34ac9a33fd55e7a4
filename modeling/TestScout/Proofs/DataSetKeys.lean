import TestScout.Proofs.DefinitionTrails
import TestScout.Proofs.ScoutMemory

/-! Where the keys of data sets come from. A provider may be a method of a class that is named
in front of it, and no file is looked at again because another one declares such a class. Its
keys can only be relied on when references lead to that class from the file of the test, or
when there is no such class at all. -/

namespace TestScout

namespace Registry

variable {known : String → Prop} {first second : Registry} {name target : String}

/-- Whether references lead from one name to another, in as many steps as it takes. -/
inductive Leads (declares : ClassInfo → Prop) : String → String → Prop
  | here {name target : String} (same : plainName name = plainName target) : Leads declares name target
  | step {name reference target : String} (info : ClassInfo) (found : declares info)
      (named : info.name.toLower = plainName name) (refers : reference ∈ info.references)
      (further : Leads declares reference target) : Leads declares name target

theorem Leads.mono {declares others : ClassInfo → Prop} (leads : Leads declares name target)
    (more : ∀ info, declares info → others info) : Leads others name target := by
  induction leads with
  | here same => exact .here same
  | step info found named refers _ ih => exact .step info (more info found) named refers ih

/-- From a name that a changed file does not reach, references only lead to such names, and
all of them were there before the change. -/
theorem Leads.before {file : Path}
    (elsewhere : ∀ info, info.file.same file = false → (info ∈ first.classes ↔ info ∈ second.classes))
    (leads : Leads (· ∈ second.classes) name target)
    (apart : plainName name ∉ first.reached file ∧ plainName name ∉ second.reached file) :
    Leads (· ∈ first.classes) name target ∧
      plainName target ∉ first.reached file ∧ plainName target ∉ second.reached file := by
  induction leads with
  | here same => exact ⟨.here same, same ▸ apart⟩
  | step info found named refers _ ih =>
    rw [← named] at apart
    have foreign : info.file.same file = false := by
      rw [← Bool.not_eq_true]
      intro own
      exact apart.2 (reached_own found own)
    have kept := (elsewhere info foreign).mpr found
    obtain ⟨earlier, unreached⟩ := ih
      ⟨fun reached => apart.1 (reached_of_reference kept refers reached),
        fun reached => apart.2 (reached_of_reference found refers reached)⟩
    exact ⟨.step info kept named refers earlier, unreached⟩

/-- Registries that agree on some names also agree on those that neither of them has. -/
theorem Agree.orAbsent (agree : Agree known first second) :
    Agree (fun name => known name ∨ first.find? name = none ∧ second.find? name = none) first second := by
  constructor
  · intro name reference
    cases reference with
    | inl inside => exact agree.same name inside
    | inr absent => rw [absent.1, absent.2]
  · intro name info reference found
    cases reference with
    | inl inside =>
      have within := agree.inside name info inside found
      exact ⟨.inl within.name, fun reference refers => .inl (within.references reference refers)⟩
    | inr absent =>
      rw [absent.1] at found
      cases found

end Registry

namespace Discovery
open Code Test Registry

def holderOf? (scope : Scope) (provider : String) : Option String :=
  (Text.splitOnce [':', ':'] provider.toList).map fun (holder, _) => scope.resolve (String.ofList holder)

theorem providerKeysOf_congr {known : String → Prop} {first second : Registry} (agree : Agree known first second)
    {scope : Scope} {className provider : String} (reference : known className)
    (holders : ∀ holder ∈ holderOf? scope provider, known holder) :
    providerKeysOf scope first className provider = providerKeysOf scope second className provider := by
  unfold holderOf? at holders
  unfold providerKeysOf
  cases named : Text.splitOnce [':', ':'] provider.toList with
  | none => simp only [methodOf?, (agree.methodsOf reference).1]
  | some parts =>
    have inside : known (scope.resolve (String.ofList parts.1)) := holders _ (by rw [named]; rfl)
    simp only [methodOf?, (agree.methodsOf inside).1]

/-- A test is the same in registries that agree on where it is declared and on the classes
that are named in front of its providers. -/
theorem testDefinition_congr {known : String → Prop} {first second : Registry} (agree : Agree known first second)
    {scope : Scope} {node : ClassDecl} (depth : Nat) {member : VisibleMethod} (reference : known (scope.qualify node.name))
    (declared : known member.declaring)
    (holders : ∀ provider ∈ (methodAnnotations first member).dataProvider, ∀ holder ∈ holderOf? scope provider, known holder) :
    testDefinition scope first depth node member = testDefinition scope second depth node member := by
  have annotations := methodAnnotations_congr agree declared
  have keys : (methodAnnotations first member).dataProvider.flatMap (providerKeysOf scope first (scope.qualify node.name)) =
      (methodAnnotations first member).dataProvider.flatMap (providerKeysOf scope second (scope.qualify node.name)) := by
    apply List.flatMap_congr
    intro provider given
    exact providerKeysOf_congr agree reference (holders provider given)
  simp only [testDefinition, ← annotations, keys]

/-! ## Tests with providers -/

theorem dataProvider_callAnnotations (call : Call) : (callAnnotations call).dataProvider = [] := by
  unfold callAnnotations
  apply List.foldlRecOn (motive := fun annotations : Annotations => annotations.dataProvider = [])
  · rfl
  · intro annotations none modifier _
    split
    · exact none
    · exact none
    · exact none

theorem dataProvider_described (file : CallFile) (path : List String) (depth : Nat) (statements : List Node) :
    ∀ definition ∈ described file path depth statements, definition.annotations.dataProvider = [] := by
  fun_induction described file path depth statements with
  | case1 => exact fun _ member => nomatch member
  | case2 path depth statement rest inner others =>
    intro definition member
    rcases List.mem_append.mp member with own | later
    · split at own
      · cases own
      next call role found =>
        split at own
        · cases own
        next text _ =>
          cases role with
          | describe =>
            cases own with
            | head => exact dataProvider_callAnnotations call
            | tail _ below => exact inner call text found definition below
          | it => exact List.mem_singleton.mp own ▸ dataProvider_callAnnotations call
          | test => exact List.mem_singleton.mp own ▸ dataProvider_callAnnotations call
    · exact others definition later

theorem mem_scopeDefinitions {registry : Registry} {scope : Scope} {definition : Definition}
    (member : definition ∈ scopeDefinitions registry scope) (item : definition.kind ≠ .space) :
    ∃ node ∈ scope.classes, definition ∈ classDefinitions scope registry node := by
  apply List.mem_flatMap.mp
  simp only [scopeDefinitions] at member
  split at member
  · split at member
    · cases member
    · cases member with
      | head => exact absurd rfl item
      | tail _ further => exact further
  · exact member

/-- A test with providers is one of a class of the file, and its keys are theirs. -/
theorem keys_of_mem_definitionsOf {registry : Registry} {file root : Path} {program : Program} {definition : Definition}
    (member : definition ∈ definitionsOf registry file root program) (kind : definition.kind = .method)
    (given : definition.annotations.dataProvider ≠ []) :
    ∃ scope ∈ Scope.ofProgram program, ∃ node ∈ scope.classes,
      definition.qualifiedClass = some (scope.qualify node.name) ∧
      definition.dataSets =
        definition.annotations.dataProvider.flatMap (providerKeysOf scope registry (scope.qualify node.name)) := by
  unfold definitionsOf at member
  split at member
  · simp only [fileDefinitions] at member
    split at member
    · rcases List.mem_append.mp member with space | inside
      · obtain ⟨name, -, rfl⟩ := Option.map_eq_some_iff.mp (Option.mem_toList.mp space)
        cases kind
      · cases inside with
        | head => cases kind
        | tail _ below => exact absurd (dataProvider_described _ _ _ _ definition below) given
    · cases member
  · obtain ⟨scope, inside, found⟩ := List.mem_flatMap.mp member
    obtain ⟨node, within, own⟩ := mem_scopeDefinitions found (by simp [kind])
    refine ⟨scope, inside, node, within, ?_⟩
    simp only [classDefinitions] at own
    generalize (if node.isAbstract = true then [] else testsOf registry (scope.qualify node.name)) = tests at own
    split at own
    · cases own
    · rcases List.mem_cons.mp own with rfl | test
      · cases kind
      · obtain ⟨method, -, rfl⟩ := List.mem_map.mp test
        exact ⟨rfl, rfl⟩

/-! ## Providers that can be followed -/

/-- An entry that one of the sources makes. -/
def Declares (reader : Surface.Reader) (sources : Sources) (info : ClassInfo) : Prop :=
  ∃ entry ∈ sources, info ∈ declared reader entry.1 entry.2

/-- A class that references lead to from some class of a source, or that is declared nowhere. -/
def Reachable (reader : Surface.Reader) (sources : Sources) (source holder : String) : Prop :=
  (∃ name ∈ declaredNames reader source, Leads (Declares reader sources) name holder) ∨
    ∀ other ∈ sources, relativeName holder ∉ declaredNames reader other.2

/-- The classes that are named in front of the providers of a test can all be reached from
the file that its class is in. -/
def Followed (reader : Surface.Reader) (sources : Sources) (test : Definition) : Prop :=
  ∀ entry ∈ sources, entry.1.same test.file = true → ∀ program, reader entry.2 = some (.program program) →
    ∀ scope ∈ Scope.ofProgram program, (∃ node ∈ scope.classes, test.qualifiedClass = some (scope.qualify node.name)) →
      ∀ provider ∈ test.annotations.dataProvider, ∀ holder ∈ holderOf? scope provider,
        Reachable reader sources entry.2 holder

open Classical in
/-- A test without what is below it, and without its keys unless its providers can be followed. -/
noncomputable def settled (reader : Surface.Reader) (sources : Sources) (test : Definition) : Definition :=
  { test with children := [], dataSets := if Followed reader sources test then test.dataSets else [] }

variable {reader : Surface.Reader} {latest changed : Sources} {test other : Definition}

theorem Followed.congr (followed : Followed reader latest test) (same : test.withoutKeys = other.withoutKeys) :
    Followed reader latest other := by
  simp only [Definition.withoutKeys_eq, Definition.mk.injEq] at same
  obtain ⟨-, -, -, file, -, -, -, annotations, qualifiedClass, -⟩ := same
  unfold Followed
  rw [← file, ← annotations, ← qualifiedClass]
  exact followed

theorem Followed.mem_congr {others : Sources} (followed : Followed reader latest test)
    (same : ∀ entry, entry ∈ latest ↔ entry ∈ others) : Followed reader others test := by
  intro entry member own program read scope inside named provider given holder front
  have reachable := followed entry ((same entry).mpr member) own program read scope inside named provider given holder front
  cases reachable with
  | inl led =>
    obtain ⟨name, declares, leads⟩ := led
    refine .inl ⟨name, declares, leads.mono ?_⟩
    intro info ⟨source, listed, found⟩
    exact ⟨source, (same source).mp listed, found⟩
  | inr absent => exact .inr fun other listed => absent other ((same other).mpr listed)

theorem settled_of_followed (followed : Followed reader latest test) : settled reader latest test = test.bare := by
  rw [settled, if_pos followed, Definition.bare]

theorem settled_of_not_followed (lost : ¬Followed reader latest test) :
    settled reader latest test = { test.bare with dataSets := [] } := by
  rw [settled, if_neg lost, Definition.bare]

theorem settled_eq (same : test.withoutKeys = other.withoutKeys) (equal : Followed reader latest test → test = other) :
    settled reader latest test = settled reader latest other := by
  by_cases followed : Followed reader latest test
  · rw [equal followed]
  · have lost : ¬Followed reader latest other := fun inside => followed (inside.congr same.symm)
    have bare := congrArg Definition.bare same
    rw [Definition.withoutKeys_eq, Definition.withoutKeys_eq] at bare
    rw [settled_of_not_followed followed, settled_of_not_followed lost]
    exact bare

/-- Tests that can be followed at last could be followed before. Settling them early makes no difference then. -/
theorem settled_settled (before : Followed reader changed test → Followed reader latest test) :
    settled reader changed (settled reader latest test) = settled reader changed test := by
  by_cases followed : Followed reader changed test
  · have early := settled_of_followed (before followed)
    rw [early, settled_of_followed followed]
    exact settled_of_followed (show Followed reader changed test.bare from followed)
  · rw [settled_of_not_followed followed]
    exact settled_of_not_followed (show ¬Followed reader changed (settled reader latest test) from followed)

/-- Tests that are settled alike differ at most in what is below them and in keys, and if they
can be followed they do not differ in keys. -/
theorem alike_of_settled (same : settled reader latest test = settled reader latest other) :
    test.bare.withoutKeys = other.bare.withoutKeys ∧ (Followed reader latest test → test.dataSets = other.dataSets) := by
  have shown (test : Definition) : (settled reader latest test).withoutKeys = test.bare.withoutKeys := by
    simp only [settled, Definition.bare, Definition.withoutKeys_eq]
  have equal : test.bare.withoutKeys = other.bare.withoutKeys := by rw [← shown, same, shown]
  refine ⟨equal, fun followed => ?_⟩
  have both : Followed reader latest other.bare :=
    Followed.congr (show Followed reader latest test.bare from followed) equal
  have bare := same
  rw [settled_of_followed followed, settled_of_followed (show Followed reader latest other from both)] at bare
  exact (congrArg Definition.dataSets bare : test.bare.dataSets = other.bare.dataSets)

namespace Scout

variable {first second : Scout} {file : Path} {entry : Path × String}

theorem Remembers.find?_eq_none (remembers : first.Remembers latest) {holder : String}
    (absent : ∀ other ∈ latest, relativeName holder ∉ declaredNames first.reader other.2) :
    first.registry.find? holder = none := by
  rw [Option.eq_none_iff_forall_not_mem]
  intro info found
  obtain ⟨member, named⟩ := find?_eq_some_iff.mp found
  obtain ⟨entry, inside, declares⟩ := (remembers.classes info).mp member
  exact absent entry inside (mem_declaredNames_iff.mpr ⟨info, declares, named⟩)

theorem Remembers.definitions_eq (remembers : first.Remembers latest) (again : second.Remembers latest)
    (kept : second.reader = first.reader) (root : second.root = first.root) (entry : Path × String)
    (suite : Option String) :
    first.definitions entry.2 entry.1 suite = second.definitions entry.2 entry.1 suite := by
  have agree : Agree (fun _ => True) first.registry second.registry := by
    apply agree_of_same
    intro info
    rw [remembers.classes, again.classes, kept]
  have same : (first.definitions entry.2 entry.1 suite).map id = (second.definitions entry.2 entry.1 suite).map id := by
    apply definitions_congr kept root agree (fun _ _ => trivial) suite
    intro program _ scope _ node _ depth member _
    exact congrArg (housed entry.1 suite) (testDefinition_congr agree depth trivial trivial fun _ _ _ _ => trivial)
  rwa [List.map_id, List.map_id] at same

/-! ### When a file comes in -/

section

variable (remembers : first.Remembers latest) (again : second.Remembers changed) (kept : second.reader = first.reader)
  (elsewhere : ∀ entry : Path × String, entry.1.same file = false → (entry ∈ latest ↔ entry ∈ changed))
  (more : ∀ entry ∈ latest, entry ∈ changed)
  (unreached : ∀ name ∈ declaredNames first.reader entry.2,
    plainName name ∉ first.registry.reached file ∧ plainName name ∉ second.registry.reached file)
include remembers again kept elsewhere more unreached

/-- What can be reached from a source that the new file does not reach could be reached
before, and the new file does not reach it either. -/
theorem Remembers.reachable_before {holder : String} (reachable : Reachable first.reader changed entry.2 holder) :
    Reachable first.reader latest entry.2 holder ∧
      ((plainName holder ∉ first.registry.reached file ∧ plainName holder ∉ second.registry.reached file) ∨
        first.registry.find? holder = none ∧ second.registry.find? holder = none) := by
  cases reachable with
  | inl led =>
    obtain ⟨name, own, leads⟩ := led
    have known := leads.mono fun info found => (again.classes info).mpr (kept ▸ found)
    obtain ⟨earlier, apart⟩ := known.before (remembers.elsewhere again kept elsewhere) (unreached name own)
    exact ⟨.inl ⟨name, own, earlier.mono fun info found => (remembers.classes info).mp found⟩, .inl apart⟩
  | inr absent =>
    have before : ∀ other ∈ latest, relativeName holder ∉ declaredNames first.reader other.2 :=
      fun other member => absent other (more other member)
    exact ⟨.inr before, .inr ⟨remembers.find?_eq_none before, again.find?_eq_none (kept ▸ absent)⟩⟩

theorem Remembers.followed_before (once : ∀ other ∈ latest, other.1.same entry.1 = true → other = entry)
    {test : Definition} (home : test.file = entry.1) (followed : Followed first.reader changed test) :
    Followed first.reader latest test := by
  intro other member own program read scope inside named provider given holder front
  have reachable := followed other (more other member) own program read scope inside named provider given holder front
  rw [home] at own
  rw [once other member own] at reachable ⊢
  exact (remembers.reachable_before again kept elsewhere more unreached reachable).1

/-- What a new file does not reach is made the same of before and after it has come in, but
for the keys of tests whose providers cannot be followed. -/
theorem Remembers.settled_definitions (root : second.root = first.root) (member : entry ∈ latest) (suite : Option String) :
    (first.definitions entry.2 entry.1 suite).map (settled first.reader changed) =
      (second.definitions entry.2 entry.1 suite).map (settled first.reader changed) := by
  have agree := agree_of_change (remembers.elsewhere again kept elsewhere)
  apply definitions_congr kept root agree unreached suite
  intro program read scope inside node within depth method found
  have own := unreached _ (class_mem_declaredNames read inside within)
  obtain ⟨-, declared⟩ := testsOf_congr agree own
  apply settled_eq
  · have same := testDefinition_withoutKeys agree scope depth node (declared method found)
    rw [withoutKeys_housed, withoutKeys_housed, same]
  · intro followed
    refine congrArg (housed entry.1 suite) (testDefinition_congr agree.orAbsent depth (.inl own) (.inl (declared method found)) ?_)
    intro provider given holder front
    have reachable := followed entry (more entry member) (Path.same_refl _) program read scope inside
      ⟨node, within, rfl⟩ provider given holder front
    exact (remembers.reachable_before again kept elsewhere more unreached reachable).2

end

end Scout

end Discovery

end TestScout
