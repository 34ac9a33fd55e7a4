import TestScout.Proofs.DefinitionKeys

/-! What a scout remembers. A scout that has looked at the latest sources of some files, in
whatever order, knows the classes in them and no others, and it has the source of every file
that may have to be looked at again. -/

namespace TestScout.Discovery
open Code Test Registry

/-! ## Declarations of a source -/

def Scope.names (scope : Scope) : List String :=
  scope.traits.map (scope.qualify ·.name) ++ scope.classes.map (scope.qualify ·.name)

theorem Scope.map_name_infos (scope : Scope) (file : Path) : (scope.infos file).map (·.name) = scope.names := by
  simp [infos, names, traitInfo, classInfo, infoOf, Function.comp_def]

theorem Scope.file_of_mem_infos {scope : Scope} {file : Path} {info : ClassInfo} (member : info ∈ scope.infos file) :
    info.file = file := by
  rcases List.mem_append.mp member with used | extended
  · obtain ⟨node, -, rfl⟩ := List.mem_map.mp used
    rfl
  · obtain ⟨node, -, rfl⟩ := List.mem_map.mp extended
    rfl

/-- The full names of all traits and classes that a source declares. -/
def declaredNames (reader : Surface.Reader) (source : String) : List String :=
  match reader source with
  | some (.program program) => (Scope.ofProgram program).flatMap Scope.names
  | _ => []

/-- The entries that a source makes in a registry. Of several of one name only one is left. -/
def declared (reader : Surface.Reader) (file : Path) (source : String) : List ClassInfo :=
  match reader source with
  | some (.program program) => (registerClasses .empty file (Scope.ofProgram program)).classes
  | _ => []

private theorem mem_registered {infos : List ClassInfo} {registry : Registry} {info : ClassInfo}
    (member : info ∈ (infos.foldl Registry.register registry).classes) : info ∈ registry.classes ∨ info ∈ infos := by
  induction infos generalizing registry with
  | nil => exact .inl member
  | cons first rest ih =>
    rcases ih member with before | later
    · rcases List.mem_append.mp before with old | new
      · exact .inl (List.mem_filter.mp old).1
      · exact .inr (List.mem_singleton.mp new ▸ List.mem_cons_self)
    · exact .inr (List.mem_cons_of_mem _ later)

private theorem name_registered {infos : List ClassInfo} {registry : Registry} {name : String}
    (known : (∃ info ∈ registry.classes, info.name = name) ∨ ∃ info ∈ infos, info.name = name) :
    ∃ info ∈ (infos.foldl Registry.register registry).classes, info.name = name := by
  induction infos generalizing registry with
  | nil => simpa using known
  | cons first rest ih =>
    apply ih
    by_cases last : first.name = name
    · exact .inl ⟨first, List.mem_append_right _ List.mem_cons_self, last⟩
    rcases known with ⟨info, member, rfl⟩ | ⟨info, member, rfl⟩
    · refine .inl ⟨info, List.mem_append_left _ (List.mem_filter.mpr ⟨member, ?_⟩), rfl⟩
      simpa using Ne.symm last
    · rcases List.mem_cons.mp member with rfl | later
      · exact absurd rfl last
      · exact .inr ⟨info, later, rfl⟩

/-- Entries that share no name with the ones before them leave these alone. -/
private theorem classes_registered {infos before : List ClassInfo} {whole part : Registry}
    (apart : ∀ other ∈ before, ∀ info ∈ infos, other.name ≠ info.name) (same : whole.classes = before ++ part.classes) :
    (infos.foldl Registry.register whole).classes = before ++ (infos.foldl Registry.register part).classes := by
  induction infos generalizing whole part with
  | nil => exact same
  | cons first rest ih =>
    refine ih (fun other member info later => apart other member info (List.mem_cons_of_mem _ later)) ?_
    have kept : before.filter (·.name != first.name) = before :=
      List.filter_eq_self.mpr fun other member => by simpa using apart other member first List.mem_cons_self
    simp only [Registry.register, same, List.filter_append, kept, List.append_assoc]

variable {reader : Surface.Reader} {file : Path} {source : String}

theorem file_of_mem_declared {info : ClassInfo} (member : info ∈ declared reader file source) : info.file = file := by
  unfold declared at member
  split at member
  · rcases mem_registered member with none | found
    · cases none
    · obtain ⟨scope, -, inside⟩ := List.mem_flatMap.mp found
      exact scope.file_of_mem_infos inside
  · cases member

theorem mem_declaredNames_iff {name : String} :
    name ∈ declaredNames reader source ↔ ∃ info ∈ declared reader file source, info.name = name := by
  unfold declaredNames declared
  split
  next program _ =>
    have listed : (∃ info ∈ (Scope.ofProgram program).flatMap (·.infos file), info.name = name) ↔
        name ∈ (Scope.ofProgram program).flatMap Scope.names := by
      rw [← List.mem_map, List.map_flatMap]
      simp only [Scope.map_name_infos]
    rw [← listed]
    constructor
    · exact fun found => name_registered (.inr found)
    · rintro ⟨info, member, same⟩
      rcases mem_registered member with none | found
      · cases none
      · exact ⟨info, found, same⟩
  next => simp

theorem class_mem_declaredNames {program : Program} (read : reader source = some (.program program)) {scope : Scope}
    (inside : scope ∈ Scope.ofProgram program) {node : ClassDecl} (member : node ∈ scope.classes) :
    scope.qualify node.name ∈ declaredNames reader source := by
  simp only [declaredNames, read]
  exact List.mem_flatMap.mpr ⟨scope, inside, List.mem_append_right _ (List.mem_map_of_mem member)⟩

/-! ## Files with their sources -/

/-- The files that are there, each with its latest source. -/
abbrev Sources := List (Path × String)

namespace Sources

def without (sources : Sources) (file : Path) : Sources := sources.filter (!·.1.same file)

def put (sources : Sources) (file : Path) (source : String) : Sources := sources.without file ++ [(file, source)]

/-- No file is there twice. -/
def Distinct (sources : Sources) : Prop := sources.Pairwise (·.1.same ·.1 = false)

/-- No two files declare a class or a trait of one name, however its letters are written. -/
def Apart (reader : Surface.Reader) (sources : Sources) : Prop :=
  sources.Pairwise fun first second =>
    ∀ name ∈ declaredNames reader first.2, ∀ other ∈ declaredNames reader second.2, plainName name ≠ plainName other

theorem mem_without {sources : Sources} {entry : Path × String} :
    entry ∈ sources.without file ↔ entry ∈ sources ∧ entry.1.same file = false := by
  simp [without]

theorem mem_put {sources : Sources} {entry : Path × String} :
    entry ∈ sources.put file source ↔ entry ∈ sources ∧ entry.1.same file = false ∨ entry = (file, source) := by
  simp [put, mem_without]

theorem Distinct.without {sources : Sources} (distinct : sources.Distinct) (file : Path) :
    (sources.without file).Distinct :=
  distinct.sublist List.filter_sublist

theorem Distinct.put {sources : Sources} (distinct : sources.Distinct) (file : Path) (source : String) :
    (sources.put file source).Distinct := by
  refine List.pairwise_append.mpr ⟨distinct.without file, List.pairwise_singleton _ _, ?_⟩
  intro entry member other last
  rw [List.mem_singleton.mp last]
  exact (mem_without.mp member).2

theorem put_new {sources : Sources} (source : String) (new : ∀ entry ∈ sources, entry.1.same file = false) :
    sources.put file source = sources ++ [(file, source)] := by
  have kept : sources.without file = sources := by
    apply List.filter_eq_self.mpr
    intro entry member
    rw [new entry member, Bool.not_false]
  rw [put, kept]

theorem Distinct.eq_of_same {sources : Sources} (distinct : sources.Distinct) {first second : Path × String}
    (member : first ∈ sources) (other : second ∈ sources) (same : first.1.same second.1 = true) : first = second := by
  have differ : sources.Pairwise fun first second => first.1.same second.1 = true → first = second :=
    distinct.imp fun apart same => by simp [apart] at same
  have converse : sources.Pairwise (flip fun first second => first.1.same second.1 = true → first = second) :=
    distinct.imp fun apart same => by simp [Path.same_symm same] at apart
  exact differ.forall_of_forall_of_flip (fun _ _ _ => rfl) converse member other same

theorem Distinct.mem_put_self {sources : Sources} (distinct : sources.Distinct) (member : (file, source) ∈ sources)
    (entry : Path × String) : entry ∈ sources.put file source ↔ entry ∈ sources := by
  rw [mem_put]
  constructor
  · rintro (⟨inside, -⟩ | rfl)
    · exact inside
    · exact member
  · intro inside
    by_cases same : entry.1.same file = true
    · exact .inr (distinct.eq_of_same inside member same)
    · exact .inl ⟨inside, by simpa using same⟩

/-- Names of different files differ in whatever order the files come. -/
theorem Apart.plainName_ne {sources : Sources} (apart : sources.Apart reader) {first second : Path × String}
    (member : first ∈ sources) (other : second ∈ sources) (foreign : first.1.same second.1 = false) {name another : String}
    (declares : name ∈ declaredNames reader first.2) (further : another ∈ declaredNames reader second.2) :
    plainName name ≠ plainName another := by
  have differ : sources.Pairwise fun first second => first.1.same second.1 = false →
      ∀ name ∈ declaredNames reader first.2, ∀ another ∈ declaredNames reader second.2,
        plainName name ≠ plainName another :=
    apart.imp fun {first second} names (_ : first.1.same second.1 = false) => names
  have converse : sources.Pairwise (flip fun first second => first.1.same second.1 = false →
      ∀ name ∈ declaredNames reader first.2, ∀ another ∈ declaredNames reader second.2,
        plainName name ≠ plainName another) :=
    apart.imp fun names _ name inside another within => (names another within name inside).symm
  exact differ.forall_of_forall_of_flip (fun entry _ own => by simp at own) converse member other foreign
    name declares another further

theorem Apart.put_self {sources : Sources} (apart : sources.Apart reader) (member : (file, source) ∈ sources) :
    (sources.put file source).Apart reader := by
  refine List.pairwise_append.mpr ⟨apart.sublist List.filter_sublist, List.pairwise_singleton _ _, ?_⟩
  intro entry inside other last name declares another further
  rw [List.mem_singleton.mp last] at further
  obtain ⟨listed, foreign⟩ := mem_without.mp inside
  exact apart.plainName_ne listed member foreign declares further

theorem mem_put_elsewhere (sources : Sources) {entry : Path × String} (foreign : entry.1.same file = false) :
    entry ∈ sources ↔ entry ∈ sources.put file source := by
  rw [mem_put]
  constructor
  · intro member
    exact .inl ⟨member, foreign⟩
  · intro member
    cases member with
    | inl old => exact old.1
    | inr new =>
      rw [new, Path.same_refl] at foreign
      cases foreign

theorem Distinct.perm {sources others : Sources} (distinct : sources.Distinct) (same : sources.Perm others) :
    others.Distinct :=
  same.pairwise distinct fun apart => by rwa [Path.same_comm]

theorem Apart.perm {sources others : Sources} (apart : sources.Apart reader) (same : sources.Perm others) :
    others.Apart reader :=
  same.pairwise apart fun names name inside other within => (names other within name inside).symm

end Sources

/-! ## Memory -/

namespace Scout

/-- A scout knows what the latest sources declare, and has the sources that refer to classes. -/
structure Remembers (scout : Scout) (latest : Sources) : Prop where
  classes : ∀ info, info ∈ scout.registry.classes ↔ ∃ entry ∈ latest, info ∈ declared scout.reader entry.1 entry.2
  sources : ∀ entry ∈ latest, (∃ info ∈ declared scout.reader entry.1 entry.2, info.references ≠ []) →
    scout.sourceOf? entry.1 = some entry.2

variable {scout : Scout} {latest : Sources}

theorem Remembers.nothing (reader : Surface.Reader) (root : Path) : Remembers { reader, root } [] := by
  refine ⟨fun info => ?_, fun entry member => nomatch member⟩
  simp [Registry.empty]

theorem Remembers.congr (remembers : scout.Remembers latest) {others : Sources}
    (same : ∀ entry, entry ∈ latest ↔ entry ∈ others) : scout.Remembers others := by
  refine ⟨fun info => ?_, fun entry member => remembers.sources entry ((same entry).mpr member)⟩
  simp only [remembers.classes, same]

/-- Entries of different files in a registry go by different names when the sources do. -/
theorem Remembers.apart (remembers : scout.Remembers latest) (apart : latest.Apart scout.reader) :
    scout.registry.Apart := by
  intro info member other found foreign
  obtain ⟨entry, inside, declares⟩ := (remembers.classes info).mp member
  obtain ⟨further, within, other_declares⟩ := (remembers.classes other).mp found
  rw [file_of_mem_declared declares, file_of_mem_declared other_declares] at foreign
  exact apart.plainName_ne inside within foreign (mem_declaredNames_iff.mpr ⟨info, declares, rfl⟩)
    (mem_declaredNames_iff.mpr ⟨other, other_declares, rfl⟩)

private theorem find?_dropSource (scout : Scout) {file other : Path} (foreign : other.same file = false) :
    (scout.dropSource file).find? (·.1.same other) = scout.sources.find? (·.1.same other) := by
  rw [dropSource, List.find?_filter]
  congr 1
  funext entry
  by_cases found : entry.1.same other = true
  · simp [found, Path.same_congr_left found, foreign]
  · simp [found]

theorem Remembers.forgetFile (remembers : scout.Remembers latest) (file : Path) :
    (scout.forgetFile file).Remembers (latest.without file) := by
  refine ⟨fun info => ?_, fun entry member declares => ?_⟩
  · simp only [Scout.forgetFile, removeFile, Registry.filter, List.mem_filter, remembers.classes, Sources.mem_without]
    constructor
    · rintro ⟨⟨entry, member, declares⟩, foreign⟩
      rw [file_of_mem_declared declares] at foreign
      exact ⟨entry, ⟨member, by simpa using foreign⟩, declares⟩
    · rintro ⟨entry, ⟨member, foreign⟩, declares⟩
      refine ⟨⟨entry, member, declares⟩, ?_⟩
      rw [file_of_mem_declared declares]
      simpa using foreign
  · obtain ⟨inside, foreign⟩ := Sources.mem_without.mp member
    have kept := remembers.sources entry inside declares
    rw [sourceOf?, Scout.forgetFile, find?_dropSource scout foreign]
    exact kept

variable {file : Path} {source : String} {program : Program}

private theorem look_fst (read : scout.reader source = some (.program program)) (suite : Option String) :
    (scout.look source file suite).1 =
      { scout with
        registry := registerClasses (scout.registry.removeFile file) file (Scope.ofProgram program)
        sources := scout.dropSource file ++
          if (registerClasses (scout.registry.removeFile file) file (Scope.ofProgram program)).hasReferences file then
            [(file, source)] else [] } := by
  simp [look, program?, read]

theorem Remembers.look (remembers : scout.Remembers latest) (read : scout.reader source = some (.program program))
    (apart : (latest.put file source).Apart scout.reader) (suite : Option String) :
    (scout.look source file suite).1.Remembers (latest.put file source) := by
  have forgotten := remembers.forgetFile file
  have own : declared scout.reader file source = (registerClasses .empty file (Scope.ofProgram program)).classes := by
    simp only [declared, read]
  -- No other file has an entry of a name that the source declares, so its entries only come behind the others.
  have whole : (registerClasses (scout.registry.removeFile file) file (Scope.ofProgram program)).classes =
      (scout.forgetFile file).registry.classes ++ declared scout.reader file source := by
    rw [own]
    refine classes_registered (fun other member info listed same => ?_) (List.append_nil _).symm
    obtain ⟨entry, inside, declares⟩ := (forgotten.classes other).mp member
    obtain ⟨scope, within, named⟩ := List.mem_flatMap.mp listed
    have name : info.name ∈ declaredNames scout.reader source := by
      simp only [declaredNames, read]
      refine List.mem_flatMap.mpr ⟨scope, within, ?_⟩
      rw [← scope.map_name_infos file]
      exact List.mem_map_of_mem named
    refine apart.plainName_ne (List.mem_append_left _ inside) (List.mem_append_right _ List.mem_cons_self)
      (Sources.mem_without.mp inside).2 (mem_declaredNames_iff.mpr ⟨other, declares, rfl⟩) name ?_
    rw [same]
  have classes : ∀ info, info ∈ (scout.look source file suite).1.registry.classes ↔
      ∃ entry ∈ latest.put file source, info ∈ declared scout.reader entry.1 entry.2 := by
    intro info
    simp only [look_fst read, whole, List.mem_append, forgotten.classes, Sources.put, List.mem_singleton, or_and_right,
      exists_or, exists_eq_left]
    rfl
  rw [look_fst read] at classes ⊢
  refine ⟨classes, fun entry member declares => ?_⟩
  rcases List.mem_append.mp member with other | last
  · have kept := forgotten.sources entry other declares
    simp only [sourceOf?, Scout.forgetFile] at kept ⊢
    obtain ⟨found, inside, text⟩ := Option.map_eq_some_iff.mp kept
    rw [List.find?_append, inside, Option.some_or, Option.map_some, text]
  · rw [List.mem_singleton.mp last] at declares ⊢
    obtain ⟨info, listed, refers⟩ := declares
    have hasReferences :
        (registerClasses (scout.registry.removeFile file) file (Scope.ofProgram program)).hasReferences file = true := by
      refine List.any_eq_true.mpr ⟨info, List.mem_filter.mpr ⟨?_, ?_⟩, by simpa using refers⟩
      · exact whole ▸ List.mem_append_right _ listed
      · rw [file_of_mem_declared listed, Path.same_refl]
    have none : (scout.dropSource file).find? (·.1.same file) = none := by simp [dropSource]
    simp only [sourceOf?, hasReferences, ite_true, List.find?_append, none]
    simp

/-! ## Dependent files -/

theorem Remembers.mem_dependents (remembers : scout.Remembers latest) {dependent : Path}
    (member : dependent ∈ scout.registry.dependentFiles file) :
    ∃ source, (dependent, source) ∈ scout.dependents file ∧ (dependent, source) ∈ latest := by
  obtain ⟨info, inside, rfl, refers, -⟩ := declared_of_mem_dependentFiles member
  obtain ⟨entry, listed, declares⟩ := (remembers.classes info).mp inside
  have spelled := file_of_mem_declared declares
  have known := remembers.sources entry listed ⟨info, declares, refers⟩
  refine ⟨entry.2, List.mem_filterMap.mpr ⟨info.file, member, ?_⟩, spelled ▸ listed⟩
  rw [spelled, known, Option.map_some]

theorem Remembers.of_mem_dependents (remembers : scout.Remembers latest) {entry : Path × String}
    (member : entry ∈ scout.dependents file) : entry ∈ latest ∧ entry.1.same file = false := by
  obtain ⟨dependent, listed, found⟩ := List.mem_filterMap.mp member
  obtain ⟨source, same, rfl⟩ := Option.map_eq_some_iff.mp found
  obtain ⟨info, -, rfl, -, foreign⟩ := declared_of_mem_dependentFiles listed
  obtain ⟨other, known, inside⟩ := remembers.mem_dependents listed
  obtain ⟨_, again, pair⟩ := List.mem_filterMap.mp known
  obtain ⟨_, text, equal⟩ := Option.map_eq_some_iff.mp pair
  cases equal
  rw [same] at text
  cases text
  exact ⟨inside, foreign⟩

/-- A file is none of those that depend on another one if its source is not among theirs. -/
theorem Remembers.independent (remembers : scout.Remembers latest) {home : Path}
    (missing : ¬∃ entry ∈ scout.dependents file, entry.1.same home = true) :
    ∀ dependent ∈ scout.registry.dependentFiles file, dependent.same home = false := by
  intro dependent member
  obtain ⟨text, listed, -⟩ := remembers.mem_dependents member
  rw [← Bool.not_eq_true]
  intro same
  exact missing ⟨(dependent, text), listed, same⟩

/-! ## What sources define -/

/-- What the source of a file defines, as far as a scout knows. -/
def definitions (scout : Scout) (source : String) (file : Path) (suite : Option String) : List Definition :=
  match scout.program? source with
  | none => []
  | some program => (definitionsOf scout.registry file scout.root program).map fun definition =>
      { definition with file, suite }

theorem look_definitions (scout : Scout) (source : String) (file : Path) (suite : Option String) :
    (scout.look source file suite).2 = (scout.look source file suite).1.definitions source file suite := by
  unfold look
  split
  next none => simp only [definitions, none]
  next program found =>
    have same : ∀ registry sources,
        ({ scout with registry, sources } : Scout).program? source = some program := fun _ _ => found
    simp only [definitions, same]

/-- A definition as it is in a file that belongs to a suite. -/
def housed (file : Path) (suite : Option String) (definition : Definition) : Definition := { definition with file, suite }

theorem withoutKeys_housed (file : Path) (suite : Option String) (definition : Definition) :
    (housed file suite definition).withoutKeys = housed file suite definition.withoutKeys := by
  simp only [housed, Definition.withoutKeys_eq]

/-- Scouts whose registries agree on the classes of a source make the same of it, as far as
they make the same of each test. -/
theorem definitions_congr {first second : Scout} (reader : second.reader = first.reader) (root : second.root = first.root)
    {known : String → Prop} (agree : Agree known first.registry second.registry) {entry : Path × String}
    (names : ∀ name ∈ declaredNames first.reader entry.2, known name) (suite : Option String) {α : Type}
    {view : Definition → α}
    (tests : ∀ program, first.reader entry.2 = some (.program program) → ∀ scope ∈ Scope.ofProgram program,
      ∀ node ∈ scope.classes, SameTests (view ∘ housed entry.1 suite) first.registry second.registry scope node) :
    (first.definitions entry.2 entry.1 suite).map view = (second.definitions entry.2 entry.1 suite).map view := by
  have same : second.program? entry.2 = first.program? entry.2 := by rw [program?, reader, program?]
  unfold definitions
  rw [same, root]
  split
  · rfl
  next program found =>
    have read : first.reader entry.2 = some (.program program) := by
      simp only [program?] at found
      split at found
      next inner equal => rw [equal, Option.some_inj.mp found]
      next => cases found
    rw [List.map_map, List.map_map]
    refine definitionsOf_congr agree entry.1 first.root fun scope inside node member => ⟨?_, ?_⟩
    · exact names _ (class_mem_declaredNames read inside member)
    · exact tests program read scope inside node member

/-- Two scouts make the same of a source, the keys of data sets apart. -/
def SameDefinitions (first second : Scout) (entry : Path × String) : Prop :=
  ∀ suite, (first.definitions entry.2 entry.1 suite).map Definition.withoutKeys =
    (second.definitions entry.2 entry.1 suite).map Definition.withoutKeys

private theorem sameDefinitions_of_agree {first second : Scout} (reader : second.reader = first.reader)
    (root : second.root = first.root) {known : String → Prop} (agree : Agree known first.registry second.registry)
    {entry : Path × String} (names : ∀ name ∈ declaredNames first.reader entry.2, known name) :
    first.SameDefinitions second entry := by
  intro suite
  refine definitions_congr reader root agree names suite fun program read scope inside node within depth member found => ?_
  obtain ⟨-, declared⟩ := testsOf_congr agree (names _ (class_mem_declaredNames read inside within))
  have same := testDefinition_withoutKeys agree scope depth node (declared member found)
  simp only [Function.comp_apply, withoutKeys_housed, same]

theorem Remembers.same {first second : Scout} (remembers : first.Remembers latest) (again : second.Remembers latest)
    (reader : second.reader = first.reader) (root : second.root = first.root) (entry : Path × String) :
    first.SameDefinitions second entry := by
  refine sameDefinitions_of_agree reader root (agree_of_same fun info => ?_) fun _ _ => trivial
  rw [remembers.classes, again.classes, reader]

theorem Remembers.elsewhere {first second : Scout} {changed : Sources} (remembers : first.Remembers latest)
    (again : second.Remembers changed) (reader : second.reader = first.reader)
    (elsewhere : ∀ entry : Path × String, entry.1.same file = false → (entry ∈ latest ↔ entry ∈ changed)) (info : ClassInfo)
    (differs : info.file.same file = false) : info ∈ first.registry.classes ↔ info ∈ second.registry.classes := by
  rw [remembers.classes, again.classes, reader]
  refine exists_congr fun entry => and_congr_left fun declares => elsewhere entry ?_
  rw [← file_of_mem_declared declares]
  exact differs

theorem Remembers.not_reached {first second : Scout} {changed : Sources} (remembers : first.Remembers latest)
    (again : second.Remembers changed) (reader : second.reader = first.reader)
    (apart : latest.Apart first.reader) (still : changed.Apart first.reader)
    (elsewhere : ∀ entry : Path × String, entry.1.same file = false → (entry ∈ latest ↔ entry ∈ changed))
    {entry : Path × String} (member : entry ∈ latest) (foreign : entry.1.same file = false)
    (independent : ∀ dependent ∈ first.registry.dependentFiles file, dependent.same entry.1 = false)
    (free : ∀ dependent ∈ second.registry.dependentFiles file, dependent.same entry.1 = false) :
    ∀ name ∈ declaredNames first.reader entry.2,
      plainName name ∉ first.registry.reached file ∧ plainName name ∉ second.registry.reached file := by
  intro name declares
  obtain ⟨info, listed, rfl⟩ := mem_declaredNames_iff.mp declares
  have own := file_of_mem_declared listed
  have inside : info ∈ first.registry.classes := (remembers.classes info).mpr ⟨entry, member, listed⟩
  have differs : info.file.same file = false := by rw [own, foreign]
  have kept := (remembers.elsewhere again reader elsewhere info differs).mp inside
  rw [← own] at independent free
  constructor
  · exact not_mem_reached (remembers.apart apart) inside differs independent
  · exact not_mem_reached (again.apart (reader ▸ still)) kept differs free

/-- A change of one file makes no difference to the files that do not depend on it, neither
before the change nor after it. -/
theorem Remembers.unaffected {first second : Scout} {changed : Sources} (remembers : first.Remembers latest)
    (again : second.Remembers changed) (reader : second.reader = first.reader) (root : second.root = first.root)
    (apart : latest.Apart first.reader) (still : changed.Apart first.reader)
    (elsewhere : ∀ entry : Path × String, entry.1.same file = false → (entry ∈ latest ↔ entry ∈ changed))
    {entry : Path × String} (member : entry ∈ latest) (foreign : entry.1.same file = false)
    (independent : ∀ dependent ∈ first.registry.dependentFiles file, dependent.same entry.1 = false)
    (free : ∀ dependent ∈ second.registry.dependentFiles file, dependent.same entry.1 = false) :
    first.SameDefinitions second entry := by
  have agree := agree_of_change (remembers.elsewhere again reader elsewhere)
  exact sameDefinitions_of_agree reader root agree
    (remembers.not_reached again reader apart still elsewhere member foreign independent free)

end Scout

end TestScout.Discovery
