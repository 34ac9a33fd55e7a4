import TestScout.Proofs.ReaderAgreement
import TestScout.Proofs.ScoutMemory

/-! Which source a scout returns for a dependent file. Every entry of a registry is traced back to the source that it was
registered from. All entries of one file always come from one source, and as long as one of them refers to anything, the scout
has this source. -/

namespace TestScout.Discovery
open Code Test Registry

/-! ## Where entries come from -/

/-- The entries that a program makes, in the order in which they are registered. -/
def infosOf (program : Program) (file : Path) : List ClassInfo := (Scope.ofProgram program).flatMap (·.infos file)

/-- The entries of a registry, each with the source that it was registered from. -/
abbrev Origins := List (ClassInfo × String)

namespace Origins

def register (origins : Origins) (info : ClassInfo) (source : String) : Origins :=
  origins.filter (·.1.name != info.name) ++ [(info, source)]

def registerAll (origins : Origins) (infos : List ClassInfo) (source : String) : Origins :=
  infos.foldl (fun origins info => origins.register info source) origins

/-- Goes along with what a scout does. A source that is no program changes nothing. -/
def follow (origins : Origins) (scout : Scout) : Errand → Origins
  | .look source file _ =>
    match scout.program? source with
    | none => origins
    | some program => registerAll (origins.filter (!·.1.file.same file)) (infosOf program file) source
  | .forgetFile file => origins.filter (!·.1.file.same file)
  | .forgetRoot root => origins.filter (!·.1.file.isUnder root)
  | .move _ => origins

variable {origins : Origins} {infos : List ClassInfo} {source : String} {origin : ClassInfo × String}

theorem map_registerAll {registry : Registry} (same : origins.map (·.1) = registry.classes) :
    (origins.registerAll infos source).map (·.1) = (infos.foldl Registry.register registry).classes := by
  induction infos generalizing origins registry with
  | nil => exact same
  | cons first rest ih =>
    refine ih ?_
    show (origins.register first source).map (·.1) = registry.classes.filter (·.name != first.name) ++ [first]
    rw [Origins.register, List.map_append, ← same, List.filter_map]
    rfl

/-- What has been registered last came from the source, and the rest was there before. -/
theorem mem_registerAll (member : origin ∈ origins.registerAll infos source) :
    origin ∈ origins ∨ origin.1 ∈ infos ∧ origin.2 = source := by
  induction infos generalizing origins with
  | nil => exact .inl member
  | cons first rest ih =>
    rcases ih member with before | ⟨later, same⟩
    · rcases List.mem_append.mp before with old | new
      · exact .inl (List.mem_filter.mp old).1
      · rw [List.mem_singleton.mp new]
        exact .inr ⟨List.mem_cons_self, rfl⟩
    · exact .inr ⟨List.mem_cons_of_mem _ later, same⟩

end Origins

/-! ## What a scout keeps -/

namespace Scout

/-- The entries of a scout come from sources that declare them, and the source of a file that refers to anything is at hand. -/
structure Traced (scout : Scout) (origins : Origins) : Prop where
  classes : origins.map (·.1) = scout.registry.classes
  declared : ∀ origin ∈ origins, ∃ program, scout.reader origin.2 = some (.program program) ∧
    ∃ scope ∈ Scope.ofProgram program, origin.1 ∈ scope.infos origin.1.file
  sources : ∀ origin ∈ origins, ∀ other ∈ origins, other.1.file.same origin.1.file = true → other.1.references ≠ [] →
    scout.sourceOf? origin.1.file = some origin.2
  together : ∀ origin ∈ origins, ∀ other ∈ origins, other.1.file.same origin.1.file = true → other.2 = origin.2

variable {scout : Scout} {origins : Origins} {source : String} {file : Path}

private theorem sourceOf?_filter {keep : Path → Bool} (kept : ∀ path, path.same file = true → keep path = true) :
    { scout with sources := scout.sources.filter (keep ·.1) }.sourceOf? file = scout.sourceOf? file := by
  rw [sourceOf?, sourceOf?, List.find?_filter]
  congr 2
  funext entry
  cases same : entry.1.same file with
  | false => simp
  | true => simp [kept entry.1 same]

theorem Traced.forget (traced : scout.Traced origins) {keep : Path → Bool}
    (whole : ∀ path other : Path, path.same other = true → keep path = keep other) :
    { scout with
      registry := scout.registry.filter (keep ·.file)
      sources := scout.sources.filter (keep ·.1) }.Traced (origins.filter (keep ·.1.file)) where
  classes := by
    show (origins.filter (keep ·.1.file)).map (·.1) = scout.registry.classes.filter (keep ·.file)
    rw [← traced.classes, List.filter_map]
    rfl
  declared origin member := traced.declared origin (List.mem_filter.mp member).1
  sources origin member other listed same refers := by
    obtain ⟨before, kept⟩ := List.mem_filter.mp member
    refine Eq.trans ?_ (traced.sources origin before other (List.mem_filter.mp listed).1 same refers)
    have stays : ∀ path : Path, path.same origin.1.file = true → keep path = true :=
      fun path spelled => (whole path _ spelled).trans kept
    exact sourceOf?_filter stays
  together origin member other listed := traced.together origin (List.mem_filter.mp member).1 other (List.mem_filter.mp listed).1

private theorem same_whole (file : Path) (path other : Path) (same : path.same other = true) :
    (!path.same file) = !other.same file := by rw [Path.same_congr_left same]

theorem Traced.forgetFile (traced : scout.Traced origins) (file : Path) :
    (scout.forgetFile file).Traced (origins.filter (!·.1.file.same file)) :=
  traced.forget (same_whole file)

theorem Traced.forgetRoot (traced : scout.Traced origins) (root : Path) :
    (scout.forgetRoot root).Traced (origins.filter (!·.1.file.isUnder root)) := by
  have whole : ∀ path other : Path, path.same other = true → (!path.isUnder root) = !other.isUnder root := by
    intro path other same
    rw [Path.isUnder, Path.isUnder, Path.same_iff.mp same]
  exact traced.forget whole

/-- The entries of a source come instead of those that its file had before. -/
theorem Traced.registered (traced : scout.Traced origins) {program : Program}
    (read : scout.reader source = some (.program program)) :
    let registry := registerClasses (scout.registry.removeFile file) file (Scope.ofProgram program)
    { scout with
      registry
      sources := scout.dropSource file ++ if registry.hasReferences file then [(file, source)] else [] }.Traced
      (Origins.registerAll (origins.filter (!·.1.file.same file)) (infosOf program file) source) := by
  intro registry
  have forgotten := traced.forgetFile file
  have classes : (Origins.registerAll (origins.filter (!·.1.file.same file)) (infosOf program file) source).map (·.1) =
      registry.classes := Origins.map_registerAll forgotten.classes
  generalize taken : Origins.registerAll (origins.filter (!·.1.file.same file)) (infosOf program file) source = after at classes ⊢
  have old_or_new : ∀ origin ∈ after, origin ∈ origins.filter (!·.1.file.same file) ∧ origin.1.file.same file = false ∨
      origin.1.file = file ∧ origin.2 = source ∧ ∃ scope ∈ Scope.ofProgram program, origin.1 ∈ scope.infos file := by
    intro origin member
    rw [← taken] at member
    rcases Origins.mem_registerAll member with old | ⟨new, same⟩
    · exact .inl ⟨old, by simpa using (List.mem_filter.mp old).2⟩
    · obtain ⟨scope, inside, listed⟩ := List.mem_flatMap.mp new
      exact .inr ⟨scope.file_of_mem_infos listed, same, scope, inside, listed⟩
  refine ⟨classes, fun origin member => ?_, fun origin member other listed same refers => ?_, fun origin member other listed same => ?_⟩
  · rcases old_or_new origin member with ⟨old, -⟩ | ⟨own, rfl, declares⟩
    · exact forgotten.declared origin old
    · exact ⟨program, read, own.symm ▸ declares⟩
  · rcases old_or_new origin member with ⟨old, foreign⟩ | ⟨own, rfl, -⟩
    · rcases old_or_new other listed with ⟨also, -⟩ | ⟨here, -⟩
      · have kept := forgotten.sources origin old other also same refers
        simp only [sourceOf?, Scout.forgetFile] at kept ⊢
        obtain ⟨found, inside, text⟩ := Option.map_eq_some_iff.mp kept
        rw [List.find?_append, inside, Option.some_or, Option.map_some, text]
      · rw [here, Path.same_comm, foreign] at same
        cases same
    · have hasReferences : registry.hasReferences file = true := by
        refine List.any_eq_true.mpr ⟨other.1, List.mem_filter.mpr ⟨?_, own ▸ same⟩, by simpa using refers⟩
        exact classes ▸ List.mem_map_of_mem listed
      have none : (scout.dropSource file).find? (·.1.same file) = none := by simp [dropSource]
      simp only [sourceOf?, hasReferences, ite_true, List.find?_append, own, none]
      simp
  · rcases old_or_new origin member with ⟨old, foreign⟩ | ⟨own, from_source, -⟩
    · rcases old_or_new other listed with ⟨also, -⟩ | ⟨here, -⟩
      · exact forgotten.together origin old other also same
      · rw [here, Path.same_comm, foreign] at same
        cases same
    · rcases old_or_new other listed with ⟨-, foreign⟩ | ⟨-, also, -⟩
      · rw [own, foreign] at same
        cases same
      · exact also.trans from_source.symm

theorem Traced.serve (traced : scout.Traced origins) (errand : Errand) :
    (scout.serve errand).1.Traced (origins.follow scout errand) := by
  cases errand with
  | look source file suite =>
    simp only [Scout.serve, Origins.follow, Scout.look]
    cases read : scout.program? source with
    | none => exact traced
    | some program =>
      refine traced.registered ?_
      unfold program? at read
      split at read
      next found => rw [found, Option.some_inj.mp read]
      next => cases read
  | forgetFile file => exact traced.forgetFile file
  | forgetRoot root => exact traced.forgetRoot root
  | move root => exact ⟨traced.classes, traced.declared, traced.sources, traced.together⟩

/-- A scout after some errands, with the origins of the entries that it has then. -/
def serveAll (scout : Scout) (origins : Origins) (errands : List Errand) : Scout × Origins :=
  errands.foldl (fun (scout, origins) errand => ((scout.serve errand).1, origins.follow scout errand)) (scout, origins)

theorem Traced.serveAll (traced : scout.Traced origins) (errands : List Errand) :
    (scout.serveAll origins errands).1.Traced (scout.serveAll origins errands).2 := by
  induction errands generalizing scout origins with
  | nil => exact traced
  | cons errand rest ih => exact ih (traced.serve errand)

theorem reader_serveAll (scout : Scout) (origins : Origins) (errands : List Errand) :
    (scout.serveAll origins errands).1.reader = scout.reader := by
  induction errands generalizing scout origins with
  | nil => rfl
  | cons errand rest ih => exact (ih _ _).trans (reader_serve scout errand)

theorem Traced.start (reader : Surface.Reader) (root : Path) : Traced { reader, root } [] :=
  ⟨rfl, nofun, nofun, nofun⟩

/-- Some entry of a dependent file refers to something, so its source is at hand. -/
theorem Traced.sourceOf? (traced : scout.Traced origins) {dependent : Path}
    (listed : dependent ∈ scout.registry.dependentFiles file) :
    ∃ origin ∈ origins, origin.1.file = dependent ∧ scout.sourceOf? dependent = some origin.2 := by
  obtain ⟨info, member, rfl, refers, -⟩ := declared_of_mem_dependentFiles listed
  rw [← traced.classes] at member
  obtain ⟨origin, inside, rfl⟩ := List.mem_map.mp member
  exact ⟨origin, inside, rfl, traced.sources origin inside origin inside (Path.same_refl _) refers⟩

/-- The files that depend on a file come with their sources, and none of them is left out. All entries of such a file come
from the source that is returned with it. -/
theorem dependents_come_with_sources (reader : Surface.Reader) (root : Path) (errands : List Errand) (file : Path) :
    let (scout, origins) := serveAll { reader, root } [] errands
    origins.map (·.1) = scout.registry.classes ∧
      (∀ origin ∈ origins, ∃ program, reader origin.2 = some (.program program) ∧
        ∃ scope ∈ Scope.ofProgram program, origin.1 ∈ scope.infos origin.1.file) ∧
      (scout.dependents file).map (·.1) = scout.registry.dependentFiles file ∧
      ∀ entry ∈ scout.dependents file, (∃ origin ∈ origins, origin.1.file = entry.1) ∧
        ∀ origin ∈ origins, origin.1.file.same entry.1 = true → origin.2 = entry.2 := by
  generalize reached : serveAll { reader, root } [] errands = result
  obtain ⟨scout, origins⟩ := result
  have traced : scout.Traced origins := by
    have run := (Traced.start reader root).serveAll errands
    rwa [reached] at run
  have same : scout.reader = reader := by
    have kept := reader_serveAll { reader, root } [] errands
    rwa [reached] at kept
  have found : ∀ dependent ∈ scout.registry.dependentFiles file,
      ((scout.sourceOf? dependent).map (dependent, ·)).map (·.1) = some dependent := by
    intro dependent listed
    obtain ⟨origin, -, -, known⟩ := traced.sourceOf? listed
    rw [known]
    rfl
  refine ⟨traced.classes, same ▸ traced.declared, ?_, ?_⟩
  · rw [dependents, List.map_filterMap, List.filterMap_congr found, List.filterMap_some]
  · intro entry member
    obtain ⟨dependent, listed, paired⟩ := List.mem_filterMap.mp member
    obtain ⟨origin, inside, own, known⟩ := traced.sourceOf? listed
    rw [known, Option.map_some, Option.some_inj] at paired
    subst paired
    refine ⟨⟨origin, inside, own⟩, fun other further same => ?_⟩
    exact traced.together origin inside other further (own.symm ▸ same)

end Scout

end TestScout.Discovery
