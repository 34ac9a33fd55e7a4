import TestScout.Proofs.PlainCalls
import TestScout.Proofs.PlainDeclarations

/-! The strict reader and the lenient one agree on plain sources. Whatever trees their grammars
give, as long as these are trees of the same writing, a scout with one reader finds what a
scout with the other one finds, file after file: the same definitions in the same order, up to
the places where they stop. -/

namespace TestScout
open Code Source Test Surface

/-! ## Programs that discovery cannot tell apart -/

structure Code.Program.Alike (first second : Program) : Prop where
  scopes : List.Forall₂ Discovery.Scope.Alike (Discovery.Scope.ofProgram first) (Discovery.Scope.ofProgram second)
  calls : Discovery.TellsAlike (Discovery.topStatements first) (Discovery.topStatements second)

namespace Discovery

theorem definitionsOf_alike {first second : Registry} (alike : first.Alike second) {program other : Program}
    (same : program.Alike other) (file root : Path) :
    (definitionsOf first file root program).map Definition.withoutStop =
      (definitionsOf second file root other).map Definition.withoutStop := by
  have found : (Scope.ofProgram program).flatMap (scopeDefinitions first) =
      (Scope.ofProgram other).flatMap (scopeDefinitions second) :=
    flatMap_eq_of_rel same.scopes fun _ _ scope => scopeDefinitions_alike alike scope
  rw [definitionsOf, definitionsOf, found]
  split
  · exact fileDefinitions_alike same.calls file root
  · rfl

/-! ## Scouts -/

inductive Errand where
  | look (source : String) (file : Path) (suite : Option String)
  | forgetFile (file : Path)
  | forgetRoot (root : Path)
  | move (root : Path)

namespace Scout

/-- What comes of an errand, with the definitions that are found. -/
def serve (scout : Scout) : Errand → Scout × List Definition
  | .look source file suite => scout.look source file suite
  | .forgetFile file => (scout.forgetFile file, [])
  | .forgetRoot root => (scout.forgetRoot root, [])
  | .move root => ({ scout with root }, [])

/-- The definitions that are found on errands, up to the places where they stop. -/
def findings : Scout → List Errand → List (List Definition)
  | _, [] => []
  | scout, errand :: rest =>
    (scout.serve errand).2.map Definition.withoutStop :: (scout.serve errand).1.findings rest

structure Alike (first second : Scout) : Prop where
  root : first.root = second.root
  registry : first.registry.Alike second.registry
  sources : first.sources = second.sources

/-- Whether two scouts make of a source what discovery cannot tell apart. -/
def ReadAlike (first second : Scout) (source : String) : Prop :=
  ∃ program other, first.program? source = some program ∧ second.program? source = some other ∧ program.Alike other

theorem reader_serve (scout : Scout) (errand : Errand) : (scout.serve errand).1.reader = scout.reader := by
  cases errand with
  | look source file suite =>
    rw [serve, look]
    split <;> rfl
  | _ => rfl

variable {first second : Scout}

theorem Alike.look (alike : first.Alike second) {source : String} (read : first.ReadAlike second source) (file : Path)
    (suite : Option String) :
    (first.look source file suite).1.Alike (second.look source file suite).1 ∧
      (first.look source file suite).2.map Definition.withoutStop =
        (second.look source file suite).2.map Definition.withoutStop := by
  obtain ⟨program, other, found, also, same⟩ := read
  have registry := registerClasses_alike (alike.registry.removeFile file) file same.scopes
  simp only [Scout.look, found, also]
  refine ⟨⟨alike.root, registry, ?sources⟩, ?definitions⟩
  case sources => simp only [dropSource, alike.sources, registry.hasReferences]
  case definitions =>
    have definitions := congrArg (List.map fun definition => { definition with file, suite })
      (definitionsOf_alike registry same file first.root)
    simp only [List.map_map] at definitions ⊢
    rw [← alike.root]
    exact definitions

theorem Alike.serve (alike : first.Alike second) (errand : Errand)
    (read : ∀ source file suite, errand = .look source file suite → first.ReadAlike second source) :
    (first.serve errand).1.Alike (second.serve errand).1 ∧
      (first.serve errand).2.map Definition.withoutStop = (second.serve errand).2.map Definition.withoutStop := by
  cases errand with
  | look source file suite => exact alike.look (read source file suite rfl) file suite
  | forgetFile file =>
    have sources : (first.forgetFile file).sources = (second.forgetFile file).sources := by
      simp only [forgetFile, dropSource, alike.sources]
    exact ⟨⟨alike.root, alike.registry.removeFile file, sources⟩, rfl⟩
  | forgetRoot root =>
    have sources : (first.forgetRoot root).sources = (second.forgetRoot root).sources := by
      simp only [forgetRoot, alike.sources]
    exact ⟨⟨alike.root, alike.registry.removeUnder root, sources⟩, rfl⟩
  | move root => exact ⟨⟨rfl, alike.registry, alike.sources⟩, rfl⟩

theorem Alike.findings (alike : first.Alike second) (errands : List Errand)
    (read : ∀ source file suite, .look source file suite ∈ errands → first.ReadAlike second source) :
    first.findings errands = second.findings errands := by
  induction errands generalizing first second with
  | nil => rfl
  | cons errand rest ih =>
    obtain ⟨after, found⟩ := alike.serve errand fun source file suite same =>
      read source file suite (same ▸ List.mem_cons_self)
    rw [Scout.findings, Scout.findings, found]
    -- No errand changes the readers, so what they read alike before they read alike after it.
    refine congrArg _ (ih after fun source file suite member => ?_)
    obtain ⟨program, other, strict, lenient, same⟩ := read source file suite (List.mem_cons_of_mem _ member)
    rw [program?] at strict lenient
    refine ⟨program, other, ?_, ?_, same⟩
    · rw [program?, reader_serve, strict]
    · rw [program?, reader_serve, lenient]

end Scout

end Discovery

/-! ## Trees of one writing -/

namespace Code.Node

end Code.Node

namespace Discovery

end Discovery

/-! ## Readers -/

namespace Surface

namespace Reader

/-- The strict way to read, with a grammar that finds a tree in a source or none. -/
def strictBy (grammar : String → Option (List Stmt)) : Reader := fun source =>
  (grammar source).map fun items =>
    let index := LineIndex.ofText source
    .program ⟨Strict.Reading.statements index items, index.extent (Strict.leadingBlanks source) source.utf8ByteSize⟩

/-- The lenient way to read, with a grammar that finds a tree in every source. -/
def lenientBy (grammar : String → List Stmt) : Reader := fun source =>
  let index := LineIndex.ofText source
  some (.program ⟨Lenient.Reading.statements index (grammar source), index.extent 0 source.utf8ByteSize⟩)

theorem strict_eq : strict = strictBy Strict.statements? := by
  funext source
  simp only [strict, strictBy, Strict.program?, Option.map_map]
  rfl

theorem lenient_eq : lenient = lenientBy Lenient.statements := rfl

end Reader

variable {index : LineIndex}

end Surface

namespace Discovery.Scout
open Reader

/-- The tests that a reader tells of in a source: their ids, groups and keys. -/
private def told (reader : Surface.Reader) (source : String) : List (String × List String × List String) :=
  (look { reader, root := ⟨"/p"⟩ } source ⟨"/p/SumTest.php"⟩ none).2.map fun test =>
    (test.id, test.annotations.group, test.dataSets)

end Discovery.Scout

end TestScout
