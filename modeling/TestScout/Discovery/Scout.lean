import TestScout.Discovery.CallTests
import TestScout.Registry.Dependents
import TestScout.Surface.Reader

/-! A scout looks at files one at a time and remembers what it needs to look at others: the
classes it has seen, and the sources of the files that build on classes of other files. -/

namespace TestScout.Discovery
open Code Test

structure Scout where
  reader : Surface.Reader := Surface.Reader.standard
  /-- The directory that tests in calls are named from. -/
  root : Path
  registry : Registry := .empty
  sources : List (Path × String) := []

/-- Everything that a program has to say about tests, in the order in which it is found. -/
def definitionsOf (registry : Registry) (file root : Path) (program : Program) : List Definition :=
  match (Scope.ofProgram program).flatMap (scopeDefinitions registry) with
  | [] => fileDefinitions file root program
  | found => found

namespace Scout

def dropSource (scout : Scout) (file : Path) : List (Path × String) := scout.sources.filter (!·.1.same file)

/-- The tree of a source, when the source is a program. -/
def program? (scout : Scout) (source : String) : Option Program :=
  match scout.reader source with
  | some (.program program) => some program
  | _ => none

/-- Looks at a file that belongs to a suite. A file that cannot be read as a program has
nothing in it and is otherwise passed over. -/
def look (scout : Scout) (source : String) (file : Path) (suite : Option String) : Scout × List Definition :=
  match scout.program? source with
  | none => (scout, [])
  | some program =>
    let registry := registerClasses (scout.registry.removeFile file) file (Scope.ofProgram program)
    let sources := scout.dropSource file ++ if registry.hasReferences file then [(file, source)] else []
    ({ scout with registry, sources },
      (definitionsOf registry file scout.root program).map fun definition => { definition with file, suite })

def forgetFile (scout : Scout) (file : Path) : Scout :=
  { scout with registry := scout.registry.removeFile file, sources := scout.dropSource file }

def forgetRoot (scout : Scout) (root : Path) : Scout :=
  { scout with
    registry := scout.registry.removeUnder root
    sources := scout.sources.filter (!·.1.isUnder root) }

def sourceOf? (scout : Scout) (file : Path) : Option String := (scout.sources.find? (·.1.same file)).map (·.2)

/-- The files that depend on a file, with their sources. -/
def dependents (scout : Scout) (file : Path) : List (Path × String) :=
  (scout.registry.dependentFiles file).filterMap fun dependent =>
    (scout.sourceOf? dependent).map (dependent, ·)

end Scout

end TestScout.Discovery
