import TestScout.Collection.Basic
import TestScout.Files.Basic

/-! Keeping a collection up to date. When a file changes or goes away, the tracked files
whose tests depend on it are taken in again. -/

namespace TestScout.Collection

variable {σ : Type} [Tracker σ]

/-- Tracks a file no longer; tells what was tracked of it. -/
def remove (collection : Collection σ) (file : Path) : Collection σ × Option FileEntry :=
  match collection.suites.find? fun suite => (suite.find? file).isSome with
  | none => (collection, none)
  | some suite =>
    match suite.find? file with
    | none => (collection, none)
    | some entry =>
      let removed := collection.changeSuites fun suites =>
        suites.map fun other => if other.name = suite.name then other.erase file else other
      ({ removed with tracker := Tracker.drop removed.tracker entry }, some entry)

/-- Takes in the source of a file for a suite. -/
def store (collection : Collection σ) (file : Path) (source suite : String) : Collection σ :=
  let (tracker, tests) := Tracker.parse collection.tracker source file suite
  let parsed := { collection with tracker }
  if tests.isEmpty then (parsed.remove file).1
  else parsed.seed.changeSuites fun suites =>
    (SuiteFiles.insertName suite suites).map fun other =>
      if other.name = suite then other.put { suite, file, tests } else other.erase file

/-- Takes in files again, each of them once, apart from the one that they depend on. -/
def refresh (origin : Path) : (dependents : List (Path × String)) → (seen : List Path) → Collection σ → Collection σ
  | [], _, collection => collection
  | (file, source) :: rest, seen, collection =>
    if file.same origin || seen.any (·.same file) then refresh origin rest seen collection
    else
      let refreshed := match collection.suiteOf? file with
        | some suite => collection.store file source suite
        | none => collection
      refresh origin rest (file :: seen) refreshed

/-- Takes in the source of a file; tells what is tracked of it then. A file that belongs to
no suite is passed over. -/
def update (collection : Collection σ) (file : Path) (source : String) : Collection σ × Option FileEntry :=
  match collection.suiteOf? file with
  | none => (collection, none)
  | some suite =>
    let before := Tracker.dependents collection.tracker file
    let stored := collection.store file source suite
    let updated := refresh file (before ++ Tracker.dependents stored.tracker file) [] stored
    (updated, updated.find? file)

/-- Takes in what a file holds now. -/
def change {m : Type → Type} [Monad m] (files : Files m) (collection : Collection σ) (file : Path) :
    m (Collection σ × Option FileEntry) := do
  if (collection.suiteOf? file).isNone then return (collection, none)
  match ← files.read file with
  | .ok source => return collection.update file source
  | .error _ => return (collection, none)

/-- Tracks a file that is not tracked yet. -/
def add {m : Type → Type} [Monad m] (files : Files m) (collection : Collection σ) (file : Path) :
    m (Collection σ × Option FileEntry) :=
  match collection.find? file with
  | some entry => return (collection, some entry)
  | none => collection.change files file

/-- Tracks a file no longer and forgets it; tells what was tracked of it. -/
def delete (collection : Collection σ) (file : Path) : Collection σ × Option FileEntry :=
  let dependents := Tracker.dependents collection.tracker file
  let (removed, entry) := collection.remove file
  (refresh file dependents [] { removed with tracker := Tracker.forgetFile removed.tracker file }, entry)

/-- Gives up the workspace with all its files. Other workspaces stay. -/
def reset (collection : Collection σ) : Collection σ :=
  let emptied := (collection.entries.map (·.file)).foldl (fun collection file =>
    let removed := (collection.remove file).1
    { removed with tracker := Tracker.forgetFile removed.tracker file }) collection
  { emptied with
    workspaces := emptied.workspaces.filter (!·.root.same collection.root)
    tracker := Tracker.forgetRoot emptied.tracker collection.root }

end TestScout.Collection
