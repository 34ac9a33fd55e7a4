import TestScout.Suite.Matcher
import TestScout.Test.Definition

/-! The files with tests in them that are tracked, by workspace and suite. What is done with
a single file is left to a tracker. A file whose source has no tests in it is not tracked. -/

namespace TestScout
open Test

/-- The definitions of a tracked file. -/
structure FileEntry where
  suite : String
  file : Path
  tests : List Definition
deriving Inhabited

/-- What keeps the account of single files. -/
class Tracker (σ : Type) where
  /-- Takes in the source of a file that belongs to a suite, and tells what it defines. -/
  parse : σ → (source : String) → (file : Path) → (suite : String) → σ × List Definition
  /-- Drops what is shown of a file that is tracked no longer. -/
  drop : σ → FileEntry → σ
  /-- Forgets a file for good. -/
  forgetFile : σ → Path → σ
  /-- The files whose tests depend on a file, with their sources. -/
  dependents : σ → Path → List (Path × String)
  setRoot : σ → Path → σ
  /-- Forgets the files under a root. -/
  forgetRoot : σ → Path → σ

/-- The tracked files of a suite, in the order of their paths. -/
structure SuiteFiles where
  name : String
  entries : List FileEntry := []
deriving Inhabited

namespace SuiteFiles

def find? (suite : SuiteFiles) (file : Path) : Option FileEntry := suite.entries.find? (·.file.same file)

def erase (suite : SuiteFiles) (file : Path) : SuiteFiles :=
  { suite with entries := suite.entries.filter (!·.file.same file) }

/-- Puts an entry in its place among ordered ones, instead of one for the same file. -/
def insertEntry (entry : FileEntry) : List FileEntry → List FileEntry
  | [] => [entry]
  | first :: rest =>
    match entry.file.compare first.file with
    | .lt => entry :: first :: rest
    | .eq => entry :: rest
    | .gt => first :: insertEntry entry rest

def put (suite : SuiteFiles) (entry : FileEntry) : SuiteFiles :=
  { suite with entries := insertEntry entry suite.entries }

/-- Adds a suite without files to ordered suites, unless it is there already. -/
def insertName (name : String) : List SuiteFiles → List SuiteFiles
  | [] => [{ name }]
  | first :: rest =>
    if name < first.name then { name } :: first :: rest
    else if name = first.name then first :: rest
    else first :: insertName name rest

end SuiteFiles

/-- The suites of a root, in the order of their names. -/
structure Workspace where
  root : Path
  suites : List SuiteFiles := []
deriving Inhabited

structure Collection (σ : Type) where
  configuration : Configuration
  matcher : SuiteMatcher
  workspaces : List Workspace := []
  tracker : σ

namespace Collection

variable {σ : Type}

def root (collection : Collection σ) : Path := collection.configuration.root

/-- The workspace of the root that is configured. -/
def workspace? (collection : Collection σ) : Option Workspace :=
  collection.workspaces.find? (·.root.same collection.root)

/-- The suites that are known there. -/
def suites (collection : Collection σ) : List SuiteFiles := (collection.workspace?.map (·.suites)).getD []

def suiteNames (collection : Collection σ) : List String := collection.suites.map (·.name)

/-- The tracked files, suite by suite. -/
def entries (collection : Collection σ) : List FileEntry := collection.suites.flatMap (·.entries)

def size (collection : Collection σ) : Nat := collection.entries.length

def find? (collection : Collection σ) (file : Path) : Option FileEntry :=
  collection.suites.findSome? (·.find? file)

def contains (collection : Collection σ) (file : Path) : Bool := (collection.find? file).isSome

/-- The suite that a file belongs to. -/
def suiteOf? (collection : Collection σ) (file : Path) : Option String := collection.matcher.suiteOf? file

/-- Changes the suites of the workspace. -/
def changeSuites (collection : Collection σ) (change : List SuiteFiles → List SuiteFiles) : Collection σ :=
  { collection with
    workspaces := collection.workspaces.map fun workspace =>
      if workspace.root.same collection.root then { workspace with suites := change workspace.suites }
      else workspace }

/-- Makes sure that there is a workspace with all configured suites. -/
def seed (collection : Collection σ) : Collection σ :=
  let present := if collection.workspace?.isSome then collection
    else { collection with workspaces := collection.workspaces ++ [{ root := collection.root }] }
  present.changeSuites fun suites =>
    collection.configuration.suiteNames.foldl (fun suites name => SuiteFiles.insertName name suites) suites

variable [Tracker σ]

def ofConfiguration (configuration : Configuration) (tracker : σ) : Collection σ :=
  { configuration
    matcher := .ofConfiguration configuration
    tracker := Tracker.setRoot tracker configuration.root : Collection σ }.seed

/-- Turns to another configuration. The files that are tracked under another root stay tracked there. -/
def configure (collection : Collection σ) (configuration : Configuration) : Collection σ :=
  { collection with
    configuration
    matcher := .ofConfiguration configuration
    tracker := Tracker.setRoot collection.tracker configuration.root : Collection σ }.seed

end Collection

end TestScout
