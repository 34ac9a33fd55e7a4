import TestScout.Files.Basic
import TestScout.Ignore.Rule

/-! The ignore files of a directory and of those around it. Files named `.ignore` count
everywhere; the ignore files of a repository count inside of it, and less. Of two directories
the inner one decides. -/

namespace TestScout.Ignore

/-- The rules that a directory brings. -/
structure Level where
  directory : Path
  /-- The rules in `.ignore`. -/
  plain : List Rule := []
  /-- The rules in `.gitignore`. -/
  shared : List Rule := []
  /-- The rules that a repository keeps for itself. -/
  own : List Rule := []
  /-- Whether the directory is where a repository starts. -/
  isRepository : Bool := false

namespace Level

def rulesAt [Monad m] (files : Files m) (path : Path) : m (List Rule) := do
  match ← files.read path with
  | .ok text => return rulesOf text
  | .error _ => return []

/-- What stands in front of the line break that ends a text's first line. -/
def firstLine (text : String) : List Char := ((Text.lines text.toList).head?).getD []

/-- The rules that the repository that starts in a directory keeps for itself. Where `.git` is
a file, it tells where the repository is kept, and a file there tells what it shares with others. -/
def ownRulesAt [Monad m] (files : Files m) (directory : Path) : m (List Rule) := do
  match ← files.read (directory.join ⟨".git"⟩) with
  | .error .notText => return []
  | .error _ => rulesAt files (directory.join ⟨".git/info/exclude"⟩)
  | .ok text =>
    match Text.after? "gitdir: ".toList (firstLine text) with
    | none => return []
    | some place =>
      let kept : Path := ⟨String.ofList place⟩
      match ← files.read (kept.join ⟨"commondir"⟩) with
      | .error _ => return []
      | .ok text =>
        let line := firstLine text
        if text.isEmpty then return []
        let shared : Path := ⟨String.ofList line⟩
        rulesAt files ((if line.head? == some '.' then kept.join shared else shared).join ⟨"info/exclude"⟩)

def ofDirectory [Monad m] (files : Files m) (directory : Path) : m Level := do
  return {
    directory
    plain := ← rulesAt files (directory.join ⟨".ignore"⟩)
    shared := ← rulesAt files (directory.join ⟨".gitignore"⟩)
    own := ← ownRulesAt files directory
    isRepository := (← files.canonical (directory.join ⟨".git"⟩)).toBool }

/-- The levels of the repository that the innermost level is in. -/
def repository (levels : List Level) : List Level :=
  match levels.dropWhile (!·.isRepository) with
  | [] => []
  | first :: _ => levels.takeWhile (!·.isRepository) ++ [first]

/-- What the first level with something to say about a path says. -/
def firstVerdict? (rules : Level → List Rule) (levels : List Level) (path : Path) (isDirectory : Bool) :
    Option Verdict :=
  levels.findSome? fun level =>
    (path.textBelow? level.directory).bind fun below => Ignore.verdict? (rules level) below isDirectory

/-- What the levels around a path say about it, the innermost level first. -/
def verdict? (levels : List Level) (path : Path) (isDirectory : Bool) : Option Verdict :=
  (firstVerdict? plain levels path isDirectory).or <|
    (firstVerdict? shared (repository levels) path isDirectory).or <|
      firstVerdict? own (repository levels) path isDirectory

end Level

end TestScout.Ignore
