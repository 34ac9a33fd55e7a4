import TestScout.Ignore.Level

/-! The files below a root, as far as they are of interest. Directories that are not of
interest are not entered. -/

namespace TestScout.Ignore

/-- How deep directories can lie: no system takes longer paths. -/
def maxDepth : Nat := 4096

/-- Whether an entry of a directory is of interest. Names that start with a dot have to be kept by a rule. -/
def isShown (levels : List Level) (path : Path) (name : String) (isDirectory : Bool) : Bool :=
  match Level.verdict? levels path isDirectory with
  | some .ignored => false
  | some .kept => true
  | none => name.toList.head? != some '.'

/-- The files in a directory and below it, at most so many directories down. -/
def filesIn [Monad m] (files : Files m) : (depth : Nat) → (above : List Level) → (directory : Path) → m (List Path)
  | 0, _, _ => return []
  | depth + 1, above, directory => do
    let levels := (← Level.ofDirectory files directory) :: above
    match ← files.list directory with
    | .error _ => return []
    | .ok entries =>
      let found ← entries.mapM fun (name, isDirectory) => do
        let path := directory.join ⟨name⟩
        if !isShown levels path name isDirectory then return []
        else if isDirectory then filesIn files depth levels path
        else return [path]
      return found.flatten

/-- The files below a root. A root that is a file is the only one. -/
def filesBelow [Monad m] (files : Files m) (root : Path) : m (List Path) := do
  match ← files.list root with
  | .error .notDirectory => return [root]
  | _ =>
    let above ← root.ancestors.mapM (Level.ofDirectory files)
    filesIn files maxDepth above root

end TestScout.Ignore
