import TestScout.Path.Basic
import TestScout.Text.Blank

/-! Test suites: named sets of files. A configuration says by rules what belongs to which
suite, and where the paths of the rules start from. -/

namespace TestScout

namespace Suite

/-- What a rule does with the files that it names. -/
inductive Tag where
  /-- Everything below a directory belongs to the suite. -/
  | directory
  /-- The files belong to the suite. -/
  | file
  /-- The files do not belong to the suite. -/
  | exclude
deriving Repr, DecidableEq, Inhabited

/-- The word for a tag. -/
def Tag.name : Tag → String
  | .directory => "directory"
  | .file => "file"
  | .exclude => "exclude"

def Tag.ofName? : String → Option Tag
  | "directory" => some .directory
  | "file" => some .file
  | "exclude" => some .exclude
  | _ => none

structure Rule where
  suite : String
  tag : Tag
  /-- A path or a glob. -/
  value : String
  /-- How the names of the files end, for a directory. -/
  suffix : Option String := none
deriving Repr, DecidableEq, Inhabited

/-- The rule that a flag of the form `NAME=PATH` gives, with the blanks around both taken off. -/
def Rule.ofFlag? (tag : Tag) (flag : String) : Option Rule := do
  let (name, value) ← Text.splitOnce ['='] flag.toList
  if Text.blank name || Text.blank value then none
  else some { suite := String.ofList (Text.trim name), tag, value := String.ofList (Text.trim value) }

end Suite

structure Configuration where
  root : Path
  rules : List Suite.Rule := []
deriving Repr, Inhabited

/-- The names of the suites, each once and in the order in which they come up. -/
def Configuration.suiteNames (configuration : Configuration) : List String :=
  configuration.rules.foldl (fun names rule =>
    if names.contains rule.suite then names else names ++ [rule.suite]) []

end TestScout
