import TestScout.Glob.Matching
import TestScout.Glob.Parser
import TestScout.Suite.Basic

/-! Which suite a file belongs to. Every rule becomes a glob for whole paths; a rule whose
glob cannot be read has no effect. -/

namespace TestScout.Suite

/-- How the names of the files in a directory end when the rule does not say so. -/
def usualSuffix : String := ".php"

/-- A path with slashes for backslashes and none of them at the end. -/
def normalize (path : String) : String :=
  let text := path.toList.map fun c => if c = '\\' then '/' else c
  match Text.dropEndWhile (· == '/') text with
  | [] => if text.isEmpty then "" else "/"
  | trimmed => String.ofList trimmed

/-- The characters that have a meaning in globs, apart from the backslash. -/
def globMarks : List Char := ['?', '*', '[', ']', '\x7b', '\x7d']

/-- A text without backslashes as a glob for itself: every mark becomes a class of its own. -/
def escape (text : List Char) : List Char :=
  text.flatMap fun c => if globMarks.contains c then ['[', c, ']'] else [c]

/-- The value of a rule without blanks around it and without the dot in front. -/
def Rule.path (rule : Rule) : List Char :=
  let value := (normalize (String.ofList (Text.trim rule.value.toList))).toList
  (Text.after? ['.', '/'] value).getD value

/-- Whether a path starts at the root, or at a drive with a letter. -/
def isPlaced (path : List Char) : Bool := path.head? == some '/' || path[1]? == some ':'

/-- The path of a rule from the root on, as a glob. -/
def Rule.base (rule : Rule) (root : String) : List Char :=
  if isPlaced rule.path then rule.path
  else Text.dropEndWhile (· == '/') (escape root.toList) ++ '/' :: rule.path

/-- The glob of a rule. What is excluded is a file when the name has an extension, and a
directory otherwise. -/
def Rule.pattern (rule : Rule) (root : String) : String :=
  let base := String.ofList (rule.base root)
  match rule.tag with
  | .file => base
  | .directory => base ++ "/**/*" ++ rule.suffix.getD usualSuffix
  | .exclude => if (Path.extension? ⟨String.ofList rule.path⟩).isSome then base else base ++ "/**/*"

end TestScout.Suite

namespace TestScout

/-- Suites with their rules made ready for matching. -/
structure SuiteMatcher where
  rules : List (Suite.Rule × Glob)

namespace SuiteMatcher

def ofConfiguration (configuration : Configuration) : SuiteMatcher where
  rules :=
    let root := Suite.normalize configuration.root.text
    configuration.rules.filterMap fun rule => (Glob.ofText? (rule.pattern root)).map (rule, ·)

/-- The suite that a file belongs to: that of the first rule that takes the file in, unless
a rule of the same suite excludes the file. -/
def suiteOf? (matcher : SuiteMatcher) (file : Path) : Option String := do
  let path := Suite.normalize file.text
  let (claiming, _) ← matcher.rules.find? fun (rule, glob) => rule.tag ≠ .exclude && glob.isMatch .ignored path
  let isExcluded := matcher.rules.any fun (rule, glob) =>
    rule.tag = .exclude && rule.suite == claiming.suite && glob.isMatch .ignored path
  if isExcluded then none else some claiming.suite

end SuiteMatcher

end TestScout
