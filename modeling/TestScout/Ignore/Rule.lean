import TestScout.Glob.Matching
import TestScout.Glob.Parser
import TestScout.Text.Blank
import TestScout.Text.Piece

/-! Rules that tell which files are of no interest. A line of an ignore file is a rule; of
the rules that match a file the last one decides. -/

namespace TestScout.Ignore

inductive Verdict where
  | ignored
  /-- An exclamation mark in front keeps what other rules ignore. -/
  | kept
deriving Repr, DecidableEq, Inhabited

structure Rule where
  verdict : Verdict
  glob : Glob
  /-- A slash at the end leaves everything alone that is no directory. -/
  directoriesOnly : Bool := false
deriving Repr, Inhabited

namespace Rule

/-- What the marks at the front of a line mean, with the rest of the line: the verdict, and
whether a slash ties the pattern to the directory of the ignore file. -/
def opening (line : List Char) : Verdict × Bool × List Char :=
  let tied := fun (verdict : Verdict) (line : List Char) =>
    match line with
    | '/' :: rest => (verdict, true, rest)
    | _ => (verdict, false, line)
  match line with
  | '\\' :: '!' :: rest => (.ignored, false, '!' :: rest)
  | '\\' :: '#' :: rest => (.ignored, false, '#' :: rest)
  | '!' :: rest => tied .kept rest
  | _ => tied .ignored line

/-- The pattern without the slash at its end, and whether there is one. -/
def closing (pattern : List Char) : Bool × List Char :=
  match Text.before? ['/'] pattern with
  | none => (false, pattern)
  | some inner => (true, (Text.before? ['\\'] inner).getD inner)

/-- A pattern without slashes in it counts in all directories below. Two stars at the end
stand for what is in a directory, not for the directory. -/
def globText (isTied : Bool) (pattern : List Char) : List Char :=
  let anywhere := if isTied || pattern.contains '/' || pattern = ['*', '*'] then pattern else '*' :: '*' :: '/' :: pattern
  if (Text.before? ['/', '*', '*'] anywhere).isSome then anywhere ++ ['/', '*'] else anywhere

/-- A rule as a line writes it. Comments and blank lines are no rules, nor are lines with
globs that cannot be read; a bracket that is not closed stands for itself. Blanks at the end
count only behind a backslash. -/
def ofLine? (line : List Char) : Option Rule :=
  let line := if (Text.before? ['\\', ' '] line).isSome then line else Text.trimEnd line
  if line.isEmpty || line.head? == some '#' then none
  else
    let (verdict, isTied, pattern) := opening line
    let (directoriesOnly, pattern) := closing pattern
    (Glob.ofText? (String.ofList (globText isTied pattern)) true).map fun glob => { verdict, glob, directoriesOnly }

def isMatch (rule : Rule) (path : String) (isDirectory : Bool) : Bool :=
  (isDirectory || !rule.directoriesOnly) && rule.glob.isMatch .exact path

end Rule

/-- The rules in an ignore file. A byte order mark at its start does not count. -/
def rulesOf (text : String) : List Rule :=
  let text := text.toList.dropWhile (· == '\ufeff')
  (Text.lines text).filterMap Rule.ofLine?

/-- What the rules say about a path. -/
def verdict? (rules : List Rule) (path : String) (isDirectory : Bool) : Option Verdict :=
  (rules.reverse.find? (·.isMatch path isDirectory)).map (·.verdict)

end TestScout.Ignore
