import TestScout.Text.Blank
import TestScout.Text.Piece

/-! Adaptations of used traits: which of two methods of one name a class takes, and under
which further name or visibility a method appears. -/

namespace TestScout.Code

inductive Visibility where
  | publicAccess
  | protectedAccess
  | privateAccess
deriving Repr, DecidableEq, Inhabited

/-- The visibility that a modifier, written in any case, stands for. -/
def Visibility.ofWord? (word : String) : Option Visibility :=
  match word.toLower with
  | "public" => some .publicAccess
  | "protected" => some .protectedAccess
  | "private" => some .privateAccess
  | _ => none

inductive Adaptation where
  /-- `T::m insteadof A, B` -/
  | precedence (ofTrait method : String) (insteadOf : List String)
  /-- `T::m as protected other`, where each of the three parts around `as` may be missing -/
  | rename (ofTrait : Option String) (method : String) (newName : Option String) (visibility : Option Visibility)
deriving Repr, DecidableEq, Inhabited

namespace Adaptation

/-- The visibility and the name after `as`; of several words of a sort the last counts. -/
def renamed (tokens : List String) : Option String × Option Visibility :=
  tokens.foldl (fun (newName, visibility) token =>
    match Visibility.ofWord? token with
    | some visibility => (newName, some visibility)
    | none => (some token, visibility)) (none, none)

/-- The trait and the method that a reference `T::m` or `m` names. -/
def reference (text : List Char) : Option String × String :=
  match Text.splitOnce [':', ':'] text with
  | some (ofTrait, method) => (some (relativeName (String.ofList ofTrait)), String.ofList method)
  | none => (none, String.ofList text)

def insteadOfNames (tokens : List (List Char)) : List String :=
  ((Text.splitAt (· == ',') ([' '].intercalate tokens)).map fun name =>
    relativeName (String.ofList (Text.trim name))).filter (· != "")

/-- One clause, with or without the semicolon that ends it. -/
def ofText? (text : String) : Option Adaptation :=
  let clause := Text.trim (Text.dropEndWhile (· == ';') (Text.trim text.toList))
  match Text.words clause with
  | target :: keyword :: tokens =>
    let (ofTrait, method) := reference target
    match (String.ofList keyword).toLower with
    | "insteadof" => ofTrait.map fun ofTrait => .precedence ofTrait method (insteadOfNames tokens)
    | "as" =>
      let (newName, visibility) := renamed (tokens.map String.ofList)
      some (.rename ofTrait method newName visibility)
    | _ => none
  | _ => none

end Adaptation

end TestScout.Code
