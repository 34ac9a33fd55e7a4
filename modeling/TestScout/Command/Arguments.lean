import TestScout.Path.Basic

/-! What the command is asked to do. Options are written as `--name value` or `--name=value`,
and two hyphens alone end them. -/

namespace TestScout.Command

inductive OptionName where
  /-- A file with a configuration. -/
  | config
  /-- A directory of a suite, as `NAME=PATH`. -/
  | suite
  /-- A file of a suite, as `NAME=PATH`. -/
  | file
  /-- A file or a directory that is not of a suite, as `NAME=PATH`. -/
  | exclude
  /-- How the names of the files in the directories end. -/
  | suffix
  /-- A file with the events of a run. -/
  | events
deriving Repr, DecidableEq

def OptionName.ofText? : String → Option OptionName
  | "config" => some .config
  | "suite" => some .suite
  | "file" => some .file
  | "exclude" => some .exclude
  | "suffix" => some .suffix
  | "events" => some .events
  | _ => none

/-- The words behind the name of the command, taken apart. -/
structure Words where
  options : List (OptionName × String) := []
  plain : List String := []
deriving Repr, Inhabited

namespace Words

def addOption (option : OptionName) (value : String) (words : Words) : Words :=
  { words with options := (option, value) :: words.options }

def addPlain (word : String) (words : Words) : Words := { words with plain := word :: words.plain }

/-- Whether a word can be the value of the option in front of it. -/
def isValue (word : String) : Bool := word == "-" || word.toList.head? != some '-'

def ofList? : List String → Option Words
  | [] => some {}
  | word :: rest =>
    match word.toList with
    | ['-', '-'] => some { plain := rest }
    | '-' :: '-' :: text =>
      match Text.splitOnce ['='] text with
      | some (name, value) => do
        let option ← OptionName.ofText? (String.ofList name)
        (ofList? rest).map (addOption option (String.ofList value))
      | none => do
        let option ← OptionName.ofText? (String.ofList text)
        match rest with
        | [] => none
        | value :: rest => if isValue value then (ofList? rest).map (addOption option value) else none
    | '-' :: _ :: _ => none
    | _ => (ofList? rest).map (addPlain word)

/-- The values of an option, in order. -/
def values (words : Words) (option : OptionName) : List String :=
  words.options.filterMap fun (name, value) => if name = option then some value else none

/-- The value of an option that can be given once: none or one. -/
def single? (words : Words) (option : OptionName) : Option (Option String) :=
  match words.values option with
  | [] => some none
  | [value] => some (some value)
  | _ => none

/-- A text as a path, which must not be empty. -/
def path? (text : String) : Option Path := if text.isEmpty then none else some ⟨text⟩

def singlePath? (words : Words) (option : OptionName) : Option (Option Path) := do
  match ← words.single? option with
  | none => return none
  | some text => return some (← path? text)

end Words

/-- A request for the tests below a root. -/
structure Request where
  root : Path := ⟨"."⟩
  config : Option Path := none
  suites : List String := []
  files : List String := []
  excludes : List String := []
  suffix : Option String := none
  events : Option Path := none
deriving Repr, Inhabited

/-- The request that words make; none when they make no sense. -/
def Request.ofWords? (words : Words) : Option Request := do
  let root ← match words.plain with
    | [] => some ⟨"."⟩
    | [text] => Words.path? text
    | _ => none
  return {
    root
    config := ← words.singlePath? .config
    suites := words.values .suite
    files := words.values .file
    excludes := words.values .exclude
    suffix := ← words.single? .suffix
    events := ← words.singlePath? .events }

/-- The request that a command line makes. -/
def Request.ofArguments? : List String → Option Request
  | "discover" :: rest => (Words.ofList? rest).bind Request.ofWords?
  | _ => none

end TestScout.Command
