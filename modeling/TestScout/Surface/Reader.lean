import TestScout.Code.Read
import TestScout.Json.Decode
import TestScout.Surface.Lenient
import TestScout.Surface.Strict

/-! Readers of sources. In a chain the first reader that finds a tree decides. -/

namespace TestScout.Surface

/-- A way to read a source: it finds a tree or none. -/
abbrev Reader := String → Option Code.Node

namespace Reader

def strict : Reader := fun source => (Strict.program? source).map .program

def lenient : Reader := fun source => some (.program (Lenient.program source))

/-- Takes a source for a tree that is written as JSON; only objects are trees. -/
def json : Reader := fun source =>
  match Json.Value.ofText? source with
  | .ok (.object members) => some (.ofJson (.object members))
  | _ => none

/-- Asks one reader after the other. -/
def firstOf : List Reader → Reader
  | [], _ => none
  | reader :: others, source =>
    match reader source with
    | some tree => some tree
    | none => firstOf others source

/-- Strict as long as that works. -/
def standard : Reader := firstOf [strict, lenient]

end Reader

end TestScout.Surface
