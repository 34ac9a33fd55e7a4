import TestScout.Collection.Basic
import TestScout.Test.Written

/-! Tracked files as JSON. -/

namespace TestScout
open Json

def FileEntry.toJson (entry : FileEntry) : Value :=
  .object [
    ("group", .string entry.suite), ("file", .string entry.file.text),
    ("tests", .array (entry.tests.map (·.toJson)))]

end TestScout
