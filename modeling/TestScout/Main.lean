import TestScout.Command.Discover

/-! The command as a program. -/

namespace TestScout

/-- What a failed access to a file means. -/
def FileFault.ofError : IO.Error → FileFault
  | .noFileOrDirectory .. => .missing
  | .inappropriateType _ code _ => if code = 21 then .isDirectory else .notDirectory
  | .permissionDenied _ code details => .other (details ++ " (os error " ++ toString code ++ ")")
  | error => .other (toString error)

def attempt (action : IO α) : IO (Except FileFault α) := do
  match ← action.toBaseIO with
  | .ok value => return .ok value
  | .error error => return .error (FileFault.ofError error)

/-- The text of a file of the system. -/
def readText (path : Path) : IO (Except FileFault String) := do
  return (← attempt (IO.FS.readBinFile path.text)).bind textOfBytes

/-- The files of the system. Links are no directories. -/
def systemFiles : Files IO where
  read := readText
  canonical path := attempt do return ⟨(← IO.FS.realPath path.text).toString⟩
  list path := attempt do
    let entries ← (← IO.FS.realPath path.text).readDir
    entries.toList.mapM fun entry => do return (entry.fileName, (← entry.path.symlinkMetadata).type == .dir)

end TestScout

open TestScout in
def main (arguments : List String) : IO UInt32 := do
  let outcome ← Command.run systemFiles arguments
  outcome.output?.forM (IO.println ·)
  outcome.complaint?.forM (IO.eprintln ·)
  return outcome.status
