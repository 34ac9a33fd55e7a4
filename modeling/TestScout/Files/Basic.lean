import TestScout.Path.Basic

/-! Access to files. What is done with files is written for every kind of access, so that it
also runs on file trees that are values. -/

namespace TestScout

/-- Why a path does not lead to what is wanted. -/
inductive FileFault where
  | missing
  | notDirectory
  | isDirectory
  /-- The content is not a text in UTF-8. -/
  | notText
  /-- Anything else, with what the system says about it. -/
  | other (message : String)
deriving Repr, DecidableEq, Inhabited

def FileFault.message : FileFault → String
  | .missing => "No such file or directory (os error 2)"
  | .notDirectory => "Not a directory (os error 20)"
  | .isDirectory => "Is a directory (os error 21)"
  | .notText => "stream did not contain valid UTF-8"
  | .other message => message

/-- The text that bytes stand for. -/
def textOfBytes (content : ByteArray) : Except FileFault String :=
  match String.fromUTF8? content with
  | some text => .ok text
  | none => .error .notText

structure Files (m : Type → Type) where
  read : Path → m (Except FileFault String)
  /-- The path of the same file from the root on, without dots. -/
  canonical : Path → m (Except FileFault Path)
  /-- The names in a directory, and whether each of them is a directory. -/
  list : Path → m (Except FileFault (List (String × Bool)))

end TestScout
