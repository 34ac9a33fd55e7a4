import TestScout.Files.Basic
import TestScout.Suite.Json

/-! Configurations in files, and rules in flags. -/

namespace TestScout

/-- Why there is no configuration. -/
inductive ConfigurationFault where
  | unreadable (path : Path) (fault : FileFault)
  | malformed (fault : Json.Fault)
  | badFlag (flag : String)
deriving Repr

/-- What is said about a fault. What exactly is wrong with a text in JSON is not said. -/
def ConfigurationFault.message : ConfigurationFault → String
  | .unreadable path fault => "failed to read configuration " ++ path.text ++ ": " ++ fault.message
  | .malformed _ => "invalid configuration"
  | .badFlag flag => "invalid test suite specification `" ++ flag ++ "` (expected NAME=PATH)"

def Suite.Rule.ofFlag (tag : Suite.Tag) (flag : String) : Except ConfigurationFault Suite.Rule :=
  match Suite.Rule.ofFlag? tag flag with
  | some rule => .ok rule
  | none => .error (.badFlag flag)

/-- The configuration in a file. Its root is meant from the directory of the file. -/
def Configuration.load [Monad m] (files : Files m) (path : Path) : m (Except ConfigurationFault Configuration) := do
  match ← files.read path with
  | .error fault => return .error (.unreadable path fault)
  | .ok text =>
    match Configuration.ofJson text with
    | .error fault => return .error (.malformed fault)
    | .ok configuration =>
      match path.directory? with
      | some directory => return .ok { configuration with root := directory.join configuration.root }
      | none => return .ok configuration

end TestScout
