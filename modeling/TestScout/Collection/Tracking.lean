import TestScout.Collection.Basic
import TestScout.Discovery.Scout

/-! A scout as a tracker: what is found in files is all that is kept of them. -/

namespace TestScout.Discovery
open Test

instance : Tracker Scout where
  parse scout source file suite :=
    let (scout, definitions) := scout.look source file (some suite)
    (scout, Definition.forest definitions)
  drop scout _ := scout
  forgetFile scout file := scout.forgetFile file
  dependents scout file := scout.dependents file
  setRoot scout root := { scout with root }
  forgetRoot scout root := scout.forgetRoot root

end TestScout.Discovery
