import TestScout.Test.Definition
import TestScout.Text.Letter

/-! Data sets in the names that a test runner reports. A name ends in a number or in a
label in double quotes behind a fixed phrase. -/

namespace TestScout.Test

/-- What stands in front of the key of a data set. -/
def dataSetPhrase : String := "with data set "

/-- A hash mark with digits of any script, or a text on one line in double quotes. -/
def isDataSetKey (text : List Char) : Bool :=
  match text with
  | '#' :: digits => !digits.isEmpty && digits.all Text.isDigit
  | '"' :: rest => rest.getLast? == some '"' && !rest.contains '\n'
  | _ => false

/-- The key at the end of a text behind the first phrase that a key follows. -/
def keyOf? : List Char → Option (List Char)
  | [] => none
  | c :: rest =>
    match (Text.after? dataSetPhrase.toList (c :: rest)).filter isDataSetKey with
    | some key => some key
    | none => keyOf? rest

/-- The key of the data set that a runner names. -/
def dataSetKey? (name : String) : Option String := (keyOf? name.toList).map String.ofList

namespace Definition

/-- The definition of the data set of a test that has a key. -/
def dataSetChild (definition : Definition) (key : String) : Definition :=
  let label := dataSetPhrase ++ key
  { definition with
    kind := .dataSet
    id := definition.id ++ " " ++ label
    label
    depth := definition.depth + 1
    dataSets := []
    children := [] }

/-- The definition of the data set that a runner names; none when it names no data set. -/
def dataSetChild? (definition : Definition) (name : String) : Option Definition :=
  (dataSetKey? name).map definition.dataSetChild

/-- Where among the known keys a key comes first. -/
def dataSetIndex? (definition : Definition) (key : String) : Option Nat := definition.dataSets.idxOf? key

end Definition

end TestScout.Test
