import TestScout.Source.Attribute
import TestScout.Source.Comment
import TestScout.Text.Blank

/-! What comments and attributes say about a class or a method. Both come down to marks,
which are gathered one by one. -/

namespace TestScout.Test
open Source

structure Annotations where
  group : List String := []
  depends : List String := []
  dataProvider : List String := []
  testdox : List String := []
  /-- Whether a method is a test whatever its name. -/
  isTest : Bool := false
deriving Repr, DecidableEq, Inhabited

/-- One thing that a docblock or an attribute says. -/
inductive Mark where
  | test
  | group (name : String)
  | depends (name : String)
  | dataProvider (name : String)
  | testdox (text : String)
deriving Repr, DecidableEq

/-- Puts values behind others, without those that are there already. -/
def appendNew (values : List String) (further : List String) : List String :=
  further.foldl (fun values value => if values.contains value then values else values ++ [value]) values

namespace Mark

/-- The mark that a line of a docblock makes: a tag behind stars, and for most tags the
word behind it. A description goes to the end of the line. -/
def ofLine? (line : List Char) : Option Mark :=
  match Text.trim ((Text.trim line).dropWhile (· == '*')) with
  | '@' :: text =>
    let rest := Text.trim (text.dropWhile (!Text.isBlank ·))
    let word := (Text.words rest).head?.map String.ofList
    match String.ofList (text.takeWhile (!Text.isBlank ·)) with
    | "test" => some .test
    | "group" => word.map .group
    | "depends" => word.map .depends
    | "dataProvider" => word.map .dataProvider
    | "testdox" | "testDox" => if rest.isEmpty then none else some (.testdox (String.ofList rest))
    | _ => none
  | _ => none

/-- The namespace that attributes with a meaning for tests are in. -/
def attributeNamespace : String := "PHPUnit\\Framework\\Attributes\\"

/-- The name behind the namespace of the attributes, which is found in any case. -/
def attributeName? (name : String) : Option String :=
  let size := attributeNamespace.length
  if sameName (String.ofList (name.toList.take size)) attributeNamespace then
    some (String.ofList (name.toList.drop size))
  else none

/-- The mark that an attribute makes under its own name or under the one it is resolved to. -/
def ofAttribute? (resolve : String → String) (written : Attribute) : Option Mark := do
  let name ← attributeName? written.name <|> attributeName? (resolve written.name)
  let first := written.arguments.head?
  match name with
  | "Test" => some .test
  | "Group" | "Ticket" => first.map .group
  | "Depends" | "DependsUsingDeepClone" | "DependsUsingShallowClone" => first.map .depends
  | "DataProvider" => first.map .dataProvider
  | "TestDox" => first.map .testdox
  | _ => none

end Mark

namespace Annotations

/-- Takes note of a mark. A description counts as often as it is given, anything else once. -/
def add (annotations : Annotations) : Mark → Annotations
  | .test => { annotations with isTest := true }
  | .group name => { annotations with group := appendNew annotations.group [name] }
  | .depends name => { annotations with depends := appendNew annotations.depends [name] }
  | .dataProvider name => { annotations with dataProvider := appendNew annotations.dataProvider [name] }
  | .testdox text => { annotations with testdox := annotations.testdox ++ [text] }

def ofMarks (marks : List Mark) : Annotations := marks.foldl add {}

/-- The text between the delimiters of a docblock. Where one of them is missing both are a
part of the text. -/
def docblockText (text : List Char) : List Char :=
  let opened := (Text.after? "/**".toList (Text.trim text)).getD text
  (Text.before? "*/".toList opened).getD text

def ofDocblock (text : String) : Annotations :=
  ofMarks ((Text.lines (docblockText text.toList)).filterMap Mark.ofLine?)

def ofAttributes (resolve : String → String) (groups : List AttributeGroup) : Annotations :=
  ofMarks ((groups.flatMap (·.attributes)).filterMap (Mark.ofAttribute? resolve))

/-- Adds everything new that others say. -/
def merge (annotations others : Annotations) : Annotations where
  group := appendNew annotations.group others.group
  depends := appendNew annotations.depends others.depends
  dataProvider := appendNew annotations.dataProvider others.dataProvider
  testdox := appendNew annotations.testdox others.testdox
  isTest := annotations.isTest || others.isTest

/-- What the last docblock among the comments says, and then the attributes. -/
def ofSource (resolve : String → String) (comments : List Comment) (groups : List AttributeGroup) : Annotations :=
  let documented := match comments.reverse.find? (·.kind == .doc) with
    | some comment => ofDocblock comment.value
    | none => {}
  documented.merge (ofAttributes resolve groups)

def isEmpty (annotations : Annotations) : Bool := annotations = {}

end Annotations

end TestScout.Test
