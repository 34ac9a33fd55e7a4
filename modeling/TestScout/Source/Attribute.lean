import TestScout.Source.Nesting
import TestScout.Source.Point
import TestScout.Source.Quoted
import TestScout.Text.Letter
import TestScout.Text.Piece

/-! Attributes, read from the text of a group such as `#[Test, Group('slow')]`. -/

namespace TestScout.Source

structure Attribute where
  /-- The name as written, without backslashes in front. -/
  name : String
  /-- The arguments; a string literal stands for its text. -/
  arguments : List String
deriving Repr, DecidableEq, Inhabited

structure AttributeGroup where
  attributes : List Attribute := []
  extent : Option Extent := none
deriving Repr, DecidableEq, Inhabited

namespace Attribute

/-- The value of an argument written as `name: value`. Two colons in a row name a class
constant, not an argument. -/
def dropArgumentName (argument : List Char) : List Char :=
  let isNamePart := fun c => Text.isAlphanumeric c || c == '_'
  let name := argument.takeWhile isNamePart
  match name, argument.dropWhile isNamePart with
  | _ :: _, ':' :: ':' :: _ => argument
  | _ :: _, ':' :: value => Text.trimStart value
  | _, _ => argument

def argumentsOf (text : List Char) : List String :=
  (splitTopLevel text ',').map fun argument =>
    String.ofList (Quoted.decode (dropArgumentName (Text.trim argument)))

/-- One attribute, with its arguments between the first opening and the last closing
parenthesis; none when it has no name. -/
def ofText? (text : List Char) : Option Attribute :=
  let text := Text.trim text
  let name := (Text.trim (text.takeWhile (· != '('))).dropWhile (· == '\\')
  let arguments :=
    match text.dropWhile (· != '(') with
    | [] => []
    | _ :: inner => (Text.before? [')'] inner).getD inner
  if name.isEmpty then none else some ⟨String.ofList name, argumentsOf arguments⟩

end Attribute

/-- The group written as `text`; the brackets around it may be missing. -/
def AttributeGroup.ofText (text : String) (extent : Option Extent) : AttributeGroup :=
  let inner := ((Text.after? ['#', '['] (Text.trim text.toList)).bind (Text.before? [']'])).getD text.toList
  ⟨(splitTopLevel inner ',').filterMap Attribute.ofText?, extent⟩

end TestScout.Source
