import TestScout.Code.Read
import TestScout.Code.Written
import TestScout.Registry.Methods

/-! Known classes and their methods as JSON. -/

namespace TestScout
open Json Code

def VisibleMethod.toJson (member : VisibleMethod) : Value :=
  .object [
    ("name", .string member.name), ("visibility", .string member.method.visibility.name),
    ("abstract", .bool member.method.isAbstract), ("static", .bool member.method.isStatic),
    ("declaring", .string member.declaring), ("inherited", .bool member.isInherited)]

def ClassKind.name : ClassKind → String
  | .classDecl => "class"
  | .traitDecl => "trait"

def ClassKind.ofName : String → ClassKind
  | "trait" => .traitDecl
  | _ => .classDecl

def Imports.toJson (imports : Imports) : Value :=
  .object (imports.entries.map fun (shortName, fullName) => (shortName, .string fullName))

/-- Of its methods an entry shows the names. -/
def ClassInfo.toJson (info : ClassInfo) : Value :=
  .object [
    ("fqn", .string info.name), ("kind", .string info.kind.name), ("abstract", .bool info.isAbstract),
    ("parent", Value.orNull (info.parent.map .string)), ("traits", Value.strings info.traits),
    ("adaptations", .array (info.adaptations.map Adaptation.toJson)),
    ("methods", Value.strings (info.methods.map (·.name))), ("uses", info.imports.toJson),
    ("file", .string info.file.text)]

/-- An entry with its methods as nodes, without imports. -/
def ClassInfo.ofJson (value : Value) : ClassInfo where
  name := value.textAt "fqn"
  kind := .ofName (value.textAt "kind")
  isAbstract := value.flagAt "abstract"
  parent := value.textAt? "parent"
  traits := value.textsAt "traits"
  adaptations := (value.itemsAt "adaptations").map Adaptation.ofJson
  methods := (value.itemsAt "methods").map Method.ofJson
  file := ⟨value.textAt "file"⟩

end TestScout
