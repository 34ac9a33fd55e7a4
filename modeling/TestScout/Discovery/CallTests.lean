import TestScout.Discovery.ClassTests
import TestScout.Text.Upper

/-! Tests in calls. A file without test classes may describe its tests by calls of `test`
and `it`, in groups that are calls of `describe`. The file then stands for a class whose
namespace is the directory that it is in. -/

namespace TestScout.Discovery
open Code Source Test

/-- What a call can describe. -/
inductive CallRole where
  | test
  | it
  | describe
deriving Repr, DecidableEq

def CallRole.ofCall? (call : Call) : Option CallRole :=
  if call.kind = .function then
    match (shortName (relativeName call.name)).toLower with
    | "test" => some .test
    | "it" => some .it
    | "describe" => some .describe
    | _ => none
  else none

/-- The call that a statement is, when the chain it is a part of starts by describing something. -/
def describing? : Node → Option (Call × CallRole)
  | .statement node =>
    match node.expression with
    | .call call => (CallRole.ofCall? call.root).map (call, ·)
    | _ => none
  | _ => none

/-- The statements of a program, those in namespaces included. -/
def topStatements (program : Program) : List Node :=
  program.children.flatMap fun
    | .space node => node.children
    | node => [node]

/-- A path segment as a part of a namespace: every word in it with a capital. -/
def studly (segment : String) : String :=
  let words := (Text.splitAt (fun c => c == '-' || c == '_' || c == ' ') segment.toList).filter (!·.isEmpty)
  String.ofList (words.flatMap fun
    | [] => []
    | first :: rest => Text.upper first ++ rest)

/-- What is the same for all tests of a file. -/
structure CallFile where
  /-- The path from the root on, with slashes. -/
  relative : String
  className : String
  space : Option String

namespace CallFile

def ofPath (file root : Path) : CallFile :=
  let written := (file.textBelow? root).getD file.text
  let relative := written.toList.map fun c => if c == '\\' then '/' else c
  let segments := ((Text.splitAt (· == '/') relative).filter (!·.isEmpty)).map String.ofList
  let fileName := (segments.getLast?.getD (String.ofList relative)).toList
  let space := "\\".intercalate (segments.dropLast.map studly)
  { relative := String.ofList relative
    className := String.ofList ((Text.before? ".php".toList fileName).getD fileName)
    space := if space.isEmpty then none else some space }

def qualifiedClass (file : CallFile) : String := "P\\" ++ qualify file.space file.className

def depth (file : CallFile) : Nat := if file.space.isSome then 2 else 1

end CallFile

/-- Between the descriptions in an id. -/
def descriptionMark : String := " → "

def strings (call : Call) : List String := call.arguments.filterMap (·.argument.text?)

/-- The calls behind the first one of a chain, in the order in which they are written. -/
def modifiersOf (call : Call) : List Call := call.links.reverse.drop 1

/-- What the calls behind the first one say about it. -/
def callAnnotations (call : Call) : Annotations :=
  (modifiersOf call).foldl (fun annotations modifier =>
    match modifier.name with
    | "group" => annotations.merge { group := strings modifier }
    | "depends" => annotations.merge { depends := strings modifier }
    | _ => annotations) {}

/-- The keys of the data sets that the calls behind the first one give. -/
def callKeys (call : Call) : List String :=
  (modifiersOf call).flatMap fun modifier =>
    if modifier.name == "with" then modifier.arguments.flatMap providerKeys else []

/-- A definition at the end of a path of descriptions. -/
def callDefinition (file : CallFile) (kind : DefinitionKind) (label : String) (path : List String) (depth : Nat)
    (extent : Extent) (call : Call) : Definition :=
  let described := descriptionMark.intercalate path
  placed extent {
    kind
    id := file.relative ++ "::" ++ described
    label
    depth
    annotations := callAnnotations call
    qualifiedClass := file.qualifiedClass
    space := file.space
    className := file.className
    methodName := described
    dataSets := if kind = .method then callKeys call else [] }

/-- The statements of the closure that is the second argument of a call. -/
def bodyOf (call : Call) : List Node :=
  match (call.arguments[1]?).map Node.argument with
  | some (.closure node) => node.body.children
  | _ => []

theorem sizeOf_root_le (call : Call) : sizeOf call.root ≤ sizeOf call := by
  match call with
  | ⟨_, _, _, _, none, _⟩ => exact Nat.le_refl _
  | ⟨_, _, _, _, some inner, _⟩ =>
    rw [Call.root]
    have := sizeOf_root_le inner
    simp only [Call.mk.sizeOf_spec, Option.some.sizeOf_spec]
    omega

theorem sizeOf_argument_le (node : Node) : sizeOf node.argument ≤ sizeOf node := by
  unfold Node.argument
  split
  · rename_i given
    cases given
    simp only [Node.namedArgument.sizeOf_spec, NamedArgument.mk.sizeOf_spec]
    omega
  · exact Nat.le_refl _

theorem sizeOf_bodyOf_lt (call : Call) : sizeOf (bodyOf call) < sizeOf call := by
  unfold bodyOf
  have positive : sizeOf ([] : List Node) < sizeOf call := by
    rcases call with ⟨kind, name, scope, arguments, chain, extent⟩
    have : 0 < sizeOf arguments := by cases arguments <;> simp only [List.nil.sizeOf_spec, List.cons.sizeOf_spec] <;> omega
    simp
    omega
  split
  · rename_i node found
    obtain ⟨argument, inside, same⟩ := Option.map_eq_some_iff.mp found
    have smaller := List.sizeOf_lt_of_mem (List.mem_of_getElem? inside)
    have unwrapped := sizeOf_argument_le argument
    rw [same] at unwrapped
    rcases node with ⟨isArrow, ⟨children, blockExtent⟩, extent⟩
    rcases call with ⟨kind, name, scope, arguments, chain, callExtent⟩
    simp only [Node.closure.sizeOf_spec, Closure.mk.sizeOf_spec, Block.mk.sizeOf_spec] at unwrapped
    simp only [Call.mk.sizeOf_spec] at smaller ⊢
    omega
  · exact positive

theorem sizeOf_describing_lt {statement : Node} {call : Call} {role : CallRole}
    (found : describing? statement = some (call, role)) : sizeOf call < sizeOf statement := by
  unfold describing? at found
  split at found
  · rename_i node
    rcases node with ⟨expression, comments, extent⟩
    split at found
    · rename_i inner same
      obtain ⟨_, -, pair⟩ := Option.map_eq_some_iff.mp found
      cases pair
      simp only at same
      subst same
      simp only [Node.statement.sizeOf_spec, ExpressionStatement.mk.sizeOf_spec, Node.call.sizeOf_spec]
      omega
    · contradiction
  · contradiction

/-- The tests and groups that statements describe below a path of descriptions. -/
def described (file : CallFile) (path : List String) (depth : Nat) : List Node → List Definition
  | [] => []
  | statement :: rest =>
    (match found : describing? statement with
    | none => []
    | some (call, role) =>
      match call.root.arguments.head?.bind (·.argument.text?) with
      | none => []
      | some text =>
        let extent := statement.extent?.getD call.extent
        match role with
        | .describe =>
          let path := path ++ ["`" ++ text ++ "`"]
          callDefinition file .describe text path depth extent call ::
            described file path (depth + 1) (bodyOf call.root)
        | .it =>
          let label := "it " ++ text
          [callDefinition file .method label (path ++ [label]) depth extent call]
        | .test => [callDefinition file .method text (path ++ [text]) depth extent call]) ++
      described file path depth rest
termination_by statements => sizeOf statements
decreasing_by
  · have inside := sizeOf_describing_lt found
    have root := sizeOf_root_le call
    have body := sizeOf_bodyOf_lt call.root
    simp only [List.cons.sizeOf_spec]
    omega
  · simp only [List.cons.sizeOf_spec]
    omega

/-- The tests of a file that describes them by calls, below the file itself. -/
def fileDefinitions (file root : Path) (program : Program) : List Definition :=
  let statements := topStatements program
  if statements.any fun statement => (describing? statement).isSome then
    let whole : Extent := ⟨{}, ((statements.getLast?.bind Node.extent?).map (·.stop)).getD {}⟩
    let context := CallFile.ofPath file root
    let classLike := placed whole {
      kind := .classLike
      id := context.relative
      label := context.className
      depth := context.depth
      qualifiedClass := context.qualifiedClass
      space := context.space
      className := context.className }
    (context.space.map fun space => spaceDefinition space whole).toList ++
      classLike :: described context [] (context.depth + 1) statements
  else []

end TestScout.Discovery
