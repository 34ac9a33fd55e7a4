import TestScout.Discovery.CallTests

/-! Calls that describe the same. A call says what it describes by the call at its root, and
the calls behind that one add annotations and keys; where two calls agree in these, the same
tests are described by them, up to the place where the description stops. -/

namespace TestScout

/-- A definition, wherever it stops. -/
def Test.Definition.withoutStop (definition : Definition) : Definition := { definition with stop := {} }

namespace Discovery
open Code Source Test

theorem withoutStop_placed (extent : Extent) (definition : Definition) :
    (placed extent definition).withoutStop = { definition with start := positionOf extent.start, stop := {} } := rfl

/-! ## Chains -/

theorem modifiersOf_root {call : Call} (root : call.chain = none) : modifiersOf call = [] := by
  obtain ⟨kind, name, scope, arguments, chain, extent⟩ := call
  cases root
  rfl

theorem modifiersOf_chain {call inner : Call} (chain : call.chain = some inner) :
    modifiersOf call = modifiersOf inner ++ [call] := by
  obtain ⟨kind, name, scope, arguments, _, extent⟩ := call
  cases chain
  have nonempty : inner.links ≠ [] := by
    intro empty
    have := inner.getLast?_links
    simp [empty] at this
  rw [modifiersOf, modifiersOf, Call.links, List.reverse_cons, List.drop_append_of_le_length]
  rw [List.length_reverse]
  exact List.length_pos_iff.mpr nonempty

theorem root_of_root {call : Call} (root : call.chain = none) : call.root = call := by
  obtain ⟨kind, name, scope, arguments, chain, extent⟩ := call
  cases root
  rfl

theorem root_of_chain {call inner : Call} (chain : call.chain = some inner) : call.root = inner.root := by
  obtain ⟨kind, name, scope, arguments, _, extent⟩ := call
  cases chain
  rfl

/-- What a call behind the first one adds to what has been said before. -/
def annotate (annotations : Annotations) (modifier : Call) : Annotations :=
  match modifier.name with
  | "group" => annotations.merge { group := strings modifier }
  | "depends" => annotations.merge { depends := strings modifier }
  | _ => annotations

def modifierKeys (modifier : Call) : List String :=
  if modifier.name == "with" then modifier.arguments.flatMap providerKeys else []

theorem callAnnotations_root {call : Call} (root : call.chain = none) : callAnnotations call = {} := by
  rw [callAnnotations, modifiersOf_root root]
  rfl

theorem callAnnotations_chain {call inner : Call} (chain : call.chain = some inner) :
    callAnnotations call = annotate (callAnnotations inner) call := by
  rw [callAnnotations, modifiersOf_chain chain, List.foldl_append]
  rfl

theorem callKeys_root {call : Call} (root : call.chain = none) : callKeys call = [] := by
  rw [callKeys, modifiersOf_root root]
  rfl

theorem callKeys_chain {call inner : Call} (chain : call.chain = some inner) :
    callKeys call = callKeys inner ++ modifierKeys call := by
  rw [callKeys, modifiersOf_chain chain, List.flatMap_append, List.flatMap_singleton]
  rfl

/-! ## Statements -/

/-- What one statement describes. -/
def describedBy (file : CallFile) (path : List String) (depth : Nat) (statement : Node) : List Definition :=
  match describing? statement with
  | none => []
  | some (call, role) =>
    match call.root.arguments.head?.bind (·.argument.text?) with
    | none => []
    | some text =>
      let extent := statement.extent?.getD call.extent
      match role with
      | .describe =>
        callDefinition file .describe text (path ++ ["\x60" ++ text ++ "\x60"]) depth extent call ::
          described file (path ++ ["\x60" ++ text ++ "\x60"]) (depth + 1) (bodyOf call.root)
      | .it => [callDefinition file .method ("it " ++ text) (path ++ ["it " ++ text]) depth extent call]
      | .test => [callDefinition file .method text (path ++ [text]) depth extent call]

theorem described_cons (file : CallFile) (path : List String) (depth : Nat) (statement : Node) (rest : List Node) :
    described file path depth (statement :: rest) =
      describedBy file path depth statement ++ described file path depth rest := by
  rw [described, describedBy]
  congr 1
  split
  next none => simp only [none]
  next call role found => cases role <;> simp only [found] <;> rfl

theorem described_eq (file : CallFile) (path : List String) (depth : Nat) (statements : List Node) :
    described file path depth statements = statements.flatMap (describedBy file path depth) := by
  induction statements with
  | nil => rw [described, List.flatMap_nil]
  | cons statement rest ih => rw [described_cons, ih, List.flatMap_cons]

theorem described_append (file : CallFile) (path : List String) (depth : Nat) (first second : List Node) :
    described file path depth (first ++ second) =
      described file path depth first ++ described file path depth second := by
  rw [described_eq, described_eq, described_eq, List.flatMap_append]

/-! ## Calls that say the same -/

/-- Statements that describe the same tests, up to where these stop. -/
structure TellsAlike (first second : List Node) : Prop where
  some : (first.any fun statement => (describing? statement).isSome) =
    second.any fun statement => (describing? statement).isSome
  tests : ∀ file path depth, (described file path depth first).map Definition.withoutStop =
    (described file path depth second).map Definition.withoutStop

theorem TellsAlike.append {first second further others : List Node} (alike : TellsAlike first second)
    (rest : TellsAlike further others) : TellsAlike (first ++ further) (second ++ others) where
  some := by rw [List.any_append, List.any_append, alike.some, rest.some]
  tests file path depth := by
    rw [described_append, described_append, List.map_append, List.map_append, alike.tests, rest.tests]

theorem TellsAlike.symm {first second : List Node} (alike : TellsAlike first second) : TellsAlike second first :=
  ⟨alike.some.symm, fun file path depth => (alike.tests file path depth).symm⟩

theorem TellsAlike.trans {first second third : List Node} (alike : TellsAlike first second)
    (also : TellsAlike second third) : TellsAlike first third :=
  ⟨alike.some.trans also.some, fun file path depth => (alike.tests file path depth).trans (also.tests file path depth)⟩

theorem TellsAlike.nothing : TellsAlike [] [] := ⟨rfl, fun _ _ _ => rfl⟩

/-- Statements that describe nothing do not count. -/
theorem tellsAlike_of_silent {first second : List Node} (silent : ∀ statement ∈ first, describing? statement = none)
    (also : ∀ statement ∈ second, describing? statement = none) : TellsAlike first second := by
  have nothing : ∀ statements : List Node, (∀ statement ∈ statements, describing? statement = none) →
      TellsAlike statements [] := by
    intro statements silent
    induction statements with
    | nil => exact .nothing
    | cons statement rest ih =>
      have below := ih fun other member => silent other (List.mem_cons_of_mem _ member)
      have head := silent statement List.mem_cons_self
      refine ⟨?_, fun file path depth => ?_⟩
      · rw [List.any_cons, head, below.some]
        rfl
      · rw [described_cons, describedBy, head]
        exact below.tests file path depth
  exact (nothing first silent).trans (nothing second also).symm

/-- Calls that describe the same, up to where it stops. -/
structure SaysAlike (first second : Call) : Prop where
  role : CallRole.ofCall? first.root = CallRole.ofCall? second.root
  text : first.root.arguments.head?.bind (·.argument.text?) = second.root.arguments.head?.bind (·.argument.text?)
  annotations : callAnnotations first = callAnnotations second
  keys : callKeys first = callKeys second
  body : CallRole.ofCall? first.root = some .describe → TellsAlike (bodyOf first.root) (bodyOf second.root)

theorem callDefinition_alike {first second : Call} (alike : SaysAlike first second) {extent other : Extent}
    (starts : extent.start = other.start) (file : CallFile) (kind : DefinitionKind) (label : String) (path : List String)
    (depth : Nat) :
    (callDefinition file kind label path depth extent first).withoutStop =
      (callDefinition file kind label path depth other second).withoutStop := by
  simp only [callDefinition, withoutStop_placed, alike.annotations, alike.keys, starts]

theorem tellsAlike_of_saysAlike {first second : Call} (alike : SaysAlike first second) {comments others : List Comment}
    {extent other : Extent} (starts : extent.start = other.start) :
    TellsAlike [.statement ⟨.call first, comments, extent⟩] [.statement ⟨.call second, others, other⟩] := by
  refine ⟨?_, fun file path depth => ?_⟩
  · simp only [List.any_cons, List.any_nil, describing?, alike.role, Option.isSome_map]
  · rw [described_cons, described_cons, described, List.append_nil, List.append_nil, describedBy, describedBy]
    simp only [describing?, ← alike.role]
    cases described : CallRole.ofCall? first.root with
    | none => rfl
    | some role =>
      simp only [Option.map_some, ← alike.text, Node.extent?, Option.getD_some]
      cases first.root.arguments.head?.bind (·.argument.text?) with
      | none => rfl
      | some text =>
        cases role with
        | describe => simp only [List.map_cons, callDefinition_alike alike starts, (alike.body described).tests]
        | it => simp only [List.map_cons, callDefinition_alike alike starts, List.map_nil]
        | test => simp only [List.map_cons, callDefinition_alike alike starts, List.map_nil]

/-- Programs whose statements describe the same have the same tests in calls. -/
theorem fileDefinitions_alike {first second : Program} (alike : TellsAlike (topStatements first) (topStatements second))
    (file root : Path) :
    (fileDefinitions file root first).map Definition.withoutStop =
      (fileDefinitions file root second).map Definition.withoutStop := by
  simp only [fileDefinitions, alike.some]
  split
  · cases (CallFile.ofPath file root).space <;>
      simp only [Option.map_none, Option.map_some, Option.toList_none, Option.toList_some, List.nil_append, List.cons_append,
        List.map_cons, spaceDefinition, withoutStop_placed, alike.tests]
  · rfl

end Discovery

end TestScout
