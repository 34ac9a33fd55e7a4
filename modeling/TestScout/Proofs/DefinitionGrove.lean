import Mathlib.Data.List.Basic
import TestScout.Discovery.Scout

/-! The shape of what is found in a file. Definitions come in blocks: a namespace or none, and
then classes, each with its tests and groups one level deeper than what they are in. -/

namespace TestScout.Test

/-- A list of trees, as the first child and the next sibling of each node. -/
inductive Grove (α : Type) where
  | bare
  | tree (label : α) (below beside : Grove α)

namespace Grove

variable {α β : Type}

def labels : Grove α → List α
  | bare => []
  | tree label below beside => label :: (below.labels ++ beside.labels)

def map (f : α → β) : Grove α → Grove β
  | bare => bare
  | tree label below beside => tree (f label) (below.map f) (beside.map f)

theorem labels_map (f : α → β) (grove : Grove α) : (grove.map f).labels = grove.labels.map f := by
  induction grove with
  | bare => rfl
  | tree label below beside left right => simp [map, labels, left, right]

def append : Grove α → Grove α → Grove α
  | bare, others => others
  | tree label below beside, others => tree label below (beside.append others)

theorem labels_append (first second : Grove α) : (first.append second).labels = first.labels ++ second.labels := by
  induction first with
  | bare => rfl
  | tree label below beside _ right => simp [append, labels, right]

/-- Tests and groups of tests that all lie so deep, with what is in the groups below them. -/
def Members : (depth : Nat) → Grove Definition → Prop
  | _, bare => True
  | depth, tree definition below beside =>
    definition.depth = depth ∧ definition.children = [] ∧
      (definition.kind = .describe ∧ Members (depth + 1) below ∨ definition.kind = .method ∧ below = bare) ∧
      Members depth beside

/-- Classes that all lie so deep and have the same namespace, each with its members. -/
def Classes (space : Option String) : (depth : Nat) → Grove Definition → Prop
  | _, bare => True
  | depth, tree definition below beside =>
    definition.depth = depth ∧ definition.children = [] ∧ definition.kind = .classLike ∧ definition.space = space ∧
      Members (depth + 1) below ∧ Classes space depth beside

/-- The ids of the top labels start with a text, and those below a label with its id and an arrow. -/
def Under : (start : String) → Grove Definition → Prop
  | _, bare => True
  | start, tree definition below beside =>
    start.toList <+: definition.id.toList ∧ Under (definition.id ++ Discovery.descriptionMark) below ∧ Under start beside

/-- What is below a top label has an id that starts with the id of that label and two colons. -/
def Owned : Grove Definition → Prop
  | bare => True
  | tree definition below beside => Under (definition.id ++ "::") below ∧ Owned beside

theorem Classes.append {space : Option String} {depth : Nat} {first second : Grove Definition}
    (before : Classes space depth first) (after : Classes space depth second) :
    Classes space depth (first.append second) := by
  induction first with
  | bare => exact after
  | tree definition below beside _ right =>
    obtain ⟨deep, flat, kind, same, members, rest⟩ := before
    exact ⟨deep, flat, kind, same, members, right rest⟩

theorem Owned.append {first second : Grove Definition} (before : first.Owned) (after : second.Owned) :
    (first.append second).Owned := by
  induction first with
  | bare => exact after
  | tree definition below beside _ right => exact ⟨before.1, right before.2⟩

theorem Members.map {change : Definition → Definition} (same : ∀ definition, (change definition).depth = definition.depth ∧
    (change definition).children = definition.children ∧ (change definition).kind = definition.kind) {depth : Nat}
    {grove : Grove Definition} (members : Members depth grove) : Members depth (grove.map change) := by
  induction grove generalizing depth with
  | bare => trivial
  | tree definition below beside left right =>
    obtain ⟨deep, flat, inner, rest⟩ := members
    obtain ⟨sameDepth, sameChildren, sameKind⟩ := same definition
    refine ⟨sameDepth.trans deep, sameChildren.trans flat, ?_, right rest⟩
    rcases inner with ⟨kind, further⟩ | ⟨kind, rfl⟩
    · exact .inl ⟨sameKind.trans kind, left further⟩
    · exact .inr ⟨sameKind.trans kind, rfl⟩

theorem Classes.map {change : Definition → Definition} (same : ∀ definition, (change definition).depth = definition.depth ∧
    (change definition).children = definition.children ∧ (change definition).kind = definition.kind ∧
    (change definition).space = definition.space) {space : Option String} {depth : Nat} {grove : Grove Definition}
    (classes : Classes space depth grove) : Classes space depth (grove.map change) := by
  induction grove with
  | bare => trivial
  | tree definition below beside _ right =>
    obtain ⟨deep, flat, kind, named, members, rest⟩ := classes
    obtain ⟨sameDepth, sameChildren, sameKind, sameSpace⟩ := same definition
    refine ⟨sameDepth.trans deep, sameChildren.trans flat, sameKind.trans kind, sameSpace.trans named, ?_, right rest⟩
    exact members.map fun definition => ⟨(same definition).1, (same definition).2.1, (same definition).2.2.1⟩

theorem Under.map {change : Definition → Definition} (same : ∀ definition, (change definition).id = definition.id)
    {start : String} {grove : Grove Definition} (under : grove.Under start) : (grove.map change).Under start := by
  induction grove generalizing start with
  | bare => trivial
  | tree definition below beside left right =>
    obtain ⟨own, inner, rest⟩ := under
    refine ⟨(same definition).symm ▸ own, ?_, right rest⟩
    rw [same]
    exact left inner

theorem Owned.map {change : Definition → Definition} (same : ∀ definition, (change definition).id = definition.id)
    {grove : Grove Definition} (owned : grove.Owned) : (grove.map change).Owned := by
  induction grove with
  | bare => trivial
  | tree definition below beside _ right =>
    refine ⟨?_, right owned.2⟩
    rw [same]
    exact owned.1.map same

theorem Under.label {start : String} {grove : Grove Definition} (under : grove.Under start) {definition : Definition}
    (member : definition ∈ grove.labels) : start.toList <+: definition.id.toList := by
  induction grove generalizing start with
  | bare => cases member
  | tree first below beside left right =>
    obtain ⟨own, inner, rest⟩ := under
    rcases List.mem_cons.mp member with rfl | later
    · exact own
    rcases List.mem_append.mp later with inside | after
    · have deeper := left inner inside
      rw [String.toList_append] at deeper
      exact own.trans ((List.prefix_append _ _).trans deeper)
    · exact right rest after

end Grove

/-! ## Groves as lists -/

/-- How deep a list of definitions starts, or what follows it. -/
def startDepth (closing : Nat) (definitions : List Definition) : Nat := (definitions.head?.map (·.depth)).getD closing

/-- What follows a test method is at most as deep. -/
def Flat (closing : Nat) : List Definition → Prop
  | [] => True
  | definition :: rest =>
    (definition.kind = .method → startDepth closing rest ≤ definition.depth) ∧ Flat closing rest

namespace Grove

variable {depth closing : Nat} {space : Option String} {grove : Grove Definition} {rest : List Definition}

theorem Members.start (members : Members depth grove) (after : startDepth closing rest ≤ depth) :
    startDepth closing (grove.labels ++ rest) ≤ depth := by
  cases grove with
  | bare => exact after
  | tree definition below beside => exact Nat.le_of_eq members.1

theorem Members.flat (members : Members depth grove) (after : startDepth closing rest ≤ depth)
    (flat : Flat closing rest) : Flat closing (grove.labels ++ rest) := by
  induction grove generalizing depth rest with
  | bare => exact flat
  | tree definition below beside left right =>
    obtain ⟨deep, -, inner, besides⟩ := members
    have later := right besides after flat
    have start := besides.start after
    rw [labels, List.cons_append, List.append_assoc]
    rcases inner with ⟨kind, further⟩ | ⟨-, rfl⟩
    · exact ⟨fun method => (nomatch kind.symm.trans method), left further (Nat.le_succ_of_le start) later⟩
    · exact ⟨fun _ => deep.symm ▸ start, later⟩

theorem Classes.start (classes : Classes space depth grove) (after : startDepth closing rest ≤ depth) :
    startDepth closing (grove.labels ++ rest) ≤ depth := by
  cases grove with
  | bare => exact after
  | tree definition below beside => exact Nat.le_of_eq classes.1

theorem Classes.flat (classes : Classes space depth grove) (after : startDepth closing rest ≤ depth)
    (flat : Flat closing rest) : Flat closing (grove.labels ++ rest) := by
  induction grove with
  | bare => exact flat
  | tree definition below beside _ right =>
    obtain ⟨-, -, kind, -, members, besides⟩ := classes
    have start := besides.start after
    rw [labels, List.cons_append, List.append_assoc]
    exact ⟨fun method => (nomatch kind.symm.trans method),
      members.flat (Nat.le_succ_of_le start) (right besides)⟩

theorem Members.label (members : Members depth grove) {definition : Definition} (member : definition ∈ grove.labels) :
    depth ≤ definition.depth ∧ definition.children = [] ∧ (definition.kind = .describe ∨ definition.kind = .method) := by
  induction grove generalizing depth with
  | bare => cases member
  | tree first below beside left right =>
    obtain ⟨deep, flat, inner, besides⟩ := members
    rcases List.mem_cons.mp member with rfl | later
    · exact ⟨Nat.le_of_eq deep.symm, flat, inner.imp And.left And.left⟩
    rcases List.mem_append.mp later with inside | after
    · rcases inner with ⟨-, further⟩ | ⟨-, rfl⟩
      · exact (left further inside).imp_left Nat.le_of_succ_le
      · cases inside
    · exact right besides after

theorem Classes.label (classes : Classes space depth grove) {definition : Definition} (member : definition ∈ grove.labels) :
    definition.children = [] ∧ (definition.kind = .classLike ∧ definition.depth = depth ∧ definition.space = space ∨
      (definition.kind = .describe ∨ definition.kind = .method) ∧ depth < definition.depth) := by
  induction grove with
  | bare => cases member
  | tree first below beside _ right =>
    obtain ⟨deep, flat, kind, named, members, besides⟩ := classes
    rcases List.mem_cons.mp member with rfl | later
    · exact ⟨flat, .inl ⟨kind, deep, named⟩⟩
    rcases List.mem_append.mp later with inside | after
    · obtain ⟨lower, flat, kind⟩ := members.label inside
      exact ⟨flat, .inr ⟨kind, lower⟩⟩
    · exact right besides after

end Grove

/-- A namespace, or none, with its classes. -/
structure SpaceBlock where
  space : Option Definition
  classes : Grove Definition

namespace SpaceBlock

def events (block : SpaceBlock) : List Definition := block.space.toList ++ block.classes.labels

/-- How deep the classes of a block lie. -/
def depth (block : SpaceBlock) : Nat := if block.space.isSome then 2 else 1

structure Shaped (block : SpaceBlock) : Prop where
  space : ∀ space ∈ block.space, space.kind = .space ∧ space.depth = 1
  some : block.classes ≠ .bare
  classes : block.classes.Classes (block.space.map (·.label)) block.depth
  owned : block.classes.Owned

variable {block : SpaceBlock} {definition : Definition}

theorem depth_pos (block : SpaceBlock) : 0 < block.depth := by
  unfold depth
  split <;> decide

/-- A block starts at the depth of a namespace, be it with a namespace or with a class. -/
theorem Shaped.start (shaped : block.Shaped) (rest : List Definition) : startDepth 1 (block.events ++ rest) = 1 := by
  obtain ⟨space, some, classes, -⟩ := shaped
  obtain ⟨space?, grove⟩ := block
  cases space? with
  | some found => exact (space found rfl).2
  | none =>
    cases grove with
    | bare => exact absurd rfl some
    | tree definition below beside => exact classes.1

theorem Shaped.flat (shaped : block.Shaped) : Flat 1 block.classes.labels := by
  have flat : Flat 1 (block.classes.labels ++ []) := shaped.classes.flat block.depth_pos trivial
  rwa [List.append_nil] at flat

theorem Shaped.deep (shaped : block.Shaped) (member : definition ∈ block.classes.labels) : block.depth ≤ definition.depth :=
  (shaped.classes.label member).2.elim (fun found => Nat.le_of_eq found.2.1.symm) fun found => Nat.le_of_lt found.2

theorem Shaped.item (shaped : block.Shaped) (member : definition ∈ block.classes.labels) : definition.kind ≠ .space := by
  rcases (shaped.classes.label member).2 with ⟨kind, -⟩ | ⟨kind | kind, -⟩ <;> simp [kind]

theorem Shaped.first (shaped : block.Shaped) : ∃ first rest, block.classes.labels = first :: rest ∧
    first.kind = .classLike ∧ first.depth = block.depth := by
  obtain ⟨-, some, classes, -⟩ := shaped
  cases grove : block.classes with
  | bare => exact absurd grove some
  | tree definition below beside =>
    rw [grove] at classes
    exact ⟨definition, _, rfl, classes.2.2.1, classes.1⟩

theorem definitions_of_blocks {blocks : List SpaceBlock} (shaped : ∀ block ∈ blocks, block.Shaped) :
    (blocks.flatMap SpaceBlock.events).filter (·.kind != .space) = blocks.flatMap (·.classes.labels) := by
  rw [List.filter_flatMap]
  refine List.flatMap_congr fun block member => ?_
  have shaped := shaped block member
  have spaces : block.space.toList.filter (·.kind != .space) = [] :=
    List.filter_eq_nil_iff.mpr fun space found => by simp [(shaped.space space (Option.mem_toList.mp found)).1]
  have classes : block.classes.labels.filter (·.kind != .space) = block.classes.labels :=
    List.filter_eq_self.mpr fun definition found => by simpa using shaped.item found
  rw [SpaceBlock.events, List.filter_append, spaces, classes, List.nil_append]

end SpaceBlock

end TestScout.Test

namespace TestScout.Discovery
open Code Test

private theorem methods_grove (definitions : List Definition) {depth : Nat} {start : String}
    (methods : ∀ definition ∈ definitions, definition.kind = .method ∧ definition.depth = depth ∧
      definition.children = [] ∧ start.toList <+: definition.id.toList) :
    ∃ grove : Grove Definition, grove.Members depth ∧ grove.Under start ∧ grove.labels = definitions := by
  induction definitions with
  | nil => exact ⟨.bare, trivial, trivial, rfl⟩
  | cons first rest ih =>
    obtain ⟨kind, deep, flat, named⟩ := methods first List.mem_cons_self
    obtain ⟨grove, members, under, same⟩ :=
      ih fun definition member => methods definition (List.mem_cons_of_mem _ member)
    refine ⟨.tree first .bare grove, ⟨deep, flat, .inr ⟨kind, rfl⟩, members⟩, ⟨named, trivial, under⟩, ?_⟩
    simp [Grove.labels, same]

theorem classDefinitions_grove (scope : Scope) (registry : Registry) (node : ClassDecl) :
    ∃ grove : Grove Definition, grove.Classes scope.space (if scope.space.isSome then 2 else 1) ∧ grove.Owned ∧
      grove.labels = classDefinitions scope registry node := by
  simp only [classDefinitions]
  generalize (if scope.space.isSome = true then 2 else 1) = depth
  generalize (if node.isAbstract = true then [] else testsOf registry (scope.qualify node.name)) = tests
  split
  · exact ⟨.bare, trivial, trivial, rfl⟩
  · have methods : ∀ definition ∈ tests.map (testDefinition scope registry depth node),
        definition.kind = .method ∧ definition.depth = depth + 1 ∧ definition.children = [] ∧
          (scope.qualify node.name ++ "::").toList <+: definition.id.toList := by
      intro definition member
      obtain ⟨test, -, rfl⟩ := List.mem_map.mp member
      refine ⟨rfl, rfl, rfl, ?_⟩
      simp only [testDefinition, placed, String.toList_append]
      exact List.prefix_append _ _
    obtain ⟨grove, members, under, same⟩ := methods_grove _ methods
    refine ⟨.tree (classDefinition scope depth node) grove .bare, ⟨rfl, rfl, rfl, rfl, members, trivial⟩,
      ⟨under, trivial⟩, ?_⟩
    simp [Grove.labels, same]

private theorem classes_grove (scope : Scope) (registry : Registry) (nodes : List ClassDecl) :
    ∃ grove : Grove Definition, grove.Classes scope.space (if scope.space.isSome then 2 else 1) ∧ grove.Owned ∧
      grove.labels = nodes.flatMap (classDefinitions scope registry) := by
  induction nodes with
  | nil => exact ⟨.bare, trivial, trivial, rfl⟩
  | cons node rest ih =>
    obtain ⟨first, shaped, owned, same⟩ := classDefinitions_grove scope registry node
    obtain ⟨others, further, besides, equal⟩ := ih
    exact ⟨first.append others, shaped.append further, owned.append besides, by
      rw [Grove.labels_append, same, equal, List.flatMap_cons]⟩

mutual

private theorem frame_add (scope : Scope) (node : Node) :
    (scope.add node).space = scope.space ∧ (scope.add node).extent = scope.extent := by
  match node with
  | .block ⟨children, _⟩ => exact frame_addAll scope children
  | .imports _ | .classDecl _ | .traitDecl _ | .program _ | .space _ | .method _ | .traitUse _ | .statement _ | .call _
  | .string _ | .number _ | .namedArgument _ | .closure _ | .returned _ | .yielded _ | .included _ | .array _ | .entry _
  | .name _ | .unknown _ => exact ⟨rfl, rfl⟩

private theorem frame_addAll (scope : Scope) (nodes : List Node) :
    (scope.addAll nodes).space = scope.space ∧ (scope.addAll nodes).extent = scope.extent := by
  match nodes with
  | [] => exact ⟨rfl, rfl⟩
  | node :: rest =>
    obtain ⟨space, extent⟩ := frame_addAll (scope.add node) rest
    obtain ⟨same, equal⟩ := frame_add scope node
    exact ⟨space.trans same, extent.trans equal⟩

end

/-- A scope has a namespace only where a namespace block is. -/
theorem extent_of_space {program : Program} {scope : Scope} (inside : scope ∈ Scope.ofProgram program)
    (named : scope.space.isSome) : scope.extent.isSome := by
  rcases List.mem_cons.mp inside with rfl | block
  · rw [(frame_addAll {} _).1] at named
    cases named
  · obtain ⟨node, -, rfl⟩ := List.mem_map.mp block
    rw [Scope.ofSpace, (frame_addAll _ _).2]
    rfl

theorem scopeDefinitions_blocks {program : Program} {scope : Scope} (inside : scope ∈ Scope.ofProgram program)
    (registry : Registry) : ∃ blocks : List SpaceBlock, (∀ block ∈ blocks, block.Shaped) ∧
      scopeDefinitions registry scope = blocks.flatMap SpaceBlock.events := by
  obtain ⟨grove, shaped, owned, same⟩ := classes_grove scope registry scope.classes
  unfold scopeDefinitions
  rw [← same]
  cases grove with
  | bare =>
    refine ⟨[], by simp, ?_⟩
    split <;> rfl
  | tree first below beside =>
    cases space : scope.space with
    | none =>
      rw [space] at shaped
      refine ⟨[⟨none, .tree first below beside⟩], ?_, by simp [SpaceBlock.events]⟩
      intro block member
      rw [List.mem_singleton.mp member]
      exact { space := by simp, some := by simp, classes := shaped, owned }
    | some name =>
      obtain ⟨extent, found⟩ := Option.isSome_iff_exists.mp (extent_of_space inside (by rw [space]; rfl))
      rw [space] at shaped
      refine ⟨[⟨some (spaceDefinition name extent), .tree first below beside⟩], ?_, ?_⟩
      · intro block member
        rw [List.mem_singleton.mp member]
        exact { space := by simp [spaceDefinition, placed], some := by simp, classes := shaped, owned }
      · simp [found, SpaceBlock.events, Grove.labels]

/-- How the ids start of what is described at the end of a path of descriptions. -/
def idStart (file : CallFile) (path : List String) : String :=
  file.relative ++ "::" ++ if path = [] then "" else descriptionMark.intercalate path ++ descriptionMark

theorem idStart_snoc (file : CallFile) (path : List String) (text : String) :
    idStart file (path ++ [text]) = idStart file path ++ text ++ descriptionMark := by
  by_cases top : path = []
  · simp [idStart, top, String.append_assoc]
  · simp [idStart, top, String.intercalate_append_of_ne_nil top, String.append_assoc]

private theorem callDefinition_id (file : CallFile) (kind : DefinitionKind) (label : String) (path : List String)
    (text : String) (depth : Nat) (extent : Source.Extent) (call : Call) :
    (callDefinition file kind label (path ++ [text]) depth extent call).id = idStart file path ++ text := by
  simp only [callDefinition, placed]
  by_cases top : path = []
  · simp [idStart, top]
  · simp [idStart, top, String.intercalate_append_of_ne_nil top, String.append_assoc]

/-- Tests and groups in calls lie one level deeper than the group that they are in. -/
theorem described_grove (file : CallFile) (path : List String) (depth : Nat) (statements : List Node) :
    ∃ grove : Grove Definition, grove.Members depth ∧ grove.Under (idStart file path) ∧
      grove.labels = described file path depth statements := by
  have named : ∀ (kind : DefinitionKind) (label text : String) (path : List String) (depth : Nat) (extent : Source.Extent)
      (call : Call), (idStart file path).toList <+:
        (callDefinition file kind label (path ++ [text]) depth extent call).id.toList := by
    intro kind label text path depth extent call
    rw [callDefinition_id, String.toList_append]
    exact List.prefix_append _ _
  fun_induction described file path depth statements with
  | case1 => exact ⟨.bare, trivial, trivial, rfl⟩
  | case2 path depth statement rest inner others =>
    obtain ⟨beside, besides, under, after⟩ := others
    rw [← after]
    split
    · exact ⟨beside, besides, under, rfl⟩
    next call role found =>
      split
      · exact ⟨beside, besides, under, rfl⟩
      next text _ =>
        cases role with
        | describe =>
          obtain ⟨below, members, deeper, same⟩ := inner call text found
          let group := callDefinition file .describe text (path ++ ["`" ++ text ++ "`"]) depth
            (statement.extent?.getD call.extent) call
          rw [idStart_snoc, ← callDefinition_id] at deeper
          refine ⟨.tree group below beside, ⟨rfl, rfl, .inl ⟨rfl, members⟩, besides⟩, ⟨named .., deeper, under⟩, ?_⟩
          simp only [Grove.labels, same, List.cons_append]
          rfl
        | it =>
          exact ⟨.tree _ .bare beside, ⟨rfl, rfl, .inr ⟨rfl, rfl⟩, besides⟩, ⟨named .., trivial, under⟩, rfl⟩
        | test =>
          exact ⟨.tree _ .bare beside, ⟨rfl, rfl, .inr ⟨rfl, rfl⟩, besides⟩, ⟨named .., trivial, under⟩, rfl⟩

theorem fileDefinitions_blocks (file root : Path) (program : Program) :
    ∃ blocks : List SpaceBlock, (∀ block ∈ blocks, block.Shaped) ∧
      fileDefinitions file root program = blocks.flatMap SpaceBlock.events := by
  simp only [fileDefinitions]
  split
  · generalize (⟨{}, (((topStatements program).getLast?.bind Node.extent?).map (·.stop)).getD {}⟩ : Source.Extent) = whole
    generalize CallFile.ofPath file root = context
    obtain ⟨members, shaped, under, same⟩ := described_grove context [] (context.depth + 1) (topStatements program)
    rw [← same]
    let classLike := placed whole {
      kind := .classLike, id := context.relative, label := context.className, depth := context.depth
      qualifiedClass := context.qualifiedClass, space := context.space, className := context.className }
    refine ⟨[⟨context.space.map (spaceDefinition · whole), .tree classLike members .bare⟩], ?_, ?_⟩
    · intro block member
      rw [List.mem_singleton.mp member]
      refine { space := ?_, some := by simp, classes := ?_, owned := ⟨?_, trivial⟩ }
      · intro space found
        obtain ⟨name, -, rfl⟩ := Option.map_eq_some_iff.mp found
        exact ⟨rfl, rfl⟩
      · have depth : (if (context.space.map (spaceDefinition · whole)).isSome then 2 else 1) = context.depth := by
          cases found : context.space <;> simp [CallFile.depth, found]
        have label : (context.space.map (spaceDefinition · whole)).map (·.label) = context.space := by
          cases context.space <;> rfl
        simp only [SpaceBlock.depth, depth, label]
        exact ⟨rfl, rfl, rfl, rfl, shaped, trivial⟩
      · have top : members.Under (context.relative ++ "::") := by simpa [idStart] using under
        exact top
    · simp only [List.flatMap_cons, List.flatMap_nil, List.append_nil, SpaceBlock.events, Grove.labels]
      rfl
  · exact ⟨[], by simp, rfl⟩

theorem definitionsOf_blocks (registry : Registry) (file root : Path) (program : Program) :
    ∃ blocks : List SpaceBlock, (∀ block ∈ blocks, block.Shaped) ∧
      definitionsOf registry file root program = blocks.flatMap SpaceBlock.events := by
  have scopes : ∀ scopes : List Scope, (∀ scope ∈ scopes, scope ∈ Scope.ofProgram program) →
      ∃ blocks : List SpaceBlock, (∀ block ∈ blocks, block.Shaped) ∧
        scopes.flatMap (scopeDefinitions registry) = blocks.flatMap SpaceBlock.events := by
    intro scopes inside
    induction scopes with
    | nil => exact ⟨[], by simp, rfl⟩
    | cons scope rest ih =>
      obtain ⟨first, shaped, same⟩ := scopeDefinitions_blocks (inside scope List.mem_cons_self) registry
      obtain ⟨others, further, equal⟩ := ih fun scope member => inside scope (List.mem_cons_of_mem _ member)
      refine ⟨first ++ others, fun block member => ?_, by rw [List.flatMap_cons, same, equal, List.flatMap_append]⟩
      exact (List.mem_append.mp member).elim (shaped block) (further block)
  unfold definitionsOf
  split
  · exact fileDefinitions_blocks file root program
  · exact scopes _ fun _ => id

/-- What a scout finds in a file comes in blocks. -/
theorem Scout.look_blocks (scout : Scout) (source : String) (file : Path) (suite : Option String) :
    ∃ blocks : List SpaceBlock, (∀ block ∈ blocks, block.Shaped) ∧
      (scout.look source file suite).2 = blocks.flatMap SpaceBlock.events := by
  unfold Scout.look
  split
  · exact ⟨[], by simp, rfl⟩
  next program _ =>
    obtain ⟨blocks, shaped, same⟩ := definitionsOf_blocks
      (registerClasses (scout.registry.removeFile file) file (Scope.ofProgram program)) file scout.root program
    let place := fun definition : Definition => { definition with file, suite }
    refine ⟨blocks.map fun block => ⟨block.space.map place, block.classes.map place⟩, ?_, ?_⟩
    · intro block member
      obtain ⟨old, listed, rfl⟩ := List.mem_map.mp member
      obtain ⟨space, some, classes, owned⟩ := shaped old listed
      have ids : ∀ definition, (place definition).id = definition.id := fun _ => rfl
      refine { space := ?_, some := ?_, classes := ?_, owned := owned.map ids }
      · intro placed found
        obtain ⟨written, inside, rfl⟩ := Option.map_eq_some_iff.mp found
        exact space written inside
      · intro bare
        cases found : old.classes with
        | bare => exact some found
        | tree => simp [found, Grove.map] at bare
      · have label : ((old.space.map place).map (·.label)) = old.space.map (·.label) := by cases old.space <;> rfl
        have depth : (⟨old.space.map place, old.classes.map place⟩ : SpaceBlock).depth = old.depth := by
          simp [SpaceBlock.depth]
        rw [depth, label]
        have kept : ∀ definition, (place definition).depth = definition.depth ∧
            (place definition).children = definition.children ∧ (place definition).kind = definition.kind ∧
            (place definition).space = definition.space := fun _ => ⟨rfl, rfl, rfl, rfl⟩
        exact classes.map kept
    · simp only [same, List.map_flatMap, List.flatMap_map]
      congr 1
      funext block
      simp only [SpaceBlock.events, List.map_append, Grove.labels_map]
      cases block.space <;> rfl

theorem Scout.look_flat (scout : Scout) (source : String) (file : Path) (suite : Option String) :
    ∀ definition ∈ (scout.look source file suite).2.filter (·.kind != .space), definition.children = [] := by
  obtain ⟨blocks, shaped, same⟩ := scout.look_blocks source file suite
  intro definition member
  rw [same, SpaceBlock.definitions_of_blocks shaped] at member
  obtain ⟨block, listed, inside⟩ := List.mem_flatMap.mp member
  exact ((shaped block listed).classes.label inside).1

end TestScout.Discovery
