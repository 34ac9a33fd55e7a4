import Mathlib.Data.List.TakeWhile
import TestScout.Proofs.DefinitionSites

/-! The ids of namespaces. No class has an id that starts with the id of a namespace around it: the name of a class
starts like the name of its namespace does, and behind the mark of a namespace this beginning would come too late. -/

namespace TestScout.Text

variable {mark : Char → Bool} {text piece : List Char}

/-- A text starts with its first piece. -/
theorem head?_splitAt (mark : Char → Bool) (text : List Char) :
    (splitAt mark text).head? = some (text.takeWhile fun c => !mark c) := by
  induction text with
  | nil => rfl
  | cons c rest ih =>
    rw [splitAt]
    split
    next marked => rw [List.takeWhile_cons_of_neg (by simp [marked]), List.head?_cons]
    next plain =>
      cases pieces : splitAt mark rest with
      | nil => simp [pieces] at ih
      | cons first others =>
        rw [pieces, List.head?_cons, Option.some_inj] at ih
        rw [List.takeWhile_cons_of_pos (by simp [plain]), ← ih, List.head?_cons]

/-- A beginning that a mark does not stand in ends before the mark. -/
theorem length_le_of_prefix {front back : List Char} {c : Char} (start : piece <+: front ++ c :: back) (absent : c ∉ piece) :
    piece.length ≤ front.length := by
  by_contra longer
  obtain ⟨rest, whole⟩ := start
  have marked : (piece ++ rest)[front.length]? = some c := by rw [whole]; simp
  rw [List.getElem?_append_left (Nat.lt_of_not_le longer)] at marked
  exact absent (List.mem_of_getElem? marked)

/-- A text does not start with its first word when something that belongs to the word stands in front of that. -/
theorem not_prefix_takeWhile {within : Char → Bool} (inside : ∀ c ∈ piece, within c = true) (filled : piece ≠ [])
    (text : List Char) : ¬piece ++ text.takeWhile within <+: text := by
  intro start
  have short : (piece ++ text.takeWhile within).length ≤ (text.takeWhile within).length := by
    have whole : text.takeWhile within ++ text.dropWhile within = text := List.takeWhile_append_dropWhile
    cases behind : text.dropWhile within with
    | nil =>
      rw [behind, List.append_nil] at whole
      have length := start.length_le
      rwa [← congrArg List.length whole] at length
    | cons c back =>
      have stops : within c = false := by
        have stopped := List.head?_dropWhile_not within text
        rwa [behind] at stopped
      have split : piece ++ text.takeWhile within <+: text.takeWhile within ++ c :: back := by
        rwa [← behind, whole]
      refine length_le_of_prefix split fun member => ?_
      rcases List.mem_append.mp member with marked | word
      · rw [inside c marked] at stops
        cases stops
      · rw [List.mem_takeWhile_imp word] at stops
        cases stops
  have some := List.length_pos_iff.mpr filled
  rw [List.length_append] at short
  omega

end TestScout.Text

namespace TestScout.Outline
open Test Builder

theorem prefix_of_mem_qualifiedSegments {before : String} {segments : List String} {named : String × String}
    (member : named ∈ qualifiedSegments before segments) (some : before ≠ "") : before.toList <+: named.1.toList := by
  induction segments generalizing before with
  | nil => cases member
  | cons segment rest ih =>
    have longer : before.toList <+: (before ++ "\\" ++ segment).toList := by
      simp only [String.toList_append, List.append_assoc]
      exact List.prefix_append _ _
    simp only [qualifiedSegments, String.isEmpty_iff, some, if_false, List.mem_cons] at member
    rcases member with rfl | later
    · exact longer
    · refine longer.trans (ih later ?_)
      intro empty
      have none := congrArg String.toList empty
      simp at none

/-- The id of a namespace starts with the mark and with what its name starts with. -/
theorem prefix_of_mem_spaceIds {label id : String} (member : id ∈ spaceIds (some label)) {front : List Char} (some : front ≠ [])
    (plain : '\\' ∉ front) (start : front <+: label.toList) : spaceMark.toList ++ front <+: id.toList := by
  obtain ⟨named, listed, rfl⟩ := List.mem_map.mp member
  rw [String.toList_append]
  refine List.prefix_append_right_inj _ |>.mpr ?_
  -- The first piece is the first segment, because it is not empty.
  obtain ⟨others, split⟩ := List.head?_eq_some_iff.mp (Text.head?_splitAt (· == '\\') label.toList)
  have first : front <+: label.toList.takeWhile fun c => !(c == '\\') := by
    obtain ⟨rest, whole⟩ := start
    rw [← whole, List.takeWhile_append_of_pos]
    · exact List.prefix_append _ _
    · intro c inside
      have differs : c ≠ '\\' := fun same => plain (same ▸ inside)
      simpa using differs
  generalize label.toList.takeWhile (fun c => !(c == '\\')) = head at first split
  have filled : head ≠ [] := fun none => some (List.prefix_nil.mp (none ▸ first))
  have kept : (!(String.ofList head).isEmpty) = true := by simp [filled]
  have nothing : ("".isEmpty : Bool) = true := by decide
  simp only [split, List.map_cons, List.filter_cons, kept, if_true, qualifiedSegments, nothing] at listed
  have some_first : String.ofList head ≠ "" := by simpa using filled
  rcases List.mem_cons.mp listed with rfl | later
  · rwa [String.toList_ofList]
  · have longer := prefix_of_mem_qualifiedSegments later some_first
    rw [String.toList_ofList] at longer
    exact first.trans longer

end TestScout.Outline

namespace TestScout.Discovery
open Test Outline Code

/-! ## Classes in programs -/

/-- No class of a program starts like a namespace around it: behind the mark there is the first segment again. -/
theorem not_prefix_qualify {label id : String} (member : id ∈ spaceIds (some label)) (name : String) :
    ¬id.toList <+: (qualify (some label) name).toList := by
  intro start
  by_cases none : label = ""
  · subst none
    cases member
  have named : (qualify (some label) name).toList = label.toList ++ '\\' :: name.toList := by
    simp [qualify, none]
  rw [named] at start
  -- The name starts like the mark, so there is something in front of its first backslash.
  let front := label.toList.takeWhile (· != '\\')
  obtain ⟨back, split⟩ : ∃ back, label.toList ++ '\\' :: name.toList = front ++ '\\' :: back := by
    have whole : front ++ label.toList.dropWhile (· != '\\') = label.toList := List.takeWhile_append_dropWhile
    cases rest : label.toList.dropWhile (· != '\\') with
    | nil =>
      rw [rest, List.append_nil] at whole
      exact ⟨name.toList, by rw [whole]⟩
    | cons c rest' =>
      have stops : ∀ c ∈ (label.toList.dropWhile (· != '\\')).head?, c = '\\' := by
        intro c found
        have stopped := List.head?_dropWhile_not (· != '\\') label.toList
        rw [found] at stopped
        simpa using stopped
      obtain rfl := stops c (by rw [rest]; rfl)
      exact ⟨rest' ++ '\\' :: name.toList, by rw [← whole, rest]; simp⟩
  have plain : '\\' ∉ front := fun inside => by simpa using List.mem_takeWhile_imp inside
  have filled : front ≠ [] := by
    intro empty
    obtain ⟨unmarked, rfl⟩ := marked_of_mem_spaceIds member
    rw [split, empty] at start
    obtain ⟨rest, whole⟩ := start
    simp [spaceMark] at whole
  have longer := prefix_of_mem_spaceIds member filled plain (List.takeWhile_prefix _)
  have length := Text.length_le_of_prefix (split ▸ longer.trans start) (by simp [plain, spaceMark])
  simp only [spaceMark, List.length_append, String.length_toList] at length
  exact absurd length (Nat.not_le_of_lt (Nat.lt_add_of_pos_left (by decide)))

/-! ## Files of tests in calls -/

/-- Where a word ends in a path. -/
private def endsWord (c : Char) : Bool := c == '-' || c == '_' || c == ' '

/-- The word that follows the mark at the start of a path, as a part of a namespace. -/
private def markedWord (rest : List Char) : List Char :=
  "Namespace:".toList ++ rest.takeWhile fun c => !endsWord c && !(c == '/')

private theorem prefix_studly (rest : List Char) :
    markedWord rest <+: (studly (String.ofList ((spaceMark.toList ++ rest).takeWhile fun c => !(c == '/')))).toList := by
  have inside : (spaceMark.toList ++ rest).takeWhile (fun c => !(c == '/')) =
      spaceMark.toList ++ rest.takeWhile fun c => !(c == '/') := List.takeWhile_append_of_pos (by simp [spaceMark])
  obtain ⟨others, split⟩ := List.head?_eq_some_iff.mp
    (Text.head?_splitAt endsWord (spaceMark.toList ++ rest.takeWhile fun c => !(c == '/')))
  have word : (spaceMark.toList ++ rest.takeWhile fun c => !(c == '/')).takeWhile (fun c => !endsWord c) =
      'n' :: ("amespace:".toList ++ rest.takeWhile fun c => !endsWord c && !(c == '/')) := by
    rw [List.takeWhile_append_of_pos (by simp [spaceMark, endsWord]), List.takeWhile_takeWhile]
    simp only [Bool.decide_and, Bool.decide_eq_true]
    rfl
  rw [word] at split
  have words : (Text.splitAt (fun c => c == '-' || c == '_' || c == ' ')
      (spaceMark.toList ++ rest.takeWhile fun c => !(c == '/'))) = _ := split
  have capital : Text.upper 'n' = ['N'] := by decide
  rw [inside, studly, String.toList_ofList, String.toList_ofList, words, List.filter_cons_of_pos (by simp),
    List.flatMap_cons]
  dsimp only
  rw [capital]
  exact List.prefix_append _ _

theorem prefix_intercalate (first : String) (rest : List String) : first.toList <+: ("\\".intercalate (first :: rest)).toList := by
  cases rest with
  | nil => simp
  | cons second rest =>
    rw [String.intercalate_cons_cons, String.toList_append, String.toList_append, List.append_assoc]
    exact List.prefix_append _ _

theorem no_backslash (file root : Path) : '\\' ∉ (CallFile.ofPath file root).relative.toList := by
  simp only [CallFile.ofPath, String.toList_ofList, List.mem_map, not_exists, not_and]
  intro c _
  split
  · decide
  next differs => simpa using differs

/-- The namespace of a path that starts with the mark starts with the first word of the path, with a capital. -/
private theorem markedWord_prefix {file root : Path} {rest : List Char} {label : String}
    (text : (CallFile.ofPath file root).relative.toList = spaceMark.toList ++ rest)
    (found : (CallFile.ofPath file root).space = some label) : markedWord rest <+: label.toList := by
  simp only [CallFile.ofPath, String.toList_ofList] at text found
  rw [text] at found
  obtain ⟨others, split⟩ := List.head?_eq_some_iff.mp (Text.head?_splitAt (· == '/') (spaceMark.toList ++ rest))
  have filled : (!((spaceMark.toList ++ rest).takeWhile fun c => !(c == '/')).isEmpty) = true := by
    rw [List.takeWhile_append_of_pos (by simp [spaceMark])]
    rfl
  rw [split, List.filter_cons_of_pos (by exact filled), List.map_cons] at found
  split at found
  · cases found
  next some_space =>
    cases below : (others.filter fun piece => !piece.isEmpty).map String.ofList with
    | nil =>
      rw [below] at some_space
      exact absurd rfl some_space
    | cons second later =>
      rw [below, List.dropLast_cons_of_ne_nil (List.cons_ne_nil _ _), List.map_cons, Option.some_inj] at found
      rw [← found]
      exact (prefix_studly rest).trans (prefix_intercalate _ _)

/-- No file of tests in calls has a path that starts with the id of a namespace around it. -/
theorem not_prefix_relative {file root : Path} {id : String} (member : id ∈ spaceIds (CallFile.ofPath file root).space) :
    ¬id.toList <+: (CallFile.ofPath file root).relative.toList := by
  intro start
  obtain ⟨unmarked, marked⟩ := marked_of_mem_spaceIds member
  obtain ⟨back, whole⟩ := start
  have text : (CallFile.ofPath file root).relative.toList = spaceMark.toList ++ (unmarked.toList ++ back) := by
    rw [← whole, marked, String.toList_append, List.append_assoc]
  cases found : (CallFile.ofPath file root).space with
  | none =>
    rw [found] at member
    cases member
  | some label =>
    rw [found] at member
    have begins := markedWord_prefix text found
    have plain : '\\' ∉ markedWord (unmarked.toList ++ back) := by
      intro inside
      rcases List.mem_append.mp inside with mark | later
      · exact absurd mark (by decide)
      · refine no_backslash file root (text ▸ List.mem_append_right _ ?_)
        exact (List.takeWhile_prefix _).subset later
    have filled : markedWord (unmarked.toList ++ back) ≠ [] := List.append_ne_nil_of_left_ne_nil (by decide) _
    have longer := (prefix_of_mem_spaceIds member filled plain begins).trans ⟨back, whole⟩
    rw [text, List.prefix_append_right_inj] at longer
    exact Text.not_prefix_takeWhile (by simp [endsWord]) (by decide) _ longer

/-- What calls describe are tests and groups, whose ids continue that of the file. -/
theorem mem_described {file : CallFile} {path : List String} {depth : Nat} {statements : List Code.Node} :
    ∀ definition ∈ described file path depth statements, (definition.kind = .describe ∨ definition.kind = .method) ∧
      (file.relative ++ "::").toList <+: definition.id.toList := by
  have named : ∀ kind label path depth extent call,
      (file.relative ++ "::").toList <+: (callDefinition file kind label path depth extent call).id.toList := by
    intro kind label path depth extent call
    simp only [callDefinition, placed, String.toList_append]
    exact List.prefix_append _ _
  fun_induction described file path depth statements with
  | case1 => exact List.forall_mem_nil _
  | case2 path depth statement rest inner others =>
    intro definition member
    rcases List.mem_append.mp member with own | later
    · split at own
      · cases own
      next call role found =>
        split at own
        · cases own
        next text _ =>
          cases role with
          | describe =>
            cases own with
            | head => exact ⟨.inl rfl, named ..⟩
            | tail _ below => exact inner call text found definition below
          | it => exact List.mem_singleton.mp own ▸ ⟨.inr rfl, named ..⟩
          | test => exact List.mem_singleton.mp own ▸ ⟨.inr rfl, named ..⟩
    · exact others definition later

/-- A class of a scope has its full name as its id, and its tests have ids that continue it. -/
theorem mem_classDefinitions {scope : Scope} {registry : Registry} {node : ClassDecl} {definition : Definition}
    (member : definition ∈ classDefinitions scope registry node) :
    definition.kind = .classLike ∧ definition.id = scope.qualify node.name ∧ definition.space = scope.space ∨
      definition.kind = .method ∧ (scope.qualify node.name ++ "::").toList <+: definition.id.toList := by
  simp only [classDefinitions] at member
  generalize (if node.isAbstract = true then [] else testsOf registry (scope.qualify node.name)) = tests at member
  split at member
  · cases member
  · rcases List.mem_cons.mp member with rfl | test
    · exact .inl ⟨rfl, rfl, rfl⟩
    · obtain ⟨method, -, rfl⟩ := List.mem_map.mp test
      refine .inr ⟨rfl, ?_⟩
      simp only [testDefinition, placed, String.toList_append]
      exact List.prefix_append _ _

/-- What is found in classes: the namespaces that these are in, and the classes with their tests. -/
def FoundInClasses (program : Program) (registry : Registry) (definition : Definition) : Prop :=
  ∃ scope ∈ Scope.ofProgram program, definition.kind = .space ∧ scope.space = some definition.label ∨
    ∃ node ∈ scope.classes, definition ∈ classDefinitions scope registry node

/-- What is found in calls: the namespace of the file, the class that stands for the file, and what the calls describe. -/
def FoundInCalls (file : CallFile) (definition : Definition) : Prop :=
  definition.kind = .space ∧ file.space = some definition.label ∨
    definition.kind = .classLike ∧ definition.id = file.relative ∧ definition.space = file.space ∨
      (definition.kind = .describe ∨ definition.kind = .method) ∧ (file.relative ++ "::").toList <+: definition.id.toList

/-- All that is found in a file is found in classes, or all of it in calls. -/
theorem definitionsOf_cases (registry : Registry) (file root : Path) (program : Program) :
    (∀ definition ∈ definitionsOf registry file root program, FoundInClasses program registry definition) ∨
      ∀ definition ∈ definitionsOf registry file root program, FoundInCalls (CallFile.ofPath file root) definition := by
  unfold definitionsOf
  split
  · refine .inr fun definition member => ?_
    generalize file_eq : CallFile.ofPath file root = context
    simp only [fileDefinitions, file_eq] at member
    split at member
    · rcases List.mem_append.mp member with space | inside
      · obtain ⟨name, found, rfl⟩ := Option.map_eq_some_iff.mp (Option.mem_toList.mp space)
        exact .inl ⟨rfl, found⟩
      · rcases List.mem_cons.mp inside with rfl | below
        · exact .inr (.inl ⟨rfl, rfl, rfl⟩)
        · exact .inr (.inr (mem_described definition below))
    · cases member
  · refine .inl fun definition member => ?_
    obtain ⟨scope, inside, found⟩ := List.mem_flatMap.mp member
    refine ⟨scope, inside, ?_⟩
    simp only [scopeDefinitions] at found
    split at found
    next space extent named placed =>
      split at found
      · cases found
      · rcases List.mem_cons.mp found with rfl | further
        · exact .inl ⟨rfl, named⟩
        · exact .inr (List.mem_flatMap.mp further)
    next => exact .inr (List.mem_flatMap.mp found)

/-- A class is one of a program, or it stands for a file that describes its tests by calls. -/
theorem classLike_of_mem_definitionsOf {registry : Registry} {file root : Path} {program : Program} {definition : Definition}
    (member : definition ∈ definitionsOf registry file root program) (kind : definition.kind = .classLike) :
    (∃ scope ∈ Scope.ofProgram program, ∃ node ∈ scope.classes,
      definition.id = scope.qualify node.name ∧ definition.space = scope.space) ∨
    definition.id = (CallFile.ofPath file root).relative ∧ definition.space = (CallFile.ofPath file root).space := by
  rcases definitionsOf_cases registry file root program with classes | calls
  · obtain ⟨scope, inside, ⟨other, -⟩ | ⟨node, within, own⟩⟩ := classes definition member
    · simp [kind] at other
    · rcases mem_classDefinitions own with ⟨-, id, space⟩ | ⟨other, -⟩
      · exact .inl ⟨scope, inside, node, within, id, space⟩
      · simp [kind] at other
  · rcases calls definition member with ⟨other, -⟩ | ⟨-, id, space⟩ | ⟨other | other, -⟩
    · simp [kind] at other
    · exact .inr ⟨id, space⟩
    · simp [kind] at other
    · simp [kind] at other

/-- No class that is found in a file has an id that starts with that of a namespace around it. -/
theorem Scout.look_apart {scout : Scout} {source : String} {file : Path} {suite : Option String} {definition : Definition}
    (member : definition ∈ (scout.look source file suite).2) (kind : definition.kind = .classLike) :
    ∀ id ∈ spaceIds definition.space, ¬id.toList <+: definition.id.toList := by
  intro id around
  unfold look at member
  split at member
  · cases member
  · obtain ⟨found, listed, rfl⟩ := List.mem_map.mp member
    rcases classLike_of_mem_definitionsOf listed kind with ⟨scope, -, node, -, named, spaced⟩ | ⟨named, spaced⟩
    · dsimp only at around ⊢
      rw [spaced] at around
      rw [named, Scope.qualify]
      cases space : scope.space with
      | none =>
        rw [space] at around
        cases around
      | some label =>
        rw [space] at around
        exact not_prefix_qualify around node.name
    · dsimp only at around ⊢
      rw [named]
      exact not_prefix_relative (spaced ▸ around)

end TestScout.Discovery
