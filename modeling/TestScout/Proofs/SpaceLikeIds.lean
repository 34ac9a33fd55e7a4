import Mathlib.Data.List.Infix
import TestScout.Proofs.SpaceIds
import TestScout.Proofs.TextWords

/-! Ids like those of namespaces. The items of namespaces share the outline with the items of definitions, so it matters
which definitions could go by such an id. None could, but for one: a file right in the root that describes its tests by
calls and whose own name reads like the id of a namespace. Such a file is in no namespace. -/

namespace TestScout.Text

/-! ## Capitals -/

theorem toUpper_ne_slash {c : Char} (other : c ≠ '/') : c.toUpper ≠ '/' := by
  unfold Char.toUpper
  split
  next letter =>
    intro same
    have := congrArg (·.val.toNat) same
    obtain ⟨low, high⟩ := letter
    simp [UInt32.le_iff_toNat_le] at this low high
    omega
  next => exact other

theorem not_slash_mem_upper {c : Char} (other : c ≠ '/') : '/' ∉ upper c := by
  have expansions : ∀ pair ∈ upperExpansions.toList, '/' ∉ pair.2.map Char.ofNat := by decide +kernel
  have runs : ∀ run ∈ upperRuns.toList, 47 < run.1 + run.2.2.2 := by decide +kernel
  unfold upper
  split
  · simpa using (toUpper_ne_slash other).symm
  · split
    next code codes found =>
      exact expansions _ (Array.mem_toList_iff.mpr (Array.mem_of_find?_eq_some found))
    next =>
      split
      next first last step distance found =>
        have far := runs _ (Array.mem_toList_iff.mpr (Array.mem_of_find?_eq_some found))
        have inside := Array.find?_some found
        simp only [Bool.and_eq_true, decide_eq_true_eq] at inside far
        intro same
        have code : (Char.ofNat (c.toNat + distance).toNat).toNat = 47 := by
          rw [← List.mem_singleton.mp same]
          rfl
        by_cases valid : ((c.toNat + distance).toNat).isValidChar
        · rw [Char.ofNat, dif_pos valid] at code
          have same : (c.toNat + distance).toNat = 47 := code
          omega
        · rw [Char.ofNat, dif_neg valid] at code
          cases code
      next => simpa using other.symm

end TestScout.Text

namespace TestScout.Path

/-! ## The name that a path ends in -/

variable {path : Path} {segment : String} {part : Part}

theorem name_of_partOf? (found : partOf? segment = some part) (other : segment ≠ "..") : part = .name segment := by
  unfold partOf? at found
  split at found
  · cases found
  · cases found
  · exact absurd rfl other
  · exact (Option.some.inj found).symm

/-- A segment that is neither empty nor made of dots means its name. -/
theorem name_of_mem_placed (member : (segment, some part) ∈ path.placed) (filled : segment ≠ "") (here : segment ≠ ".")
    (up : segment ≠ "..") : part = .name segment := by
  unfold placed at member
  cases pieces : path.segments with
  | nil =>
    rw [pieces] at member
    cases member
  | cons first rest =>
    rw [pieces] at member
    rcases List.mem_cons.mp member with start | later
    · obtain ⟨rfl, same⟩ := Prod.mk.inj start
      by_cases absolute : path.isAbsolute
      · obtain ⟨text, whole⟩ := List.head?_eq_some_iff.mp (by simpa [isAbsolute] using absolute)
        rw [segments, whole, Text.splitAt, if_pos (by decide)] at pieces
        exact absurd (List.cons.inj pieces).1.symm filled
      · rw [if_neg absolute, if_neg (by simpa using here)] at same
        exact name_of_partOf? same.symm up
    · obtain ⟨other, -, same⟩ := List.mem_map.mp later
      obtain ⟨rfl, found⟩ := Prod.mk.inj same
      exact name_of_partOf? found up

theorem dropParts_suffix (count : Nat) (segments : List (String × Option Part)) : dropParts count segments <:+ segments := by
  induction segments generalizing count with
  | nil => cases count <;> exact List.suffix_rfl
  | cons first rest ih =>
    cases count with
    | zero => exact List.suffix_rfl
    | succ count =>
      obtain ⟨text, meaning⟩ := first
      cases meaning with
      | none => exact (ih (count + 1)).trans (List.suffix_cons _ _)
      | some part => exact (ih count).trans (List.suffix_cons _ _)

theorem eq_of_not_mem_intercalate {pieces : List String} (plain : '/' ∉ ("/".intercalate pieces).toList) :
    pieces = [] ∨ pieces = ["/".intercalate pieces] := by
  cases pieces with
  | nil => exact .inl rfl
  | cons first rest =>
    cases rest with
    | nil => exact .inr (by simp)
    | cons second rest =>
      refine absurd ?_ plain
      rw [String.intercalate_cons_cons]
      simp

/-- What is trimmed at the end means nothing, and the last segment that is left means something. -/
theorem exists_trimmed (segments : List (String × Option Part)) : ∃ tail, segments =
    (segments.reverse.dropWhile (·.2.isNone)).reverse ++ tail ∧ (∀ segment ∈ tail, segment.2 = none) ∧
      ∀ segment ∈ (segments.reverse.dropWhile (·.2.isNone)).reverse.getLast?, segment.2 ≠ none := by
  refine ⟨(segments.reverse.takeWhile (·.2.isNone)).reverse, ?_, ?_, ?_⟩
  · rw [← List.reverse_append, List.takeWhile_append_dropWhile, List.reverse_reverse]
  · intro segment member
    simpa using List.mem_takeWhile_imp (List.mem_reverse.mp member)
  · intro segment last
    have stop := List.head?_dropWhile_not (fun segment : String × Option Part => segment.2.isNone) segments.reverse
    rw [List.getLast?_reverse] at last
    rw [Option.mem_def.mp last] at stop
    simpa [← Option.isSome_iff_ne_none] using stop

/-- A path that is a single name from a directory on ends in that name. -/
theorem getLast?_of_textBelow? {directory : Path} {text : String} (below : path.textBelow? directory = some text)
    (plain : '/' ∉ text.toList) (filled : text ≠ "") (here : text ≠ ".") (up : text ≠ "..") :
    path.parts.getLast? = some (.name text) := by
  unfold textBelow? at below
  split at below
  · obtain ⟨front, whole⟩ := dropParts_suffix directory.parts.length path.placed
    obtain ⟨between, rest⟩ := List.dropWhile_suffix (fun segment : String × Option Part => segment.2.isNone)
      (l := dropParts directory.parts.length path.placed)
    obtain ⟨tail, split, silent, ends⟩ := exists_trimmed
      ((dropParts directory.parts.length path.placed).dropWhile (·.2.isNone))
    obtain rfl := Option.some.inj below
    rcases eq_of_not_mem_intercalate plain with none | single
    · rw [none] at filled
      exact absurd rfl filled
    · obtain ⟨⟨segment, meaning⟩, kept, same⟩ := List.map_eq_singleton_iff.mp single
      rw [kept] at split ends
      cases meaning with
      | none => exact absurd rfl (ends _ rfl)
      | some part =>
        have all : path.placed = front ++ between ++ [(segment, some part)] ++ tail := by
          rw [← whole, ← rest, split]
          simp
        have listed : (segment, some part) ∈ path.placed := by
          rw [all]
          simp
        have own : part = .name segment := by
          refine name_of_mem_placed listed ?_ ?_ ?_
          all_goals
            rw [show segment = _ from same]
            assumption
        have nothing : tail.filterMap (·.2) = [] := List.filterMap_eq_nil_iff.mpr silent
        have last : (path.placed.filterMap (·.2)).getLast? = some part := by
          rw [all, List.filterMap_append, nothing, List.append_nil, List.filterMap_append]
          exact List.getLast?_concat
        rw [parts, last, own]
        exact congrArg (some <| Part.name ·) same
  · cases below

theorem getLast?_of_text (plain : '/' ∉ path.text.toList) (filled : path.text ≠ "") (here : path.text ≠ ".")
    (up : path.text ≠ "..") : path.parts.getLast? = some (.name path.text) := by
  have alone : path.segments = [path.text] := by
    have single : Text.splitAt (· == '/') path.text.toList = [path.text.toList] := by
      refine Text.splitAt_eq_singleton fun c member => ?_
      have differs : c ≠ '/' := fun same => plain (same ▸ member)
      simpa using differs
    rw [segments, single, List.map_singleton, String.ofList_toList]
  have relative : ¬path.isAbsolute := by
    intro absolute
    obtain ⟨text, whole⟩ := List.head?_eq_some_iff.mp (by simpa [isAbsolute] using absolute)
    exact plain (whole ▸ List.mem_cons_self)
  have found : partOf? path.text = some (.name path.text) := by
    unfold partOf?
    split
    · contradiction
    · contradiction
    · contradiction
    · rfl
  simp [parts, placed, alone, relative, here, found]

end TestScout.Path

namespace TestScout.Outline
open Test

/-- The id of a namespace, or what can stand in front of the colons in the id of a member that reads like one. Ids of
namespaces have no slashes. -/
def SpaceLike (id : String) : Prop := '/' ∉ id.toList ∧ (spaceMark.toList <+: id.toList ∨ id = "namespace")

/-- An id that is continued by a character outside of the mark, to an id like that of a namespace, is like one itself. -/
theorem SpaceLike.around {id inner : String} {c : Char} (like : SpaceLike inner) (mark : c ∉ "namespace".toList)
    (start : id.toList ++ [c] <+: inner.toList) : SpaceLike id := by
  have other : ¬id.toList ++ [c] <+: "namespace".toList := fun within => mark (within.subset (by simp))
  have keyword : spaceMark.toList = "namespace".toList ++ [':'] := rfl
  refine ⟨fun slash => like.1 (start.subset (List.mem_append_left _ slash)), ?_⟩
  rw [keyword]
  rcases like.2 with marked | rfl
  · rw [keyword] at marked
    rcases List.prefix_or_prefix_of_prefix marked start with within | within
    · rcases List.prefix_concat_iff.mp within with same | longer
      · exact .inr (String.toList_inj.mp (List.append_inj' same rfl).1.symm)
      · exact .inl longer
    · rcases List.prefix_concat_iff.mp within with same | shorter
      · exact .inr (String.toList_inj.mp (List.append_inj' same rfl).1)
      · exact absurd shorter other
  · exact absurd start other

theorem SpaceLike.of_class {id inner : String} (like : SpaceLike inner) (start : (id ++ "::").toList <+: inner.toList) :
    SpaceLike id := by
  refine like.around (c := ':') (by decide) (List.IsPrefix.trans ?_ start)
  rw [String.toList_append, List.prefix_append_right_inj]
  exact ⟨[':'], rfl⟩

theorem SpaceLike.of_describe {id inner : String} (like : SpaceLike inner)
    (start : (id ++ Discovery.descriptionMark).toList <+: inner.toList) : SpaceLike id := by
  refine like.around (c := ' ') (by decide) (List.IsPrefix.trans ?_ start)
  rw [String.toList_append, List.prefix_append_right_inj]
  exact ⟨"→ ".toList, rfl⟩

/-- The segments of a namespace have ids like namespaces. -/
theorem spaceLike_of_mem_spaceIds {label id : String} (plain : '/' ∉ label.toList) (member : id ∈ spaceIds (some label)) :
    SpaceLike id := by
  have segments : ∀ (before : String) (segments : List String), '/' ∉ before.toList → (∀ segment ∈ segments, '/' ∉ segment.toList) →
      ∀ named ∈ Builder.qualifiedSegments before segments, '/' ∉ named.1.toList := by
    intro before segments
    induction segments generalizing before with
    | nil => nofun
    | cons segment rest ih =>
      intro front all named listed
      obtain ⟨own, others⟩ := List.forall_mem_cons.mp all
      have name : '/' ∉ (if before.isEmpty then segment else before ++ "\\" ++ segment).toList := by
        split
        · exact own
        · simp [front, own]
      rcases List.mem_cons.mp listed with rfl | later
      · exact name
      · exact ih _ name others named later
  obtain ⟨named, listed, rfl⟩ := List.mem_map.mp member
  have name := segments _ _ (by simp) ?_ named listed
  · refine ⟨?_, .inl ?_⟩
    · simp [name, spaceMark]
    · rw [String.toList_append]
      exact List.prefix_append _ _
  · intro segment inside slash
    obtain ⟨piece, cut, rfl⟩ := List.mem_map.mp (List.mem_filter.mp inside).1
    rw [String.toList_ofList] at slash
    exact plain ((Text.of_mem_splitAt cut).1 slash)

end TestScout.Outline

namespace TestScout.Discovery
open Code Test Outline

/-! ## Files of tests in calls -/

theorem getLast?_of_spaceLike {file root : Path} (like : SpaceLike (CallFile.ofPath file root).relative) :
    file.parts.getLast? = some (.name (CallFile.ofPath file root).relative) := by
  let written := (file.textBelow? root).getD file.text
  have relative : (CallFile.ofPath file root).relative = String.ofList (written.toList.map fun c => if c == '\\' then '/' else c) := rfl
  have plain : '/' ∉ written.toList ∧ '\\' ∉ written.toList := by
    have none := like.1
    rw [relative, String.toList_ofList] at none
    exact ⟨fun slash => none (List.mem_map.mpr ⟨'/', slash, rfl⟩), fun slash => none (List.mem_map.mpr ⟨'\\', slash, rfl⟩)⟩
  have same : (CallFile.ofPath file root).relative = written := by
    have kept : (written.toList.map fun c => if c == '\\' then '/' else c) = written.toList := by
      refine (List.map_congr_left fun c member => ?_).trans (List.map_id _)
      have differs : c ≠ '\\' := fun same => plain.2 (same ▸ member)
      simp [differs]
    rw [relative, kept, String.ofList_toList]
  rw [same] at like ⊢
  have filled : ∀ word : String, ¬SpaceLike word → written ≠ word := fun word other same => other (same ▸ like)
  have short : ∀ word : String, word.length < 9 → ¬SpaceLike word := by
    rintro word short ⟨-, marked | rfl⟩
    · have length := marked.length_le
      rw [String.length_toList, String.length_toList] at length
      have mark : spaceMark.length = 10 := by decide
      omega
    · exact absurd short (by decide)
  have empty := filled _ (short "" (by decide))
  have here := filled _ (short "." (by decide))
  have up := filled _ (short ".." (by decide))
  cases below : file.textBelow? root with
  | some text =>
    have own : written = text := by simp [written, below]
    rw [own] at plain empty here up ⊢
    exact Path.getLast?_of_textBelow? below plain.1 empty here up
  | none =>
    have own : written = file.text := by simp [written, below]
    rw [own] at plain empty here up ⊢
    exact Path.getLast?_of_text plain.1 empty here up

theorem space_of_spaceLike {file root : Path} (like : SpaceLike (CallFile.ofPath file root).relative) :
    (CallFile.ofPath file root).space = none := by
  have plain := like.1
  simp only [CallFile.ofPath, String.toList_ofList] at plain ⊢
  rw [Text.splitAt_eq_singleton fun c member => by
    have differs : c ≠ '/' := fun same => plain (same ▸ member)
    simpa using differs]
  have alone : ∀ text : List Char, (([text].filter (!·.isEmpty)).map String.ofList).dropLast = [] := by
    intro text
    cases text <;> rfl
  rw [alone]
  rfl

theorem studly_plain {segment : String} (plain : '/' ∉ segment.toList) : '/' ∉ (studly segment).toList := by
  simp only [studly, String.toList_ofList]
  intro slash
  obtain ⟨word, listed, inside⟩ := List.mem_flatMap.mp slash
  have within := (Text.of_mem_splitAt (List.mem_filter.mp listed).1).1
  cases word with
  | nil => cases inside
  | cons first rest =>
    rcases List.mem_append.mp inside with capital | later
    · have differs : first ≠ '/' := fun same => plain (same ▸ within List.mem_cons_self)
      exact Text.not_slash_mem_upper differs capital
    · exact plain (within (List.mem_cons_of_mem _ later))

theorem space_plain {file root : Path} {label : String} (found : (CallFile.ofPath file root).space = some label) : '/' ∉ label.toList := by
  simp only [CallFile.ofPath] at found
  split at found
  · cases found
  · obtain rfl := Option.some.inj found
    generalize (String.toList _).map _ = text
    intro slash
    have pieces : ∀ piece ∈ ((Text.splitAt (· == '/') text).filter (!·.isEmpty)).map String.ofList, '/' ∉ piece.toList := by
      intro piece member
      obtain ⟨cut, listed, rfl⟩ := List.mem_map.mp member
      rw [String.toList_ofList]
      intro inside
      have marked := (Text.of_mem_splitAt (List.mem_filter.mp listed).1).2 _ inside
      simp at marked
    generalize ((Text.splitAt (· == '/') text).filter (!·.isEmpty)).map String.ofList = segments at pieces slash
    have all : ∀ names : List String, (∀ name ∈ names, '/' ∉ name.toList) → '/' ∉ ("\\".intercalate names).toList := by
      intro names
      induction names with
      | nil => simp
      | cons first rest ih =>
        intro plain
        obtain ⟨own, others⟩ := List.forall_mem_cons.mp plain
        cases rest with
        | nil => simpa using own
        | cons second rest =>
          rw [String.intercalate_cons_cons, String.toList_append, String.toList_append, List.mem_append, List.mem_append]
          simp only [own, ih others, or_false, false_or]
          decide
    refine all _ ?_ slash
    intro name member
    obtain ⟨piece, listed, rfl⟩ := List.mem_map.mp member
    exact studly_plain (pieces piece (List.dropLast_subset _ listed))

/-! ## Programs -/

/-- Names are written like names: no namespace and no class has a colon or a slash in its name, and the word that opens
a namespace is none for a class. -/
structure Scope.Lexical (scope : Scope) : Prop where
  space : ∀ name ∈ scope.space, ':' ∉ name.toList ∧ '/' ∉ name.toList
  classes : ∀ node ∈ scope.classes, ':' ∉ node.name.toList ∧ '/' ∉ node.name.toList ∧ node.name ≠ "namespace"

instance (scope : Scope) : Decidable scope.Lexical :=
  decidable_of_iff (_ ∧ _) ⟨fun ⟨space, classes⟩ => ⟨space, classes⟩, fun ⟨space, classes⟩ => ⟨space, classes⟩⟩

theorem Scope.Lexical.qualify {scope : Scope} (lexical : scope.Lexical) {node : ClassDecl} (member : node ∈ scope.classes) :
    ¬SpaceLike (scope.qualify node.name) := by
  obtain ⟨colon, -, other⟩ := lexical.classes node member
  have plain : ':' ∉ (scope.qualify node.name).toList := by
    unfold Scope.qualify TestScout.qualify
    split
    next label found =>
      have around := (lexical.space label found).1
      split
      · exact colon
      · simp [around, colon]
    next => exact colon
  rintro ⟨-, marked | keyword⟩
  · exact plain (marked.subset (by decide))
  · unfold Scope.qualify TestScout.qualify at keyword
    split at keyword
    next label found =>
      split at keyword
      · exact other keyword
      · have inside := congrArg (fun text : String => decide ('\\' ∈ text.toList)) keyword
        simp at inside
    next => exact other keyword

/-! ## What is found in a file -/

/-- A file right in the root that goes by an id like that of a namespace defines one class, which has this id and is in
no namespace, and what is below it. -/
structure Lone (file : Path) (name : String) (definitions : List Definition) : Prop where
  last : file.parts.getLast? = some (.name name)
  like : SpaceLike name
  plain : '\\' ∉ name.toList
  items : ∀ definition ∈ definitions, definition.kind ≠ .space ∧ (definition.kind = .classLike ↔ definition.id = name) ∧
    (definition.kind = .classLike → definition.space = none)

/-- Only namespaces have ids like namespaces, unless the file itself has one. -/
structure Apart (file : Path) (definitions : List Definition) : Prop where
  spaces : ∀ definition ∈ definitions, definition.kind = .space → ∀ id ∈ spaceIds (some definition.label), SpaceLike id
  items : (∀ definition ∈ definitions, definition.kind ≠ .space → ¬SpaceLike definition.id) ∨ ∃ name, Lone file name definitions

theorem apart_of_classes {registry : Registry} {file : Path} {program : Program} (lexical : ∀ scope ∈ Scope.ofProgram program, scope.Lexical)
    {definitions : List Definition} (classes : ∀ definition ∈ definitions, FoundInClasses program registry definition) :
    Apart file definitions := by
  refine ⟨?_, .inl ?_⟩
  · intro definition member space id inside
    obtain ⟨scope, listed, ⟨-, named⟩ | ⟨node, -, own⟩⟩ := classes definition member
    · exact spaceLike_of_mem_spaceIds ((lexical scope listed).space _ named).2 inside
    · rcases mem_classDefinitions own with ⟨other, -⟩ | ⟨other, -⟩ <;> simp [space] at other
  · intro definition member item like
    obtain ⟨scope, listed, ⟨space, -⟩ | ⟨node, within, own⟩⟩ := classes definition member
    · exact item space
    · have plain := (lexical scope listed).qualify within
      rcases mem_classDefinitions own with ⟨-, id, -⟩ | ⟨-, start⟩
      · exact plain (id ▸ like)
      · exact plain (like.of_class start)

theorem apart_of_calls {file root : Path} {definitions : List Definition}
    (calls : ∀ definition ∈ definitions, FoundInCalls (CallFile.ofPath file root) definition) : Apart file definitions := by
  refine ⟨?_, ?_⟩
  · intro definition member space id inside
    rcases calls definition member with ⟨-, named⟩ | ⟨other, -⟩ | ⟨other | other, -⟩
    · exact spaceLike_of_mem_spaceIds (space_plain named) inside
    all_goals simp [space] at other
  by_cases like : SpaceLike (CallFile.ofPath file root).relative
  · have nowhere := space_of_spaceLike like
    refine .inr ⟨_, getLast?_of_spaceLike like, like, no_backslash file root, ?_⟩
    intro definition member
    rcases calls definition member with ⟨-, named⟩ | ⟨kind, id, space⟩ | ⟨kind, start⟩
    · rw [nowhere] at named
      cases named
    · exact ⟨by simp [kind], ⟨fun _ => id, fun _ => kind⟩, fun _ => space.trans nowhere⟩
    · have longer : definition.id ≠ (CallFile.ofPath file root).relative := by
        intro same
        have length := start.length_le
        rw [same, String.toList_append, List.length_append] at length
        have two : "::".toList.length = 2 := rfl
        omega
      rcases kind with kind | kind <;> simp [kind, longer]
  · refine .inl fun definition member item other => ?_
    rcases calls definition member with ⟨space, -⟩ | ⟨-, id, -⟩ | ⟨-, start⟩
    · exact item space
    · exact like (id ▸ other)
    · exact like (other.of_class start)

theorem Scout.look_spaceLike (scout : Scout) (source : String) (file : Path) (suite : Option String)
    (lexical : ∀ program, scout.reader source = some (.program program) → ∀ scope ∈ Scope.ofProgram program, scope.Lexical) :
    Apart file (scout.look source file suite).2 := by
  unfold look program?
  cases read : scout.reader source with
  | none => exact ⟨nofun, .inl nofun⟩
  | some node =>
    cases node with
    | program program =>
      have found : Apart file (definitionsOf (registerClasses (scout.registry.removeFile file) file (Scope.ofProgram program))
          file scout.root program) := by
        rcases definitionsOf_cases _ file scout.root program with classes | calls
        · exact apart_of_classes (lexical program read) classes
        · exact apart_of_calls calls
      refine ⟨?_, found.items.imp ?_ ?_⟩
      · intro definition member
        obtain ⟨own, listed, rfl⟩ := List.mem_map.mp member
        exact found.spaces own listed
      · intro plain definition member
        obtain ⟨own, listed, rfl⟩ := List.mem_map.mp member
        exact plain own listed
      · rintro ⟨name, lone⟩
        refine ⟨name, lone.last, lone.like, lone.plain, ?_⟩
        intro definition member
        obtain ⟨own, listed, rfl⟩ := List.mem_map.mp member
        exact lone.items own listed
    | _ => exact ⟨nofun, .inl nofun⟩

end TestScout.Discovery
