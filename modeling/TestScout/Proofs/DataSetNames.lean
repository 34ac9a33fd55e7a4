import TestScout.Proofs.DataSetItems
import TestScout.Proofs.DataSetKeys

/-! The keys of data sets in a source and in the names that a runner reports. A key that is known from the source is told from
a name when it stands on one line. It is told from the id of the data set as well, unless the id of the test looks like the
one of a data set already. -/

namespace TestScout.Test
open Code Discovery

/-! ## Keys in a source -/

/-- A key as it is written for a name or for a number. -/
inductive Written : String → Prop
  | name (value : String) : Written ("\"" ++ value ++ "\"")
  | number (value : Int) : Written ("#" ++ toString value)

theorem written_keyText? {key : Option Node} {position : Nat} {text : String} (found : keyText? key position = some text) :
    Written text := by
  unfold keyText? at found
  split at found
  · cases found
    exact .number position
  · cases found
    exact .name _
  · obtain ⟨value, -, rfl⟩ := Option.map_eq_some_iff.mp found
    exact .number value
  · cases found

theorem written_arrayKeys {array : ArrayLiteral} {text : String} (member : text ∈ arrayKeys array) : Written text := by
  obtain ⟨⟨entry, position⟩, -, found⟩ := List.mem_filterMap.mp member
  simp only at found
  split at found
  · cases found
  · exact written_keyText? found

theorem written_yieldKeys {site : Yield} {position : Nat} {text : String} (member : text ∈ yieldKeys site position) :
    Written text := by
  unfold yieldKeys at member
  split at member
  · split at member
    · exact written_arrayKeys member
    · cases member
  · exact written_keyText? (Option.mem_toList.mp member)

theorem written_bodyKeys {statements : List Node} {text : String} (member : text ∈ bodyKeys statements) : Written text := by
  unfold bodyKeys at member
  split at member
  · split at member
    · exact written_arrayKeys member
    · cases member
  · obtain ⟨⟨site, position⟩, -, found⟩ := List.mem_flatMap.mp member
    exact written_yieldKeys found

theorem written_providerKeys {provider : Node} {text : String} (member : text ∈ providerKeys provider) : Written text := by
  unfold providerKeys at member
  split at member
  next node _ =>
    cases body : node.body with
    | none => simp [body] at member
    | some block => exact written_bodyKeys (by simpa [body] using member)
  · exact written_bodyKeys member
  · exact written_arrayKeys member
  · cases member

theorem written_callKeys {call : Call} {text : String} (member : text ∈ callKeys call) : Written text := by
  obtain ⟨modifier, -, found⟩ := List.mem_flatMap.mp member
  split at found
  · obtain ⟨argument, -, inside⟩ := List.mem_flatMap.mp found
    exact written_providerKeys inside
  · cases found

theorem written_providerKeysOf {scope : Scope} {registry : Registry} {className provider text : String}
    (member : text ∈ providerKeysOf scope registry className provider) : Written text := by
  unfold providerKeysOf at member
  simp only at member
  split at member
  · exact written_providerKeys member
  · cases member

theorem written_callDefinition {file : CallFile} {kind : DefinitionKind} {label : String} {path : List String} {depth : Nat}
    {extent : Source.Extent} {call : Call} {text : String}
    (member : text ∈ (callDefinition file kind label path depth extent call).dataSets) : Written text := by
  simp only [callDefinition, placed] at member
  split at member
  · exact written_callKeys member
  · cases member

theorem written_described (file : CallFile) (path : List String) (depth : Nat) (statements : List Node) {text : String} :
    ∀ definition ∈ described file path depth statements, text ∈ definition.dataSets → Written text := by
  fun_induction described file path depth statements with
  | case1 => exact List.forall_mem_nil _
  | case2 path depth statement rest inner others =>
    intro definition member known
    rcases List.mem_append.mp member with own | later
    · split at own
      · cases own
      next call role found =>
        split at own
        · cases own
        next text _ =>
          cases role with
          | describe =>
            rcases List.mem_cons.mp own with rfl | below
            · exact written_callDefinition known
            · exact inner call text found definition below known
          | it => exact written_callDefinition (List.mem_singleton.mp own ▸ known)
          | test => exact written_callDefinition (List.mem_singleton.mp own ▸ known)
    · exact others definition later known

theorem written_scopeDefinitions {registry : Registry} {scope : Scope} {definition : Definition} {text : String}
    (member : definition ∈ scopeDefinitions registry scope) (known : text ∈ definition.dataSets) : Written text := by
  have found : definition ∈ scope.classes.flatMap (classDefinitions scope registry) := by
    simp only [scopeDefinitions] at member
    split at member
    · split at member
      · cases member
      · rcases List.mem_cons.mp member with rfl | further
        · cases known
        · exact further
    · exact member
  obtain ⟨node, -, own⟩ := List.mem_flatMap.mp found
  simp only [classDefinitions] at own
  generalize (if node.isAbstract = true then [] else testsOf registry (scope.qualify node.name)) = tests at own
  split at own
  · cases own
  · rcases List.mem_cons.mp own with rfl | test
    · cases known
    · obtain ⟨method, -, rfl⟩ := List.mem_map.mp test
      obtain ⟨provider, -, given⟩ := List.mem_flatMap.mp known
      exact written_providerKeysOf given

theorem written_of_mem_definitionsOf {registry : Registry} {file root : Path} {program : Program} {definition : Definition}
    {text : String} (member : definition ∈ definitionsOf registry file root program) (known : text ∈ definition.dataSets) :
    Written text := by
  unfold definitionsOf at member
  split at member
  · simp only [fileDefinitions] at member
    split at member
    · rcases List.mem_append.mp member with space | inside
      · obtain ⟨name, -, rfl⟩ := Option.map_eq_some_iff.mp (Option.mem_toList.mp space)
        cases known
      · rcases List.mem_cons.mp inside with rfl | below
        · cases known
        · exact written_described _ _ _ _ definition below known
    · cases member
  · obtain ⟨scope, -, found⟩ := List.mem_flatMap.mp member
    exact written_scopeDefinitions found known

theorem written_of_mem_look {scout : Scout} {source : String} {file : Path} {suite : Option String} {definition : Definition}
    {text : String} (member : definition ∈ (scout.look source file suite).2) (known : text ∈ definition.dataSets) :
    Written text := by
  unfold Scout.look at member
  split at member
  · cases member
  · obtain ⟨original, found, rfl⟩ := List.mem_map.mp member
    exact written_of_mem_definitionsOf found known

/-! ## Keys in a name -/

/-- A key that does not fit on one line, or a number below zero. -/
def Unnamable (key : String) : Prop := '\n' ∈ key.toList ∨ ['#', '-'] <+: key.toList

instance (key : String) : Decidable (Unnamable key) := inferInstanceAs (Decidable (_ ∨ _))

theorem isDigit_of_isDigit {c : Char} (digit : c.isDigit = true) : Text.isDigit c = true := by
  have bounds : 48 ≤ c.toNat ∧ c.toNat ≤ 57 := by
    simp only [Char.isDigit, Bool.and_eq_true, decide_eq_true_eq, ge_iff_le, UInt32.le_iff_toNat_le] at digit
    exact digit
  rw [Text.isDigit, Text.inRanges, ← Array.any_toList, List.any_eq_true]
  exact ⟨(48, 57), List.mem_cons_self, by simpa using bounds⟩

/-- Everything that a source can call a data set by is a key, if a runner can name it. -/
theorem Written.isKey_iff {key : String} (written : Written key) : IsKey key ↔ ¬Unnamable key := by
  cases written with
  | name value =>
    have text : ("\"" ++ value ++ "\"").toList = '"' :: (value.toList ++ ['"']) := by simp
    rw [IsKey, Unnamable, text, isDataSetKey]
    simp
  | number value =>
    have text : ("#" ++ toString value).toList = '#' :: (toString value).toList := by simp
    rw [IsKey, Unnamable, text]
    cases value with
    | ofNat value =>
      have digits : ∀ c ∈ value.repr.toList, c.isDigit = true := by
        intro c member
        rw [Nat.toList_repr] at member
        exact Nat.isDigit_of_mem_toDigits (by decide) (by decide) member
      have some : value.repr.toList ≠ [] := fun none => Nat.repr_ne_empty (String.toList_injective none)
      have written : toString (Int.ofNat value) = value.repr := rfl
      rw [written]
      refine iff_of_true ?_ ?_
      · show (!value.repr.toList.isEmpty && value.repr.toList.all Text.isDigit) = true
        rw [Bool.and_eq_true, Bool.not_eq_true', List.isEmpty_eq_false_iff, List.all_eq_true]
        exact ⟨some, fun c member => isDigit_of_isDigit (digits c member)⟩
      · rintro (broken | signed)
        · rcases List.mem_cons.mp broken with hash | inside
          · cases hash
          · exact absurd (digits _ inside) (by decide)
        · obtain ⟨rest, same⟩ := (List.cons_prefix_cons.mp signed).2
          have inside : '-' ∈ value.repr.toList := same ▸ List.mem_cons_self
          exact absurd (digits _ inside) (by decide)
    | negSucc value =>
      have written : (toString (Int.negSucc value)).toList = '-' :: (value + 1).repr.toList := by
        show ("-" ++ (value + 1).repr).toList = _
        simp
      rw [written]
      refine iff_of_false ?_ (not_not.mpr (.inr ⟨_, rfl⟩))
      have sign : Text.isDigit '-' = false := by decide +kernel
      simp [isDataSetKey, sign]

/-- No text in quotes that goes on to the end of its line follows a phrase in a text, unless the key is a number. -/
def Unmarked (text : String) (key : String) : Prop :=
  ['#'] <+: key.toList ∨ ∀ before after, text.toList = before ++ dataSetPhrase.toList ++ '"' :: after → '\n' ∈ after

theorem Plain.unmarked {text : String} (plain : Plain text) (key : String) : Unmarked text key := by
  refine .inr fun before after same => absurd ?_ plain
  exact ⟨before, '"' :: after, same.symm⟩

private theorem phrase_once : ∀ rest ∈ dataSetPhrase.toList.tails,
    rest = dataSetPhrase.toList ∨ rest.head? ≠ some 'w' := by decide

theorem isDataSetKey_cases {text : List Char} (isKey : isDataSetKey text = true) :
    (∃ digits, text = '#' :: digits ∧ ∀ c ∈ digits, Text.isDigit c = true) ∨
      ∃ rest, text = '"' :: rest ∧ rest.getLast? = some '"' ∧ '\n' ∉ rest := by
  unfold isDataSetKey at isKey
  split at isKey
  next digits =>
    rw [Bool.and_eq_true, List.all_eq_true] at isKey
    exact .inl ⟨digits, rfl, isKey.2⟩
  next rest => exact .inr ⟨rest, rfl, by simpa using isKey⟩
  · cases isKey

private theorem not_key_phrase (rest : List Char) : isDataSetKey (dataSetPhrase.toList ++ rest) = false := rfl

/-- Behind a phrase that starts early no key follows. -/
private theorem not_key_of_early {text key : String} (isKey : IsKey key) (unmarked : Unmarked text key) {back rest : List Char}
    (nonempty : back ≠ []) (suffix : back <:+ text.toList ++ [' '])
    (same : back ++ (dataSetPhrase.toList ++ key.toList) = dataSetPhrase.toList ++ rest) : isDataSetKey rest = false := by
  rcases List.append_eq_append_iff.mp same with ⟨more, whole, goesOn⟩ | ⟨more, whole, rfl⟩
  · cases more with
    | nil => exact (show dataSetPhrase.toList ++ key.toList = rest from goesOn) ▸ not_key_phrase _
    | cons c more =>
      -- The phrase starts like this only where it starts itself.
      have first : c = 'w' := (List.cons.inj (show 'w' :: _ = c :: _ from goesOn)).1.symm
      rcases phrase_once _ ((List.mem_tails _ _).mpr ⟨back, whole.symm⟩) with all | other
      · rw [all] at whole
        exact absurd (List.self_eq_append_left.mp whole) nonempty
      · exact absurd (congrArg some first) other
  cases more with
  | nil => exact not_key_phrase _
  | cons c more =>
    rw [← Bool.not_eq_true]
    intro early
    rcases isDataSetKey_cases early with ⟨digits, equal, all⟩ | ⟨label, equal, last, oneLine⟩
    · obtain ⟨rfl, rfl⟩ := List.cons.inj equal
      have letter : Text.isDigit 'w' = false := by decide +kernel
      have digit := all 'w' (List.mem_append_right _ (List.mem_append_left _ List.mem_cons_self))
      rw [letter] at digit
      cases digit
    obtain ⟨rfl, behind⟩ := List.cons.inj equal
    have behind : more ++ (dataSetPhrase.toList ++ key.toList) = label := behind
    subst behind whole
    rcases unmarked with number | broken
    · -- A number does not end like a label.
      obtain ⟨digits, written⟩ := number
      rcases isDataSetKey_cases isKey with ⟨own, hash, all⟩ | ⟨own, quote, -⟩
      · rw [← List.append_assoc, List.getLast?_append_of_ne_nil _ (hash ▸ List.cons_ne_nil _ _), hash] at last
        have inside := List.mem_of_getLast? last
        have mark : Text.isDigit '"' = false := by decide +kernel
        rcases List.mem_cons.mp inside with other | digit
        · cases other
        · rw [all _ digit] at mark
          cases mark
      · rw [← written] at quote
        cases quote
    · -- What is behind the phrase goes on to the blank in front of the last phrase.
      obtain ⟨before, split⟩ := suffix
      rcases List.eq_nil_or_concat' more with rfl | ⟨after, blank, rfl⟩
      · have ends := congrArg List.getLast? split
        simp at ends
      · have split : (before ++ dataSetPhrase.toList ++ '"' :: after) ++ [blank] = text.toList ++ [' '] := by simpa using split
        have line := broken before after (List.append_inj' split rfl).1.symm
        exact oneLine (List.mem_append_left _ (List.mem_append_left _ line))

/-- The key behind a phrase that follows a text is the one that is told from it. -/
theorem dataSetKey?_behind {text key : String} (isKey : IsKey key) (unmarked : Unmarked text key) :
    dataSetKey? (text ++ " " ++ (dataSetPhrase ++ key)) = some key := by
  have split : (text ++ " " ++ (dataSetPhrase ++ key)).toList = (text.toList ++ [' ']) ++ (dataSetPhrase.toList ++ key.toList) := by
    simp
  rw [dataSetKey?_eq_some_iff, split, keyOf?_eq_some_iff]
  refine ⟨_, ⟨rfl, isDataSetKey_iff.mp isKey⟩, fun before rest other => ?_⟩
  rcases List.append_eq_append_iff.mp other.1 with ⟨more, whole, -⟩ | ⟨back, whole, same⟩
  · exact List.IsPrefix.length_le ⟨more, whole.symm⟩
  · by_cases nonempty : back = []
    · rw [whole, nonempty, List.append_nil]
    · have early := not_key_of_early isKey unmarked nonempty ⟨before, whole.symm⟩ same.symm
      rw [isDataSetKey_iff.mpr other.2] at early
      cases early

theorem Written.dataSetKey?_iff {key : String} (written : Written key) {text : String} (plain : Plain text) :
    dataSetKey? (text ++ " " ++ (dataSetPhrase ++ key)) = some key ↔ ¬Unnamable key := by
  rw [← written.isKey_iff]
  exact ⟨isKey_of_dataSetKey?, fun isKey => dataSetKey?_behind isKey (plain.unmarked key)⟩

theorem Definition.dataSetIndex?_eq {definition : Definition} {key : String} (known : key ∈ definition.dataSets) :
    definition.dataSetIndex? key = some (definition.dataSets.idxOf key) := by
  refine List.idxOf?_eq_some_iff.mpr ⟨List.idxOf_lt_length_iff.mpr known, List.getElem_idxOf _, fun earlier before same => ?_⟩
  have apart := List.not_of_lt_findIdx before
  simp [same] at apart

/-- The place of a known key is told from the id of its data set. -/
theorem Written.sortTextOf {definition : Definition} {key : String} (written : Written key) (known : key ∈ definition.dataSets)
    (namable : ¬Unnamable key) (unmarked : Unmarked definition.id key) :
    Runner.Replay.sortTextOf definition (definition.dataSetChild key) = Outline.sixDigits (definition.dataSets.idxOf key) := by
  have told : dataSetKey? (definition.dataSetChild key).id = some key :=
    dataSetKey?_behind (written.isKey_iff.mpr namable) unmarked
  simp only [Runner.Replay.sortTextOf, told, Option.getD_some, Definition.dataSetIndex?_eq known]

end TestScout.Test

namespace TestScout.Outline

variable {outline : Outline} {place : Place} {ref : Ref}

theorem item_release (other : Ref) : (outline.release place ref).item other = outline.item other := by
  unfold release
  split
  · exact item_setParent other
  · rfl

theorem item_add (other : Ref) : (outline.add place ref).item other = outline.item other := by
  cases found : outline.child? place (outline.idOf ref) with
  | none => rw [add_of_none found, item_setChildren, item_setParent]
  | some former =>
    have swapped : (outline.swap place former ref).item other = outline.item other := by
      rw [swap, item_setChildren, item_setParent]
    rw [add_of_some found]
    split
    · exact swapped
    · rw [item_release, swapped]

theorem item_adopt (outline : Outline) (parent : Ref) (item : Item) :
    (outline.adopt parent item).item outline.nodes.size = item := by
  rw [adopt, item_add, item_create, if_pos rfl]

end TestScout.Outline

namespace TestScout.Runner
open Test Outline

/-- A runner that names a data set of a test behind any text means the one that is known from the source, just when its key
can be named at all. The item that is made for it then is sorted by the place of the key in the source, unless the id of the
test looks like the one of a data set itself. -/
theorem known_data_sets_named {scout : Discovery.Scout} {source : String} {file : Path} {suite : Option String}
    {definition : Definition} (emitted : definition ∈ (scout.look source file suite).2) {key : String}
    (known : key ∈ definition.dataSets) {text : String} (plain : Plain text) :
    (dataSetKey? (text ++ " " ++ (dataSetPhrase ++ key)) = some key ↔ ¬Unnamable key) ∧
      (¬Unnamable key → Unmarked definition.id key → ∀ (editor : Editor) (replay : Replay) (event : Event),
        ∀ tracked, editor.definition? definition.id = some tracked → tracked.id = definition.id →
        tracked.dataSets = definition.dataSets → ∀ parent, replay.queue.lookup definition.id = some parent →
        event.result.id = definition.id → event.result.name = text ++ " " ++ (dataSetPhrase ++ key) →
        editor.outline.child? (some parent) (definition.dataSetChild key).id = none →
        ∃ changed ref, replay.target? editor event.result = some (changed, ref) ∧
          (changed.outline.item ref).id = (definition.dataSetChild key).id ∧
          (changed.outline.item ref).sortText = some (sixDigits (definition.dataSets.idxOf key))) := by
  have written := written_of_mem_look emitted known
  refine ⟨written.dataSetKey?_iff plain, ?_⟩
  intro namable unmarked editor replay event tracked defined same_id same_keys parent queued about named new
  have hears : Replay.Hears replay editor event parent tracked key := by
    refine ⟨about ▸ queued, about ▸ defined, ?_⟩
    rw [named]
    exact (written.dataSetKey?_iff plain).mpr namable
  have same_child : (tracked.dataSetChild key).id = (definition.dataSetChild key).id := by
    simp only [Definition.dataSetChild, same_id]
  refine ⟨_, _, Replay.target?_of_new hears (same_child ▸ new), ?_, ?_⟩
  · rw [Replay.grafted, item_adopt, Replay.itemOf, same_child]
  · rw [Replay.grafted, item_adopt, Replay.itemOf, written.sortTextOf (same_keys ▸ known) namable (same_id ▸ unmarked), same_keys]

/-- A reader of two tests. The description of the second one looks like the id of a data set, and the first one has a key on
two lines. -/
private def addsReader : Surface.Reader := fun source =>
  let tests := fun (description : String) (keys : List String) =>
    Code.Node.statement {
      expression := .call {
        kind := .method
        name := "with"
        arguments := [.array { entries := keys.map fun key => { key := some (.string { value := key, raw := key }), value := .unknown none } }]
        chain := some { kind := .function, name := "test", arguments := [.string { value := description, raw := description }] } } }
  if source = "adds" then
    some (.program { children := [tests "adds" ["one\ntwo", "three"], tests "adds with data set \"z\"" ["a", "b"]] })
  else none

private def addsScout : Discovery.Scout := { reader := addsReader, root := ⟨"/p"⟩ }

private def addsFound : List Definition := (addsScout.look "adds" ⟨"/p/Sum.php"⟩ (some "unit")).2

private def addsRun : Collection Editor :=
  (Collection.fresh addsReader { root := ⟨"/p"⟩, rules := [{ suite := "unit", tag := .file, value := "Sum.php" }] }).perform
    (.update ⟨"/p/Sum.php"⟩ "adds")

private def addsReplay : Replay := .start addsRun.tracker.outline addsRun.tracker.outline.top

private def addsEvent (id name : String) : Event := ⟨.started, { id, name }⟩

/-- A data set that is named on one line is found by its key and sorted by its place. -/
theorem third_data_set_named :
    ∃ definition ∈ addsFound, definition.id = "Sum.php::adds" ∧ "\"three\"" ∈ definition.dataSets ∧ Plain "adds" ∧
      dataSetKey? "adds with data set \"three\"" = some "\"three\"" ∧
      ∃ changed ref, addsReplay.target? addsRun.tracker
          (addsEvent "Sum.php::adds" "adds with data set \"three\"").result = some (changed, ref) ∧
        (changed.outline.item ref).sortText = some "000001" := by
  have shape {definition : Definition} (view : (definition.id, definition.dataSets) =
      ("Sum.php::adds", ["\"one\ntwo\"", "\"three\""])) : definition.id = "Sum.php::adds" ∧
      definition.dataSets = ["\"one\ntwo\"", "\"three\""] := Prod.mk.inj view
  obtain ⟨definition, found, view⟩ : ∃ definition, addsFound[1]? = some definition ∧ _ :=
    Option.map_eq_some_iff.mp (by decide +kernel : addsFound[1]?.map (fun definition => (definition.id, definition.dataSets)) =
      some ("Sum.php::adds", ["\"one\ntwo\"", "\"three\""]))
  obtain ⟨tracked, defined, tracked_view⟩ : ∃ tracked, addsRun.tracker.definition? "Sum.php::adds" = some tracked ∧ _ :=
    Option.map_eq_some_iff.mp (by decide +kernel : (addsRun.tracker.definition? "Sum.php::adds").map
      (fun definition => (definition.id, definition.dataSets)) = some ("Sum.php::adds", ["\"one\ntwo\"", "\"three\""]))
  obtain ⟨id, keys⟩ := shape view
  obtain ⟨tracked_id, tracked_keys⟩ := shape tracked_view
  have emitted := List.mem_of_getElem? found
  have known : "\"three\"" ∈ definition.dataSets := by simp [keys]
  have plain : Plain "adds" := by decide +kernel
  have namable : ¬Unnamable "\"three\"" := by decide +kernel
  have clear : Plain "Sum.php::adds" := by decide +kernel
  have queued : addsReplay.queue.lookup "Sum.php::adds" = some 1 := by decide +kernel
  have child : addsRun.tracker.outline.child? (some 1) (definition.dataSetChild "\"three\"").id = none := by
    simp only [Definition.dataSetChild, id]
    decide +kernel
  obtain ⟨named, made⟩ := known_data_sets_named emitted known plain
  obtain ⟨changed, ref, target, -, sorted⟩ := made namable (Plain.unmarked (id.symm ▸ clear) _) addsRun.tracker addsReplay
    (addsEvent "Sum.php::adds" "adds with data set \"three\"") tracked (id.symm ▸ defined) (tracked_id.trans id.symm)
    (tracked_keys.trans keys.symm) 1 (id.symm ▸ queued) id.symm rfl child
  refine ⟨definition, emitted, id, known, plain, named.mpr namable, changed, ref, target, ?_⟩
  rw [sorted, keys]
  decide +kernel

/-- A key on two lines is not told from a name. The item of another key that is known comes behind those of the known keys,
for the description of its test ends like the id of a data set. -/
theorem known_data_sets_unnamed :
    addsFound.map (fun definition => (definition.id, definition.dataSets)) =
        [("Sum.php", []), ("Sum.php::adds", ["\"one\ntwo\"", "\"three\""]),
          ("Sum.php::adds with data set \"z\"", ["\"a\"", "\"b\""])] ∧
      Plain "adds" ∧ dataSetKey? "adds with data set \"one\ntwo\"" = none ∧
      (addsRun.tracker.definition? "Sum.php::adds with data set \"z\"").map (·.dataSets) = some ["\"a\"", "\"b\""] ∧
      dataSetKey? "adds with data set \"b\"" = some "\"b\"" ∧
      ((addsReplay.target? addsRun.tracker
          (addsEvent "Sum.php::adds with data set \"z\"" "adds with data set \"b\"").result).map fun (changed, ref) =>
        (changed.outline.item ref).sortText) = some (some "~\"z\" with data set \"b\"") ∧
      sixDigits 1 ≠ "~\"z\" with data set \"b\"" := by
  decide +kernel

end TestScout.Runner
