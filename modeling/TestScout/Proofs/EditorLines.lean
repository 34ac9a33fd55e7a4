import TestScout.Proofs.EditorBooks

/-! What is found at a line. The tests around a line are found by the definitions of a file in document order, and are put
in the order of the lines that they start on, the latest one first. Definitions that start on one line stay in document order,
where a group of tests comes before what is in it. -/

namespace TestScout
open Test Outline

namespace Editor

section

variable {α : Type} {items : List α} {first second : α}

theorem pair_or_flipped (one : first ∈ items) (two : second ∈ items) (differs : first ≠ second) :
    [first, second].Sublist items ∨ [second, first].Sublist items := by
  induction items with
  | nil => cases one
  | cons item rest ih =>
    rcases List.mem_cons.mp one with rfl | early <;> rcases List.mem_cons.mp two with rfl | late
    · exact absurd rfl differs
    · exact .inl (List.cons_sublist_cons.mpr (List.singleton_sublist.mpr late))
    · exact .inr (List.cons_sublist_cons.mpr (List.singleton_sublist.mpr early))
    · exact (ih early late).imp (·.cons item) (·.cons item)

theorem not_flipped (once : items.Nodup) (pair : [first, second].Sublist items) : ¬[second, first].Sublist items := by
  induction items with
  | nil => cases pair
  | cons item rest ih =>
    obtain ⟨fresh, once⟩ := List.nodup_cons.mp once
    intro flipped
    rcases List.cons_sublist_cons'.mp pair with inside | ⟨rfl, behind⟩ <;>
      rcases List.cons_sublist_cons'.mp flipped with further | ⟨rfl, after⟩
    · exact ih once inside further
    · exact fresh (inside.subset (by simp))
    · exact fresh (further.subset (by simp))
    · exact fresh (List.singleton_sublist.mp behind)

theorem pair_of_map {β : Type} {view : α → β} {one two : β} (pair : [one, two].Sublist (items.map view)) :
    ∃ first second, [first, second].Sublist items ∧ view first = one ∧ view second = two := by
  obtain ⟨behind, within, same⟩ := List.sublist_map_iff.mp pair
  obtain ⟨first, rest, rfl, here, further⟩ := List.map_eq_cons_iff.mp same.symm
  obtain ⟨second, last, rfl, there, done⟩ := List.map_eq_cons_iff.mp further
  rw [List.map_eq_nil_iff.mp done] at within
  exact ⟨first, second, within, here, there⟩

theorem pair_map_iff {β : Type} {view : α → β} (once : (items.map view).Nodup) (one : first ∈ items) (two : second ∈ items) :
    [view first, view second].Sublist (items.map view) ↔ [first, second].Sublist items := by
  refine ⟨fun pair => ?_, fun pair => pair.map view⟩
  obtain ⟨third, fourth, within, here, there⟩ := pair_of_map pair
  have same := List.inj_on_of_nodup_map once (within.subset List.mem_cons_self) one here
  have equal := List.inj_on_of_nodup_map once (within.subset (List.mem_cons_of_mem _ List.mem_cons_self)) two there
  rwa [same, equal] at within

/-- A later start comes to the front, and nothing else does. -/
theorem flipped_mergeSort_iff (start : α → Nat) (once : items.Nodup) (pair : [first, second].Sublist items) :
    [second, first].Sublist (items.mergeSort fun first second => start first ≥ start second) ↔ start first < start second := by
  have transitive : ∀ one two three : α, decide (start one ≥ start two) = true → decide (start two ≥ start three) = true →
      decide (start one ≥ start three) = true := by
    simp only [decide_eq_true_eq]
    omega
  have total : ∀ one two : α, (decide (start one ≥ start two) || decide (start two ≥ start one)) = true := by
    simp only [Bool.or_eq_true, decide_eq_true_eq]
    omega
  have sorted := List.mergeSort_perm items fun first second => start first ≥ start second
  constructor
  · intro flipped
    by_contra early
    have kept := List.pair_sublist_mergeSort transitive total (decide_eq_true (Nat.le_of_not_lt early)) pair
    exact not_flipped (sorted.nodup_iff.mpr once) kept flipped
  · intro late
    have differs : first ≠ second := fun same => Nat.lt_irrefl _ (same ▸ late)
    have here := sorted.mem_iff.mpr (pair.subset List.mem_cons_self)
    have there := sorted.mem_iff.mpr (pair.subset (List.mem_cons_of_mem _ List.mem_cons_self))
    refine (pair_or_flipped here there differs).resolve_left fun kept => ?_
    have ordered := List.pairwise_iff_forall_sublist.mp (List.pairwise_mergeSort transitive total items) kept
    exact Nat.not_le_of_lt late (of_decide_eq_true ordered)

end

/-- The definitions of a file that are around a line, in document order. -/
def around (editor : Editor) (file : Path) (line : Nat) : List Indexed :=
  (editor.fileItems file).filter fun indexed => spans line indexed.definition

variable {editor : Editor} {file : Path} {line : Nat}

theorem testsAt_of_around (spanned : editor.around file line ≠ []) : editor.testsAt file line =
    ((editor.around file line).mergeSort fun first second => first.definition.start.line ≥ second.definition.start.line).map (·.ref) := by
  rw [testsAt]
  split
  next nothing => exact absurd nothing spanned
  next => rfl

theorem testsAt_of_beside (unspanned : editor.around file line = []) : editor.testsAt file line = editor.testsInFile file := by
  rw [testsAt]
  split
  next => rfl
  next other => exact absurd unspanned other

/-- Tests that start on one line are found in document order. -/
theorem testsAt_of_level (spanned : editor.around file line ≠ [])
    (level : (editor.around file line).Pairwise fun first second =>
      decide (first.definition.start.line ≥ second.definition.start.line)) :
    editor.testsAt file line = (editor.around file line).map (·.ref) := by
  rw [testsAt_of_around spanned, List.mergeSort_of_pairwise level]

end Editor

namespace Test.Definition

/-- What is below a definition comes behind it. -/
theorem flatten_sublist (definitions : List Definition) :
    ∀ above ∈ flattenAll definitions, above.flatten.Sublist (flattenAll definitions) := by
  induction definitions using flattenAll.induct (motive_1 := fun definition =>
    ∀ above ∈ definition.flatten, above.flatten.Sublist definition.flatten) with
  | case1 _ _ _ _ _ _ _ _ _ _ _ _ _ _ children below above member =>
    rw [flatten] at member ⊢
    rcases List.mem_cons.mp member with rfl | deeper
    · rw [flatten]
    · exact .cons _ (below above deeper)
  | case2 => exact fun above member => absurd member List.not_mem_nil
  | case3 definition rest own others =>
    intro above member
    rw [flattenAll] at member ⊢
    rcases List.mem_append.mp member with inside | further
    · exact (own above inside).trans (List.sublist_append_left _ _)
    · exact (others above further).trans (List.sublist_append_right _ _)

theorem pair_sublist {definitions : List Definition} {above below : Definition} (member : above ∈ flattenAll definitions)
    (inside : below ∈ flattenAll above.children) : [above, below].Sublist (flattenAll definitions) := by
  refine List.Sublist.trans ?_ (flatten_sublist definitions above member)
  rw [flatten_eq]
  exact List.cons_sublist_cons.mpr (List.singleton_sublist.mpr inside)

end Test.Definition

namespace Collection
open Editor

variable {collection : Collection Editor} {entry : FileEntry} {file : Path}

/-- The definitions of a file are those that the index has for it, each with its own item. -/
theorem Recorded.fileItems (recorded : collection.Recorded Grouped) (member : entry ∈ collection.tracked)
    (own : file.same entry.file = true) :
    (collection.tracker.fileItems file).map (·.definition) = (Definition.flattenAll entry.tests).map Definition.bare ∧
      ((collection.tracker.fileItems file).map (·.ref)).Nodup ∧
      ∀ indexed ∈ collection.tracker.fileItems file, collection.tracker.item? indexed.definition.id = some indexed.ref := by
  obtain ⟨ledger, accounts, grouped⟩ := recorded.ledger
  obtain ⟨listed, inside, same, flat, tests, -⟩ := accounts.item_of_definition member
  have register := grouped.toRegister
  have placed : ∀ item ∈ listed.2, item ∈ ledger.items := fun item held => Ledger.mem_items.mpr ⟨listed, inside, held⟩
  rw [register.fileItems_eq inside (Path.same_trans same (Path.same_symm own)), tests, Definition.flattenAll_nest flat,
    List.map_map, List.map_map]
  refine ⟨rfl, ?_, ?_⟩
  · refine List.Nodup.map_on ?_ (List.Nodup.of_map _ (register.entry_ids inside))
    intro first one second two equal
    exact register.item_eq_of_ref (placed first one) (placed second two) equal
  · intro indexed found
    obtain ⟨item, held, rfl⟩ := List.mem_map.mp found
    exact register.item?_eq (placed item held)

/-- A condition that does not depend on what is below picks the same definitions and items. -/
theorem Recorded.picked (recorded : collection.Recorded Grouped) (member : entry ∈ collection.tracked)
    (own : file.same entry.file = true) (condition : Definition → Bool)
    (bare : ∀ definition, condition definition.bare = condition definition) :
    (((collection.tracker.fileItems file).filter (condition ·.definition)).map (·.definition) =
        ((Definition.flattenAll entry.tests).filter condition).map Definition.bare) ∧
      ((collection.tracker.fileItems file).filter (condition ·.definition)).map (some ·.ref) =
        ((Definition.flattenAll entry.tests).filter condition).map (collection.tracker.item? ·.id) := by
  obtain ⟨definitions, -, items⟩ := recorded.fileItems member own
  have picked : ((collection.tracker.fileItems file).filter (condition ·.definition)).map (·.definition) =
      ((Definition.flattenAll entry.tests).filter condition).map Definition.bare := by
    have filtered := congrArg (List.filter condition) definitions
    rw [List.filter_map, List.filter_map] at filtered
    have same : condition ∘ Definition.bare = condition := funext bare
    rwa [same] at filtered
  refine ⟨picked, ?_⟩
  calc ((collection.tracker.fileItems file).filter (condition ·.definition)).map (some ·.ref)
      = ((collection.tracker.fileItems file).filter (condition ·.definition)).map (collection.tracker.item? ·.definition.id) :=
        List.map_congr_left fun indexed held => (items indexed (List.mem_of_mem_filter held)).symm
    _ = (((collection.tracker.fileItems file).filter (condition ·.definition)).map (·.definition)).map
          (collection.tracker.item? ·.id) := by rw [List.map_map]; rfl
    _ = ((Definition.flattenAll entry.tests).filter condition).map (collection.tracker.item? ·.id) := by
        rw [picked, List.map_map]; rfl

/-- What is around a line is told by the definitions, each with its own item. -/
theorem Recorded.around (recorded : collection.Recorded Grouped) (member : entry ∈ collection.tracked)
    (own : file.same entry.file = true) (line : Nat) :
    ((collection.tracker.around file line).map (·.definition) =
        ((Definition.flattenAll entry.tests).filter (spans line)).map Definition.bare) ∧
      ((collection.tracker.around file line).map (·.ref)).Nodup ∧
      ((collection.tracker.around file line).map (some ·.ref) =
        ((Definition.flattenAll entry.tests).filter (spans line)).map (collection.tracker.item? ·.id)) := by
  obtain ⟨-, once, -⟩ := recorded.fileItems member own
  obtain ⟨definitions, refs⟩ := recorded.picked member own (spans line) fun _ => rfl
  exact ⟨definitions, once.sublist (List.filter_sublist.map _), refs⟩

/-- Of two definitions around a line, the one in the other is found first just when it starts on a later line. -/
theorem Recorded.found_before_iff (recorded : collection.Recorded Grouped) (member : entry ∈ collection.tracked)
    (own : file.same entry.file = true) {line : Nat} {above below : Definition}
    (high : above ∈ (Definition.flattenAll entry.tests).filter (spans line))
    (low : below ∈ (Definition.flattenAll above.children).filter (spans line)) {upper lower : Ref}
    (above_item : collection.tracker.item? above.id = some upper) (below_item : collection.tracker.item? below.id = some lower) :
    [lower, upper].Sublist (collection.tracker.testsAt file line) ↔ above.start.line < below.start.line := by
  obtain ⟨definitions, distinct, -⟩ := recorded.around member own line
  obtain ⟨-, -, items⟩ := recorded.fileItems member own
  obtain ⟨inside, here⟩ := List.mem_filter.mp high
  obtain ⟨deeper, there⟩ := List.mem_filter.mp low
  have pair := (Definition.pair_sublist inside deeper).filter (spans line)
  rw [List.filter_cons_of_pos here, List.filter_cons_of_pos there, List.filter_nil] at pair
  have views := pair.map Definition.bare
  rw [← definitions] at views
  obtain ⟨outer, inner, listing, outer_view, inner_view⟩ := pair_of_map views
  have outer_listed : outer ∈ collection.tracker.around file line := listing.subset List.mem_cons_self
  have inner_listed : inner ∈ collection.tracker.around file line := listing.subset (List.mem_cons_of_mem _ List.mem_cons_self)
  obtain rfl : outer.ref = upper := by
    have own_item := items outer (List.mem_of_mem_filter outer_listed)
    rw [outer_view] at own_item
    exact Option.some.inj (own_item.symm.trans above_item)
  obtain rfl : inner.ref = lower := by
    have own_item := items inner (List.mem_of_mem_filter inner_listed)
    rw [inner_view] at own_item
    exact Option.some.inj (own_item.symm.trans below_item)
  have order := flipped_mergeSort_iff (·.definition.start.line) (List.Nodup.of_map _ distinct) listing
  rw [outer_view, inner_view] at order
  have same := List.mergeSort_perm (collection.tracker.around file line) fun first second =>
    first.definition.start.line ≥ second.definition.start.line
  rw [testsAt_of_around (List.ne_nil_of_mem outer_listed)]
  exact (pair_map_iff ((same.map _).nodup_iff.mpr distinct) (same.mem_iff.mpr inner_listed) (same.mem_iff.mpr outer_listed)).trans order

/-- **What is found at a line.** After every run in which no two tracked definitions have one id and no file is tracked in
two workspaces, the tests found at a line are those around it, each once, and a test comes before a group that it is in
when it starts on a later line. Around other lines, the classes of the file are found in document order. -/
theorem tests_found_around_line (reader : Surface.Reader) (configuration : Configuration) (actions : List Action)
    (accepted : ∀ intake ∈ (fresh reader configuration).allIntakes actions, Accepted intake) :
    let reached := (fresh reader configuration).performAll actions
    ∀ entry ∈ reached.tracked, ∀ file : Path, file.same entry.file = true → ∀ line : Nat,
      let found := reached.tracker.testsAt file line
      let around := (Definition.flattenAll entry.tests).filter (spans line)
      (around ≠ [] → found.Nodup ∧ (found.map some).Perm (around.map (reached.tracker.item? ·.id)) ∧
        ∀ above ∈ around, ∀ below ∈ (Definition.flattenAll above.children).filter (spans line), ∀ upper lower,
          reached.tracker.item? above.id = some upper → reached.tracker.item? below.id = some lower →
            ([lower, upper].Sublist found ↔ above.start.line < below.start.line)) ∧
      (around = [] → found.map some =
        ((Definition.flattenAll entry.tests).filter (·.kind = .classLike)).map (reached.tracker.item? ·.id)) := by
  intro reached entry member file own line
  have recorded : reached.Recorded Grouped := recorded_run lasting_grouped (grouped_start _) accepted
  obtain ⟨definitions, distinct, refs⟩ := recorded.around member own line
  obtain ⟨-, classes⟩ := recorded.picked member own (·.kind = .classLike) fun _ => rfl
  intro found around
  have empty : reached.tracker.around file line = [] ↔ around = [] := by
    rw [← List.map_eq_nil_iff (f := (·.definition)), ← List.map_eq_nil_iff (l := around) (f := Definition.bare)]
    exact iff_of_eq (congrArg (· = []) definitions)
  refine ⟨fun spanned => ?_, fun unspanned => ?_⟩
  · have shown : found = _ := testsAt_of_around (empty.not.mpr spanned)
    have same := List.mergeSort_perm (reached.tracker.around file line) fun first second =>
      first.definition.start.line ≥ second.definition.start.line
    refine ⟨shown ▸ (same.map _).nodup_iff.mpr distinct, ?_, ?_⟩
    · rw [shown, List.map_map, ← refs]
      exact same.map _
    · intro above high below low upper lower above_item below_item
      exact recorded.found_before_iff member own high low above_item below_item
  · have shown : found = reached.tracker.testsInFile file := testsAt_of_beside (empty.mpr unspanned)
    rw [shown, testsInFile, List.map_map]
    exact classes

/-- A reader of a test in a group that starts on a line above it, or on its own line. -/
private def lineReader : Surface.Reader := fun source =>
  let called := fun (name label : String) (first last : Nat) (body : List Code.Node) =>
    Code.Node.statement {
      expression := .call {
        kind := .function
        name
        arguments := [.string { value := label, raw := label }, .closure { body := { children := body } }] }
      extent := { start := { row := first }, stop := { row := last } } }
  match source with
  | "lines" => some (.program { children := [called "describe" "cart" 1 3 [called "test" "adds" 2 2 []]] })
  | "line" => some (.program { children := [called "describe" "cart" 1 1 [called "test" "adds" 1 1 []]] })
  | _ => none

private def lineConfiguration : Configuration where
  root := ⟨"/p"⟩
  rules := [{ suite := "unit", tag := .file, value := "Cart.php" }]

/-- At the line of the test there are the test and, behind it, its group. -/
theorem inner_test_found_first :
    let reached := (fresh lineReader lineConfiguration).performAll [.update ⟨"/p/Cart.php"⟩ "lines"]
    ∃ upper lower, reached.tracker.item? "Cart.php::`cart`" = some upper ∧
      reached.tracker.item? "Cart.php::`cart` → adds" = some lower ∧
      (reached.tracker.testsAt ⟨"/p/Cart.php"⟩ 2).Nodup ∧ [lower, upper].Sublist (reached.tracker.testsAt ⟨"/p/Cart.php"⟩ 2) := by
  intro reached
  obtain ⟨entry, member, own, spanned⟩ : ∃ entry ∈ reached.tracked, Path.same ⟨"/p/Cart.php"⟩ entry.file = true ∧
      ∃ above ∈ (Definition.flattenAll entry.tests).filter (spans 2),
        ∃ below ∈ (Definition.flattenAll above.children).filter (spans 2),
          reached.tracker.item? above.id = some 1 ∧ reached.tracker.item? below.id = some 2 ∧
            above.start.line < below.start.line := by decide +kernel
  obtain ⟨above, high, below, low, above_item, below_item, later⟩ := spanned
  obtain ⟨once, -, order⟩ := (tests_found_around_line lineReader lineConfiguration [.update ⟨"/p/Cart.php"⟩ "lines"]
    (by decide +kernel) entry member ⟨"/p/Cart.php"⟩ own 2).1 (List.ne_nil_of_mem high)
  exact ⟨1, 2, by decide +kernel, by decide +kernel, once, (order above high below low 1 2 above_item below_item).mpr later⟩

/-- A group on one line with its test comes before it. -/
theorem outer_group_found_first :
    let reached := (fresh lineReader lineConfiguration).performAll [.update ⟨"/p/Cart.php"⟩ "line"]
    reached.DistinctIds ∧
      (∃ entry ∈ reached.tracked, ∃ above ∈ (Definition.flattenAll entry.tests).filter (spans 1),
        ∃ below ∈ (Definition.flattenAll above.children).filter (spans 1),
          above.id = "Cart.php::`cart`" ∧ below.id = "Cart.php::`cart` → adds") ∧
      (reached.tracker.testsAt ⟨"/p/Cart.php"⟩ 1).map reached.tracker.outline.idOf =
        ["Cart.php::`cart`", "Cart.php::`cart` → adds"] := by
  refine ⟨by decide +kernel, by decide +kernel, ?_⟩
  rw [testsAt_of_level (by decide +kernel) (by decide +kernel)]
  decide +kernel

end Collection

end TestScout
