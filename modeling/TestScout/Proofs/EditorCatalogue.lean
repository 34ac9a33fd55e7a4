import TestScout.Proofs.EditorBooks

/-! The groups of a run in one workspace. As long as no two definitions have one id, the groups have the items of the
definitions that are tracked after every action: what belongs to a group is found there, and nothing else. -/

namespace TestScout
open Test Outline

/-- A definition is in the groups that it names, and a test method in those of its class. -/
def Gathers (entries : List FileEntry) (group : String) (definition : Definition) : Prop :=
  group ∈ definition.annotations.group ∨ definition.kind = .method ∧ ∃ entry ∈ entries,
    ∃ parent ∈ Definition.flattenAll entry.tests, parent.kind = .classLike ∧ group ∈ parent.annotations.group ∧
      ∃ child ∈ parent.children, child.bare = definition

/-- The class that is innermost around an item in the list has its definition as a child in the forest. -/
theorem class_around_iff {items : List (Ref × Definition)} (flat : ∀ definition ∈ items.map (·.2), definition.children = [])
    (distinct : (items.map (·.2.id)).Nodup) {group : String} {definition : Definition} :
    (∃ above item, (above, item) ∈ trails (·.2.depth) [] items ∧ item.2 = definition ∧
        ∃ closest ∈ above.head?, closest.2.kind = .classLike ∧ group ∈ closest.2.annotations.group) ↔
      ∃ parent ∈ Definition.flattenAll (Definition.nest (items.map (·.2))), parent.kind = .classLike ∧
        group ∈ parent.annotations.group ∧ ∃ child ∈ parent.children, child.bare = definition := by
  have once : (items.map (·.2)).Nodup := by
    apply List.Nodup.of_map (·.id)
    rwa [List.map_map]
  have linked := @Definition.nest_link_iff _ flat once
  constructor
  · rintro ⟨above, item, trail, same, closest, first, class_like, inside⟩
    obtain ⟨rest, rfl⟩ := List.head?_eq_some_iff.mp first
    have link : (closest.2 :: rest.map (·.2), definition) ∈ trails Definition.depth [] (items.map (·.2)) :=
      mem_trails_map.mpr ⟨closest :: rest, item, trail, rfl, same⟩
    obtain ⟨parent, around, bare, child⟩ := linked.mp ⟨_, link⟩
    rw [← bare] at class_like inside
    exact ⟨parent, around, class_like, inside, child⟩
  · rintro ⟨parent, around, class_like, inside, child⟩
    obtain ⟨above, link⟩ := linked.mpr ⟨parent, around, rfl, child⟩
    obtain ⟨outer, item, trail, front, equal⟩ := mem_trails_map.mp link
    obtain ⟨closest, rest, rfl, own, -⟩ := List.map_eq_cons_iff.mp front
    refine ⟨_, item, trail, equal, closest, rfl, ?_⟩
    rw [own]
    exact ⟨class_like, inside⟩

namespace Editor.Grouped

variable {editor : Editor} {ledger : Ledger} {entries : List FileEntry} (grouped : Grouped editor ledger)
include grouped

theorem mem_testsInGroup (accounts : Accounts ledger entries) {group : String} {ref : Ref} :
    ref ∈ editor.testsInGroup group ↔ ∃ id definition, editor.item? id = some ref ∧
      editor.definition? id = some definition ∧ Gathers entries group definition := by
  have flat : ∀ listed ∈ ledger, ∀ definition ∈ listed.2.map (·.2), definition.children = [] := by
    intro listed known definition inside
    obtain ⟨item, placed, rfl⟩ := List.mem_map.mp inside
    exact accounts.flat item (Ledger.mem_items.mpr ⟨listed, known, placed⟩)
  rw [grouped.members]
  constructor
  · intro ⟨listed, known, above, item, trail, same, joined⟩
    subst same
    have placed := (mem_of_mem_trails trail).1
    have member := Ledger.mem_items.mpr ⟨listed, known, placed⟩
    refine ⟨item.2.id, item.2, grouped.item?_eq member, ?_, joined.imp_right ?_⟩
    · rw [definition?, grouped.lookup member]
      rfl
    · intro ⟨method, closest⟩
      obtain ⟨entry, entered, -, tests⟩ := accounts.known listed known
      refine ⟨method, entry, entered, ?_⟩
      rw [tests]
      exact (class_around_iff (flat listed known) (grouped.entry_ids known)).mp ⟨above, item, trail, rfl, closest⟩
  · intro ⟨id, definition, item_found, definition_found, gathers⟩
    obtain ⟨indexed, found, rfl⟩ := Option.map_eq_some_iff.mp item_found
    obtain ⟨item, member, rfl, rfl⟩ := grouped.lookup_eq_some found
    rw [definition?, found, Option.map_some, Option.some_inj] at definition_found
    subst definition_found
    cases gathers with
    | inl own =>
      obtain ⟨listed, known, placed⟩ := Ledger.mem_items.mp member
      obtain ⟨above, trail⟩ := exists_trail placed
      exact ⟨listed, known, above, item, trail, rfl, .inl own⟩
    | inr outer =>
      obtain ⟨method, entry, entered, around⟩ := outer
      obtain ⟨listed, known, -, tests⟩ := accounts.entered entry entered
      rw [tests] at around
      obtain ⟨above, other, trail, equal, closest⟩ :=
        (class_around_iff (flat listed known) (grouped.entry_ids known)).mpr around
      have also := Ledger.mem_items.mpr ⟨listed, known, (mem_of_mem_trails trail).1⟩
      obtain rfl := grouped.item_eq also member (congrArg Definition.id equal)
      exact ⟨listed, known, above, other, trail, rfl, .inr ⟨method, closest⟩⟩

theorem mem_groupNames {group : String} : group ∈ editor.groupNames ↔ editor.testsInGroup group ≠ [] := by
  rw [groupNames, List.mem_mergeSort]
  exact grouped.proper.mem_names

theorem sorted_groupNames : editor.groupNames.Pairwise (· < ·) := by
  have ordered : editor.groupNames.Pairwise (· ≤ ·) := List.pairwise_mergeSort' (· ≤ ·) _
  have distinct : editor.groupNames.Nodup := (List.mergeSort_perm _ _).nodup_iff.mpr grouped.proper.names
  exact ordered.imp₂ (fun _ _ below differs => lt_of_le_of_ne below differs) distinct

end Editor.Grouped

/-! ## Runs -/

namespace Collection
open Editor

/-- After every run in one workspace, a group has exactly the items in the index whose definitions are in it, each of them
once, and the names of the groups are those of the groups with items, in their order. -/
theorem groups_gather_definitions (reader : Surface.Reader) (configuration : Configuration) (actions : List Action)
    (steady : ∀ action ∈ actions, ∀ configuration, action ≠ .configure configuration)
    (distinct : ∀ intake ∈ (fresh reader configuration).allIntakes actions, intake.after.DistinctIds) :
    let reached := (fresh reader configuration).performAll actions
    (∀ group, (reached.tracker.testsInGroup group).Nodup ∧ ∀ ref, ref ∈ reached.tracker.testsInGroup group ↔
      ∃ id definition, reached.tracker.item? id = some ref ∧ reached.tracker.definition? id = some definition ∧
        Gathers reached.entries group definition) ∧
      reached.tracker.groupNames.Pairwise (· < ·) ∧
      ∀ group, group ∈ reached.tracker.groupNames ↔ reached.tracker.testsInGroup group ≠ [] := by
  intro reached
  obtain ⟨ledger, accounts, grouped⟩ := (booked_run lasting_grouped (grouped_start _) steady distinct).ledger
  refine ⟨?_, grouped.sorted_groupNames, fun group => grouped.mem_groupNames⟩
  intro group
  exact ⟨grouped.proper.nodup_members group, fun ref => grouped.mem_testsInGroup accounts⟩

/-- A reader of a cart whose tests are in groups, of the same cart with other groups, of orders, and of a file with two
tests of one name, each in a group of its own. -/
private def groupsReader : Surface.Reader := fun source =>
  let within := fun (group : String) => [Source.Comment.ofText ("/** @group " ++ group ++ " */") {}]
  let called := fun (group : String) =>
    Code.Node.statement {
      expression := .call {
        kind := .method
        name := "group"
        arguments := [.string { value := group, raw := group }]
        chain := some { kind := .function, name := "test", arguments := [.string { value := "total", raw := "total" }] } } }
  match source with
  | "cart" => some (.program {
      children := [.classDecl {
        name := "CartTest"
        comments := within "shop"
        body := [.method { name := "testAdd", body := some {} }, .method { name := "testPay", comments := within "slow", body := some {} }] }] })
  | "fast" => some (.program {
      children := [.classDecl {
        name := "CartTest"
        body := [.method { name := "testAdd", comments := within "slow", body := some {} }, .method { name := "testPay", body := some {} }] }] })
  | "order" => some (.program {
      children := [.classDecl { name := "OrderTest", comments := within "shop", body := [.method { name := "testTotal", body := some {} }] }] })
  | "twice" => some (.program { children := [called "slow", called "fast"] })
  | _ => none

private def groupsConfiguration : Configuration where
  root := ⟨"/p"⟩
  rules := [{ suite := "unit", tag := .file, value := "Cart.php" }, { suite := "unit", tag := .file, value := "Order.php" }]

private def groupsRun : List Action :=
  [.update ⟨"/p/Cart.php"⟩ "cart", .update ⟨"/p/Order.php"⟩ "order", .hold [0, 1], .update ⟨"/p/Cart.php"⟩ "fast"]

/-- A cart that is in the group of a shop no longer leaves it with all its tests, and the orders stay there. -/
theorem cart_leaves_group :
    let reached := (fresh groupsReader groupsConfiguration).performAll groupsRun
    (∀ ref, ref ∈ reached.tracker.testsInGroup "shop" ↔
      ∃ id definition, reached.tracker.item? id = some ref ∧ reached.tracker.definition? id = some definition ∧
        Gathers reached.entries "shop" definition) ∧
      "slow" ∈ reached.tracker.groupNames ∧
      (reached.tracker.testsInGroup "shop").map reached.tracker.outline.idOf = ["OrderTest", "OrderTest::testTotal"] ∧
      (reached.tracker.testsInGroup "slow").map reached.tracker.outline.idOf = ["CartTest::testAdd"] := by
  obtain ⟨members, -, names⟩ := groups_gather_definitions groupsReader groupsConfiguration groupsRun
    (by simp [groupsRun]) (by decide +kernel)
  refine ⟨(members "shop").2, (names "slow").mpr ?_, ?_⟩
  · decide +kernel
  · decide +kernel

/-- Of two tests with one id the first one stays in its group when the file goes. -/
theorem repeated_test_left_in_group :
    let after := (fresh groupsReader groupsConfiguration).performAll [.update ⟨"/p/Cart.php"⟩ "twice", .delete ⟨"/p/Cart.php"⟩]
    after.entries.isEmpty ∧ after.tracker.index.isEmpty ∧ after.tracker.groupNames = ["slow"] ∧
      after.tracker.testsInGroup "slow" ≠ [] := by
  decide +kernel

end Collection

end TestScout
