import TestScout.Proofs.EditorOutline

/-! What belongs to one file stays with it. An action that takes files in or out leaves the items of all other files in
their places and what the index has for them as it is. -/

namespace TestScout
open Test Outline

namespace Editor

/-- Two editors show an entry alike: with the same items in the same places. -/
def ShownAlike (first second : Editor) (entry : FileEntry) : Prop :=
  ∀ definition ∈ Definition.flattenAll entry.tests, ∃ indexed,
    first.index.lookup definition.id = some indexed ∧ second.index.lookup definition.id = some indexed ∧
      indexed.ref ∈ first.outline.all ∧ indexed.ref ∈ second.outline.all ∧
        second.outline.parentOf indexed.ref = first.outline.parentOf indexed.ref

variable {editor first second : Editor} {ledger before after : Ledger} {spaces : Ref → Prop} {entries : List FileEntry}

theorem Mirror.mem_all (mirror : Mirror editor ledger spaces) {item : Ref × Definition} (member : item ∈ ledger.items) :
    item.1 ∈ editor.outline.all := by
  obtain ⟨front, lies⟩ := mirror.rooted item.1 (.inl ⟨item, member, rfl⟩)
  exact mem_all_of_path mirror.forested lies

theorem Kept.shownAlike {touched : Path → Prop} {others : Ref → Prop} (kept : Kept touched first second before after)
    (one : Mirror first before spaces) (two : Mirror second after others) (accounts : Accounts before entries)
    (across : ∀ path file : Path, path.same file = true → touched path → touched file)
    {entry : FileEntry} (member : entry ∈ entries) (away : ¬touched entry.file) : ShownAlike first second entry := by
  obtain ⟨listed, known, own, -, -, found⟩ := accounts.item_of_definition member
  intro definition inside
  obtain ⟨item, placed, same⟩ := found definition inside
  have untouched : ¬touched listed.1 := fun hit => away (across listed.1 entry.file own hit)
  have there := Ledger.mem_items.mpr ⟨listed, known, placed⟩
  have still := Ledger.mem_items.mpr ⟨listed, kept.listed listed known untouched, placed⟩
  have id : definition.id = item.2.id := (congrArg Definition.id same).symm
  rw [id]
  exact ⟨⟨item.1, item.2⟩, one.lookup there, two.lookup still, one.mem_all there, two.mem_all still,
    kept.parents listed known untouched item placed⟩

end Editor

namespace Editor.Intake

theorem file_of_found (intake : Intake) : ∀ definition ∈ intake.found, definition.file = intake.file := by
  intro definition member
  rw [found, Discovery.Scout.look] at member
  split at member
  · cases member
  · obtain ⟨original, -, rfl⟩ := List.mem_map.mp member
    rfl

theorem file_of_entry (intake : Intake) : ∀ definition ∈ Definition.flattenAll intake.entry.tests, definition.file = intake.file := by
  intro definition member
  have bare : definition.bare ∈ (Definition.flattenAll intake.entry.tests).map Definition.bare := List.mem_map_of_mem member
  rw [entry, Definition.forest, Definition.flattenAll_nest intake.found_flat] at bare
  exact intake.file_of_found definition.bare (List.mem_filter.mp bare).1

end Editor.Intake

namespace Collection
open Editor

variable {collection : Collection Editor} {ledger : Ledger} {spaces : Ref → Prop}

instance (collection : Collection Editor) (action : Action) (path : Path) : Decidable (collection.Touched action path) :=
  match action with
  | .update _ _ | .delete _ | .reset | .configure _ | .hold _ => inferInstanceAs (Decidable (_ ∨ _))

theorem Touched.same {action : Action} {path file : Path} (same : path.same file = true)
    (touched : collection.Touched action path) : collection.Touched action file := by
  have across : ∀ other : Path, path.same other = true → file.same other = true :=
    fun other own => Path.same_trans (Path.same_symm same) own
  rcases touched with ⟨intake, member, own⟩ | own
  · exact .inl ⟨intake, member, across intake.file own⟩
  · refine .inr ?_
    cases action with
    | update other | delete other => exact across other own
    | reset =>
      obtain ⟨entry, listed, own⟩ := own
      exact ⟨entry, listed, across entry.file own⟩
    | configure | hold => exact own

theorem Mirrored.shownAlike (mirrored : collection.Mirrored ledger spaces) {action : Action}
    (welcome : ∀ intake ∈ collection.intakes action, Welcome intake) {entry : FileEntry} (member : entry ∈ collection.tracked)
    (away : ¬collection.Touched action entry.file) : ShownAlike collection.tracker (collection.perform action).tracker entry := by
  obtain ⟨next, left, performed, kept⟩ := mirrored.perform action welcome
  exact kept.shownAlike mirrored.mirror performed.mirror mirrored.accounts (fun path file same => Touched.same same) member away

/-- After any run, an action leaves the files alone that it does not touch. -/
theorem untouched_files_shown_alike (reader : Surface.Reader) (configuration : Configuration) (actions : List Action)
    (action : Action) (welcome : ∀ intake ∈ (fresh reader configuration).allIntakes (actions ++ [action]), Welcome intake) :
    let before := (fresh reader configuration).performAll actions
    ∀ entry ∈ before.tracked, ¬before.Touched action entry.file →
      ShownAlike before.tracker (before.perform action).tracker entry := by
  rw [allIntakes_append] at welcome
  obtain ⟨ledger, spaces, mirrored⟩ := mirrored_run (mirrored_fresh reader configuration) fun intake member =>
    welcome intake (List.mem_append_left _ member)
  have last : ∀ intake ∈ ((fresh reader configuration).performAll actions).intakes action, Welcome intake := by
    intro intake member
    refine welcome intake (List.mem_append_right _ ?_)
    rwa [allIntakes, allIntakes, List.append_nil]
  intro before entry member away
  exact mirrored.shownAlike last member away

/-- A reader of classes in blocks of one namespace: a cart, a cart and a bill in two blocks, and an order. -/
private def blockReader : Surface.Reader := fun source =>
  let block := fun (name : String) =>
    Code.Node.space { name := "Shop", children := [.classDecl { name, body := [.method { name := "testAll", body := some {} }] }] }
  match source with
  | "cart" => some (.program { children := [block "CartTest"] })
  | "bill" => some (.program { children := [block "CartTest", block "BillTest"] })
  | "order" => some (.program { children := [block "OrderTest"] })
  | _ => none

private def blockConfiguration : Configuration where
  root := ⟨"/p"⟩
  rules := [{ suite := "unit", tag := .file, value := "Cart.php" }, { suite := "unit", tag := .file, value := "Order.php" }]

private def blockRun (source : String) : List Action :=
  [.update ⟨"/p/Cart.php"⟩ "cart", .hold [0, 1, 2], .update ⟨"/p/Cart.php"⟩ source, .update ⟨"/p/Order.php"⟩ "order"]

/-- The order stays when the cart goes that came first. -/
theorem order_shown_alike_without_cart :
    let before := (fresh blockReader blockConfiguration).performAll (blockRun "cart")
    ∃ entry ∈ before.tracked, entry.file.text = "/p/Order.php" ∧
      ShownAlike before.tracker (before.perform (.delete ⟨"/p/Cart.php"⟩)).tracker entry := by
  have welcome : ∀ intake ∈ (fresh blockReader blockConfiguration).allIntakes (blockRun "cart" ++ [.delete ⟨"/p/Cart.php"⟩]),
      Welcome intake := by
    decide +kernel
  have untouched : ∃ entry ∈ ((fresh blockReader blockConfiguration).performAll (blockRun "cart")).tracked,
      entry.file.text = "/p/Order.php" ∧
        ¬((fresh blockReader blockConfiguration).performAll (blockRun "cart")).Touched (.delete ⟨"/p/Cart.php"⟩) entry.file := by
    decide +kernel
  obtain ⟨entry, member, name, away⟩ := untouched
  exact ⟨entry, member, name, untouched_files_shown_alike blockReader blockConfiguration (blockRun "cart") _ welcome entry member away⟩

/-- With the namespace in two blocks there are two items for it, one of which is out of the outline and held. Taking it
out once more takes out the other one, with the order that it has by then. -/
theorem order_torn_out_with_bill :
    (∀ intake ∈ (fresh blockReader blockConfiguration).allIntakes (blockRun "bill" ++ [.delete ⟨"/p/Cart.php"⟩]),
      (((intake.after.entries.flatMap fun entry => Definition.flattenAll entry.tests).map (·.id)).Nodup)) ∧
      let before := (fresh blockReader blockConfiguration).performAll (blockRun "bill")
      let after := before.perform (.delete ⟨"/p/Cart.php"⟩)
      (∃ entry ∈ before.entries, entry.file.text = "/p/Order.php" ∧ ¬before.Touched (.delete ⟨"/p/Cart.php"⟩) entry.file ∧
        "Shop\\OrderTest" ∈ entry.tests.map (·.id)) ∧
      ∃ ref ∈ before.tracker.item? "Shop\\OrderTest", after.tracker.item? "Shop\\OrderTest" = some ref ∧
        ref ∈ before.tracker.outline.all ∧ ref ∉ after.tracker.outline.all := by
  decide +kernel

/-! ## The files of definitions -/

def Named (collection : Collection Editor) : Prop :=
  ∀ entry ∈ collection.entries, ∀ definition ∈ Definition.flattenAll entry.tests, definition.file = entry.file

theorem Named.store {intake : Intake} (named : intake.before.Named) (ordered : SuiteFiles.Ordered intake.before.suites) :
    intake.after.Named := by
  obtain ⟨-, entries⟩ := store_entries ordered intake.file intake.source intake.suite
  intro entry member
  rcases (entries entry).mp member with ⟨-, rfl⟩ | ⟨old, -⟩
  · rw [intake.parse_eq]
    exact intake.file_of_entry
  · exact named entry old

theorem Named.released (named : collection.Named) (ordered : SuiteFiles.Ordered collection.suites) (file : Path) :
    (collection.released file).Named := by
  obtain ⟨-, entries⟩ := remove_entries ordered file
  intro entry member
  exact named entry ((entries entry).mp member).1

theorem Named.perform (named : collection.Named) (solitary : collection.Solitary) {action : Action}
    (steady : ∀ configuration, action ≠ .configure configuration) : (collection.perform action).Named := by
  have taken : ∀ intake ∈ collection.intakes action, intake.before.Solitary ∧ intake.before.Named →
      intake.after.Solitary ∧ intake.after.Named := by
    intro intake _ ⟨before, known⟩
    exact ⟨before.store intake.file intake.source intake.suite, known.store before.tidy.ordered⟩
  cases action with
  | update file source =>
    exact (update_keeps (motive := fun current => current.Solitary ∧ current.Named) ⟨solitary, named⟩ taken).2
  | delete file =>
    exact (delete_keeps (motive := fun current => current.Solitary ∧ current.Named)
      ⟨solitary.released file, named.released solitary.tidy.ordered file⟩ taken).2
  | reset =>
    intro entry member
    rw [show collection.perform .reset = collection.reset from rfl, solitary.entries_reset] at member
    cases member
  | configure configuration => exact absurd rfl (steady configuration)
  | hold refs => exact named

theorem named_run (reader : Surface.Reader) (configuration : Configuration) {actions : List Action}
    (steady : ∀ action ∈ actions, ∀ configuration, action ≠ .configure configuration) :
    ((fresh reader configuration).performAll actions).Named := by
  have empty : (fresh reader configuration).Named := by
    have none : (fresh reader configuration).entries = [] := (seed_ordered fun present => Bool.noConfusion present).2
    intro entry member
    rw [none] at member
    cases member
  refine (performAll_keeps (motive := fun current => current.Solitary ∧ current.Named)
    ⟨solitary_fresh reader configuration, empty⟩
    (show ∀ intake ∈ (fresh reader configuration).allIntakes actions, True from fun _ _ => trivial) ?_).2
  intro current action member ⟨solitary, named⟩ _
  exact ⟨solitary.perform (steady action member), named.perform solitary (steady action member)⟩

/-- After a run in one workspace each definition of each entry has its item in the outline and is found under its id as
a definition of the file of the entry. -/
theorem definitions_of_entries_found (reader : Surface.Reader) (configuration : Configuration) (actions : List Action)
    (steady : ∀ action ∈ actions, ∀ configuration, action ≠ .configure configuration)
    (clear : ∀ intake ∈ (fresh reader configuration).allIntakes actions, intake.Clear intake.after.entries) :
    let reached := (fresh reader configuration).performAll actions
    ∀ entry ∈ reached.entries, ∀ definition ∈ Definition.flattenAll entry.tests, ∃ ref ∈ reached.tracker.item? definition.id,
      reached.tracker.outline.idOf ref = definition.id ∧ ref ∈ reached.tracker.outline.all ∧
        ∃ shown ∈ reached.tracker.definition? definition.id, shown.file = entry.file := by
  intro reached entry member definition inside
  have named := named_run reader configuration steady entry member definition inside
  have solitary := solitary_run reader configuration steady
  obtain ⟨ledger, spaces, mirrored⟩ := mirrored_steady_run reader configuration steady clear
  have accounts := mirrored.accounts
  rw [solitary.tracked_eq] at accounts
  obtain ⟨item, own, -, found⟩ := mirrored.mirror.exists_item accounts member inside
  obtain ⟨ref, indexed, shown, id⟩ := (mirrored.mirror.displays accounts).indexed entry member definition inside
  obtain rfl : item.1 = ref := Option.some_inj.mp (found.symm.trans indexed)
  exact ⟨item.1, indexed, id, mirrored.mirror.mem_all own, definition.bare, shown, named⟩

/-- A reader of a file with a class, and of one without. -/
private def moveReader : Surface.Reader := fun source =>
  match source with
  | "class" => some (.program { children := [.classDecl { name := "CartTest", body := [.method { name := "testAdd", body := some {} }] }] })
  | _ => some (.program { children := [] })

private def moveConfiguration : Configuration where
  root := ⟨"/p"⟩
  rules := [{ suite := "unit", tag := .file, value := "Old.php" }, { suite := "unit", tag := .file, value := "New.php" }]

/-- A class that leaves its old file before it comes into its new one is found there. -/
theorem moved_class_found :
    let reached := (fresh moveReader moveConfiguration).performAll
      [.update ⟨"/p/Old.php"⟩ "class", .update ⟨"/p/Old.php"⟩ "", .update ⟨"/p/New.php"⟩ "class"]
    ∃ entry ∈ reached.entries, ∃ definition ∈ Definition.flattenAll entry.tests, definition.id = "CartTest::testAdd" ∧
      ∃ ref ∈ reached.tracker.item? definition.id, reached.tracker.outline.idOf ref = definition.id ∧
        ref ∈ reached.tracker.outline.all ∧ ∃ shown ∈ reached.tracker.definition? definition.id, shown.file = entry.file := by
  have steady : ∀ action ∈ [Action.update ⟨"/p/Old.php"⟩ "class", .update ⟨"/p/Old.php"⟩ "", .update ⟨"/p/New.php"⟩ "class"],
      ∀ configuration, action ≠ .configure configuration := by
    simp
  have clear : ∀ intake ∈ (fresh moveReader moveConfiguration).allIntakes
      [.update ⟨"/p/Old.php"⟩ "class", .update ⟨"/p/Old.php"⟩ "", .update ⟨"/p/New.php"⟩ "class"],
      intake.Clear intake.after.entries := by
    decide +kernel
  have tracked : ∃ entry ∈ ((fresh moveReader moveConfiguration).performAll
      [.update ⟨"/p/Old.php"⟩ "class", .update ⟨"/p/Old.php"⟩ "", .update ⟨"/p/New.php"⟩ "class"]).entries,
      ∃ definition ∈ Definition.flattenAll entry.tests, definition.id = "CartTest::testAdd" := by
    decide +kernel
  obtain ⟨entry, member, definition, inside, id⟩ := tracked
  exact ⟨entry, member, definition, inside, id,
    definitions_of_entries_found moveReader moveConfiguration _ steady clear entry member definition inside⟩

/-- A class that comes into its new file before it leaves its old one is found no longer. -/
theorem moved_class_lost :
    let reached := (fresh moveReader moveConfiguration).performAll
      [.update ⟨"/p/Old.php"⟩ "class", .update ⟨"/p/New.php"⟩ "class", .update ⟨"/p/Old.php"⟩ ""]
    (reached.entries.flatMap fun entry => Definition.flattenAll entry.tests).map (·.id) = ["CartTest", "CartTest::testAdd"] ∧
      reached.tracker.item? "CartTest" = none ∧ reached.tracker.outline.all = [] := by
  decide +kernel

end Collection

end TestScout
