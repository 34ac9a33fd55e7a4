import TestScout.Proofs.EditorHistory

/-! What an editor shows of the tracked files. As long as no two files ever declare one id, the index has an item for
each definition of each entry, classes hang below the chain of their namespaces, everything else hangs below its
parent, and there is nothing else in the outline. -/

namespace TestScout
open Test Outline

namespace Outline

variable {outline : Outline} {ref : Ref} {front : List Ref}

theorem mem_all_of_path {live : Ref → Prop} (forested : Forested outline live)
    (lies : Chain outline.Holds none (front ++ [ref])) : ref ∈ outline.all := by
  have kept := mem_kept forested lies (List.mem_append_right _ List.mem_cons_self) []
  rwa [List.append_nil] at kept

theorem mem_all_of_top (member : ref ∈ outline.top) : ref ∈ outline.all := by
  refine List.mem_flatMap.mpr ⟨ref, member, ?_⟩
  rw [descendants]
  cases outline.nodes.size with
  | zero => exact List.mem_singleton_self ref
  | succ levels => exact List.mem_cons_self

theorem path_of_mem_all (member : ref ∈ outline.all) : ∃ front, Chain outline.Holds none (front ++ [ref]) := by
  obtain ⟨root, top, below⟩ := List.mem_flatMap.mp member
  rcases path_of_mem_descendantsUpTo below with rfl | ⟨front, lies⟩
  · exact ⟨[], top, trivial⟩
  · exact ⟨root :: front, top, lies⟩

end Outline

namespace Editor

/-- What the index and the outline show is what the entries define. -/
structure Displays (editor : Editor) (entries : List FileEntry) : Prop where
  keys : ∀ id, id ∈ editor.index.map (·.1) ↔
    id ∈ (entries.flatMap fun entry => Definition.flattenAll entry.tests).map (·.id)
  indexed : ∀ entry ∈ entries, ∀ definition ∈ Definition.flattenAll entry.tests, ∃ ref,
    editor.item? definition.id = some ref ∧ editor.definition? definition.id = some definition.bare ∧
      editor.outline.idOf ref = definition.id
  /-- There is one path to a class: the items of the segments of its namespace. -/
  classes : ∀ entry ∈ entries, ∀ definition ∈ Definition.flattenAll entry.tests, definition.kind = .classLike →
    ∃ ref ∈ editor.item? definition.id, ∃ front, front.map editor.outline.idOf = spaceIds definition.space ∧
      ∀ path, Chain editor.outline.Holds none (path ++ [ref]) ↔ path = front
  members : ∀ entry ∈ entries, ∀ definition ∈ Definition.flattenAll entry.tests, definition.kind ≠ .classLike →
    ∃ parent ∈ Definition.flattenAll entry.tests, definition ∈ parent.children ∧
      ∃ above ∈ editor.item? parent.id, ∃ ref ∈ editor.item? definition.id, ref ∈ editor.outline.childrenOf (some above)
  /-- All else in the outline are namespaces on the way to classes. -/
  only : ∀ ref ∈ editor.outline.all, (∃ id, editor.item? id = some ref) ∨
    (∃ name, editor.outline.idOf ref = spaceMark ++ name) ∧ editor.outline.childrenOf (some ref) ≠ [] ∧
      ∃ entry ∈ entries, ∃ definition ∈ Definition.flattenAll entry.tests, definition.kind = .classLike ∧
        ∃ below ∈ editor.item? definition.id, ∃ front, Chain editor.outline.Holds none (front ++ [below]) ∧ ref ∈ front

theorem Displays.nothing {editor : Editor} (displays : editor.Displays []) :
    editor.index = [] ∧ editor.outline.top = [] := by
  have empty : editor.index = [] := by
    refine List.eq_nil_iff_forall_not_mem.mpr ?_
    intro listed member
    have key := (displays.keys listed.1).mp (List.mem_map_of_mem member)
    cases key
  refine ⟨empty, List.eq_nil_iff_forall_not_mem.mpr ?_⟩
  intro ref top
  rcases displays.only ref (mem_all_of_top top) with ⟨id, found⟩ | ⟨-, -, entry, none, -⟩
  · rw [item?, empty] at found
    cases found
  · cases none

namespace Mirror

variable {editor : Editor} {ledger : Ledger} {spaces : Ref → Prop}

/-- Each namespace is on the way to some class. -/
theorem leads_to_class (mirror : Mirror editor ledger spaces) {ref : Ref} (space : spaces ref) :
    ∃ item ∈ ledger.items, item.2.kind = .classLike ∧ ∃ front, Chain editor.outline.Holds none (front ++ [item.1]) ∧
      ref ∈ front := by
  obtain ⟨front, -, lies⟩ := mirror.upper ref space
  -- Paths do not get longer than there are items.
  have room : front.length + (editor.outline.nodes.size - front.length) = editor.outline.nodes.size := by
    have length := mirror.forested.path_length lies
    rw [List.length_append] at length
    omega
  generalize editor.outline.nodes.size - front.length = left at room
  induction left generalizing front ref with
  | zero =>
    have length := mirror.forested.path_length lies
    simp only [List.length_append, List.length_singleton] at length
    omega
  | succ left ih =>
    obtain ⟨child, held⟩ := List.exists_mem_of_ne_nil _ (mirror.filled ref space)
    have deeper : Chain editor.outline.Holds none ((front ++ [ref]) ++ [child]) := by
      refine chain_append.mpr ⟨lies, ?_, trivial⟩
      rw [List.getLast?_concat]
      exact held
    have below : Open (ledger.Alive spaces) (some ref) := Open.below (.inr space)
    rcases (mirror.forested.inside (some ref) child below held).1 with ⟨item, member, rfl⟩ | inner
    · refine ⟨item, member, ?_, front ++ [ref], deeper, List.mem_append_right _ List.mem_cons_self⟩
      by_contra kind
      obtain ⟨entry, inside, placed⟩ := Ledger.mem_items.mp member
      obtain ⟨parent, around, shown⟩ := mirror.exists_parent inside placed kind
      have known := Ledger.mem_items.mpr ⟨entry, inside, around⟩
      have same := mirror.forested.place_unique (Open.below (.inl ⟨parent, known, rfl⟩)) below shown held
      exact mirror.not_space known (Option.some_inj.mp same ▸ space)
    · obtain ⟨item, member, kind, path, last, on⟩ := ih inner (front ++ [ref]) deeper (by simp; omega)
      refine ⟨item, member, kind, path, last, ?_⟩
      obtain ⟨early, late, rfl⟩ := List.append_of_mem on
      have shorter : Chain editor.outline.Holds none (early ++ [child]) := by
        rw [← List.singleton_append, ← List.append_assoc, List.append_assoc] at last
        exact (chain_append.mp last).1
      have same := mirror.forested.path_unique shorter deeper
      rw [same]
      simp

section

variable (mirror : Mirror editor ledger spaces) {entries : List FileEntry} (accounts : Accounts ledger entries)
  {entry : FileEntry} (member : entry ∈ entries) {definition : Definition}
  (inside : definition ∈ Definition.flattenAll entry.tests)
include mirror accounts member inside

theorem exists_item : ∃ item ∈ ledger.items, item.2 = definition.bare ∧ editor.item? definition.id = some item.1 := by
  obtain ⟨listed, known, -, -, -, found⟩ := accounts.item_of_definition member
  obtain ⟨item, placed, same⟩ := found definition inside
  have own := Ledger.mem_items.mpr ⟨listed, known, placed⟩
  refine ⟨item, own, same, ?_⟩
  rw [← mirror.item?_eq own, same]
  rfl

theorem class_displayed (kind : definition.kind = .classLike) :
    ∃ ref ∈ editor.item? definition.id, ∃ front, front.map editor.outline.idOf = spaceIds definition.space ∧
      ∀ path, Chain editor.outline.Holds none (path ++ [ref]) ↔ path = front := by
  obtain ⟨item, own, same, found⟩ := mirror.exists_item accounts member inside
  obtain ⟨front, -, segments, lies⟩ := mirror.classes item own (same ▸ kind)
  refine ⟨item.1, found, front, ?_, ?_⟩
  · rw [segments, same]
    rfl
  · intro path
    constructor
    · exact fun other => mirror.forested.path_unique other lies
    · exact fun equal => equal ▸ lies

theorem member_displayed (kind : definition.kind ≠ .classLike) :
    ∃ parent ∈ Definition.flattenAll entry.tests, definition ∈ parent.children ∧
      ∃ above ∈ editor.item? parent.id, ∃ ref ∈ editor.item? definition.id,
        ref ∈ editor.outline.childrenOf (some above) := by
  obtain ⟨listed, known, -, flat, tests, -⟩ := accounts.item_of_definition member
  obtain ⟨roots, links⟩ := Definition.nest_links flat
  rw [tests] at inside ⊢
  rcases Definition.root_or_child flat inside with root | ⟨parent, around, child⟩
  · have trail := roots definition root
    obtain ⟨above, item, listed_trail, none, bare⟩ := mem_trails_map.mp trail
    rw [List.map_eq_nil_iff] at none
    obtain ⟨parent, closest, -⟩ := mirror.members listed known above item listed_trail fun found =>
      kind ((congrArg Definition.kind bare).symm.trans found)
    rw [none] at closest
    cases closest
  · refine ⟨parent, around, child, ?_⟩
    obtain ⟨outer, trail⟩ := links parent around definition child
    obtain ⟨above, item, listed_trail, first, bare⟩ := mem_trails_map.mp trail
    obtain ⟨closest, rest, rfl, own, -⟩ := List.map_eq_cons_iff.mp first
    obtain ⟨here, held⟩ := mem_of_mem_trails listed_trail
    obtain ⟨other, head, shown⟩ := mirror.members listed known _ item listed_trail fun found =>
      kind ((congrArg Definition.kind bare).symm.trans found)
    obtain rfl : closest = other := Option.some_inj.mp head
    have placed := (held closest List.mem_cons_self).resolve_left List.not_mem_nil
    refine ⟨closest.1, ?_, item.1, ?_, shown⟩
    · rw [Option.mem_def, ← mirror.item?_eq (Ledger.mem_items.mpr ⟨listed, known, placed⟩), own]
      rfl
    · rw [Option.mem_def, ← mirror.item?_eq (Ledger.mem_items.mpr ⟨listed, known, here⟩), bare]
      rfl

end

theorem displays (mirror : Mirror editor ledger spaces) {entries : List FileEntry} (accounts : Accounts ledger entries) :
    editor.Displays entries where
  keys id := by
    constructor
    · intro key
      obtain ⟨⟨id, indexed⟩, listed, rfl⟩ := List.mem_map.mp key
      obtain ⟨item, member, same, -⟩ := (mirror.index id indexed).mp listed
      obtain ⟨place, inside, placed⟩ := Ledger.mem_items.mp member
      obtain ⟨entry, entered, -, definition, found, bare⟩ := accounts.definition_of_item inside placed
      refine List.mem_map.mpr ⟨definition, List.mem_flatMap.mpr ⟨entry, entered, found⟩, ?_⟩
      rw [same, ← bare]
      rfl
    · intro listed
      obtain ⟨definition, found, rfl⟩ := List.mem_map.mp listed
      obtain ⟨entry, entered, inside⟩ := List.mem_flatMap.mp found
      obtain ⟨item, member, same, -⟩ := mirror.exists_item accounts entered inside
      have indexed := (mirror.index item.2.id ⟨item.1, item.2⟩).mpr ⟨item, member, rfl, rfl⟩
      rw [same] at indexed
      exact List.mem_map_of_mem indexed
  indexed entry entered definition inside := by
    obtain ⟨item, member, same, found⟩ := mirror.exists_item accounts entered inside
    refine ⟨item.1, found, ?_, ?_⟩
    · have looked := mirror.lookup member
      rw [same] at looked
      show (editor.index.lookup definition.bare.id).map (·.definition) = _
      rw [looked]
      rfl
    · rw [mirror.named item member, same]
      rfl
  classes entry entered definition inside kind := mirror.class_displayed accounts entered inside kind
  members entry entered definition inside kind := mirror.member_displayed accounts entered inside kind
  only ref shown := by
    obtain ⟨front, lies⟩ := path_of_mem_all shown
    rcases mirror.forested.alive_of_path lies Open.top (List.mem_append_right _ List.mem_cons_self) with
      ⟨item, member, rfl⟩ | space
    · exact .inl ⟨item.2.id, mirror.item?_eq member⟩
    · refine .inr ⟨mirror.marked ref space, mirror.filled ref space, ?_⟩
      obtain ⟨item, member, kind, path, last, on⟩ := mirror.leads_to_class space
      obtain ⟨place, inside, placed⟩ := Ledger.mem_items.mp member
      obtain ⟨entry, entered, -, definition, found, bare⟩ := accounts.definition_of_item inside placed
      refine ⟨entry, entered, definition, found, ?_, item.1, ?_, path, last, on⟩
      · rw [← bare] at kind
        exact kind
      · have looked := mirror.item?_eq member
        rwa [← bare] at looked

end Mirror

end Editor

namespace Collection
open Editor

/-- An editor displays the entries after every action of a run in one workspace. After the workspace has been given up
there is nothing left. -/
theorem displays_entries_throughout (reader : Surface.Reader) (configuration : Configuration) (actions : List Action)
    (steady : ∀ action ∈ actions, ∀ configuration, action ≠ .configure configuration)
    (clear : ∀ intake ∈ (fresh reader configuration).allIntakes actions, intake.Clear intake.after.entries) :
    ∀ earlier, earlier <+: actions →
      let reached := (fresh reader configuration).performAll earlier
      reached.tracker.Displays reached.entries ∧
        (earlier.getLast? = some .reset → reached.tracker.index = [] ∧ reached.tracker.outline.top = []) := by
  rintro earlier ⟨later, rfl⟩
  have steady_before : ∀ action ∈ earlier, ∀ configuration, action ≠ .configure configuration :=
    fun action member => steady action (List.mem_append_left _ member)
  have clear_before : ∀ intake ∈ (fresh reader configuration).allIntakes earlier, intake.Clear intake.after.entries := by
    intro intake member
    rw [allIntakes_append] at clear
    exact clear intake (List.mem_append_left _ member)
  have solitary := solitary_run reader configuration steady_before
  obtain ⟨ledger, spaces, mirrored⟩ := mirrored_steady_run reader configuration steady_before clear_before
  have accounts := mirrored.accounts
  rw [solitary.tracked_eq] at accounts
  have displays := mirrored.mirror.displays accounts
  refine ⟨displays, ?_⟩
  intro last
  obtain ⟨before, rfl⟩ := List.getLast?_eq_some_iff.mp last
  have lone := solitary_run reader configuration fun action member => steady_before action (List.mem_append_left _ member)
  have reset : (fresh reader configuration).performAll (before ++ [.reset]) =
      ((fresh reader configuration).performAll before).reset := List.foldl_concat ..
  rw [reset, lone.entries_reset] at displays
  rw [reset]
  exact displays.nothing

/-- A reader of classes in namespaces: a cart, an abstract base with one test or with two, and orders that extend it. -/
private def shopReader : Surface.Reader := fun source =>
  let method := fun name => Code.Node.method { name, body := some {} }
  let within := fun (space : String) (node : Code.ClassDecl) =>
    some (.program { children := [.space { name := space, children := [.classDecl node] }] })
  match source with
  | "cart" => within "Shop\\Cart" { name := "CartTest", body := [method "testAdd"] }
  | "base" => within "Shop" { name := "Base", isAbstract := true, body := [method "testId"] }
  | "more" => within "Shop" { name := "Base", isAbstract := true, body := [method "testId", method "testName"] }
  | "order" => within "Shop" { name := "OrderTest", parent := some "Base", body := [method "testTotal"] }
  | _ => none

private def shopConfiguration : Configuration where
  root := ⟨"/p"⟩
  rules := [
    { suite := "unit", tag := .file, value := "Base.php" },
    { suite := "unit", tag := .file, value := "Cart.php" },
    { suite := "late", tag := .file, value := "Order.php" }]

/-- The orders come before their base and get its second test later. The cart goes while others hold on to items. -/
private def shopRun : List Action :=
  [.update ⟨"/p/Cart.php"⟩ "cart", .update ⟨"/p/Order.php"⟩ "order", .update ⟨"/p/Base.php"⟩ "base", .hold [0, 1],
    .update ⟨"/p/Base.php"⟩ "more", .delete ⟨"/p/Cart.php"⟩]

private theorem shop_steady : ∀ action ∈ shopRun, ∀ configuration, action ≠ .configure configuration := by
  simp [shopRun]

private theorem shop_clear :
    ∀ intake ∈ (fresh shopReader shopConfiguration).allIntakes shopRun, intake.Clear intake.after.entries := by
  decide +kernel

/-- An editor displays the orders with the second test of their base, and no trace of the cart. -/
theorem shop_displays_entries :
    let reached := (fresh shopReader shopConfiguration).performAll shopRun
    reached.tracker.Displays reached.entries ∧
      reached.tracker.index.map (·.1) =
        ["Shop\\OrderTest", "Shop\\OrderTest::testTotal", "Shop\\OrderTest::testId", "Shop\\OrderTest::testName"] :=
  ⟨(displays_entries_throughout shopReader shopConfiguration shopRun shop_steady shop_clear shopRun List.prefix_rfl).1,
    by decide +kernel⟩

end Collection

end TestScout
