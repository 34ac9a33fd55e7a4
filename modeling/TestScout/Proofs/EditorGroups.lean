import TestScout.Proofs.BuilderTags
import TestScout.Proofs.EditorHistory
import TestScout.Proofs.GroupMembers

/-! The tests in groups. As long as no two definitions have one id, a group has exactly the items whose definitions name
it, and those of the test methods of classes that name it: taking out a file takes its items out of all groups, and
taking it in again puts them into the groups that they have by then. -/

namespace TestScout
open Test Outline

def Ledger.Joins (ledger : Ledger) (group : String) (ref : Ref) : Prop :=
  ∃ entry ∈ ledger, ∃ above item, (above, item) ∈ trails (·.2.depth) [] entry.2 ∧ item.1 = ref ∧ InGroup group above item

namespace Editor

structure Grouped (editor : Editor) (ledger : Ledger) : Prop extends Register editor ledger where
  valid : editor.outline.Valid
  exist : ∀ item ∈ ledger.items, item.1 < editor.outline.nodes.size
  proper : Groups.Proper editor.groups
  members : ∀ group ref, ref ∈ editor.testsInGroup group ↔ ledger.Joins group ref

variable {editor : Editor} {ledger : Ledger} {file : Path} {entry : Path × List (Ref × Definition)}

theorem mem_groupsOf {tags : List String} {group : String} : group ∈ groupsOf tags ↔ groupMark ++ group ∈ tags := by
  unfold groupsOf
  rw [List.mem_filterMap]
  constructor
  · intro ⟨tag, member, found⟩
    obtain ⟨rest, after, rfl⟩ := Option.map_eq_some_iff.mp found
    have same : tag = groupMark ++ String.ofList rest := by
      apply String.toList_injective
      rw [Text.eq_append_of_after? after, String.toList_append, String.toList_ofList]
    exact same ▸ member
  · intro member
    refine ⟨groupMark ++ group, member, ?_⟩
    rw [String.toList_append, Text.after?_append, Option.map_some, String.ofList_toList]

/-- An item that has its groups as tags is in these when it is indexed. -/
theorem mem_groupsOf_of_marked {outline : Outline} {above : List (Ref × Definition)} {item : Ref × Definition}
    (marked : Marked outline above item) {group : String} :
    group ∈ groupsOf (outline.item item.1).tags ↔ InGroup group above item := by
  rw [mem_groupsOf, marked.tags]
  constructor
  · intro ⟨other, same, inside⟩
    have equal : group = other := (String.append_right_inj groupMark).mp same
    exact equal ▸ inside
  · intro inside
    exact ⟨group, rfl, inside⟩

/-! ## Taking out a file -/

/-- What is remembered of a file that is taken out goes by its own ids. -/
theorem moved_pruneAll (levels : Nat) (refs : List Ref) {outline : Outline} {removed : List (String × Ref)}
    (sound : outline.Valid) (keyed : outline.Keyed removed) :
    let pruned := refs.foldl (fun state ref => prune levels ref state) (outline, removed)
    Moved outline pruned.1 ∧ pruned.1.Keyed pruned.2 := by
  induction refs generalizing outline removed with
  | nil => exact ⟨Moved.refl outline, keyed⟩
  | cons ref rest ih =>
    obtain ⟨moved, known⟩ := moved_prune levels ref sound keyed
    obtain ⟨further, all⟩ := ih (moved.valid sound) known
    exact ⟨moved.trans further, all⟩

namespace Grouped

theorem moved_takeOut (grouped : Grouped editor ledger) (inside : entry ∈ ledger) (own : entry.1.same file = true) :
    Moved editor.outline (editor.takeOut file).1.outline ∧ (editor.takeOut file).1.outline.Keyed (editor.takeOut file).2 := by
  obtain ⟨same, -⟩ := grouped.takeOut_eq inside own
  obtain ⟨outline, previous⟩ := Prod.mk.injEq .. ▸ same
  rw [outline, previous]
  apply moved_pruneAll _ _ grouped.valid
  intro listed member
  obtain ⟨item, placed, rfl⟩ := List.mem_map.mp member
  have known := Ledger.mem_items.mpr ⟨entry, inside, placed⟩
  exact ⟨grouped.exist item known, grouped.named item known⟩

/-- The items of a file leave all groups. -/
theorem joins_without (grouped : Grouped editor ledger) (inside : entry ∈ ledger) (own : entry.1.same file = true)
    (group : String) (ref : Ref) : (ledger.without file).Joins group ref ↔ ledger.Joins group ref ∧
      (entry.2.map fun item => (item.2.id, item.1)).lookup (editor.outline.idOf ref) ≠ some ref := by
  have keys : ((entry.2.map fun item => (item.2.id, item.1)).map (·.1)).Nodup := by
    rw [List.map_map]
    exact grouped.entry_ids inside
  -- The ids of the file are different, so each item of it is found under its own id and leaves.
  constructor
  · intro ⟨other, listed, above, item, trail, same, joined⟩
    obtain ⟨known, differs⟩ := (grouped.mem_without_iff inside own).mp listed
    have placed := (mem_of_mem_trails trail).1
    refine ⟨⟨other, known, above, item, trail, same, joined⟩, ?_⟩
    intro found
    obtain ⟨taken, held, equal⟩ := List.mem_map.mp (mem_of_lookup found)
    obtain ⟨-, equal⟩ := Prod.mk.injEq .. ▸ equal
    have one := grouped.item_eq_of_ref (Ledger.mem_items.mpr ⟨entry, inside, held⟩)
      (Ledger.mem_items.mpr ⟨other, known, placed⟩) (equal.trans same.symm)
    exact differs (grouped.entry_eq known inside placed (one ▸ held))
  · intro ⟨⟨other, known, above, item, trail, same, joined⟩, stays⟩
    have placed := (mem_of_mem_trails trail).1
    refine ⟨other, (grouped.mem_without_iff inside own).mpr ⟨known, ?_⟩, above, item, trail, same, joined⟩
    intro equal
    subst equal same
    apply stays
    rw [grouped.named item (Ledger.mem_items.mpr ⟨other, known, placed⟩)]
    exact lookup_of_mem keys (List.mem_map.mpr ⟨item, placed, rfl⟩)

theorem takeOut (grouped : Grouped editor ledger) (file : Path) : Grouped (editor.takeOut file).1 (ledger.without file) ∧
    (editor.takeOut file).1.outline.Keyed (editor.takeOut file).2 := by
  by_cases tracked : ∃ entry ∈ ledger, entry.1.same file = true
  · obtain ⟨entry, inside, own⟩ := tracked
    obtain ⟨moved, keyed⟩ := grouped.moved_takeOut inside own
    obtain ⟨-, -, -, groups⟩ := grouped.takeOut_eq inside own
    let stays := fun ref => (entry.2.map fun item => (item.2.id, item.1)).lookup (editor.outline.idOf ref) != some ref
    have left : (editor.takeOut file).1.groups = Groups.without stays editor.groups := groups
    refine ⟨⟨grouped.without inside own moved.idOf, moved.valid grouped.valid, ?_, ?_, ?_⟩, keyed⟩
    · intro item member
      rw [moved.size]
      exact grouped.exist item (Ledger.items_without_subset member)
    · rw [left]
      exact grouped.proper.without stays
    · intro group ref
      rw [grouped.joins_without inside own, ← grouped.members, ← bne_iff_ne]
      show ref ∈ Groups.members (editor.takeOut file).1.groups group ↔ _
      rw [left]
      exact Groups.mem_members_without grouped.proper
  · obtain ⟨same, all⟩ := grouped.takeOut_of_not_mem fun entry member =>
      Bool.eq_false_iff.mpr fun own => tracked ⟨entry, member, own⟩
    rw [same, all]
    exact ⟨grouped, nofun⟩

theorem settle (grouped : Grouped editor ledger) : Grouped editor.settle ledger := by
  have moved : Moved editor.outline editor.settle.outline := moved_keep editor.known
  have register : Register editor.settle ledger := by
    refine ⟨grouped.files, grouped.apart, grouped.index, grouped.ids, ?_⟩
    intro item member
    exact (moved.idOf item.1).trans (grouped.named item member)
  refine ⟨register, moved.valid grouped.valid, ?_, grouped.proper, grouped.members⟩
  intro item member
  rw [moved.size]
  exact grouped.exist item member

end Grouped

/-! ## Taking in a file -/

theorem members_indexed (items : List (Ref × Definition)) {editor : Editor} (proper : Groups.Proper editor.groups) :
    let indexed := items.foldl (fun editor (ref, definition) => editor.indexItem ref definition) editor
    Groups.Proper indexed.groups ∧ ∀ group ref, ref ∈ indexed.testsInGroup group ↔
      ref ∈ editor.testsInGroup group ∨ ∃ item ∈ items, item.1 = ref ∧ group ∈ groupsOf (editor.outline.item item.1).tags := by
  induction items generalizing editor with
  | nil =>
    refine ⟨proper, ?_⟩
    simp
  | cons first rest ih =>
    obtain ⟨all, members⟩ := ih (show Groups.Proper (editor.indexItem first.1 first.2).groups from proper.joinAll first.1 _)
    refine ⟨all, ?_⟩
    intro group ref
    have here : ref ∈ (editor.indexItem first.1 first.2).testsInGroup group ↔
        ref ∈ editor.testsInGroup group ∨ group ∈ groupsOf (editor.outline.item first.1).tags ∧ ref = first.1 :=
      Groups.mem_joinAll _
    refine (members group ref).trans ?_
    rw [here, or_assoc, List.exists_mem_cons_iff, and_comm, eq_comm]
    rfl

theorem Grouped.entered (grouped : Grouped editor ledger) (away : ∀ entry ∈ ledger, entry.1.same file = false)
    (scout : Discovery.Scout) {outline : Outline} (sound : outline.Valid)
    (size : editor.outline.nodes.size ≤ outline.nodes.size)
    (ids : ∀ ref < editor.outline.nodes.size, outline.idOf ref = editor.outline.idOf ref) {items : List (Ref × Definition)}
    (novel : ∀ item ∈ items, ∀ old ∈ ledger.items, old.2.id ≠ item.2.id) (distinct : (items.map (·.2.id)).Nodup)
    (marked : ∀ above item, (above, item) ∈ trails (·.2.depth) [] items → Marked outline above item) :
    Grouped (editor.entered scout outline file items) (ledger.add file items) := by
  have trail_of_mem : ∀ item ∈ items, ∃ above, (above, item) ∈ trails (·.2.depth) [] items := fun _ => exists_trail
  have register : Register (editor.entered scout outline file items) (ledger.add file items) := by
    refine grouped.toRegister.entered away scout ?_ novel distinct ?_
    · intro item member
      exact ids item.1 (grouped.exist item member)
    · intro item member
      obtain ⟨above, trail⟩ := trail_of_mem item member
      exact (marked above item trail).id
  have same : (editor.entered scout outline file items).outline = outline := outline_entered scout outline items
  obtain ⟨proper, members⟩ := members_indexed items (show Groups.Proper { editor with scout, outline }.groups from grouped.proper)
  refine ⟨register, same.symm ▸ sound, ?_, proper, ?_⟩
  · intro item member
    rw [same]
    rw [Ledger.items_add] at member
    cases List.mem_append.mp member with
    | inl old => exact Nat.lt_of_lt_of_le (grouped.exist item old) size
    | inr new =>
      obtain ⟨above, trail⟩ := trail_of_mem item new
      exact (marked above item trail).valid
  · intro group ref
    refine (members group ref).trans ?_
    have before : ref ∈ ({ editor with scout, outline } : Editor).testsInGroup group ↔ ledger.Joins group ref := grouped.members group ref
    rw [before]
    constructor
    · rintro (⟨entry, old, joined⟩ | ⟨item, member, equal, inside⟩)
      · exact ⟨entry, Ledger.mem_add.mpr (.inl old), joined⟩
      · obtain ⟨above, trail⟩ := trail_of_mem item member
        refine ⟨(file, items), Ledger.mem_add.mpr (.inr ⟨List.ne_nil_of_mem member, rfl⟩), above, item, trail, equal, ?_⟩
        exact (mem_groupsOf_of_marked (marked above item trail)).mp inside
    · intro ⟨entry, listed, above, item, trail, equal, joined⟩
      cases Ledger.mem_add.mp listed with
      | inl old => exact .inl ⟨entry, old, above, item, trail, equal, joined⟩
      | inr new =>
        obtain ⟨-, rfl⟩ := new
        refine .inr ⟨item, (mem_of_mem_trails trail).1, equal, ?_⟩
        exact (mem_groupsOf_of_marked (marked above item trail)).mpr joined

/-- A file is taken in. Its ids have to be new and different. -/
theorem Grouped.takeIn (grouped : Grouped editor ledger) (source : String) (suite : String)
    (novel : ∀ definition ∈ (editor.scout.look source file (some suite)).2.filter (·.kind != .space),
      ∀ old ∈ (ledger.without file).items, old.2.id ≠ definition.id)
    (distinct : (((editor.scout.look source file (some suite)).2.filter (·.kind != .space)).map (·.id)).Nodup) :
    (editor.builtItems source file suite).map (·.2) =
        (editor.scout.look source file (some suite)).2.filter (·.kind != .space) ∧
      Grouped (editor.takeIn source file suite).1 ((ledger.without file).add file (editor.builtItems source file suite)) := by
  obtain ⟨without, keyed⟩ := grouped.takeOut file
  obtain ⟨blocks, shaped, found⟩ := editor.scout.look_blocks source file (some suite)
  have labelled := SpaceBlock.definitions_of_blocks shaped
  rw [← found] at labelled
  rw [labelled] at novel distinct ⊢
  obtain ⟨sound, size, ids, labels, marked⟩ := build_marks without.valid keyed file.address? shaped distinct
  rw [← found] at sound size ids labels marked
  have items : (editor.builtItems source file suite).map (·.2) = blocks.flatMap (·.classes.labels) := labels
  refine ⟨items, ?_⟩
  rw [← items] at novel distinct
  rw [List.map_map] at distinct
  rw [takeIn_eq]
  -- Without the file nothing of it is left in any group, so its items come in with the groups that they have now.
  apply Grouped.settle
  refine without.entered ?_ _ sound size ids ?_ distinct marked
  · intro entry member
    exact (Ledger.mem_without.mp member).2
  · intro item member
    exact novel item.2 (List.mem_map_of_mem member)

theorem Grouped.drop (grouped : Grouped editor ledger) (entry : FileEntry) :
    Grouped (Tracker.drop editor entry) (ledger.without entry.file) := (grouped.takeOut entry.file).1.settle

/-- What a scout knows and what others hold make no difference. -/
theorem Grouped.congr (grouped : Grouped editor ledger) {second : Editor} (outline : second.outline = editor.outline)
    (index : second.index = editor.index) (groups : second.groups = editor.groups) (files : second.files = editor.files) :
    Grouped second ledger := by
  cases second
  simp only at outline index groups files
  subst outline index groups files
  exact { grouped with }

end Editor

end TestScout
