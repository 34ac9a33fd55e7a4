import Mathlib.Data.List.Flatten
import Mathlib.Data.List.Nodup
import Mathlib.Data.List.Pairwise
import TestScout.Proofs.CollectionHistory

/-! The register that an editor has of the tracked files: the ids of each file, and for each id the definition and its
item. Each id belongs to one item of one file. Taking out a file takes out its ids, and taking it in adds them. -/

namespace TestScout
open Test Outline

abbrev Ledger := List (Path × List (Ref × Definition))

namespace Ledger

def items (ledger : Ledger) : List (Ref × Definition) := ledger.flatMap (·.2)

def without (ledger : Ledger) (file : Path) : Ledger := ledger.filter (!·.1.same file)

variable {ledger : Ledger} {file other : Path} {entry : Path × List (Ref × Definition)} {item : Ref × Definition}

theorem mem_items : item ∈ ledger.items ↔ ∃ entry ∈ ledger, item ∈ entry.2 := List.mem_flatMap

theorem mem_without : entry ∈ ledger.without file ↔ entry ∈ ledger ∧ entry.1.same file = false := by
  simp [without]

theorem items_without_subset (member : item ∈ (ledger.without file).items) : item ∈ ledger.items := by
  obtain ⟨entry, inside, listed⟩ := mem_items.mp member
  exact mem_items.mpr ⟨entry, (mem_without.mp inside).1, listed⟩

theorem without_congr (same : file.same other = true) : ledger.without file = ledger.without other :=
  List.filter_congr fun entry _ => by rw [Path.same_congr_right same]

theorem without_without : (ledger.without file).without file = ledger.without file := by
  simp [without, List.filter_filter]

/-- The items of a file that is not there yet. A file without items has no entry. -/
def add (ledger : Ledger) (file : Path) (items : List (Ref × Definition)) : Ledger :=
  ledger ++ if items.isEmpty then [] else [(file, items)]

theorem items_add (ledger : Ledger) (file : Path) (items : List (Ref × Definition)) :
    (ledger.add file items).items = ledger.items ++ items := by
  rw [Ledger.items, add, List.flatMap_append]
  cases items with
  | nil => rfl
  | cons first rest => exact congrArg _ (List.append_nil _)

theorem mem_add {items : List (Ref × Definition)} :
    entry ∈ ledger.add file items ↔ entry ∈ ledger ∨ items ≠ [] ∧ entry = (file, items) := by
  rw [add, List.mem_append]
  cases items <;> simp

theorem add_nil (ledger : Ledger) (file : Path) : ledger.add file [] = ledger := List.append_nil ledger

end Ledger

namespace Editor

/-- The editor has the items of the ledger in its list of files and in its index. -/
structure Register (editor : Editor) (ledger : Ledger) : Prop where
  files : editor.files = ledger.map fun (file, items) => (file, items.map (·.2.id))
  apart : ledger.Pairwise fun first second => first.1.same second.1 = false
  index : ∀ id indexed, (id, indexed) ∈ editor.index ↔
    ∃ item ∈ ledger.items, id = item.2.id ∧ indexed = ⟨item.1, item.2⟩
  ids : (ledger.items.map (·.2.id)).Nodup
  named : ∀ item ∈ ledger.items, editor.outline.idOf item.1 = item.2.id

theorem Register.start (scout : Discovery.Scout) : Register { scout } [] where
  files := rfl
  apart := List.Pairwise.nil
  index _ _ := ⟨nofun, fun ⟨_, member, _⟩ => nomatch member⟩
  ids := List.nodup_nil
  named := nofun

theorem indexed_views (built : List (Ref × Definition)) (editor : Editor) :
    let indexed := built.foldl (fun editor (ref, definition) => editor.indexItem ref definition) editor
    indexed.outline = editor.outline ∧ indexed.files = editor.files := by
  induction built generalizing editor with
  | nil => exact ⟨rfl, rfl⟩
  | cons first rest ih => exact ih (editor.indexItem first.1 first.2)

theorem mem_indexed {built : List (Ref × Definition)} (distinct : (built.map (·.2.id)).Nodup) (editor : Editor)
    (id : String) (indexed : Indexed) :
    (id, indexed) ∈ (built.foldl (fun editor (ref, definition) => editor.indexItem ref definition) editor).index ↔
      (∃ item ∈ built, id = item.2.id ∧ indexed = ⟨item.1, item.2⟩) ∨
        (id, indexed) ∈ editor.index ∧ ∀ item ∈ built, item.2.id ≠ id := by
  induction built generalizing editor with
  | nil => simp
  | cons first rest ih =>
    obtain ⟨away, distinct⟩ := List.nodup_cons.mp distinct
    have first_listed : (id, indexed) ∈ (editor.indexItem first.1 first.2).index ↔
        (id, indexed) ∈ editor.index ∧ first.2.id ≠ id ∨ id = first.2.id ∧ indexed = ⟨first.1, first.2⟩ := by
      simp [indexItem, ne_comm]
    rw [List.foldl_cons, ih distinct, first_listed]
    simp only [List.mem_cons, exists_eq_or_imp, forall_eq_or_imp]
    constructor
    · rintro (later | ⟨⟨old, differs⟩ | here, others⟩)
      · exact .inl (.inr later)
      · exact .inr ⟨old, differs, others⟩
      · exact .inl (.inl here)
    · rintro ((⟨rfl, same⟩ | later) | ⟨old, differs, others⟩)
      · exact .inr ⟨.inr ⟨rfl, same⟩, fun item member equal => away (List.mem_map.mpr ⟨item, member, equal⟩)⟩
      · exact .inl later
      · exact .inr ⟨.inl ⟨old, differs⟩, others⟩

variable {editor : Editor} {ledger : Ledger} {file : Path}

namespace Register

variable {entry other : Path × List (Ref × Definition)} {item : Ref × Definition}

theorem item_eq (register : Register editor ledger) {other : Ref × Definition} (member : item ∈ ledger.items)
    (listed : other ∈ ledger.items) (same : item.2.id = other.2.id) : item = other :=
  List.inj_on_of_nodup_map register.ids member listed same

theorem item_eq_of_ref (register : Register editor ledger) {other : Ref × Definition} (member : item ∈ ledger.items)
    (listed : other ∈ ledger.items) (same : item.1 = other.1) : item = other := by
  refine register.item_eq member listed ?_
  rw [← register.named item member, ← register.named other listed, same]

theorem entry_eq (register : Register editor ledger) (inside : entry ∈ ledger) (listed : other ∈ ledger)
    (member : item ∈ entry.2) (again : item ∈ other.2) : entry = other := by
  by_contra differs
  have nodup := register.ids
  rw [Ledger.items, List.map_flatMap, List.nodup_flatMap] at nodup
  have symmetric : Std.Symm (Function.onFun List.Disjoint fun entry : Path × List (Ref × Definition) =>
    entry.2.map (·.2.id)) := ⟨fun _ _ disjoint _ first second => disjoint second first⟩
  exact nodup.2.forall inside listed differs (List.mem_map_of_mem member) (List.mem_map_of_mem again)

theorem lookup_eq_some (register : Register editor ledger) {id : String} {indexed : Indexed}
    (found : editor.index.lookup id = some indexed) :
    ∃ item ∈ ledger.items, id = item.2.id ∧ indexed = ⟨item.1, item.2⟩ := by
  obtain ⟨front, back, split, -⟩ := List.lookup_eq_some_iff.mp found
  refine (register.index id indexed).mp ?_
  rw [split]
  exact List.mem_append_right _ List.mem_cons_self

theorem lookup (register : Register editor ledger) (member : item ∈ ledger.items) :
    editor.index.lookup item.2.id = some ⟨item.1, item.2⟩ := by
  have inside := (register.index item.2.id ⟨item.1, item.2⟩).mpr ⟨item, member, rfl, rfl⟩
  cases found : editor.index.lookup item.2.id with
  | none =>
    have missing := List.lookup_eq_none_iff.mp found _ inside
    simp at missing
  | some indexed =>
    obtain ⟨other, listed, same, rfl⟩ := register.lookup_eq_some found
    rw [register.item_eq member listed same]

theorem item?_eq (register : Register editor ledger) {item : Ref × Definition} (member : item ∈ ledger.items) :
    editor.item? item.2.id = some item.1 := by
  rw [item?, register.lookup member]
  rfl

/-! ## Taking out a file -/

theorem find?_files (register : Register editor ledger) : editor.files.find? (·.1.same file) =
    (ledger.find? (·.1.same file)).map fun (file, items) => (file, items.map (·.2.id)) := by
  rw [register.files, List.find?_map]
  rfl

/-- The other files are those with other items. -/
theorem mem_without_iff (register : Register editor ledger) (inside : entry ∈ ledger) (own : entry.1.same file = true) :
    other ∈ ledger.without file ↔ other ∈ ledger ∧ other ≠ entry := by
  rw [Ledger.mem_without]
  refine and_congr_right fun listed => ⟨?_, fun differs => ?_⟩
  · rintro differs rfl
    rw [own] at differs
    cases differs
  · have symmetric : Std.Symm fun first second : Path × List (Ref × Definition) => first.1.same second.1 = false :=
      ⟨fun first second differs => Path.same_comm first.1 second.1 ▸ differs⟩
    have differs := register.apart.forall listed inside differs
    rwa [← Path.same_congr_right own]

theorem mem_items_without (register : Register editor ledger) (inside : entry ∈ ledger) (own : entry.1.same file = true) :
    item ∈ (ledger.without file).items ↔ item ∈ ledger.items ∧ item ∉ entry.2 := by
  constructor
  · intro member
    obtain ⟨other, listed, placed⟩ := Ledger.mem_items.mp member
    obtain ⟨known, differs⟩ := (register.mem_without_iff inside own).mp listed
    exact ⟨Ledger.items_without_subset member, fun again => differs (register.entry_eq known inside placed again)⟩
  · rintro ⟨member, outside⟩
    obtain ⟨other, listed, placed⟩ := Ledger.mem_items.mp member
    refine Ledger.mem_items.mpr ⟨other, (register.mem_without_iff inside own).mpr ⟨listed, ?_⟩, placed⟩
    rintro rfl
    exact outside placed

theorem entry_ids (register : Register editor ledger) (inside : entry ∈ ledger) : (entry.2.map (·.2.id)).Nodup := by
  have nodup := register.ids
  rw [Ledger.items, List.map_flatMap, List.nodup_flatMap] at nodup
  exact nodup.1 entry inside

theorem eraseDups_eq_self {ids : List String} (distinct : ids.Nodup) : ids.eraseDups = ids := by
  induction ids with
  | nil => rfl
  | cons first rest ih =>
    obtain ⟨away, distinct⟩ := List.nodup_cons.mp distinct
    have others : rest.filter (fun id => !id == first) = rest := by
      refine List.filter_eq_self.mpr fun id member => ?_
      have differs : id ≠ first := fun same => away (same ▸ member)
      simpa using differs
    rw [List.eraseDups_cons, others, ih distinct]

theorem files_eq_some (register : Register editor ledger) (inside : entry ∈ ledger) (own : entry.1.same file = true) :
    editor.files.find? (·.1.same file) = some (entry.1, entry.2.map (·.2.id)) := by
  rw [register.find?_files]
  cases listed : ledger.find? (·.1.same file) with
  | none => simpa [own] using List.find?_eq_none.mp listed entry inside
  | some other =>
    have same := List.find?_some listed
    by_cases equal : other = entry
    · rw [equal]
      rfl
    · have left := ((register.mem_without_iff inside own).mpr ⟨List.mem_of_find?_eq_some listed, equal⟩)
      rw [(Ledger.mem_without.mp left).2] at same
      cases same

/-- The index has the items of a file. -/
theorem fileItems_eq (register : Register editor ledger) (inside : entry ∈ ledger) (own : entry.1.same file = true) :
    editor.fileItems file = entry.2.map fun item => ⟨item.1, item.2⟩ := by
  rw [fileItems, register.files_eq_some inside own, Option.map_some, Option.getD_some, List.filterMap_map,
    ← List.filterMap_eq_map]
  exact List.filterMap_congr fun item member => register.lookup (Ledger.mem_items.mpr ⟨entry, inside, member⟩)

/-- The classes of a file are taken out one after the other. -/
theorem takeOut_eq (register : Register editor ledger) (inside : entry ∈ ledger) (own : entry.1.same file = true) :
    ((editor.takeOut file).1.outline, (editor.takeOut file).2) =
        ((entry.2.filter (·.2.kind = .classLike)).map (·.1)).foldl
          (fun state ref => prune editor.outline.nodes.size ref state)
          (editor.outline, entry.2.map fun item => (item.2.id, item.1)) ∧
      (editor.takeOut file).1.files = editor.files.filter (!·.1.same file) ∧
      (editor.takeOut file).1.index = editor.index.filter (fun (id, _) => !(entry.2.map (·.2.id)).contains id) ∧
      (editor.takeOut file).1.groups = (editor.groups.map fun (name, members) => (name, members.filter fun ref =>
        (entry.2.map fun item => (item.2.id, item.1)).lookup (editor.outline.idOf ref) != some ref)).filter (!·.2.isEmpty) := by
  have found := register.files_eq_some inside own
  -- Each id of the file is in the index with the item that the ledger has.
  have taken : (entry.2.map (·.2.id)).eraseDups.filterMap (fun id => (editor.index.lookup id).map (id, ·)) =
      entry.2.map fun item => (item.2.id, (⟨item.1, item.2⟩ : Indexed)) := by
    rw [eraseDups_eq_self (register.entry_ids inside), List.filterMap_map, ← List.filterMap_eq_map]
    refine List.filterMap_congr fun item member => ?_
    simp only [Function.comp_apply, register.lookup (Ledger.mem_items.mpr ⟨entry, inside, member⟩), Option.map_some]
  unfold Editor.takeOut
  rw [found]
  refine ⟨?_, rfl, rfl, ?_⟩
  · simp only [taken, List.map_map, List.filter_map, List.foldl_map]
    rfl
  · simp only [taken, List.map_map]
    rfl

theorem takeOut_of_not_mem (register : Register editor ledger) (away : ∀ entry ∈ ledger, entry.1.same file = false) :
    editor.takeOut file = (editor, []) ∧ ledger.without file = ledger := by
  have missing : editor.files.find? (·.1.same file) = none := by
    rw [register.find?_files, Option.map_eq_none_iff, List.find?_eq_none]
    exact fun entry member => by simp [away entry member]
  refine ⟨?_, List.filter_eq_self.mpr fun entry member => by simp [away entry member]⟩
  unfold Editor.takeOut
  rw [missing]

/-- Without a file there are its items no longer, and the others are as they were. -/
theorem without (register : Register editor ledger) (inside : entry ∈ ledger) (own : entry.1.same file = true)
    (ids : ∀ ref, (editor.takeOut file).1.outline.idOf ref = editor.outline.idOf ref) :
    Register (editor.takeOut file).1 (ledger.without file) := by
  obtain ⟨-, files, index, -⟩ := register.takeOut_eq inside own
  have listed : ∀ item ∈ entry.2, item ∈ ledger.items := fun item member => Ledger.mem_items.mpr ⟨entry, inside, member⟩
  refine ⟨?_, register.apart.filter _, ?_, register.ids.sublist ((List.filter_sublist.flatMap _).map _), ?_⟩
  · rw [files, register.files, List.filter_map]
    rfl
  · intro id indexed
    rw [index, List.mem_filter, register.index]
    simp only [register.mem_items_without inside own, Bool.not_eq_true', List.contains_eq_mem, decide_eq_false_iff_not]
    constructor
    · rintro ⟨⟨item, member, rfl, rfl⟩, away⟩
      exact ⟨item, ⟨member, fun placed => away (List.mem_map_of_mem placed)⟩, rfl, rfl⟩
    · rintro ⟨item, ⟨member, outside⟩, rfl, rfl⟩
      refine ⟨⟨item, member, rfl, rfl⟩, fun placed => ?_⟩
      obtain ⟨other, placed, same⟩ := List.mem_map.mp placed
      exact outside (register.item_eq (listed other placed) member same ▸ placed)
  · intro item member
    exact (ids item.1).trans (register.named item (Ledger.items_without_subset member))

end Register

/-! ## Adding a file -/

/-- An editor to which the items of a file have been added. -/
def entered (editor : Editor) (scout : Discovery.Scout) (outline : Outline) (file : Path) (items : List (Ref × Definition)) :
    Editor :=
  let indexed := items.foldl (fun editor (ref, definition) => editor.indexItem ref definition) { editor with scout, outline }
  { indexed with files := if items.isEmpty then indexed.files
      else indexed.files.filter (!·.1.same file) ++ [(file, items.map (·.2.id))] }

theorem outline_entered (scout : Discovery.Scout) (outline : Outline) (items : List (Ref × Definition)) :
    (editor.entered scout outline file items).outline = outline := (indexed_views items _).1

theorem Register.entered (register : Register editor ledger) (away : ∀ entry ∈ ledger, entry.1.same file = false)
    (scout : Discovery.Scout) {outline : Outline}
    (ids : ∀ item ∈ ledger.items, outline.idOf item.1 = editor.outline.idOf item.1) {items : List (Ref × Definition)}
    (novel : ∀ item ∈ items, ∀ old ∈ ledger.items, old.2.id ≠ item.2.id) (distinct : (items.map (·.2.id)).Nodup)
    (named : ∀ item ∈ items, outline.idOf item.1 = item.2.id) :
    Register (editor.entered scout outline file items) (ledger.add file items) := by
  have all := ledger.items_add file items
  refine ⟨?_, ?_, ?_, ?_, ?_⟩
  · have others : editor.files.filter (!·.1.same file) = editor.files := by
      rw [register.files]
      refine List.filter_eq_self.mpr fun listed member => ?_
      obtain ⟨entry, inside, rfl⟩ := List.mem_map.mp member
      simp [away entry inside]
    obtain ⟨-, files⟩ := indexed_views items { editor with scout, outline }
    simp only [Editor.entered, files, others]
    rw [Ledger.add, List.map_append, ← register.files]
    split
    · exact (List.append_nil _).symm
    · rfl
  · refine List.pairwise_append.mpr ⟨register.apart, by split <;> simp, fun first member other added => ?_⟩
    split at added
    · cases added
    · rw [List.mem_singleton.mp added]
      exact away first member
  · intro id indexed
    refine (mem_indexed distinct { editor with scout, outline } id indexed).trans ?_
    rw [register.index, all]
    simp only [List.mem_append]
    constructor
    · rintro (⟨item, member, found⟩ | ⟨⟨item, member, found⟩, -⟩)
      · exact ⟨item, .inr member, found⟩
      · exact ⟨item, .inl member, found⟩
    · rintro ⟨item, member | member, rfl, rfl⟩
      · exact .inr ⟨⟨item, member, rfl, rfl⟩, fun new inside same => novel new inside item member same.symm⟩
      · exact .inl ⟨item, member, rfl, rfl⟩
  · rw [all, List.map_append]
    refine List.nodup_append.mpr ⟨register.ids, distinct, fun id old other new same => ?_⟩
    obtain ⟨item, member, rfl⟩ := List.mem_map.mp old
    obtain ⟨added, inside, rfl⟩ := List.mem_map.mp new
    exact novel added inside item member same
  · intro item member
    rw [all] at member
    rw [outline_entered]
    cases List.mem_append.mp member with
    | inl old => exact (ids item old).trans (register.named item old)
    | inr new => exact named item new

def builtItems (editor : Editor) (source : String) (file : Path) (suite : String) : List (Ref × Definition) :=
  (Outline.build (editor.takeOut file).1.outline file.address? (editor.takeOut file).2
    (editor.scout.look source file (some suite)).2).2

theorem takeIn_eq (editor : Editor) (source : String) (file : Path) (suite : String) :
    let looked := editor.scout.look source file (some suite)
    (editor.takeIn source file suite).1 = ((editor.takeOut file).1.entered looked.1
      (Outline.build (editor.takeOut file).1.outline file.address? (editor.takeOut file).2 looked.2).1 file
      (editor.builtItems source file suite)).settle := by
  simp only [builtItems, ← editor.scout_takeOut file]
  rfl

end Editor

end TestScout
