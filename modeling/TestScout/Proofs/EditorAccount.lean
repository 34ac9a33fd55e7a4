import TestScout.Proofs.EditorIntake
import TestScout.Proofs.EditorRuns

/-! The account that an editor keeps of the tracked files, in all workspaces and over whole runs. Each single file that
is taken in must leave the account clear: no two definitions have one id, no definition goes by the id of a namespace,
and the namespaces of a file do not share an item. Then the account is right after every action, and an action leaves
the items of all files alone that it does not take in or take out. -/

namespace TestScout
open Test Outline

variable {ledger : Ledger} {file other : Path}

namespace Editor

variable {editor first second third : Editor} {spaces : Ref → Prop}

/-- Only the outline, the index and the list of files matter. -/
theorem Mirror.congr (mirror : Mirror editor ledger spaces) (outline : second.outline = editor.outline)
    (index : second.index = editor.index) (files : second.files = editor.files) : Mirror second ledger spaces := by
  cases second
  simp only at outline index files
  subst outline index files
  exact { mirror with }

theorem Mirror.drop (mirror : Mirror editor ledger spaces) (file : Path) :
    ∃ left, Mirror (editor.takeOut file).1.settle (ledger.without file) left ∧
      ∀ item ∈ (ledger.without file).items,
        (editor.takeOut file).1.settle.outline.parentOf item.1 = editor.outline.parentOf item.1 := by
  obtain ⟨left, without, -, parents⟩ := mirror.takeOut file
  refine ⟨left, without.settle, ?_⟩
  intro item member
  have living : (ledger.without file).Alive left item.1 := .inl ⟨item, member, rfl⟩
  rw [without.parentOf_settle living, parents item.1 living]

/-- The items of files that are not touched stay where they are. -/
structure Kept (touched : Path → Prop) (first second : Editor) (before after : Ledger) : Prop where
  listed : ∀ entry ∈ before, ¬touched entry.1 → entry ∈ after
  parents : ∀ entry ∈ before, ¬touched entry.1 → ∀ item ∈ entry.2,
    second.outline.parentOf item.1 = first.outline.parentOf item.1

theorem Kept.refl (touched : Path → Prop) (editor : Editor) (ledger : Ledger) : Kept touched editor editor ledger ledger :=
  ⟨fun _ member _ => member, fun _ _ _ _ _ => rfl⟩

theorem Kept.trans {touched : Path → Prop} {before middle after : Ledger} (one : Kept touched first second before middle)
    (two : Kept touched second third middle after) : Kept touched first third before after := by
  refine ⟨?_, ?_⟩
  · intro entry member away
    exact two.listed entry (one.listed entry member away) away
  · intro entry member away item inside
    rw [two.parents entry (one.listed entry member away) away item inside, one.parents entry member away item inside]

theorem Kept.weaken {touched wider : Path → Prop} {before after : Ledger} (kept : Kept touched first second before after)
    (more : ∀ path, touched path → wider path) : Kept wider first second before after :=
  ⟨fun entry member away => kept.listed entry member fun old => away (more _ old),
    fun entry member away => kept.parents entry member fun old => away (more _ old)⟩

end Editor

/-! ## Entries and their items -/

/-- The ledger has the items of the definitions that the entries list. -/
structure Accounts (ledger : Ledger) (entries : List FileEntry) : Prop where
  entered : ∀ entry ∈ entries, ∃ listed ∈ ledger, listed.1.same entry.file = true ∧
    entry.tests = Definition.nest (listed.2.map (·.2))
  known : ∀ listed ∈ ledger, ∃ entry ∈ entries, listed.1.same entry.file = true ∧
    entry.tests = Definition.nest (listed.2.map (·.2))
  flat : ∀ item ∈ ledger.items, item.2.children = []

theorem Definition.ids_nest {definitions : List Definition} (flat : ∀ definition ∈ definitions, definition.children = []) :
    (Definition.flattenAll (Definition.nest definitions)).map (·.id) = definitions.map (·.id) := by
  have bare := congrArg (List.map Definition.id) (Definition.flattenAll_nest flat)
  rw [List.map_map] at bare
  exact bare

theorem Definition.nest_eq_nil {definitions : List Definition} : Definition.nest definitions = [] ↔ definitions = [] := by
  cases definitions with
  | nil => simp [Definition.nest]
  | cons first rest =>
    rw [Definition.nest]
    simp

namespace Accounts

variable {entries next : List FileEntry} {listed : Path × List (Ref × Definition)} {entry : FileEntry}

theorem congr (accounts : Accounts ledger entries) (same : ∀ entry, entry ∈ next ↔ entry ∈ entries) :
    Accounts ledger next where
  entered entry member := accounts.entered entry ((same entry).mp member)
  known listed member := by
    obtain ⟨entry, inside, found⟩ := accounts.known listed member
    exact ⟨entry, (same entry).mpr inside, found⟩
  flat := accounts.flat

/-- A file comes in instead of what it was before. When it comes in without definitions, it is gone. -/
theorem replace (accounts : Accounts ledger entries) {items : List (Ref × Definition)} {new : FileEntry}
    (home : new.file = file) (tests : new.tests = Definition.nest (items.map (·.2)))
    (flat : ∀ item ∈ items, item.2.children = [])
    (same : ∀ entry, entry ∈ next ↔ items ≠ [] ∧ entry = new ∨ entry ∈ entries ∧ entry.file.same file = false) :
    Accounts ((ledger.without file).add file items) next := by
  refine ⟨?_, ?_, ?_⟩
  · intro entry member
    rcases (same entry).mp member with ⟨some, rfl⟩ | ⟨old, differs⟩
    · exact ⟨(file, items), Ledger.mem_add.mpr (.inr ⟨some, rfl⟩), home ▸ Path.same_refl file, tests⟩
    · obtain ⟨listed, inside, own, equal⟩ := accounts.entered entry old
      rw [← Path.same_congr_left own] at differs
      exact ⟨listed, Ledger.mem_add.mpr (.inl (Ledger.mem_without.mpr ⟨inside, differs⟩)), own, equal⟩
  · intro listed member
    rcases Ledger.mem_add.mp member with old | ⟨some, rfl⟩
    · obtain ⟨inside, differs⟩ := Ledger.mem_without.mp old
      obtain ⟨entry, found, own, equal⟩ := accounts.known listed inside
      rw [Path.same_congr_left own] at differs
      exact ⟨entry, (same entry).mpr (.inr ⟨found, differs⟩), own, equal⟩
    · exact ⟨new, (same new).mpr (.inl ⟨some, rfl⟩), home ▸ Path.same_refl file, tests⟩
  · intro item member
    rw [Ledger.items_add] at member
    rcases List.mem_append.mp member with old | fresh
    · exact accounts.flat item (Ledger.items_without_subset old)
    · exact flat item fresh

theorem without (accounts : Accounts ledger entries)
    (same : ∀ entry, entry ∈ next ↔ entry ∈ entries ∧ entry.file.same file = false) :
    Accounts (ledger.without file) next := by
  have gone : Accounts ((ledger.without file).add file []) next := by
    refine accounts.replace (show (⟨"", file, []⟩ : FileEntry).file = file from rfl) ?_ nofun ?_
    · rw [List.map_nil, Definition.nest]
    · intro entry
      simp [same]
  rwa [Ledger.add_nil] at gone

theorem definition_of_item (accounts : Accounts ledger entries) (inside : listed ∈ ledger) {item : Ref × Definition}
    (placed : item ∈ listed.2) : ∃ entry ∈ entries, listed.1.same entry.file = true ∧
      ∃ definition ∈ Definition.flattenAll entry.tests, definition.bare = item.2 := by
  obtain ⟨entry, member, own, tests⟩ := accounts.known listed inside
  have flat : ∀ definition ∈ listed.2.map (·.2), definition.children = [] := by
    intro definition found
    obtain ⟨other, there, rfl⟩ := List.mem_map.mp found
    exact accounts.flat other (Ledger.mem_items.mpr ⟨listed, inside, there⟩)
  have all := Definition.flattenAll_nest flat
  rw [← tests] at all
  have mapped : item.2 ∈ listed.2.map (·.2) := List.mem_map_of_mem placed
  rw [← all] at mapped
  exact ⟨entry, member, own, List.mem_map.mp mapped⟩

theorem item_of_definition (accounts : Accounts ledger entries) (member : entry ∈ entries) :
    ∃ listed ∈ ledger, listed.1.same entry.file = true ∧ (∀ definition ∈ listed.2.map (·.2), definition.children = []) ∧
      entry.tests = Definition.nest (listed.2.map (·.2)) ∧
      ∀ definition ∈ Definition.flattenAll entry.tests, ∃ item ∈ listed.2, item.2 = definition.bare := by
  obtain ⟨listed, inside, own, tests⟩ := accounts.entered entry member
  have flat : ∀ definition ∈ listed.2.map (·.2), definition.children = [] := by
    intro definition found
    obtain ⟨other, there, rfl⟩ := List.mem_map.mp found
    exact accounts.flat other (Ledger.mem_items.mpr ⟨listed, inside, there⟩)
  refine ⟨listed, inside, own, flat, tests, ?_⟩
  intro definition found
  have all := Definition.flattenAll_nest flat
  rw [← tests] at all
  have bare : definition.bare ∈ listed.2.map (·.2) := all ▸ List.mem_map_of_mem found
  exact List.mem_map.mp bare

end Accounts

theorem nodup_ids_of_mem {entries : List FileEntry}
    (ids : ((entries.flatMap fun entry => Definition.flattenAll entry.tests).map (·.id)).Nodup) {entry : FileEntry}
    (member : entry ∈ entries) : ((Definition.flattenAll entry.tests).map (·.id)).Nodup := by
  rw [List.map_flatMap, List.nodup_flatMap] at ids
  exact ids.1 entry member

theorem id_ne_of_ne {entries : List FileEntry}
    (ids : ((entries.flatMap fun entry => Definition.flattenAll entry.tests).map (·.id)).Nodup) {entry other : FileEntry}
    (member : entry ∈ entries) (listed : other ∈ entries) (differs : entry ≠ other) {first second : Definition}
    (inside : first ∈ Definition.flattenAll entry.tests) (within : second ∈ Definition.flattenAll other.tests) :
    first.id ≠ second.id := by
  rw [List.map_flatMap, List.nodup_flatMap] at ids
  have symmetric : Std.Symm (Function.onFun List.Disjoint fun entry : FileEntry =>
    (Definition.flattenAll entry.tests).map (·.id)) := ⟨fun _ _ disjoint _ one two => disjoint two one⟩
  intro same
  refine ids.2.forall member listed differs (List.mem_map_of_mem inside) ?_
  exact same ▸ List.mem_map_of_mem within

namespace Editor.Intake

/-- The definitions of the entries have different ids, none of which is the id of a namespace, and the namespaces that
are found in the file start differently. -/
structure Clear (intake : Intake) (entries : List FileEntry) : Prop where
  ids : ((entries.flatMap fun entry => Definition.flattenAll entry.tests).map (·.id)).Nodup
  plain : ∀ entry ∈ entries, ∀ definition ∈ Definition.flattenAll entry.tests,
    ¬spaceMark.toList <+: definition.id.toList
  spread : (intake.found.filter (·.kind = .space)).Pairwise fun first second =>
    ∀ id ∈ (spaceIds (some first.label)).head?, id ∉ (spaceIds (some second.label)).head?

instance (intake : Intake) (entries : List FileEntry) : Decidable (intake.Clear entries) :=
  decidable_of_iff (_ ∧ _ ∧ _) ⟨fun ⟨ids, plain, spread⟩ => ⟨ids, plain, spread⟩, fun ⟨ids, plain, spread⟩ => ⟨ids, plain, spread⟩⟩

theorem found_flat (intake : Intake) :
    ∀ definition ∈ intake.found.filter (·.kind != .space), definition.children = [] :=
  intake.before.tracker.scout.look_flat intake.source intake.file (some intake.suite)

/-- What is tracked of the file when there are definitions in it. -/
def entry (intake : Intake) : FileEntry where
  suite := intake.suite
  file := intake.file
  tests := Definition.forest intake.found

def items (intake : Intake) : List (Ref × Definition) :=
  intake.before.tracker.builtItems intake.source intake.file intake.suite

theorem parse_eq (intake : Intake) :
    (Tracker.parse intake.before.tracker intake.source intake.file intake.suite).2 = Definition.forest intake.found :=
  Scouting.tests_parse intake.before.tracker intake.source intake.file intake.suite

/-- What is tracked when a file has been taken in. -/
def Changes (intake : Intake) (entries next : List FileEntry) : Prop :=
  ∀ entry, entry ∈ next ↔ intake.found.filter (·.kind != .space) ≠ [] ∧ entry = intake.entry ∨
    entry ∈ entries ∧ entry.file.same intake.file = false

namespace Changes

variable {intake : Intake} {entries next : List FileEntry} (changes : intake.Changes entries next)
include changes

theorem entered {definition : Definition} (member : definition ∈ intake.found.filter (·.kind != .space)) :
    intake.entry ∈ next ∧ ∃ inner ∈ Definition.flattenAll intake.entry.tests, inner.bare = definition := by
  refine ⟨(changes intake.entry).mpr (.inl ⟨List.ne_nil_of_mem member, rfl⟩), ?_⟩
  rw [← Definition.flattenAll_nest intake.found_flat] at member
  exact List.mem_map.mp member

theorem accounts (accounts : Accounts ledger entries) (labels : intake.items.map (·.2) = intake.found.filter (·.kind != .space)) :
    Accounts ((ledger.without intake.file).add intake.file intake.items) next := by
  have some : intake.items ≠ [] ↔ intake.found.filter (·.kind != .space) ≠ [] := by
    rw [← labels, ne_eq, ne_eq, List.map_eq_nil_iff]
  refine accounts.replace (show intake.entry.file = intake.file from rfl) ?_ ?_ ?_
  · rw [labels]
    rfl
  · intro item member
    exact intake.found_flat item.2 (labels ▸ List.mem_map_of_mem member)
  · intro entry
    rw [changes, some]

variable (ids : ((next.flatMap fun entry => Definition.flattenAll entry.tests).map (·.id)).Nodup)
include ids

theorem distinct : ((intake.found.filter (·.kind != .space)).map (·.id)).Nodup := by
  by_cases some : intake.found.filter (·.kind != .space) = []
  · exact some ▸ List.nodup_nil
  · obtain ⟨definition, member⟩ := List.exists_mem_of_ne_nil _ some
    have own := nodup_ids_of_mem ids (changes.entered member).1
    rwa [Intake.entry, Definition.forest, Definition.ids_nest intake.found_flat] at own

theorem novel (accounts : Accounts ledger entries) : ∀ definition ∈ intake.found.filter (·.kind != .space),
    ∀ old ∈ (ledger.without intake.file).items, old.2.id ≠ definition.id := by
  intro definition member old listed
  obtain ⟨here, inner, within, rfl⟩ := changes.entered member
  obtain ⟨place, inside, placed⟩ := Ledger.mem_items.mp listed
  obtain ⟨known, foreign⟩ := Ledger.mem_without.mp inside
  obtain ⟨other, held, own, further, deeper, same⟩ := accounts.definition_of_item known placed
  rw [Path.same_congr_left own] at foreign
  rw [← same]
  show further.id ≠ inner.id
  refine id_ne_of_ne ids ((changes other).mpr (.inr ⟨held, foreign⟩)) here ?_ deeper within
  intro equal
  rw [equal] at foreign
  simp [Intake.entry] at foreign

end Changes

end Editor.Intake

namespace Collection
open Editor

variable {collection : Collection Editor} {spaces : Ref → Prop}

/-- No file is tracked in two workspaces. -/
def Separate {σ : Type} (collection : Collection σ) : Prop :=
  ∀ workspace ∈ collection.workspaces, ∀ other ∈ collection.workspaces, ∀ entry ∈ workspace.entries,
    ∀ further ∈ other.entries, entry.file.same further.file = true → workspace.root.same other.root = true

theorem Separate.unshared {σ : Type} {collection : Collection σ} (separate : collection.Separate) {entry : FileEntry}
    (member : entry ∈ collection.entries) : collection.Unshared entry.file := by
  intro workspace listed further inside
  obtain ⟨known, foreign⟩ := mem_others.mp listed
  cases found : collection.workspace? with
  | none => simp [entries, suites, found] at member
  | some own =>
    simp only [entries, suites, found, Option.map_some, Option.getD_some] at member
    rw [workspace?] at found
    have home := List.find?_some found
    rw [← Bool.not_eq_true]
    intro same
    have together := separate workspace known own (List.mem_of_find?_eq_some found) further inside entry member same
    rw [Path.same_trans together home] at foreign
    cases foreign

theorem Separate.beside {σ : Type} {first second : Collection σ} (separate : first.Separate) (beside : Beside first second)
    (apart : RootsApart second.workspaces) (unshared : ∀ entry ∈ second.entries, first.Unshared entry.file) :
    second.Separate := by
  have cases : ∀ workspace ∈ second.workspaces, ∀ entry ∈ workspace.entries,
      workspace.root.same second.root = true ∧ first.Unshared entry.file ∨ workspace ∈ first.others := by
    intro workspace listed entry inside
    cases own : workspace.root.same second.root with
    | true =>
      refine .inl ⟨rfl, unshared entry ?_⟩
      rw [entries, suites, workspace?_eq_some apart listed own]
      exact inside
    | false => exact .inr (beside.others ▸ mem_others.mpr ⟨listed, own⟩)
  intro workspace listed other found entry inside further within same
  rcases cases workspace listed entry inside with ⟨own, alone⟩ | elsewhere
  · rcases cases other found further within with ⟨home, -⟩ | away
    · exact Path.same_trans own (Path.same_symm home)
    · have differs := alone other away further within
      rw [Path.same_comm, same] at differs
      cases differs
  · rcases cases other found further within with ⟨-, alone⟩ | away
    · have differs := alone workspace elsewhere entry inside
      rw [same] at differs
      cases differs
    · exact separate workspace (mem_others.mp elsewhere).1 other (mem_others.mp away).1 entry inside further within same

theorem Tidy.changes {intake : Intake} (tidy : intake.before.Tidy) (unshared : intake.before.Unshared intake.file) :
    intake.Changes intake.before.tracked intake.after.tracked := by
  intro entry
  have tracked := (tidy.store intake.file intake.source intake.suite).2 unshared entry
  rw [intake.parse_eq, Definition.forest, ne_eq, Definition.nest_eq_nil] at tracked
  exact tracked

theorem Separate.store {intake : Intake} (separate : intake.before.Separate) (tidy : intake.before.Tidy)
    (unshared : intake.before.Unshared intake.file) : intake.after.Separate := by
  obtain ⟨stored, -⟩ := tidy.store intake.file intake.source intake.suite
  obtain ⟨-, entries⟩ := store_entries tidy.ordered intake.file intake.source intake.suite
  refine separate.beside (beside_store intake.before intake.file intake.source intake.suite) stored.roots ?_
  intro other member
  rcases (entries other).mp member with ⟨-, rfl⟩ | ⟨old, -⟩
  · exact unshared
  · exact separate.unshared old

theorem Separate.remove {σ : Type} [Tracker σ] {collection : Collection σ} (separate : collection.Separate)
    (tidy : collection.Tidy) (file : Path) : (collection.remove file).1.Separate := by
  obtain ⟨-, entries⟩ := remove_entries tidy.ordered file
  refine separate.beside (beside_remove collection file) (tidy.remove file).1.roots ?_
  intro other listed
  exact separate.unshared ((entries other).mp listed).1

theorem Separate.unshared_of_same {σ : Type} {collection : Collection σ} (separate : collection.Separate) {entry : FileEntry}
    (member : entry ∈ collection.entries) {file : Path} (own : entry.file.same file = true) : collection.Unshared file := by
  intro workspace listed further inside
  rw [← Path.same_congr_right own]
  exact separate.unshared member workspace listed further inside

/-- The outline, the index and the ledger are right for what is tracked. -/
structure Mirrored (collection : Collection Editor) (ledger : Ledger) (spaces : Ref → Prop) : Prop where
  tidy : collection.Tidy
  separate : collection.Separate
  mirror : collection.tracker.Mirror ledger spaces
  accounts : Accounts ledger collection.tracked

/-- A file that is not tracked is not removed, and what is shown of a file that is tracked is dropped. -/
theorem remove_cases {σ : Type} [Tracker σ] (collection : Collection σ) (file : Path) :
    ((∀ entry ∈ collection.entries, entry.file.same file = false) ∧ (collection.remove file).1 = collection) ∨
      ∃ entry ∈ collection.entries, entry.file.same file = true ∧
        (collection.remove file).1.tracker = Tracker.drop collection.tracker entry := by
  unfold Collection.remove
  split
  next nowhere =>
    refine .inl ⟨?_, rfl⟩
    intro entry member
    obtain ⟨suite, listed, inside⟩ := List.mem_flatMap.mp member
    have missing := List.find?_eq_none.mp nowhere suite listed
    have absent : suite.find? file = none := by simpa using missing
    simpa using List.find?_eq_none.mp absent entry inside
  next suite found =>
    have some := List.find?_some found
    split
    next absent =>
      rw [absent] at some
      cases some
    next entry held =>
      have own := List.find?_some (show suite.entries.find? (·.file.same file) = _ from held)
      refine .inr ⟨entry, ?_, own, rfl⟩
      exact List.mem_flatMap.mpr ⟨suite, List.mem_of_find?_eq_some found, List.mem_of_find?_eq_some held⟩

/-- A file without definitions is dropped when it was tracked before. -/
theorem store_tracker_keeps {σ : Type} [Tracker σ] {collection : Collection σ} {file : Path} {source suite : String}
    {motive : σ → Prop} (parsed : motive (Tracker.parse collection.tracker source file suite).1)
    (dropped : (Tracker.parse collection.tracker source file suite).2 = [] → ∀ entry : FileEntry,
      entry.file.same file = true → motive (Tracker.drop (Tracker.parse collection.tracker source file suite).1 entry)) :
    motive (collection.store file source suite).tracker := by
  unfold Collection.store
  simp only
  split
  next empty =>
    rw [List.isEmpty_iff] at empty
    let looked : Collection σ := { collection with tracker := (Tracker.parse collection.tracker source file suite).1 }
    rcases looked.remove_cases file with ⟨-, same⟩ | ⟨entry, -, own, removed⟩
    · show motive (looked.remove file).1.tracker
      rw [same]
      exact parsed
    · show motive (looked.remove file).1.tracker
      rw [removed]
      exact dropped empty entry own
  next => exact (seed_setting _).2.symm ▸ parsed

namespace Mirrored

variable (mirrored : collection.Mirrored ledger spaces)
include mirrored

theorem remove (file : Path) : ∃ next left, (collection.remove file).1.Mirrored next left ∧
    Kept (·.same file = true) collection.tracker (collection.remove file).1.tracker ledger next := by
  -- A file that the workspace does not track may be tracked in another one, where it stays.
  rcases collection.remove_cases file with ⟨-, same⟩ | ⟨entry, member, own, dropped⟩
  · rw [same]
    exact ⟨ledger, spaces, mirrored, Kept.refl _ _ _⟩
  obtain ⟨tidy, tracked⟩ := mirrored.tidy.remove file
  have accounts := mirrored.accounts.without (tracked (mirrored.separate.unshared_of_same member own))
  obtain ⟨left, mirror, parents⟩ := mirrored.mirror.drop entry.file
  rw [Ledger.without_congr own] at mirror parents
  refine ⟨ledger.without file, left, ⟨tidy, mirrored.separate.remove mirrored.tidy file, dropped ▸ mirror, accounts⟩, ?_⟩
  have stays : ∀ listed ∈ ledger, ¬listed.1.same file = true → listed ∈ ledger.without file := by
    intro listed inside away
    exact Ledger.mem_without.mpr ⟨inside, Bool.eq_false_iff.mpr away⟩
  refine ⟨stays, ?_⟩
  intro listed inside away item placed
  rw [dropped]
  exact parents item (Ledger.mem_items.mpr ⟨listed, stays listed inside away, placed⟩)

end Mirrored

namespace Mirrored

variable {intake : Intake} (mirrored : intake.before.Mirrored ledger spaces) (clear : intake.Clear intake.after.tracked)
  (unshared : intake.before.Unshared intake.file)
include mirrored clear unshared

/-- What is shown is right when the file has been looked at, before it is put among the entries. -/
theorem takeIn : ∃ left, intake.items.map (·.2) = intake.found.filter (·.kind != .space) ∧
    (Tracker.parse intake.before.tracker intake.source intake.file intake.suite).1.Mirror
      ((ledger.without intake.file).add intake.file intake.items) left ∧
    ∀ item ∈ (ledger.without intake.file).items,
      (Tracker.parse intake.before.tracker intake.source intake.file intake.suite).1.outline.parentOf item.1 =
        intake.before.tracker.outline.parentOf item.1 := by
  have changes := mirrored.tidy.changes unshared
  refine mirrored.mirror.takeIn intake.source intake.file intake.suite (changes.novel clear.ids mirrored.accounts)
    (changes.distinct clear.ids) ?_ ?_
  · intro definition member name same
    obtain ⟨here, inner, within, rfl⟩ := changes.entered member
    refine clear.plain intake.entry here inner within ⟨name.toList, ?_⟩
    have text := congrArg String.toList same
    rw [String.toList_append] at text
    exact text.symm
  · refine clear.spread.imp ?_
    intro first second differs id one two
    exact absurd two (differs id one)

/-- A file that is taken in has its items in the account, and the other files keep what they have. -/
theorem taken : ∃ left, intake.after.Mirrored ((ledger.without intake.file).add intake.file intake.items) left ∧
    Kept (·.same intake.file = true) intake.before.tracker intake.after.tracker ledger
      ((ledger.without intake.file).add intake.file intake.items) := by
  obtain ⟨tidy, -⟩ := mirrored.tidy.store intake.file intake.source intake.suite
  obtain ⟨left, labels, mirror, parents⟩ := mirrored.takeIn clear unshared
  have accounts := (mirrored.tidy.changes unshared).accounts mirrored.accounts labels
  have separate := mirrored.separate.store mirrored.tidy unshared
  have stays : ∀ listed ∈ ledger, ¬listed.1.same intake.file = true → listed ∈ ledger.without intake.file := by
    intro listed inside away
    exact Ledger.mem_without.mpr ⟨inside, Bool.eq_false_iff.mpr away⟩
  obtain ⟨last, final, places⟩ : ∃ last,
      intake.after.tracker.Mirror ((ledger.without intake.file).add intake.file intake.items) last ∧
        ∀ item ∈ (ledger.without intake.file).items,
          intake.after.tracker.outline.parentOf item.1 = intake.before.tracker.outline.parentOf item.1 := by
    refine store_tracker_keeps (motive := fun tracker : Editor => ∃ last,
      tracker.Mirror ((ledger.without intake.file).add intake.file intake.items) last ∧
        ∀ item ∈ (ledger.without intake.file).items,
          tracker.outline.parentOf item.1 = intake.before.tracker.outline.parentOf item.1) ⟨left, mirror, parents⟩ ?_
    -- A file without definitions has no items left to drop.
    intro empty entry own
    rw [intake.parse_eq, Definition.forest, Definition.nest_eq_nil] at empty
    have none : intake.items = [] := List.map_eq_nil_iff.mp (labels.trans empty)
    rw [none, Ledger.add_nil] at mirror ⊢
    obtain ⟨last, removed, moved⟩ := mirror.drop entry.file
    rw [Ledger.without_congr own, Ledger.without_without] at removed moved
    exact ⟨last, removed, fun item member => (moved item member).trans (parents item member)⟩
  refine ⟨last, ⟨tidy, separate, final, accounts⟩, ?_, ?_⟩
  · intro listed inside away
    exact Ledger.mem_add.mpr (.inl (stays listed inside away))
  · intro listed inside away item placed
    exact places item (Ledger.mem_items.mpr ⟨listed, stays listed inside away, placed⟩)

end Mirrored

end Collection

end TestScout
