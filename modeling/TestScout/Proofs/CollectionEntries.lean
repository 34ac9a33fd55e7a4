import Mathlib.Data.List.Sort
import TestScout.Collection.Updates
import TestScout.Proofs.PathOrder

/-! The tracked files as a container. Suites stand in the order of their names and files in
the order of their paths, and no file is in two suites. Two collections that track the same
entries therefore list them in the same order. -/

namespace TestScout

namespace SuiteFiles

structure Ordered (suites : List SuiteFiles) : Prop where
  names : suites.Pairwise (·.name < ·.name)
  paths : ∀ suite ∈ suites, suite.entries.Pairwise (·.file.compare ·.file = .lt)
  homes : ∀ suite ∈ suites, ∀ entry ∈ suite.entries, entry.suite = suite.name
  /-- No file is in two suites. -/
  once : ∀ suite ∈ suites, ∀ other ∈ suites, ∀ entry ∈ suite.entries, ∀ further ∈ other.entries,
    entry.file.same further.file = true → suite = other

theorem Ordered.nil : Ordered [] := by
  refine ⟨List.Pairwise.nil, ?_, ?_, ?_⟩
  all_goals
    intro suite member
    cases member

theorem Ordered.eq_of_name {suites : List SuiteFiles} (ordered : Ordered suites) {first second : SuiteFiles}
    (member : first ∈ suites) (other : second ∈ suites) (same : first.name = second.name) : first = second := by
  have apart {first second : SuiteFiles} (before : first.name < second.name) : first.name ≠ second.name :=
    fun same => String.lt_irrefl _ (same ▸ before)
  have differ : suites.Pairwise fun first second => first.name = second.name → first = second :=
    ordered.names.imp fun before same => absurd same (apart before)
  have converse : suites.Pairwise (flip fun first second => first.name = second.name → first = second) :=
    ordered.names.imp fun before same => absurd same.symm (apart before)
  exact differ.forall_of_forall_of_flip (fun _ _ _ => rfl) converse member other same

/-! ## Suites without further files -/

theorem entries_insertName (name : String) (suites : List SuiteFiles) :
    (insertName name suites).flatMap (·.entries) = suites.flatMap (·.entries) := by
  fun_induction insertName name suites with
  | case1 => rfl
  | case2 => rfl
  | case3 => rfl
  | case4 first rest _ _ ih => rw [List.flatMap_cons, List.flatMap_cons, ih]

theorem mem_insertName {name : String} {suites : List SuiteFiles} {suite : SuiteFiles}
    (member : suite ∈ insertName name suites) : suite = { name } ∨ suite ∈ suites := by
  fun_induction insertName name suites with
  | case1 => simpa using member
  | case2 => simpa using member
  | case3 => exact .inr member
  | case4 first rest _ _ ih =>
    rcases List.mem_cons.mp member with rfl | later
    · exact .inr List.mem_cons_self
    · exact (ih later).imp_right (List.mem_cons_of_mem _)

theorem exists_mem_insertName (name : String) (suites : List SuiteFiles) :
    ∃ suite ∈ insertName name suites, suite.name = name := by
  fun_induction insertName name suites with
  | case1 => exact ⟨_, List.mem_cons_self, rfl⟩
  | case2 => exact ⟨_, List.mem_cons_self, rfl⟩
  | case3 first => exact ⟨first, List.mem_cons_self, Eq.symm ‹_›⟩
  | case4 first rest _ _ ih =>
    obtain ⟨suite, member, same⟩ := ih
    exact ⟨suite, List.mem_cons_of_mem _ member, same⟩

private theorem insertName_names {name : String} {suites : List SuiteFiles} (names : suites.Pairwise (·.name < ·.name)) :
    (insertName name suites).Pairwise (·.name < ·.name) := by
  fun_induction insertName name suites with
  | case1 => exact List.pairwise_singleton _ _
  | case2 first rest before =>
    refine List.pairwise_cons.mpr ⟨fun other member => ?_, names⟩
    rcases List.mem_cons.mp member with rfl | later
    · exact before
    · exact String.lt_trans before ((List.pairwise_cons.mp names).1 other later)
  | case3 => exact names
  | case4 first rest notBefore differs ih =>
    obtain ⟨first_lt, names⟩ := List.pairwise_cons.mp names
    refine List.pairwise_cons.mpr ⟨fun other member => ?_, ih names⟩
    rcases mem_insertName member with rfl | later
    · exact Std.lt_of_le_of_ne (Std.not_lt.mp notBefore) (Ne.symm differs)
    · exact first_lt other later

theorem Ordered.insertName {suites : List SuiteFiles} (ordered : Ordered suites) (name : String) :
    Ordered (insertName name suites) := by
  refine ⟨insertName_names ordered.names, ?_, ?_, ?_⟩
  · intro suite member
    rcases mem_insertName member with rfl | old
    · exact List.Pairwise.nil
    · exact ordered.paths suite old
  · intro suite member entry inside
    rcases mem_insertName member with rfl | old
    · cases inside
    · exact ordered.homes suite old entry inside
  · intro suite member other found entry inside further within
    rcases mem_insertName member with rfl | old
    · cases inside
    rcases mem_insertName found with rfl | older
    · cases within
    · exact ordered.once suite old other older entry inside further within

/-! ## Files that go away -/

theorem Ordered.map {suites : List SuiteFiles} (ordered : Ordered suites) {change : SuiteFiles → SuiteFiles}
    (name : ∀ suite, (change suite).name = suite.name) (fewer : ∀ suite, (change suite).entries.Sublist suite.entries) :
    Ordered (suites.map change) := by
  refine ⟨?_, ?_, ?_, ?_⟩
  · rw [List.pairwise_map]
    simpa only [name] using ordered.names
  · rw [List.forall_mem_map]
    exact fun suite member => (ordered.paths suite member).sublist (fewer suite)
  · rw [List.forall_mem_map]
    intro suite member entry inside
    rw [name]
    exact ordered.homes suite member entry ((fewer suite).mem inside)
  · simp only [List.forall_mem_map]
    intro suite member other found entry inside further within same
    rw [ordered.once suite member other found entry ((fewer suite).mem inside) further ((fewer other).mem within) same]

theorem mem_erase {suite : SuiteFiles} {file : Path} {entry : FileEntry} :
    entry ∈ (suite.erase file).entries ↔ entry ∈ suite.entries ∧ entry.file.same file = false := by
  simp [erase]

/-- Taking a file out of the one suite that it is in leaves it in none. -/
theorem Ordered.eraseFrom {suites : List SuiteFiles} (ordered : Ordered suites) {suite : SuiteFiles} (listed : suite ∈ suites)
    {file : Path} {held : FileEntry} (inside : held ∈ suite.entries) (own : held.file.same file = true) :
    Ordered (suites.map fun other => if other.name = suite.name then other.erase file else other) ∧
      ∀ entry, entry ∈ (suites.map fun other =>
          if other.name = suite.name then other.erase file else other).flatMap (·.entries) ↔
        entry ∈ suites.flatMap (·.entries) ∧ entry.file.same file = false := by
  refine ⟨ordered.map (fun other => by split <;> rfl) fun other => ?_, fun entry => ?_⟩
  · split
    · exact List.filter_sublist
    · exact List.Sublist.refl _
  · simp only [List.mem_flatMap, List.mem_map, exists_exists_and_eq_and]
    constructor
    · rintro ⟨other, member, within⟩
      split at within
      next =>
        obtain ⟨old, apart⟩ := mem_erase.mp within
        exact ⟨⟨other, member, old⟩, apart⟩
      next foreign =>
        refine ⟨⟨other, member, within⟩, ?_⟩
        rw [Bool.eq_false_iff]
        intro same
        have together := Path.same_trans same (Path.same_symm own)
        exact foreign (congrArg name (ordered.once other member suite listed entry within held inside together))
    · rintro ⟨⟨other, member, old⟩, apart⟩
      refine ⟨other, member, ?_⟩
      split
      · exact mem_erase.mpr ⟨old, apart⟩
      · exact old

/-! ## Files that come in -/

/-- An entry that is put in takes the place of the one for its file and of no other. -/
theorem mem_insertEntry {entry other : FileEntry} {entries : List FileEntry}
    (paths : entries.Pairwise (·.file.compare ·.file = .lt)) :
    other ∈ insertEntry entry entries ↔ other = entry ∨ other ∈ entries ∧ other.file.same entry.file = false := by
  have later_apart {first second : FileEntry} (before : first.file.compare second.file = .lt) :
      second.file.same first.file = false := by
    rw [Path.same_comm]
    exact Path.not_same_of_lt before
  fun_induction insertEntry entry entries with
  | case1 => simp
  | case2 first rest before =>
    have apart : ∀ other ∈ first :: rest, other.file.same entry.file = false := by
      intro other member
      rcases List.mem_cons.mp member with rfl | later
      · exact later_apart before
      · exact later_apart (Std.TransCmp.lt_trans before ((List.pairwise_cons.mp paths).1 other later))
    rw [List.mem_cons]
    exact or_congr_right ⟨fun member => ⟨member, apart other member⟩, And.left⟩
  | case3 first rest equal =>
    have same := Path.compare_eq_iff.mp equal
    have apart : ∀ other ∈ rest, other.file.same entry.file = false := fun other later => by
      rw [Path.same_congr_right same]
      exact later_apart ((List.pairwise_cons.mp paths).1 other later)
    rw [List.mem_cons]
    refine or_congr_right ⟨fun later => ⟨List.mem_cons_of_mem _ later, apart other later⟩, fun ⟨member, differs⟩ => ?_⟩
    rcases List.mem_cons.mp member with rfl | later
    · rw [Path.same_comm, same] at differs
      cases differs
    · exact later
  | case4 first rest after ih =>
    have apart : first.file.same entry.file = false := Path.not_same_of_lt (Std.OrientedCmp.lt_of_gt after)
    have further : other ∈ insertEntry entry rest ↔ other = entry ∨ other ∈ rest ∧ other.file.same entry.file = false :=
      ih (List.pairwise_cons.mp paths).2
    rw [List.mem_cons, further, List.mem_cons]
    constructor
    · rintro (rfl | rfl | ⟨later, differs⟩)
      · exact .inr ⟨.inl rfl, apart⟩
      · exact .inl rfl
      · exact .inr ⟨.inr later, differs⟩
    · rintro (rfl | ⟨rfl | later, differs⟩)
      · exact .inr (.inl rfl)
      · exact .inl rfl
      · exact .inr (.inr ⟨later, differs⟩)

theorem insertEntry_paths {entry : FileEntry} {entries : List FileEntry}
    (paths : entries.Pairwise (·.file.compare ·.file = .lt)) :
    (insertEntry entry entries).Pairwise (·.file.compare ·.file = .lt) := by
  fun_induction insertEntry entry entries with
  | case1 => exact List.pairwise_singleton _ _
  | case2 first rest before =>
    refine List.pairwise_cons.mpr ⟨fun other member => ?_, paths⟩
    rcases List.mem_cons.mp member with rfl | later
    · exact before
    · exact Std.TransCmp.lt_trans before ((List.pairwise_cons.mp paths).1 other later)
  | case3 first rest equal =>
    obtain ⟨before, paths⟩ := List.pairwise_cons.mp paths
    exact List.pairwise_cons.mpr ⟨fun other later => Std.TransCmp.lt_of_eq_of_lt equal (before other later), paths⟩
  | case4 first rest after ih =>
    obtain ⟨before, paths⟩ := List.pairwise_cons.mp paths
    refine List.pairwise_cons.mpr ⟨fun other member => ?_, ih paths⟩
    rcases (mem_insertEntry paths).mp member with rfl | ⟨later, -⟩
    · exact Std.OrientedCmp.lt_of_gt after
    · exact before other later

/-- Suites after a file has been taken in: it is in its own suite and in no other. -/
def putInto (entry : FileEntry) (suites : List SuiteFiles) : List SuiteFiles :=
  suites.map fun other => if other.name = entry.suite then other.put entry else other.erase entry.file

private theorem mem_put {suites : List SuiteFiles} (ordered : Ordered suites) {suite : SuiteFiles} (member : suite ∈ suites)
    {entry other : FileEntry} :
    other ∈ (if suite.name = entry.suite then suite.put entry else suite.erase entry.file).entries ↔
      suite.name = entry.suite ∧ other = entry ∨ other ∈ suite.entries ∧ other.file.same entry.file = false := by
  split
  next home => simp [put, mem_insertEntry (ordered.paths suite member), home]
  next foreign => simp [mem_erase, foreign]

private theorem name_put (entry : FileEntry) (suite : SuiteFiles) :
    (if suite.name = entry.suite then suite.put entry else suite.erase entry.file).name = suite.name := by
  split <;> rfl

theorem Ordered.putInto {suites : List SuiteFiles} (ordered : Ordered suites) (entry : FileEntry) :
    Ordered (putInto entry suites) := by
  refine ⟨?_, ?_, ?_, ?_⟩
  · rw [SuiteFiles.putInto, List.pairwise_map]
    simpa only [name_put] using ordered.names
  · rw [SuiteFiles.putInto, List.forall_mem_map]
    intro suite member
    split
    · exact insertEntry_paths (ordered.paths suite member)
    · exact (ordered.paths suite member).sublist List.filter_sublist
  · rw [SuiteFiles.putInto, List.forall_mem_map]
    intro suite member other inside
    rw [name_put]
    rcases (mem_put ordered member).mp inside with ⟨home, rfl⟩ | ⟨old, -⟩
    · exact home.symm
    · exact ordered.homes suite member other old
  · simp only [SuiteFiles.putInto, List.forall_mem_map]
    intro suite member other found first inside second within same
    refine congrArg (fun suite : SuiteFiles => if suite.name = entry.suite then suite.put entry else suite.erase entry.file) ?_
    rcases (mem_put ordered member).mp inside with ⟨home, rfl⟩ | ⟨old, apart⟩ <;>
      rcases (mem_put ordered found).mp within with ⟨abode, rfl⟩ | ⟨older, separate⟩
    · exact ordered.eq_of_name member found (home.trans abode.symm)
    · rw [Path.same_comm, same] at separate
      cases separate
    · rw [same] at apart
      cases apart
    · exact ordered.once suite member other found first old second older same

theorem mem_putInto {suites : List SuiteFiles} (ordered : Ordered suites) (entry other : FileEntry)
    (known : ∃ suite ∈ suites, suite.name = entry.suite) :
    other ∈ (putInto entry suites).flatMap (·.entries) ↔
      other = entry ∨ other ∈ suites.flatMap (·.entries) ∧ other.file.same entry.file = false := by
  simp only [SuiteFiles.putInto, List.mem_flatMap, List.mem_map, exists_exists_and_eq_and]
  constructor
  · rintro ⟨suite, member, inside⟩
    rcases (mem_put ordered member).mp inside with ⟨-, rfl⟩ | ⟨old, apart⟩
    · exact .inl rfl
    · exact .inr ⟨⟨suite, member, old⟩, apart⟩
  · rintro (rfl | ⟨⟨suite, member, old⟩, apart⟩)
    · obtain ⟨suite, member, home⟩ := known
      exact ⟨suite, member, (mem_put ordered member).mpr (.inl ⟨home, rfl⟩)⟩
    · exact ⟨suite, member, (mem_put ordered member).mpr (.inr ⟨old, apart⟩)⟩

/-! ## All entries -/

/-- The order in which entries are listed. -/
def Before (first second : FileEntry) : Prop :=
  first.suite < second.suite ∨ first.suite = second.suite ∧ first.file.compare second.file = .lt

theorem Before.asymm {first second : FileEntry} (before : Before first second) : ¬Before second first := by
  rintro (suite | ⟨same, file⟩)
  · rcases before with earlier | ⟨same, -⟩
    · exact String.lt_irrefl _ (String.lt_trans earlier suite)
    · exact String.lt_irrefl _ (same ▸ suite)
  · rcases before with earlier | ⟨-, earlier⟩
    · exact String.lt_irrefl _ (same ▸ earlier)
    · have cycle := Std.TransCmp.lt_trans earlier file
      rw [Path.compare_eq_iff.mpr (Path.same_refl _)] at cycle
      cases cycle

instance : Std.Irrefl Before := ⟨fun _ before => before.asymm before⟩

instance : Std.Antisymm Before := ⟨fun _ _ before after => absurd after before.asymm⟩

theorem Ordered.entries {suites : List SuiteFiles} (ordered : Ordered suites) :
    (suites.flatMap (·.entries)).Pairwise Before := by
  rw [List.pairwise_flatMap]
  constructor
  · intro suite member
    refine (ordered.paths suite member).imp_of_mem fun inside within before => .inr ⟨?_, before⟩
    rw [ordered.homes suite member _ inside, ordered.homes suite member _ within]
  · refine ordered.names.imp_of_mem fun member found before first inside second within => .inl ?_
    rwa [ordered.homes _ member _ inside, ordered.homes _ found _ within]

end SuiteFiles

namespace Collection

variable {σ : Type}

/-- A collection that has a workspace for its root, with the files in order. -/
structure Ordered (collection : Collection σ) : Prop where
  present : collection.workspace?.isSome
  suites : SuiteFiles.Ordered collection.suites

private theorem find?_changed (root : Path) (change : List SuiteFiles → List SuiteFiles) (workspaces : List Workspace) :
    (workspaces.map fun workspace =>
        if workspace.root.same root then { workspace with suites := change workspace.suites } else workspace).find?
          (·.root.same root) =
      (workspaces.find? (·.root.same root)).map fun workspace =>
        { workspace with suites := change workspace.suites } := by
  induction workspaces with
  | nil => rfl
  | cons workspace rest ih =>
    by_cases own : workspace.root.same root = true
    · simp [own]
    · simp [own, ih]

theorem Ordered.withTracker {collection : Collection σ} (ordered : collection.Ordered) (tracker : σ) :
    ({ collection with tracker } : Collection σ).Ordered :=
  ⟨ordered.present, ordered.suites⟩

theorem entries_withTracker (collection : Collection σ) (tracker : σ) :
    ({ collection with tracker } : Collection σ).entries = collection.entries := rfl

theorem workspace?_changeSuites (collection : Collection σ) (change : List SuiteFiles → List SuiteFiles) :
    (collection.changeSuites change).workspace? =
      collection.workspace?.map fun workspace => { workspace with suites := change workspace.suites } :=
  find?_changed collection.root change collection.workspaces

theorem present_changeSuites (collection : Collection σ) (change : List SuiteFiles → List SuiteFiles) :
    (collection.changeSuites change).workspace?.isSome = collection.workspace?.isSome := by
  rw [workspace?_changeSuites, Option.isSome_map]

theorem suites_changeSuites {collection : Collection σ} (present : collection.workspace?.isSome)
    (change : List SuiteFiles → List SuiteFiles) : (collection.changeSuites change).suites = change collection.suites := by
  obtain ⟨workspace, found⟩ := Option.isSome_iff_exists.mp present
  simp [suites, workspace?_changeSuites, found]

theorem Ordered.changeSuites {collection : Collection σ} (ordered : collection.Ordered)
    (change : List SuiteFiles → List SuiteFiles) (kept : SuiteFiles.Ordered (change collection.suites)) :
    (collection.changeSuites change).Ordered := by
  refine ⟨?_, ?_⟩
  · rw [present_changeSuites]
    exact ordered.present
  · rwa [suites_changeSuites ordered.present]

/-- Naming suites makes no difference to the files. -/
private theorem named_suites {suites : List SuiteFiles} (ordered : SuiteFiles.Ordered suites) (names : List String) :
    SuiteFiles.Ordered (names.foldl (fun suites name => SuiteFiles.insertName name suites) suites) ∧
      (names.foldl (fun suites name => SuiteFiles.insertName name suites) suites).flatMap (·.entries) =
        suites.flatMap (·.entries) := by
  induction names generalizing suites with
  | nil => exact ⟨ordered, rfl⟩
  | cons name names ih =>
    obtain ⟨kept, same⟩ := ih (ordered.insertName name)
    exact ⟨kept, same.trans (SuiteFiles.entries_insertName name suites)⟩

theorem seed_ordered {collection : Collection σ} (ordered : collection.workspace?.isSome → SuiteFiles.Ordered collection.suites) :
    collection.seed.Ordered ∧ collection.seed.entries = collection.entries := by
  unfold seed
  split
  next present =>
    obtain ⟨kept, same⟩ := named_suites (ordered present) collection.configuration.suiteNames
    refine ⟨Ordered.changeSuites ⟨present, ordered present⟩ _ kept, ?_⟩
    rw [entries, suites_changeSuites present]
    exact same
  next absent =>
    have none : collection.workspace? = none := by simpa using absent
    have empty : collection.suites = [] := by simp [suites, none]
    have fresh : ({ collection with
        workspaces := collection.workspaces ++ [{ root := collection.root }] } : Collection σ).workspace? =
          some { root := collection.root } := by
      have before := none
      unfold workspace? Collection.root at before ⊢
      rw [List.find?_append, before]
      simp
    obtain ⟨kept, same⟩ := named_suites SuiteFiles.Ordered.nil collection.configuration.suiteNames
    have without : ({ collection with
        workspaces := collection.workspaces ++ [{ root := collection.root }] } : Collection σ).suites = [] := by
      simp [suites, fresh]
    refine ⟨Ordered.changeSuites ⟨by simp [fresh], by rw [without]; exact SuiteFiles.Ordered.nil⟩ _
      (by rw [without]; exact kept), ?_⟩
    rw [entries, suites_changeSuites (by simp [fresh]), without, entries, empty]
    exact same

theorem Ordered.seed {collection : Collection σ} (ordered : collection.Ordered) :
    collection.seed.Ordered ∧ collection.seed.entries = collection.entries :=
  seed_ordered fun _ => ordered.suites

variable [Tracker σ]

theorem ofConfiguration_ordered (configuration : Configuration) (tracker : σ) :
    (ofConfiguration configuration tracker).Ordered ∧ (ofConfiguration configuration tracker).entries = [] := by
  unfold ofConfiguration
  exact seed_ordered fun present => nomatch present

/-- What is left when a file is tracked no longer. -/
theorem remove_entries {collection : Collection σ} (ordered : SuiteFiles.Ordered collection.suites) (file : Path) :
    SuiteFiles.Ordered (collection.remove file).1.suites ∧
      ∀ entry, entry ∈ (collection.remove file).1.entries ↔
        entry ∈ collection.entries ∧ entry.file.same file = false := by
  have missing {suite : SuiteFiles} {entry : FileEntry} (absent : suite.find? file = none) (inside : entry ∈ suite.entries) :
      entry.file.same file = false := by
    simpa using List.find?_eq_none.mp absent entry inside
  unfold Collection.remove
  split
  next none =>
    refine ⟨ordered, fun entry => ⟨fun member => ⟨member, ?_⟩, And.left⟩⟩
    obtain ⟨suite, listed, inside⟩ := List.mem_flatMap.mp member
    exact missing (by simpa using List.find?_eq_none.mp none suite listed) inside
  next suite found =>
    have listed := List.mem_of_find?_eq_some found
    have some := List.find?_some found
    have present : collection.workspace?.isSome := by
      rw [Option.isSome_iff_ne_none]
      intro absent
      simp [suites, absent] at listed
    split
    next absent =>
      rw [absent] at some
      cases some
    next entry held =>
      have own := List.find?_some (show suite.entries.find? (·.file.same file) = _ from held)
      obtain ⟨kept, same⟩ := ordered.eraseFrom listed (List.mem_of_find?_eq_some held) own
      have left := suites_changeSuites present fun suites =>
        suites.map fun other => if other.name = suite.name then other.erase file else other
      rw [← left] at kept same
      exact ⟨kept, same⟩

/-- What is tracked when the source of a file has been taken in. -/
theorem store_entries {collection : Collection σ} (ordered : SuiteFiles.Ordered collection.suites) (file : Path)
    (source suite : String) :
    SuiteFiles.Ordered (collection.store file source suite).suites ∧
      ∀ entry, entry ∈ (collection.store file source suite).entries ↔
        (Tracker.parse collection.tracker source file suite).2 ≠ [] ∧
            entry = { suite, file, tests := (Tracker.parse collection.tracker source file suite).2 } ∨
          entry ∈ collection.entries ∧ entry.file.same file = false := by
  unfold Collection.store
  generalize Tracker.parse collection.tracker source file suite = parsed
  obtain ⟨tracker, tests⟩ := parsed
  have parsed : SuiteFiles.Ordered ({ collection with tracker } : Collection σ).suites := ordered
  simp only
  split
  next none =>
    obtain ⟨kept, same⟩ := remove_entries parsed file
    refine ⟨kept, fun entry => ?_⟩
    rw [same, List.isEmpty_iff.mp none, entries_withTracker]
    simp
  next some =>
    obtain ⟨seeded, same⟩ := seed_ordered fun _ => parsed
    have named := seeded.suites.insertName suite
    have all := suites_changeSuites seeded.present fun suites =>
      SuiteFiles.putInto { suite, file, tests } (SuiteFiles.insertName suite suites)
    refine ⟨?_, fun entry => ?_⟩
    · have put := named.putInto { suite, file, tests }
      rwa [← all] at put
    · have listed := SuiteFiles.mem_putInto named { suite, file, tests } entry (SuiteFiles.exists_mem_insertName suite _)
      have before : (Collection.seed { collection with tracker }).suites.flatMap (·.entries) = collection.entries := same
      rw [SuiteFiles.entries_insertName, before, ← all] at listed
      have found : tests ≠ [] := by simpa using some
      simp only [found, ne_eq, not_false_eq_true, true_and]
      exact listed

theorem present_remove (collection : Collection σ) (file : Path) :
    (collection.remove file).1.workspace?.isSome = collection.workspace?.isSome := by
  unfold Collection.remove
  split
  · rfl
  · split
    · rfl
    · exact present_changeSuites collection _

theorem Ordered.remove {collection : Collection σ} (ordered : collection.Ordered) (file : Path) :
    (collection.remove file).1.Ordered ∧
      ∀ entry, entry ∈ (collection.remove file).1.entries ↔
        entry ∈ collection.entries ∧ entry.file.same file = false := by
  obtain ⟨kept, same⟩ := remove_entries ordered.suites file
  exact ⟨⟨present_remove collection file ▸ ordered.present, kept⟩, same⟩

theorem Ordered.store {collection : Collection σ} (ordered : collection.Ordered) (file : Path) (source suite : String) :
    (collection.store file source suite).Ordered ∧
      ∀ entry, entry ∈ (collection.store file source suite).entries ↔
        (Tracker.parse collection.tracker source file suite).2 ≠ [] ∧
            entry = { suite, file, tests := (Tracker.parse collection.tracker source file suite).2 } ∨
          entry ∈ collection.entries ∧ entry.file.same file = false := by
  obtain ⟨kept, same⟩ := store_entries ordered.suites file source suite
  refine ⟨⟨?_, kept⟩, same⟩
  unfold Collection.store
  simp only
  split
  · rw [present_remove]
    exact ordered.present
  · rw [present_changeSuites]
    exact (ordered.withTracker _).seed.1.present

end Collection

end TestScout
