import Mathlib.Data.List.Pairwise
import TestScout.Proofs.CollectionEntries

/-! The tracked files of all workspaces. What happens to a file happens in the workspace that is configured; the others
keep the files that they track. -/

namespace TestScout

def Workspace.entries (workspace : Workspace) : List FileEntry := workspace.suites.flatMap (·.entries)

namespace Collection

variable {σ : Type} {collection first second : Collection σ}

/-- The files that are tracked, in whatever workspace. -/
def tracked (collection : Collection σ) : List FileEntry := collection.workspaces.flatMap (·.entries)

/-- The workspaces besides the one that is configured. -/
def others (collection : Collection σ) : List Workspace := collection.workspaces.filter (!·.root.same collection.root)

def RootsApart (workspaces : List Workspace) : Prop :=
  workspaces.Pairwise fun first second => first.root.same second.root = false

structure Tidy (collection : Collection σ) : Prop where
  roots : RootsApart collection.workspaces
  suites : ∀ workspace ∈ collection.workspaces, SuiteFiles.Ordered workspace.suites

theorem workspace?_eq_some (apart : RootsApart collection.workspaces) {workspace : Workspace}
    (listed : workspace ∈ collection.workspaces) (own : workspace.root.same collection.root = true) :
    collection.workspace? = some workspace := by
  cases found : collection.workspace? with
  | none =>
    have missing := List.find?_eq_none.mp found workspace listed
    exact absurd own missing
  | some other =>
    have symmetric : Std.Symm fun first second : Workspace => first.root.same second.root = false :=
      ⟨fun first second differs => Path.same_comm first.root second.root ▸ differs⟩
    rw [workspace?] at found
    have chosen := List.find?_some found
    have same := Path.same_trans chosen (Path.same_symm own)
    by_contra differs
    have apart := List.Pairwise.forall apart (List.mem_of_find?_eq_some found) listed
      fun equal => differs (congrArg some equal)
    rw [same] at apart
    cases apart

theorem mem_others {workspace : Workspace} : workspace ∈ collection.others ↔
    workspace ∈ collection.workspaces ∧ workspace.root.same collection.root = false := by
  simp [others]

theorem mem_tracked (apart : RootsApart collection.workspaces) {entry : FileEntry} : entry ∈ collection.tracked ↔
    entry ∈ collection.entries ∨ ∃ workspace ∈ collection.others, entry ∈ workspace.entries := by
  constructor
  · intro member
    obtain ⟨workspace, listed, inside⟩ := List.mem_flatMap.mp member
    cases own : workspace.root.same collection.root with
    | true =>
      left
      rw [entries, suites, workspace?_eq_some apart listed own]
      exact inside
    | false => exact .inr ⟨workspace, mem_others.mpr ⟨listed, own⟩, inside⟩
  · intro either
    rcases either with own | ⟨workspace, listed, inside⟩
    · cases found : collection.workspace? with
      | none => simp [entries, suites, found] at own
      | some workspace =>
        simp only [entries, suites, found, Option.map_some, Option.getD_some] at own
        exact List.mem_flatMap.mpr ⟨workspace, List.mem_of_find?_eq_some found, own⟩
    · exact List.mem_flatMap.mpr ⟨workspace, (mem_others.mp listed).1, inside⟩

theorem Tidy.ordered (tidy : collection.Tidy) : SuiteFiles.Ordered collection.suites := by
  cases found : collection.workspace? with
  | none =>
    rw [Collection.suites, found]
    exact SuiteFiles.Ordered.nil
  | some workspace =>
    rw [Collection.suites, found]
    exact tidy.suites workspace (List.mem_of_find?_eq_some found)

/-! ## Changes in one workspace -/

/-- What happens in the workspace that is configured leaves the others alone. -/
structure Beside (first second : Collection σ) : Prop where
  configuration : second.configuration = first.configuration
  others : second.others = first.others
  roots : RootsApart first.workspaces → RootsApart second.workspaces

theorem Beside.refl (collection : Collection σ) : Beside collection collection := ⟨rfl, rfl, id⟩

theorem Beside.trans {third : Collection σ} (one : Beside first second) (two : Beside second third) : Beside first third :=
  ⟨two.configuration.trans one.configuration, two.others.trans one.others, fun apart => two.roots (one.roots apart)⟩

theorem Beside.withTracker (beside : Beside first second) (tracker : σ) : Beside first { second with tracker } :=
  ⟨beside.configuration, beside.others, beside.roots⟩

theorem Tidy.beside (tidy : first.Tidy) (beside : Beside first second) (ordered : SuiteFiles.Ordered second.suites) :
    second.Tidy := by
  have roots := beside.roots tidy.roots
  refine ⟨roots, ?_⟩
  intro workspace listed
  cases own : workspace.root.same second.root with
  | true =>
    rw [Collection.suites, workspace?_eq_some roots listed own] at ordered
    exact ordered
  | false =>
    have other := mem_others.mpr ⟨listed, own⟩
    rw [beside.others] at other
    exact tidy.suites workspace (mem_others.mp other).1

private theorem others_changed (root : Path) (change : List SuiteFiles → List SuiteFiles) (workspaces : List Workspace) :
    (workspaces.map fun workspace =>
        if workspace.root.same root then { workspace with suites := change workspace.suites } else workspace).filter
          (!·.root.same root) = workspaces.filter (!·.root.same root) := by
  induction workspaces with
  | nil => rfl
  | cons workspace rest ih =>
    cases own : workspace.root.same root with
    | true => simp [own, ih]
    | false => simp [own, ih]

theorem beside_changeSuites (collection : Collection σ) (change : List SuiteFiles → List SuiteFiles) :
    Beside collection (collection.changeSuites change) := by
  refine ⟨rfl, others_changed collection.root change collection.workspaces, ?_⟩
  intro apart
  rw [RootsApart, changeSuites, List.pairwise_map]
  refine List.Pairwise.imp ?_ apart
  intro workspace other differs
  split <;> split <;> exact differs

theorem beside_seed (collection : Collection σ) : Beside collection collection.seed := by
  unfold seed
  split
  · exact beside_changeSuites collection _
  next absent =>
    have grown : Beside collection { collection with
        workspaces := collection.workspaces ++ [{ root := collection.root }] } := by
      refine ⟨rfl, ?_, ?_⟩
      · simp [others, Collection.root, Path.same_refl]
      · intro apart
        refine List.pairwise_append.mpr ⟨apart, List.pairwise_singleton _ _, ?_⟩
        intro workspace listed other added
        rw [List.mem_singleton.mp added]
        have none : collection.workspace? = none := by simpa using absent
        simpa using List.find?_eq_none.mp none workspace listed
    exact grown.trans (beside_changeSuites _ _)

/-- Making sure that there is a workspace changes nothing about the tracked files. -/
theorem Tidy.seed (tidy : collection.Tidy) :
    collection.seed.Tidy ∧ ∀ entry, entry ∈ collection.seed.tracked ↔ entry ∈ collection.tracked := by
  obtain ⟨ordered, same⟩ := seed_ordered fun _ => tidy.ordered
  have beside := beside_seed collection
  have seeded := tidy.beside beside ordered.suites
  refine ⟨seeded, fun entry => ?_⟩
  rw [mem_tracked seeded.roots, mem_tracked tidy.roots, same, beside.others]

variable [Tracker σ]

theorem beside_remove (collection : Collection σ) (file : Path) : Beside collection (collection.remove file).1 := by
  unfold Collection.remove
  split
  · exact Beside.refl collection
  · split
    · exact Beside.refl collection
    · exact Beside.withTracker (beside_changeSuites collection _) _

theorem beside_store (collection : Collection σ) (file : Path) (source suite : String) :
    Beside collection (collection.store file source suite) := by
  unfold Collection.store
  simp only
  split
  · exact Beside.trans (Beside.withTracker (Beside.refl collection) _) (beside_remove _ file)
  · exact Beside.trans (Beside.withTracker (Beside.refl collection) _) (Beside.trans (beside_seed _) (beside_changeSuites _ _))

/-- No file of another workspace is meant. -/
def Unshared (collection : Collection σ) (file : Path) : Prop :=
  ∀ workspace ∈ collection.others, ∀ entry ∈ workspace.entries, entry.file.same file = false

omit [Tracker σ] in
private theorem tracked_but (tidy : first.Tidy) (next : second.Tidy) (beside : Beside first second) {file : Path}
    (unshared : first.Unshared file) {new : FileEntry → Prop}
    (own : ∀ entry, entry ∈ second.entries ↔ new entry ∨ entry ∈ first.entries ∧ entry.file.same file = false)
    (entry : FileEntry) : entry ∈ second.tracked ↔ new entry ∨ entry ∈ first.tracked ∧ entry.file.same file = false := by
  rw [mem_tracked next.roots, mem_tracked tidy.roots, own, beside.others]
  constructor
  · rintro ((fresh | ⟨old, differs⟩) | ⟨workspace, listed, inside⟩)
    · exact .inl fresh
    · exact .inr ⟨.inl old, differs⟩
    · exact .inr ⟨.inr ⟨workspace, listed, inside⟩, unshared workspace listed entry inside⟩
  · rintro (fresh | ⟨old | elsewhere, differs⟩)
    · exact .inl (.inl fresh)
    · exact .inl (.inr ⟨old, differs⟩)
    · exact .inr elsewhere

theorem Tidy.remove (tidy : collection.Tidy) (file : Path) :
    (collection.remove file).1.Tidy ∧ (collection.Unshared file → ∀ entry,
      entry ∈ (collection.remove file).1.tracked ↔ entry ∈ collection.tracked ∧ entry.file.same file = false) := by
  obtain ⟨ordered, same⟩ := remove_entries tidy.ordered file
  have beside := beside_remove collection file
  have next := tidy.beside beside ordered
  refine ⟨next, fun unshared entry => ?_⟩
  have listed := tracked_but tidy next beside unshared fun entry => (same entry).trans (iff_of_eq (false_or _)).symm
  exact (listed entry).trans (iff_of_eq (false_or _))

theorem Tidy.store (tidy : collection.Tidy) (file : Path) (source suite : String) :
    (collection.store file source suite).Tidy ∧ (collection.Unshared file → ∀ entry,
      entry ∈ (collection.store file source suite).tracked ↔
        (Tracker.parse collection.tracker source file suite).2 ≠ [] ∧
            entry = { suite, file, tests := (Tracker.parse collection.tracker source file suite).2 } ∨
          entry ∈ collection.tracked ∧ entry.file.same file = false) := by
  obtain ⟨ordered, same⟩ := store_entries tidy.ordered file source suite
  have beside := beside_store collection file source suite
  have next := tidy.beside beside ordered
  exact ⟨next, fun unshared entry => tracked_but tidy next beside unshared same entry⟩

end Collection

end TestScout
