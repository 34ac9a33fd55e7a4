import TestScout.Proofs.EditorIsolation

/-! Giving up a workspace. The other workspaces keep their entries, what is shown of them and the classes that their
files declare. What depends on these stays known as long as it is not given up itself. A file is given up when it is
tracked in the workspace and also when it is anywhere under the root of it. -/

namespace TestScout
open Test Outline

namespace Discovery.Scout

/-- What is left when only some files are remembered. -/
def only (scout : Scout) (keep : Path → Bool) : Scout :=
  { scout with
    registry := scout.registry.filter (keep ·.file)
    sources := scout.sources.filter (keep ·.1) }

theorem only_only (scout : Scout) (first second : Path → Bool) :
    (scout.only first).only second = scout.only fun path => first path && second path := by
  simp only [only, Registry.filter, List.filter_filter, Bool.and_comm]

theorem forgetFile_all (scout : Scout) (files : List Path) :
    files.foldl Scout.forgetFile scout = scout.only fun path => files.all fun file => !path.same file := by
  induction files generalizing scout with
  | nil => simp [only, Registry.filter]
  | cons file rest ih =>
    rw [List.foldl_cons, ih]
    exact scout.only_only (fun path => !path.same file) _

theorem dependents_only {scout : Scout} {keep : Path → Bool} {file : Path}
    (across : ∀ path other : Path, path.same other = true → keep path = keep other) (kept : keep file = true)
    (all : ∀ dependent ∈ scout.registry.dependentFiles file, keep dependent = true) :
    (scout.only keep).dependents file = scout.dependents file := by
  have files : (scout.only keep).registry.dependentFiles file = scout.registry.dependentFiles file := by
    refine Registry.dependentFiles_filter ?_ ?_
    · intro path same
      rw [across path file same, kept]
    · intro dependent member path same
      rw [← across dependent path same, all dependent member]
  rw [dependents, files, dependents]
  refine List.filterMap_congr fun dependent member => ?_
  have source : (scout.only keep).sourceOf? dependent = scout.sourceOf? dependent := by
    rw [sourceOf?, sourceOf?, only, List.find?_filter]
    congr 2
    funext entry
    cases same : entry.1.same dependent with
    | true => simp [across entry.1 dependent same, all dependent member]
    | false => simp
  rw [source]

end Discovery.Scout

namespace Collection
open Editor

variable {collection : Collection Editor} {ledger : Ledger} {spaces : Ref → Prop}

/-- Whether a file is given up along with the workspace. -/
def givesUp (collection : Collection Editor) (path : Path) : Bool :=
  path.isUnder collection.root || collection.entries.any (path.same ·.file)

theorem givesUp_congr {path other : Path} (same : path.same other = true) : collection.givesUp path = collection.givesUp other := by
  have parts : path.parts = other.parts := Path.same_iff.mp same
  have under : path.isUnder collection.root = other.isUnder collection.root := by
    rw [Path.isUnder, Path.isUnder, parts]
  have all : (fun entry : FileEntry => path.same entry.file) = fun entry => other.same entry.file :=
    funext fun entry => Path.same_congr_left same entry.file
  rw [givesUp, givesUp, under, all]

theorem scout_released_all (files : List Path) (collection : Collection Editor) :
    (files.foldl released collection).tracker.scout = files.foldl Discovery.Scout.forgetFile collection.tracker.scout := by
  induction files generalizing collection with
  | nil => rfl
  | cons file rest ih =>
    rw [List.foldl_cons, List.foldl_cons, ih]
    exact congrArg (rest.foldl _) (scout_released collection file)

theorem scout_reset (collection : Collection Editor) :
    collection.reset.tracker.scout = collection.tracker.scout.only fun path => !collection.givesUp path := by
  have emptied : collection.emptied.tracker.scout =
      collection.tracker.scout.only fun path => (collection.entries.map (·.file)).all fun file => !path.same file := by
    rw [emptied, scout_released_all, Discovery.Scout.forgetFile_all]
  have reset : collection.reset.tracker.scout =
      collection.emptied.tracker.scout.only fun path => !path.isUnder collection.root := rfl
  rw [reset, emptied, Discovery.Scout.only_only]
  congr 1
  funext path
  rw [givesUp, Bool.not_or, Bool.and_comm, List.all_map, List.not_any_eq_all_not]
  rfl

theorem declaredIn_reset {file : Path} (kept : collection.givesUp file = false) :
    collection.reset.tracker.scout.registry.declaredIn file = collection.tracker.scout.registry.declaredIn file := by
  have across : ∀ path, path.same file = true → (!collection.givesUp path) = true := by
    intro path same
    rw [givesUp_congr same, kept]
    rfl
  rw [scout_reset]
  exact Registry.declaredIn_filter across

theorem dependents_reset {file : Path} (kept : collection.givesUp file = false)
    (all : ∀ dependent ∈ collection.tracker.scout.registry.dependentFiles file, collection.givesUp dependent = false) :
    Tracker.dependents collection.reset.tracker file = Tracker.dependents collection.tracker file := by
  show collection.reset.tracker.scout.dependents file = collection.tracker.scout.dependents file
  rw [scout_reset]
  refine Discovery.Scout.dependents_only ?_ ?_ ?_
  · intro path other same
    rw [givesUp_congr same]
  · rw [kept]
    rfl
  · intro dependent member
    rw [all dependent member]
    rfl

theorem Mirrored.not_touched_reset (mirrored : collection.Mirrored ledger spaces) {workspace : Workspace}
    (other : workspace ∈ collection.others) {entry : FileEntry} (member : entry ∈ workspace.entries) :
    ¬collection.Touched .reset entry.file := by
  rintro (⟨intake, none, -⟩ | ⟨own, listed, same⟩)
  · cases none
  · have apart := mirrored.separate.unshared listed workspace other entry member
    rw [same] at apart
    cases apart

/-- After any run, giving up the workspace leaves the others as they are. -/
theorem reset_leaves_other_workspaces (reader : Surface.Reader) (configuration : Configuration) (actions : List Action)
    (welcome : ∀ intake ∈ (fresh reader configuration).allIntakes actions, Welcome intake) :
    let before := (fresh reader configuration).performAll actions
    before.reset.workspaces = before.others ∧
      (∀ workspace ∈ before.others, ∀ entry ∈ workspace.entries,
        ShownAlike before.tracker before.reset.tracker entry ∧
          before.givesUp entry.file = entry.file.isUnder before.root) ∧
      ∀ file, before.givesUp file = false →
        before.reset.tracker.scout.registry.declaredIn file = before.tracker.scout.registry.declaredIn file ∧
          ((∀ dependent ∈ before.tracker.scout.registry.dependentFiles file, before.givesUp dependent = false) →
            Tracker.dependents before.reset.tracker file = Tracker.dependents before.tracker file) := by
  intro before
  obtain ⟨ledger, spaces, mirrored⟩ := mirrored_run (mirrored_fresh reader configuration) welcome
  refine ⟨workspaces_reset before, ?_, ?_⟩
  · intro workspace other entry member
    have untouched : ¬before.Touched .reset entry.file := mirrored.not_touched_reset other member
    have tracked : entry ∈ before.tracked := List.mem_flatMap.mpr ⟨workspace, (mem_others.mp other).1, member⟩
    have none : ∀ intake ∈ before.intakes .reset, Welcome intake := nofun
    have shown : ShownAlike before.tracker (before.perform .reset).tracker entry := mirrored.shownAlike none tracked untouched
    refine ⟨shown, ?_⟩
    have foreign : before.entries.any (entry.file.same ·.file) = false := by
      rw [Bool.eq_false_iff]
      intro given
      obtain ⟨own, listed, same⟩ := List.any_eq_true.mp given
      exact untouched (.inr ⟨own, listed, same⟩)
    rw [givesUp, foreign, Bool.or_false]
  · intro file kept
    exact ⟨declaredIn_reset kept, dependents_reset kept⟩

/-- A reader of an abstract base, a class that extends it and a class that stands alone. -/
private def branchReader : Surface.Reader := fun source =>
  let method := fun name => Code.Node.method { name, body := some {} }
  let only := fun (node : Code.ClassDecl) => some (.program { children := [.classDecl node] })
  match source with
  | "base" => only { name := "Base", isAbstract := true, body := [method "testId"] }
  | "child" => only { name := "ChildTest", parent := some "Base" }
  | "other" => only { name := "OtherTest", body := [method "testOther"] }
  | _ => none

private def branchConfiguration (root : String) : Configuration where
  root := ⟨root⟩
  rules := [
    { suite := "unit", tag := .file, value := "Base.php" },
    { suite := "unit", tag := .file, value := "Child.php" },
    { suite := "unit", tag := .file, value := "Other.php" }]

/-- Two classes are tracked in a workspace before another one is turned to. -/
private def branchRun (first second : String) : List Action :=
  [.update ⟨first ++ "/Base.php"⟩ "base", .update ⟨first ++ "/Child.php"⟩ "child", .configure (branchConfiguration second),
    .update ⟨second ++ "/Other.php"⟩ "other"]

/-- The child stays as it is when a workspace next to it is given up, and still depends on its base. -/
theorem neighbour_unchanged :
    let before := (fresh branchReader (branchConfiguration "/p")).performAll (branchRun "/p" "/q")
    before.reset.workspaces = before.others ∧
      (∃ workspace ∈ before.others, ∃ entry ∈ workspace.entries, entry.file.text = "/p/Child.php" ∧
        ShownAlike before.tracker before.reset.tracker entry ∧
          before.givesUp entry.file = entry.file.isUnder before.root) ∧
      (Tracker.dependents before.tracker ⟨"/p/Base.php"⟩).map (·.1.text) = ["/p/Child.php"] ∧
        Tracker.dependents before.reset.tracker ⟨"/p/Base.php"⟩ = Tracker.dependents before.tracker ⟨"/p/Base.php"⟩ := by
  intro before
  have welcome : ∀ intake ∈ (fresh branchReader (branchConfiguration "/p")).allIntakes (branchRun "/p" "/q"),
      Welcome intake := by
    decide +kernel
  have tracked : ∃ workspace ∈ before.others, ∃ entry ∈ workspace.entries, entry.file.text = "/p/Child.php" := by
    decide +kernel
  have kept : before.givesUp ⟨"/p/Base.php"⟩ = false := by decide +kernel
  have all : ∀ dependent ∈ before.tracker.scout.registry.dependentFiles ⟨"/p/Base.php"⟩, before.givesUp dependent = false := by
    decide +kernel
  have some : (Tracker.dependents before.tracker ⟨"/p/Base.php"⟩).map (·.1.text) = ["/p/Child.php"] := by decide +kernel
  obtain ⟨workspaces, shown, known⟩ :=
    reset_leaves_other_workspaces branchReader (branchConfiguration "/p") (branchRun "/p" "/q") welcome
  obtain ⟨workspace, other, entry, member, name⟩ := tracked
  exact ⟨workspaces, ⟨workspace, other, entry, member, name, shown workspace other entry member⟩, some,
    (known ⟨"/p/Base.php"⟩ kept).2 all⟩

/-- A workspace around the child takes along that it depends on its base. -/
theorem nested_workspace_forgotten :
    let before := (fresh branchReader (branchConfiguration "/p/inner")).performAll (branchRun "/p/inner" "/p")
    (∃ workspace ∈ before.others, ∃ entry ∈ workspace.entries, entry.file.text = "/p/inner/Child.php" ∧
      (before.tracker.scout.registry.declaredIn entry.file).map (·.name) = ["ChildTest"] ∧
        before.reset.tracker.scout.registry.declaredIn entry.file = []) ∧
      (Tracker.dependents before.tracker ⟨"/p/inner/Base.php"⟩).map (·.1.text) = ["/p/inner/Child.php"] ∧
        (Tracker.dependents before.reset.tracker ⟨"/p/inner/Base.php"⟩).map (·.1.text) = [] := by
  decide +kernel

end Collection

end TestScout
