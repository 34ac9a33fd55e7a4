import TestScout.Collection.Tracking
import TestScout.Proofs.CollectionHistory
import TestScout.Proofs.WorkspaceEntries

/-! A collection as a container, whatever keeps the account of single files. Each file is stored once in a workspace, in
the suite and for the path that its entry names, and only as long as there are tests in it. This holds after every run,
however often the configuration changes on the way. -/

namespace TestScout

namespace SuiteFiles

theorem eq_of_same {suite : SuiteFiles} (paths : suite.entries.Pairwise (·.file.compare ·.file = .lt))
    {entry other : FileEntry} (member : entry ∈ suite.entries) (found : other ∈ suite.entries)
    (same : entry.file.same other.file = true) : entry = other := by
  by_contra differs
  have symmetric : Std.Symm fun first second : FileEntry => first.file.same second.file = false :=
    ⟨fun first second apart => Path.same_comm first.file second.file ▸ apart⟩
  have apart := List.Pairwise.forall (paths.imp fun before => Path.not_same_of_lt before) member found differs
  rw [same] at apart
  cases apart

/-- An entry is found for the paths of its file and for no others. -/
theorem find?_eq_some_iff {suite : SuiteFiles} (paths : suite.entries.Pairwise (·.file.compare ·.file = .lt)) {file : Path}
    {entry : FileEntry} : suite.find? file = some entry ↔ entry ∈ suite.entries ∧ entry.file.same file = true := by
  have sound : ∀ entry, suite.find? file = some entry → entry ∈ suite.entries ∧ entry.file.same file = true := by
    intro entry found
    have own := List.find?_some (show suite.entries.find? (·.file.same file) = _ from found)
    exact ⟨List.mem_of_find?_eq_some found, own⟩
  constructor
  · exact sound entry
  · intro ⟨member, own⟩
    cases found : suite.find? file with
    | none =>
      have missing := List.find?_eq_none.mp found entry member
      exact absurd own missing
    | some other =>
      obtain ⟨held, same⟩ := sound other found
      rw [eq_of_same paths held member (Path.same_trans same (Path.same_symm own))]

theorem Ordered.findSome?_eq_some_iff {suites : List SuiteFiles} (ordered : Ordered suites) {file : Path} {entry : FileEntry} :
    suites.findSome? (·.find? file) = some entry ↔
      entry ∈ suites.flatMap (·.entries) ∧ entry.file.same file = true := by
  have sound : ∀ entry, suites.findSome? (·.find? file) = some entry →
      ∃ suite ∈ suites, entry ∈ suite.entries ∧ entry.file.same file = true := by
    intro entry found
    obtain ⟨suite, listed, held⟩ := List.exists_of_findSome?_eq_some found
    exact ⟨suite, listed, (find?_eq_some_iff (ordered.paths suite listed)).mp held⟩
  constructor
  · intro found
    obtain ⟨suite, listed, inside, own⟩ := sound entry found
    exact ⟨List.mem_flatMap.mpr ⟨suite, listed, inside⟩, own⟩
  · intro ⟨member, own⟩
    obtain ⟨suite, listed, inside⟩ := List.mem_flatMap.mp member
    cases found : suites.findSome? (·.find? file) with
    | none =>
      have missing := List.findSome?_eq_none_iff.mp found suite listed
      rw [(find?_eq_some_iff (ordered.paths suite listed)).mpr ⟨inside, own⟩] at missing
      cases missing
    | some other =>
      obtain ⟨home, known, within, same⟩ := sound other found
      have together := Path.same_trans same (Path.same_symm own)
      obtain rfl := ordered.once home known suite listed other within entry inside together
      rw [eq_of_same (ordered.paths home known) within inside together]

end SuiteFiles

/-- A workspace in which every entry has tests and is found in its own suite, for its own file, and nowhere else. -/
structure Workspace.Stocked (workspace : Workspace) : Prop where
  names : workspace.suites.Pairwise (·.name < ·.name)
  once : ∀ suite ∈ workspace.suites, ∀ other ∈ workspace.suites, ∀ file,
    (suite.find? file).isSome → (other.find? file).isSome → suite = other
  keys : ∀ suite ∈ workspace.suites, ∀ file entry, suite.find? file = some entry →
    entry.suite = suite.name ∧ entry.file.same file = true
  found : ∀ suite ∈ workspace.suites, ∀ entry ∈ suite.entries, suite.find? entry.file = some entry
  tests : ∀ suite ∈ workspace.suites, ∀ entry ∈ suite.entries, entry.tests ≠ []

namespace Collection

variable {σ : Type} {collection first second : Collection σ}

theorem Tidy.find?_eq_some_iff (tidy : collection.Tidy) {file : Path} {entry : FileEntry} :
    collection.find? file = some entry ↔ entry ∈ collection.entries ∧ entry.file.same file = true :=
  tidy.ordered.findSome?_eq_some_iff

/-- A collection that is in order and tracks no file without tests. -/
structure Stocked (collection : Collection σ) : Prop where
  tidy : collection.Tidy
  tests : ∀ entry ∈ collection.tracked, entry.tests ≠ []

theorem Stocked.workspace (stocked : collection.Stocked) {workspace : Workspace} (listed : workspace ∈ collection.workspaces) :
    workspace.Stocked := by
  have ordered := stocked.tidy.suites workspace listed
  have holds : ∀ suite ∈ workspace.suites, ∀ file entry, suite.find? file = some entry →
      entry ∈ suite.entries ∧ entry.file.same file = true := fun suite member _ _ found =>
    (SuiteFiles.find?_eq_some_iff (ordered.paths suite member)).mp found
  refine ⟨ordered.names, ?_, ?_, ?_, ?_⟩
  · intro suite member other known file here there
    obtain ⟨entry, held⟩ := Option.isSome_iff_exists.mp here
    obtain ⟨further, kept⟩ := Option.isSome_iff_exists.mp there
    obtain ⟨inside, own⟩ := holds suite member file entry held
    obtain ⟨within, same⟩ := holds other known file further kept
    exact ordered.once suite member other known entry inside further within (Path.same_trans own (Path.same_symm same))
  · intro suite member file entry found
    obtain ⟨inside, own⟩ := holds suite member file entry found
    exact ⟨ordered.homes suite member entry inside, own⟩
  · intro suite member entry inside
    exact (SuiteFiles.find?_eq_some_iff (ordered.paths suite member)).mpr ⟨inside, Path.same_refl _⟩
  · intro suite member entry inside
    exact stocked.tests entry (List.mem_flatMap.mpr ⟨workspace, listed, List.mem_flatMap.mpr ⟨suite, member, inside⟩⟩)

/-! ## What survives -/

theorem Stocked.beside (stocked : first.Stocked) (beside : Beside first second) (ordered : SuiteFiles.Ordered second.suites)
    (tests : ∀ entry ∈ second.entries, entry.tests ≠ []) : second.Stocked := by
  have tidy := stocked.tidy.beside beside ordered
  refine ⟨tidy, ?_⟩
  intro entry member
  rcases (mem_tracked tidy.roots).mp member with own | ⟨workspace, other, inside⟩
  · exact tests entry own
  · rw [beside.others] at other
    exact stocked.tests entry ((mem_tracked stocked.tidy.roots).mpr (.inr ⟨workspace, other, inside⟩))

theorem Stocked.entries (stocked : collection.Stocked) {entry : FileEntry} (member : entry ∈ collection.entries) :
    entry.tests ≠ [] :=
  stocked.tests entry ((mem_tracked stocked.tidy.roots).mpr (.inl member))

theorem Stocked.seed (stocked : collection.Stocked) : collection.seed.Stocked := by
  obtain ⟨tidy, same⟩ := stocked.tidy.seed
  exact ⟨tidy, fun entry member => stocked.tests entry ((same entry).mp member)⟩

variable [Tracker σ]

theorem Stocked.released (stocked : collection.Stocked) (file : Path) : (collection.released file).Stocked := by
  obtain ⟨ordered, left⟩ := remove_entries stocked.tidy.ordered file
  have removed := stocked.beside (beside_remove collection file) ordered fun entry member =>
    stocked.entries ((left entry).mp member).1
  exact ⟨⟨removed.tidy.roots, removed.tidy.suites⟩, removed.tests⟩

theorem Stocked.store (stocked : collection.Stocked) (file : Path) (source suite : String) :
    (collection.store file source suite).Stocked := by
  obtain ⟨ordered, same⟩ := store_entries stocked.tidy.ordered file source suite
  refine stocked.beside (beside_store collection file source suite) ordered ?_
  intro entry member
  rcases (same entry).mp member with ⟨some, rfl⟩ | ⟨old, -⟩
  · exact some
  · exact stocked.entries old

theorem Stocked.start (configuration : Configuration) (tracker : σ) : (ofConfiguration configuration tracker).Stocked := by
  refine Stocked.seed ⟨⟨List.Pairwise.nil, ?_⟩, ?_⟩
  all_goals exact nofun

theorem Stocked.configure (stocked : collection.Stocked) (configuration : Configuration) :
    (collection.configure configuration).Stocked :=
  Stocked.seed ⟨⟨stocked.tidy.roots, stocked.tidy.suites⟩, stocked.tests⟩

section

variable {motive : Collection σ → Prop}

/-- Taking in files again never touches the one that they depend on. -/
theorem refresh_preserves {origin : Path} {dependents : List (Path × String)} {seen : List Path} (start : motive collection)
    (store : ∀ collection file source suite, file.same origin = false → motive collection →
      motive (collection.store file source suite)) : motive (refresh origin dependents seen collection) := by
  induction dependents generalizing seen collection with
  | nil => exact start
  | cons dependent rest ih =>
    obtain ⟨file, source⟩ := dependent
    rw [refresh]
    split
    · exact ih start
    next fresh =>
      have foreign : file.same origin = false := by
        rw [Bool.not_eq_true, Bool.or_eq_false_iff] at fresh
        exact fresh.1
      split
      · exact ih (store collection file source _ foreign start)
      · exact ih start

theorem update_preserves (start : motive collection)
    (store : ∀ collection file source suite, motive collection → motive (collection.store file source suite)) (file : Path)
    (source : String) : motive (collection.update file source).1 := by
  rw [update]
  split
  · exact start
  · exact refresh_preserves (store collection file source _ start) fun collection file source suite _ =>
      store collection file source suite

theorem delete_preserves (start : motive collection)
    (store : ∀ collection file source suite, motive collection → motive (collection.store file source suite))
    (release : ∀ collection file, motive collection → motive (released collection file)) (file : Path) :
    motive (collection.delete file).1 :=
  refresh_preserves (release collection file start) fun collection file source suite _ => store collection file source suite

theorem released_all_preserves (start : motive collection)
    (release : ∀ collection file, motive collection → motive (released collection file)) (files : List Path) :
    motive (files.foldl released collection) := by
  induction files generalizing collection with
  | nil => exact start
  | cons file rest ih => exact ih (release collection file start)

end

theorem Beside.store (beside : Beside first second) (file : Path) (source suite : String) :
    Beside first (second.store file source suite) :=
  beside.trans (beside_store second file source suite)

theorem Beside.released (beside : Beside first second) (file : Path) : Beside first (second.released file) :=
  (beside.trans (beside_remove second file)).withTracker _

theorem beside_released_all (collection : Collection σ) (files : List Path) :
    Beside collection (files.foldl Collection.released collection) :=
  released_all_preserves (Beside.refl collection) (fun _ file beside => beside.released file) files

/-- Only the other workspaces are left when one is given up. -/
theorem workspaces_reset (collection : Collection σ) : collection.reset.workspaces = collection.others := by
  have beside := beside_released_all collection (collection.entries.map (·.file))
  have root := congrArg Configuration.root beside.configuration
  rw [← beside.others, others, Collection.root, root]
  rfl

theorem beside_reset (collection : Collection σ) : Beside collection collection.reset := by
  have configuration : collection.reset.configuration = collection.configuration := by
    exact (beside_released_all collection (collection.entries.map (·.file))).configuration
  refine ⟨configuration, ?_, fun apart => ?_⟩
  · rw [others, workspaces_reset, Collection.root, configuration, others, List.filter_filter]
    simp [Collection.root]
  · rw [workspaces_reset]
    exact apart.sublist List.filter_sublist

theorem Stocked.reset (stocked : collection.Stocked) : collection.reset.Stocked := by
  have fewer : ∀ workspace ∈ collection.reset.workspaces, workspace ∈ collection.workspaces := by
    intro workspace member
    rw [workspaces_reset] at member
    exact (mem_others.mp member).1
  refine ⟨⟨(beside_reset collection).roots stocked.tidy.roots, ?_⟩, ?_⟩
  · exact fun workspace member => stocked.tidy.suites workspace (fewer workspace member)
  · intro entry member
    obtain ⟨workspace, listed, inside⟩ := List.mem_flatMap.mp member
    exact stocked.tests entry (List.mem_flatMap.mpr ⟨workspace, fewer workspace listed, inside⟩)

/-! ## Runs -/

inductive Request where
  | update (file : Path) (source : String)
  | delete (file : Path)
  | reset
  | configure (configuration : Configuration)

def serve (collection : Collection σ) : Request → Collection σ
  | .update file source => (collection.update file source).1
  | .delete file => (collection.delete file).1
  | .reset => collection.reset
  | .configure configuration => collection.configure configuration

def serveAll (collection : Collection σ) (requests : List Request) : Collection σ := requests.foldl serve collection

theorem Stocked.serve (stocked : collection.Stocked) (request : Request) : (collection.serve request).Stocked := by
  have store : ∀ (collection : Collection σ) file source suite, collection.Stocked →
      (collection.store file source suite).Stocked := fun _ file source suite stocked => stocked.store file source suite
  cases request with
  | update file source => exact update_preserves stocked store file source
  | delete file => exact delete_preserves stocked store (fun _ file stocked => stocked.released file) file
  | reset => exact stocked.reset
  | configure configuration => exact stocked.configure configuration

theorem Stocked.serveAll (stocked : collection.Stocked) (requests : List Request) : (collection.serveAll requests).Stocked := by
  induction requests generalizing collection with
  | nil => exact stocked
  | cons request rest ih => exact ih (stocked.serve request)

theorem beside_serve (collection : Collection σ) {request : Request}
    (stays : ∀ configuration, request ≠ .configure configuration) : Beside collection (collection.serve request) := by
  have store : ∀ (current : Collection σ) file source suite, Beside collection current →
      Beside collection (current.store file source suite) := fun _ file source suite beside => beside.store file source suite
  have start := Beside.refl collection
  cases request with
  | update file source => exact update_preserves start store file source
  | delete file => exact delete_preserves start store (fun _ file beside => beside.released file) file
  | reset => exact beside_reset collection
  | configure configuration => exact absurd rfl (stays configuration)

/-- What is tracked of a file right after its source has been taken in: what is found in it, if anything is. -/
theorem Stocked.find?_update (stocked : collection.Stocked) {file : Path} {source suite : String}
    (home : collection.suiteOf? file = some suite) (entry : FileEntry) :
    (collection.update file source).1.find? file = some entry ↔
      (Tracker.parse collection.tracker source file suite).2 ≠ [] ∧
        entry = { suite, file, tests := (Tracker.parse collection.tracker source file suite).2 } := by
  let found := (Tracker.parse collection.tracker source file suite).2
  let Settled := fun current : Collection σ => current.Stocked ∧ ∀ entry,
    entry ∈ current.entries ∧ entry.file.same file = true ↔ found ≠ [] ∧ entry = { suite, file, tests := found }
  have stored : Settled (collection.store file source suite) := by
    refine ⟨stocked.store file source suite, fun entry => ?_⟩
    rw [(store_entries stocked.tidy.ordered file source suite).2]
    constructor
    · rintro ⟨new | ⟨-, differs⟩, own⟩
      · exact new
      · rw [own] at differs
        cases differs
    · rintro ⟨some, rfl⟩
      exact ⟨.inl ⟨some, rfl⟩, Path.same_refl file⟩
  have updated : Settled (collection.update file source).1 := by
    rw [update, home]
    refine refresh_preserves stored ?_
    rintro current other text name foreign ⟨stocked, settled⟩
    refine ⟨stocked.store other text name, fun entry => ?_⟩
    rw [(store_entries stocked.tidy.ordered other text name).2, ← settled]
    constructor
    · rintro ⟨⟨-, rfl⟩ | ⟨old, -⟩, own⟩
      · rw [own] at foreign
        cases foreign
      · exact ⟨old, own⟩
    · rintro ⟨old, own⟩
      have differs : entry.file.same other = false := by rwa [Path.same_congr_left own, Path.same_comm]
      exact ⟨.inr ⟨old, differs⟩, own⟩
  exact updated.1.tidy.find?_eq_some_iff.trans (updated.2 entry)

/-- After every run, all workspaces hold their entries in the right place, none of them without tests. What happens to
files leaves the other workspaces alone. A file of a suite that has just been taken in is tracked exactly when there are
tests in it, and then in that suite. -/
theorem serveAll_stocked (configuration : Configuration) (tracker : σ) (requests : List Request) :
    let collection := (ofConfiguration configuration tracker).serveAll requests
    (∀ workspace ∈ collection.workspaces, workspace.Stocked) ∧
      (∀ request, (∀ configuration, request ≠ .configure configuration) →
        (collection.serve request).configuration = collection.configuration ∧
          (collection.serve request).others = collection.others) ∧
      ∀ file source suite, collection.suiteOf? file = some suite →
        let tests := (Tracker.parse collection.tracker source file suite).2
        let updated := (collection.update file source).1
        (collection.update file source).2 = updated.find? file ∧ (updated.contains file = true ↔ tests ≠ []) ∧
          (tests ≠ [] → updated.find? file = some { suite, file, tests } ∧
            ∃ home ∈ updated.suites, home.name = suite ∧ home.find? file = some { suite, file, tests }) := by
  intro collection
  have stocked : collection.Stocked := (Stocked.start configuration tracker).serveAll requests
  refine ⟨fun workspace listed => stocked.workspace listed, ?_, ?_⟩
  · intro request stays
    have beside := beside_serve collection stays
    exact ⟨beside.configuration, beside.others⟩
  · intro file source suite home tests updated
    have found : ∀ entry, updated.find? file = some entry ↔ tests ≠ [] ∧ entry = { suite, file, tests } :=
      stocked.find?_update home
    refine ⟨?_, ?_, ?_⟩
    · show (collection.update file source).2 = (collection.update file source).1.find? file
      simp only [update, home]
    · rw [contains, Option.isSome_iff_exists]
      simp [found]
    · intro some
      have tracked := (found { suite, file, tests }).mpr ⟨some, rfl⟩
      obtain ⟨home, listed, held⟩ := List.exists_of_findSome?_eq_some tracked
      have ordered := (stocked.serve (.update file source)).tidy.ordered
      have member := ((SuiteFiles.find?_eq_some_iff (ordered.paths home listed)).mp held).1
      exact ⟨tracked, home, listed, (ordered.homes home listed _ member).symm, held⟩

private def cartReader : Surface.Reader := fun source =>
  let node : Code.ClassDecl := { name := "CartTest", body := [.method { name := "testAdd", body := some {} }] }
  if source = "test" then some (.program { children := [.classDecl node] }) else none

private def cartConfiguration (root suite : String) : Configuration where
  root := ⟨root⟩
  rules := [{ suite, tag := .file, value := "Cart.php" }]

/-- The suite of a file gets another name while another workspace is turned to. -/
private def cartRequests : List Request :=
  [.update ⟨"/p/Cart.php"⟩ "test", .configure (cartConfiguration "/q" "unit"), .update ⟨"/q/Cart.php"⟩ "test",
    .configure (cartConfiguration "/p" "shop")]

/-- The file is in its old suite until it is taken in again, and then in the new one alone. Afterwards the other workspace
still has its own file in it. -/
theorem cart_changes_suite :
    let moved := (ofConfiguration (cartConfiguration "/p" "unit")
      ({ reader := cartReader, root := ⟨"/p"⟩ } : Discovery.Scout)).serveAll cartRequests
    let updated := (moved.update ⟨"/p/Cart.php"⟩ "test").1
    ((moved.find? ⟨"/p/Cart.php"⟩).map (·.suite) = some "unit" ∧ moved.suiteOf? ⟨"/p/Cart.php"⟩ = some "shop") ∧
      updated.contains ⟨"/p/Cart.php"⟩ = true ∧
      (∃ home ∈ updated.suites, home.name = "shop" ∧ (home.find? ⟨"/p/Cart.php"⟩).isSome) ∧
      updated.others = moved.others ∧ moved.others.map (fun other => (other.root.text, other.entries.length)) = [("/q", 1)] := by
  intro moved updated
  have claimed : moved.suiteOf? ⟨"/p/Cart.php"⟩ = some "shop" := by decide +kernel
  have before : (moved.find? ⟨"/p/Cart.php"⟩).map (·.suite) = some "unit" := by decide +kernel
  have tests : (Tracker.parse moved.tracker "test" ⟨"/p/Cart.php"⟩ "shop").2 ≠ [] := by
    rw [ne_eq, ← List.isEmpty_iff]
    decide +kernel
  obtain ⟨-, beside, exact⟩ := serveAll_stocked (cartConfiguration "/p" "unit")
    ({ reader := cartReader, root := ⟨"/p"⟩ } : Discovery.Scout) cartRequests
  obtain ⟨-, tracked, here⟩ := exact ⟨"/p/Cart.php"⟩ "test" "shop" claimed
  obtain ⟨-, home, listed, name, held⟩ := here tests
  refine ⟨⟨before, claimed⟩, tracked.mpr tests, ⟨home, listed, name, Option.isSome_iff_exists.mpr ⟨_, held⟩⟩, ?_, by decide +kernel⟩
  exact (beside (.update ⟨"/p/Cart.php"⟩ "test") nofun).2

end Collection

end TestScout
