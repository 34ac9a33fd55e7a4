import Mathlib.Data.List.Induction
import Mathlib.Data.List.Infix
import TestScout.Collection.Tracking
import TestScout.Editor.Basic
import TestScout.Proofs.CollectionEntries
import TestScout.Proofs.ScoutMemory

/-! What is tracked does not depend on history. After a change, the entries of the files that
depend on the changed one are out of date; taking these files in again brings them up to date
one by one, and no other entry can have gone out of date. So the entries are always those that
the latest sources give, whatever the order in which they came. -/

namespace TestScout
open Test Discovery

/-- A tracker that leaves it to a scout to look at files. -/
class Scouting (σ : Type) [Tracker σ] where
  scout : σ → Scout
  scout_parse : ∀ (tracker : σ) source file suite,
    scout (Tracker.parse tracker source file suite).1 = ((scout tracker).look source file (some suite)).1
  tests_parse : ∀ (tracker : σ) source file suite,
    (Tracker.parse tracker source file suite).2 =
      Definition.forest ((scout tracker).look source file (some suite)).2
  scout_drop : ∀ (tracker : σ) entry, scout (Tracker.drop tracker entry) = scout tracker
  scout_forgetFile : ∀ (tracker : σ) file, scout (Tracker.forgetFile tracker file) = (scout tracker).forgetFile file
  scout_setRoot : ∀ (tracker : σ) root, scout (Tracker.setRoot tracker root) = { scout tracker with root }
  dependents_eq : ∀ (tracker : σ) file, Tracker.dependents tracker file = (scout tracker).dependents file

instance : Scouting Scout where
  scout := id
  scout_parse _ _ _ _ := rfl
  tests_parse _ _ _ _ := rfl
  scout_drop _ _ := rfl
  scout_forgetFile _ _ := rfl
  scout_setRoot _ _ := rfl
  dependents_eq _ _ := rfl

theorem Editor.scout_takeOut (editor : Editor) (file : Path) : (editor.takeOut file).1.scout = editor.scout := by
  unfold takeOut
  split <;> rfl

theorem Editor.scout_indexed (built : List (Outline.Ref × Definition)) (editor : Editor) :
    (built.foldl (fun editor (ref, definition) => editor.indexItem ref definition) editor).scout = editor.scout := by
  induction built generalizing editor with
  | nil => rfl
  | cons item rest ih => exact ih (editor.indexItem item.1 item.2)

instance : Scouting Editor where
  scout := Editor.scout
  scout_parse editor source file suite := by
    rw [← editor.scout_takeOut file]
    exact Editor.scout_indexed _ _
  tests_parse editor source file suite := by
    rw [← editor.scout_takeOut file]
    rfl
  scout_drop editor entry := editor.scout_takeOut entry.file
  scout_forgetFile _ _ := rfl
  scout_setRoot _ _ := rfl
  dependents_eq _ _ := rfl

/-- An entry without the keys of data sets. -/
def FileEntry.withoutKeys (entry : FileEntry) : FileEntry :=
  { entry with tests := entry.tests.map Definition.withoutKeys }

/-! ## Histories -/

inductive Change where
  | update (file : Path) (source : String)
  | delete (file : Path)

/-- The sources that are there after a change. -/
def Change.record (sources : Sources) : Change → Sources
  | .update file source => sources.put file source
  | .delete file => sources.without file

def latest (changes : List Change) : Sources := changes.foldl Change.record []

theorem latest_append (changes : List Change) (change : Change) :
    latest (changes ++ [change]) = change.record (latest changes) :=
  List.foldl_concat ..

theorem latest_distinct (changes : List Change) : (latest changes).Distinct := by
  suffices ∀ sources : Sources, sources.Distinct → (changes.foldl Change.record sources).Distinct from
    this [] List.Pairwise.nil
  induction changes with
  | nil => exact fun _ distinct => distinct
  | cons change rest ih =>
    intro sources distinct
    refine ih _ ?_
    cases change with
    | update file source => exact distinct.put file source
    | delete file => exact distinct.without file

namespace Collection

variable {σ : Type} [Tracker σ]

def apply (collection : Collection σ) : Change → Collection σ
  | .update file source => (collection.update file source).1
  | .delete file => (collection.delete file).1

def run (collection : Collection σ) (changes : List Change) : Collection σ := changes.foldl apply collection

variable [Scouting σ]

def scout (collection : Collection σ) : Scout := Scouting.scout collection.tracker

/-- The entry that the source of a file asks for, as far as the scout knows. A source without
tests asks for none. -/
def due (configuration : Configuration) (scout : Scout) (file : Path) (source : String) : Option FileEntry :=
  ((SuiteMatcher.ofConfiguration configuration).suiteOf? file).bind fun suite =>
    let tests := Definition.forest (scout.definitions source file (some suite))
    if tests.isEmpty then none else some { suite, file, tests }

theorem due_congr (configuration : Configuration) {first second : Scout} {entry : Path × String}
    (same : first.SameDefinitions second entry) :
    (due configuration first entry.1 entry.2).map FileEntry.withoutKeys =
      (due configuration second entry.1 entry.2).map FileEntry.withoutKeys := by
  unfold due
  cases (SuiteMatcher.ofConfiguration configuration).suiteOf? entry.1 with
  | none => rfl
  | some suite =>
    have tests := Definition.forest_congr (same (some suite))
    have empty := congrArg List.isEmpty tests
    rw [List.isEmpty_map, List.isEmpty_map] at empty
    simp only [Option.bind_some, empty]
    split
    · rfl
    · simp only [Option.map_some, FileEntry.withoutKeys, tests]

/-- The entries of a file, without keys, are what its source asks for. -/
def UpToDate (collection : Collection σ) (entry : Path × String) : Prop :=
  ∀ without, (∃ held ∈ collection.entries, held.file.same entry.1 = true ∧ held.withoutKeys = without) ↔
    (due collection.configuration collection.scout entry.1 entry.2).map FileEntry.withoutKeys = some without

/-- A collection that tracks what the latest sources ask for, apart from files that are out of date. -/
structure Current (reader : Surface.Reader) (configuration : Configuration) (latest : Sources) (stale : Path → Prop)
    (collection : Collection σ) : Prop where
  configured : collection.configuration = configuration
  matcher : collection.matcher = .ofConfiguration configuration
  reader : collection.scout.reader = reader
  root : collection.scout.root = configuration.root
  ordered : collection.Ordered
  remembers : collection.scout.Remembers latest
  tracked : ∀ held ∈ collection.entries, ∃ entry ∈ latest, held.file.same entry.1 = true
  fresh : ∀ entry ∈ latest, ¬stale entry.1 → collection.UpToDate entry

variable {reader : Surface.Reader} {configuration : Configuration} {latest : Sources} {stale : Path → Prop}
  {collection : Collection σ}

theorem Current.congr (current : Current reader configuration latest stale collection) {others : Sources}
    (same : ∀ entry, entry ∈ latest ↔ entry ∈ others) : Current reader configuration others stale collection where
  __ := current
  remembers := current.remembers.congr same
  tracked held member := by
    obtain ⟨entry, inside, found⟩ := current.tracked held member
    exact ⟨entry, (same entry).mp inside, found⟩
  fresh entry member := current.fresh entry ((same entry).mpr member)

theorem Current.weaken (current : Current reader configuration latest stale collection) {further : Path → Prop}
    (wider : ∀ entry ∈ latest, stale entry.1 → further entry.1) :
    Current reader configuration latest further collection where
  __ := current
  fresh entry member healthy := current.fresh entry member fun old => healthy (wider entry member old)

/-! ## Steps -/

/-- What stays the same whatever happens to files. -/
structure SameSetting (first second : Collection σ) : Prop where
  configuration : second.configuration = first.configuration
  matcher : second.matcher = first.matcher

omit [Tracker σ] [Scouting σ] in
theorem seed_setting (collection : Collection σ) :
    SameSetting collection collection.seed ∧ collection.seed.tracker = collection.tracker := by
  unfold seed
  split <;> exact ⟨⟨rfl, rfl⟩, rfl⟩

theorem remove_setting (collection : Collection σ) (file : Path) :
    SameSetting collection (collection.remove file).1 ∧ (collection.remove file).1.scout = collection.scout := by
  unfold Collection.remove
  split
  · exact ⟨⟨rfl, rfl⟩, rfl⟩
  · split
    · exact ⟨⟨rfl, rfl⟩, rfl⟩
    · exact ⟨⟨rfl, rfl⟩, Scouting.scout_drop _ _⟩

theorem store_setting (collection : Collection σ) (file : Path) (source suite : String) :
    SameSetting collection (collection.store file source suite) ∧
      (collection.store file source suite).scout = (collection.scout.look source file (some suite)).1 := by
  have parsed := Scouting.scout_parse collection.tracker source file suite
  unfold Collection.store
  split
  next tracker tests found =>
    rw [found] at parsed
    split
    · obtain ⟨kept, same⟩ := remove_setting { collection with tracker } file
      exact ⟨⟨kept.configuration, kept.matcher⟩, same.trans parsed⟩
    · obtain ⟨kept, same⟩ := seed_setting { collection with tracker }
      refine ⟨⟨kept.configuration, kept.matcher⟩, ?_⟩
      exact (congrArg Scouting.scout same).trans parsed

theorem look_setting (scout : Scout) (source : String) (file : Path) (suite : Option String) :
    (scout.look source file suite).1.reader = scout.reader ∧ (scout.look source file suite).1.root = scout.root := by
  unfold Scout.look
  split <;> exact ⟨rfl, rfl⟩

theorem Current.start (reader : Surface.Reader) (configuration : Configuration) {tracker : σ} (root : Path)
    (idle : Scouting.scout tracker = { reader, root }) :
    Current reader configuration [] (fun _ => False) (ofConfiguration configuration tracker) := by
  obtain ⟨ordered, empty⟩ := ofConfiguration_ordered configuration tracker
  obtain ⟨kept, same⟩ := seed_setting ({
    configuration, matcher := .ofConfiguration configuration
    tracker := Tracker.setRoot tracker configuration.root } : Collection σ)
  have scout : (ofConfiguration configuration tracker).scout = { reader, root := configuration.root } := by
    refine (congrArg Scouting.scout same).trans ?_
    rw [Scouting.scout_setRoot, idle]
  exact {
    configured := kept.configuration
    matcher := kept.matcher
    reader := by rw [scout]
    root := by rw [scout]
    ordered
    remembers := scout ▸ Scout.Remembers.nothing reader configuration.root
    tracked := by simp [empty]
    fresh := fun _ member => nomatch member }

/-- Taking a file in brings it up to date. All other files stay up to date that the new
sources mean nothing else for. -/
theorem Current.store (current : Current reader configuration latest stale collection) {file : Path} {source suite : String}
    {program : Code.Program} (read : reader source = some (.program program))
    (claimed : (SuiteMatcher.ofConfiguration configuration).suiteOf? file = some suite)
    (apart : (latest.put file source).Apart reader) {further : Path → Prop}
    (settled : ∀ entry ∈ latest, entry.1.same file = false → ¬further entry.1 →
      ¬stale entry.1 ∧ collection.scout.SameDefinitions (collection.store file source suite).scout entry) :
    Current reader configuration (latest.put file source) further (collection.store file source suite) := by
  obtain ⟨kept, scout⟩ := store_setting collection file source suite
  obtain ⟨ordered, entries⟩ := current.ordered.store file source suite
  obtain ⟨sameReader, sameRoot⟩ := look_setting collection.scout source file (some suite)
  have tests : (Tracker.parse collection.tracker source file suite).2 =
      Definition.forest ((collection.store file source suite).scout.definitions source file (some suite)) := by
    rw [Scouting.tests_parse, scout]
    exact congrArg Definition.forest (collection.scout.look_definitions source file (some suite))
  rw [tests] at entries
  refine {
    configured := kept.configuration.trans current.configured
    matcher := kept.matcher.trans current.matcher
    reader := by rw [scout, sameReader, current.reader]
    root := by rw [scout, sameRoot, current.root]
    ordered
    remembers := ?_
    tracked := ?_
    fresh := ?_ }
  · rw [scout]
    exact current.remembers.look (current.reader ▸ read) (current.reader ▸ apart) (some suite)
  · intro held member
    rcases (entries held).mp member with ⟨-, rfl⟩ | ⟨old, foreign⟩
    · exact ⟨(file, source), List.mem_append_right _ List.mem_cons_self, Path.same_refl _⟩
    · obtain ⟨entry, inside, same⟩ := current.tracked held old
      rw [Path.same_congr_left same] at foreign
      exact ⟨entry, Sources.mem_put.mpr (.inl ⟨inside, foreign⟩), same⟩
  -- The entries of other files are untouched and asked for as before; the file itself gets what its source asks for.
  · intro entry member healthy without
    have configured : (collection.store file source suite).configuration = configuration :=
      kept.configuration.trans current.configured
    rcases Sources.mem_put.mp member with ⟨inside, foreign⟩ | rfl
    · obtain ⟨fresh, same⟩ := settled entry inside foreign healthy
      rw [configured, ← due_congr configuration same, ← current.configured, ← current.fresh entry inside fresh without]
      refine exists_congr fun held => ?_
      rw [entries]
      constructor
      · rintro ⟨⟨-, rfl⟩ | ⟨old, -⟩, own, equal⟩
        · rw [Path.same_comm, foreign] at own
          cases own
        · exact ⟨old, own, equal⟩
      · rintro ⟨old, own, equal⟩
        exact ⟨.inr ⟨old, by rw [Path.same_congr_left own, foreign]⟩, own, equal⟩
    · simp only [configured, due, claimed, Option.bind_some]
      constructor
      · rintro ⟨held, listed, own, rfl⟩
        rcases (entries held).mp listed with ⟨some, rfl⟩ | ⟨-, foreign⟩
        · rw [if_neg (by simpa using some), Option.map_some]
        · rw [own] at foreign
          cases foreign
      · intro wanted
        split at wanted
        · cases wanted
        next some =>
          cases wanted
          exact ⟨_, (entries _).mpr (.inl ⟨by simpa using some, rfl⟩), Path.same_refl _, rfl⟩

/-- A file that is taken in again with the source that it has is up to date. -/
theorem Current.again (current : Current reader configuration latest stale collection) {file : Path} {source suite : String}
    (distinct : latest.Distinct) (apart : latest.Apart reader)
    (readable : ∀ entry ∈ latest, ∃ program, reader entry.2 = some (.program program)) (inside : (file, source) ∈ latest)
    (claimed : (SuiteMatcher.ofConfiguration configuration).suiteOf? file = some suite) {further : Path → Prop}
    (healthy : ∀ entry ∈ latest, entry.1.same file = false → ¬further entry.1 → ¬stale entry.1) :
    Current reader configuration latest further (collection.store file source suite) := by
  obtain ⟨program, read⟩ := readable _ inside
  have unchanged := distinct.mem_put_self inside
  have still := apart.put_self inside
  refine (current.store read claimed still fun entry member differs sound => ⟨healthy entry member differs sound, ?_⟩).congr
    unchanged
  obtain ⟨-, scout⟩ := store_setting collection file source suite
  obtain ⟨sameReader, sameRoot⟩ := look_setting collection.scout source file (some suite)
  have again := current.remembers.look (current.reader ▸ read) (current.reader ▸ still) (some suite)
  rw [scout]
  exact current.remembers.same (again.congr unchanged) sameReader sameRoot entry

omit [Scouting σ] in
/-- What holds of a collection apart from some files holds of it without exception once these
files have been taken in again, if it can be said of a file that has just been taken in. -/
theorem refresh_induction {motive : (Path → Prop) → Collection σ → Prop} {origin : Path}
    (claimed : ∀ entry ∈ latest, ((SuiteMatcher.ofConfiguration configuration).suiteOf? entry.1).isSome)
    (matcher : ∀ stale collection, motive stale collection → collection.matcher = .ofConfiguration configuration)
    (weaken : ∀ stale further collection, motive stale collection →
      (∀ entry ∈ latest, stale entry.1 → further entry.1) → motive further collection)
    (store : ∀ stale further collection, motive stale collection → ∀ entry ∈ latest, ∀ suite,
      (SuiteMatcher.ofConfiguration configuration).suiteOf? entry.1 = some suite →
      (∀ other ∈ latest, other.1.same entry.1 = false → ¬further other.1 → ¬stale other.1) →
        motive further (collection.store entry.1 entry.2 suite))
    {dependents : List (Path × String)} {seen : List Path}
    (known : ∀ entry ∈ dependents, entry ∈ latest ∧ entry.1.same origin = false)
    (start : motive (fun file => (∃ entry ∈ dependents, entry.1.same file = true) ∧ seen.any (·.same file) = false)
      collection) :
    motive (fun _ => False) (refresh origin dependents seen collection) := by
  induction dependents generalizing seen collection with
  | nil =>
    refine weaken _ _ _ start fun entry _ stale => ?_
    simp at stale
  | cons dependent rest ih =>
    obtain ⟨file, source⟩ := dependent
    obtain ⟨inside, foreign⟩ := known (file, source) List.mem_cons_self
    have later := fun entry member => known entry (List.mem_cons_of_mem _ member)
    unfold Collection.refresh
    -- A file counts as out of date until it has been seen, so one that was seen before is skipped rightly.
    by_cases before : seen.any (·.same file) = true
    · rw [if_pos (by simp [before])]
      refine ih later (weaken _ _ _ start fun entry _ ⟨⟨found, listed, same⟩, unseen⟩ => ⟨?_, unseen⟩)
      rcases List.mem_cons.mp listed with rfl | further
      · simp only [Path.same_congr_right same] at before
        rw [before] at unseen
        cases unseen
      · exact ⟨found, further, same⟩
    · rw [if_neg (by simp [before, foreign])]
      obtain ⟨suite, home⟩ := Option.isSome_iff_exists.mp (claimed _ inside)
      have suiteOf : collection.suiteOf? file = some suite := by rw [suiteOf?, matcher _ _ start, home]
      simp only [suiteOf]
      refine ih later (store _ _ _ start (file, source) inside suite home ?_)
      intro entry _ differs healthy ⟨⟨found, listed, same⟩, unseen⟩
      apply healthy
      constructor
      · rcases List.mem_cons.mp listed with rfl | further
        · rw [Path.same_symm same] at differs
          cases differs
        · exact ⟨found, further, same⟩
      · rw [List.any_cons, unseen, Path.same_comm, differs, Bool.or_false]

/-- Taking in the files that are out of date, each with its latest source, leaves none of them
out of date. -/
theorem Current.refresh {origin : Path} {dependents : List (Path × String)} {seen : List Path}
    (distinct : latest.Distinct) (apart : latest.Apart reader)
    (claimed : ∀ entry ∈ latest, ((SuiteMatcher.ofConfiguration configuration).suiteOf? entry.1).isSome)
    (readable : ∀ entry ∈ latest, ∃ program, reader entry.2 = some (.program program))
    (known : ∀ entry ∈ dependents, entry ∈ latest ∧ entry.1.same origin = false)
    (current : Current reader configuration latest
      (fun file => (∃ entry ∈ dependents, entry.1.same file = true) ∧ seen.any (·.same file) = false) collection) :
    Current reader configuration latest (fun _ => False) (refresh origin dependents seen collection) := by
  refine refresh_induction claimed ?_ ?_ ?_ known current
  · intro stale collection current
    exact current.matcher
  · intro stale further collection current wider
    exact current.weaken wider
  · intro stale further collection current entry inside suite home healthy
    exact current.again distinct apart readable inside home healthy

/-- The files that depend on a file that is taken in, before it is or after it, are other files
that are there. -/
theorem Current.known_dependents (current : Current reader configuration latest stale collection) {file : Path}
    {source : String} (suite : String) {program : Code.Program} (read : reader source = some (.program program))
    (after : (latest.put file source).Apart reader) :
    ∀ entry ∈ collection.scout.dependents file ++ (collection.store file source suite).scout.dependents file,
      entry ∈ latest.put file source ∧ entry.1.same file = false := by
  obtain ⟨-, scout⟩ := store_setting collection file source suite
  have remembers := current.remembers.look (current.reader ▸ read) (current.reader ▸ after) (some suite)
  rw [← scout] at remembers
  intro entry member
  rcases List.mem_append.mp member with first | second
  · obtain ⟨inside, foreign⟩ := current.remembers.of_mem_dependents first
    exact ⟨Sources.mem_put.mpr (.inl ⟨inside, foreign⟩), foreign⟩
  · exact remembers.of_mem_dependents second

theorem update_eq (collection : Collection σ) {file : Path} {source suite : String}
    (suiteOf : collection.suiteOf? file = some suite) :
    (collection.update file source).1 =
      refresh file (collection.scout.dependents file ++ (collection.store file source suite).scout.dependents file) []
        (collection.store file source suite) := by
  have early : Tracker.dependents collection.tracker file = collection.scout.dependents file :=
    Scouting.dependents_eq _ _
  have late : Tracker.dependents (collection.store file source suite).tracker file =
      (collection.store file source suite).scout.dependents file := Scouting.dependents_eq _ _
  simp only [Collection.update, suiteOf, early, late]

/-- Once the source of a file is in, only the files that depend on it can be out of date. -/
theorem Current.stored (current : Current reader configuration latest (fun _ => False) collection) {file : Path}
    {source suite : String} {program : Code.Program} (read : reader source = some (.program program))
    (home : (SuiteMatcher.ofConfiguration configuration).suiteOf? file = some suite)
    (before : latest.Apart reader) (after : (latest.put file source).Apart reader) :
    Current reader configuration (latest.put file source)
      (fun other => ∃ entry ∈ collection.scout.dependents file ++ (collection.store file source suite).scout.dependents file,
        entry.1.same other = true) (collection.store file source suite) := by
  obtain ⟨-, scout⟩ := store_setting collection file source suite
  obtain ⟨sameReader, sameRoot⟩ := look_setting collection.scout source file (some suite)
  have remembers := current.remembers.look (current.reader ▸ read) (current.reader ▸ after) (some suite)
  rw [← scout] at remembers sameReader sameRoot
  refine current.store read home after fun entry inside foreign healthy => ⟨id, ?_⟩
  refine current.remembers.unaffected remembers sameReader sameRoot (current.reader ▸ before)
    (current.reader ▸ after) (fun _ => latest.mem_put_elsewhere) inside foreign ?_ ?_
  · apply current.remembers.independent
    intro ⟨dependent, listed, same⟩
    exact healthy ⟨dependent, List.mem_append_left _ listed, same⟩
  · apply remembers.independent
    intro ⟨dependent, listed, same⟩
    exact healthy ⟨dependent, List.mem_append_right _ listed, same⟩

theorem Current.update (current : Current reader configuration latest (fun _ => False) collection) {file : Path}
    {source : String} (distinct : latest.Distinct) (before : latest.Apart reader) (after : (latest.put file source).Apart reader)
    (claimed : ∀ entry ∈ latest.put file source,
      ((SuiteMatcher.ofConfiguration configuration).suiteOf? entry.1).isSome)
    (readable : ∀ entry ∈ latest.put file source, ∃ program, reader entry.2 = some (.program program)) :
    Current reader configuration (latest.put file source) (fun _ => False) (collection.update file source).1 := by
  have last : (file, source) ∈ latest.put file source := List.mem_append_right _ List.mem_cons_self
  obtain ⟨suite, home⟩ := Option.isSome_iff_exists.mp (claimed _ last)
  obtain ⟨program, read⟩ := readable _ last
  have suiteOf : collection.suiteOf? file = some suite := by rw [suiteOf?, current.matcher, home]
  rw [update_eq collection suiteOf]
  -- The dependents before the update are needed as well: they may refer to classes that are gone by now.
  refine Current.refresh (distinct.put file source) after claimed readable (current.known_dependents suite read after) ?_
  exact (current.stored read home before after).weaken fun _ _ stale => ⟨stale, rfl⟩

/-- A collection that has forgotten a file, before other files are taken in again. -/
def released (collection : Collection σ) (file : Path) : Collection σ :=
  { (collection.remove file).1 with tracker := Tracker.forgetFile (collection.remove file).1.tracker file }

theorem scout_released (collection : Collection σ) (file : Path) :
    (collection.released file).scout = collection.scout.forgetFile file :=
  (Scouting.scout_forgetFile _ file).trans (congrArg (Scout.forgetFile · file) (remove_setting collection file).2)

theorem Current.released (current : Current reader configuration latest (fun _ => False) collection) (file : Path)
    (apart : latest.Apart reader) :
    Current reader configuration (latest.without file)
      (fun other => ∃ entry ∈ collection.scout.dependents file, entry.1.same other = true)
      (collection.released file) := by
  obtain ⟨kept, -⟩ := remove_setting collection file
  obtain ⟨ordered, entries⟩ := current.ordered.remove file
  have left : ∀ held, held ∈ (collection.released file).entries ↔
      held ∈ collection.entries ∧ held.file.same file = false := entries
  have remembers := current.remembers.forgetFile file
  have still : (latest.without file).Apart reader := apart.sublist List.filter_sublist
  have configured : (collection.released file).configuration = configuration :=
    kept.configuration.trans current.configured
  refine {
    configured
    matcher := kept.matcher.trans current.matcher
    reader := by rw [scout_released]; exact current.reader
    root := by rw [scout_released]; exact current.root
    ordered := ordered.withTracker _
    remembers := scout_released collection file ▸ remembers
    tracked := ?_
    fresh := ?_ }
  · intro held member
    obtain ⟨old, foreign⟩ := (left held).mp member
    obtain ⟨entry, inside, same⟩ := current.tracked held old
    rw [Path.same_congr_left same] at foreign
    exact ⟨entry, Sources.mem_without.mpr ⟨inside, foreign⟩, same⟩
  · intro entry member healthy without
    obtain ⟨inside, foreign⟩ := Sources.mem_without.mp member
    have same : collection.scout.SameDefinitions (collection.scout.forgetFile file) entry := by
      refine current.remembers.unaffected remembers rfl rfl (current.reader ▸ apart) (current.reader ▸ still)
        (fun entry foreign => by rw [Sources.mem_without]; exact (and_iff_left foreign).symm) inside foreign ?_ ?_
      · exact current.remembers.independent healthy
      · -- Nothing depends on a file that no entry comes from.
        intro dependent listed
        rw [Registry.dependentFiles_eq_nil] at listed
        · cases listed
        · intro info found
          simpa using (List.mem_filter.mp found).2
    rw [scout_released, configured, ← due_congr _ same, ← current.configured, ← current.fresh entry inside id without]
    refine exists_congr fun held => ?_
    rw [left]
    constructor
    · rintro ⟨⟨old, -⟩, own, equal⟩
      exact ⟨old, own, equal⟩
    · rintro ⟨old, own, equal⟩
      exact ⟨⟨old, by rw [Path.same_congr_left own, foreign]⟩, own, equal⟩

theorem Current.delete (current : Current reader configuration latest (fun _ => False) collection) (file : Path)
    (distinct : latest.Distinct) (apart : latest.Apart reader)
    (claimed : ∀ entry ∈ latest, ((SuiteMatcher.ofConfiguration configuration).suiteOf? entry.1).isSome)
    (readable : ∀ entry ∈ latest, ∃ program, reader entry.2 = some (.program program)) :
    Current reader configuration (latest.without file) (fun _ => False) (collection.delete file).1 := by
  have fewer : ∀ entry ∈ latest.without file, entry ∈ latest := fun entry member => (Sources.mem_without.mp member).1
  have known : ∀ entry ∈ collection.scout.dependents file,
      entry ∈ latest.without file ∧ entry.1.same file = false := by
    intro entry member
    obtain ⟨inside, foreign⟩ := current.remembers.of_mem_dependents member
    exact ⟨Sources.mem_without.mpr ⟨inside, foreign⟩, foreign⟩
  have early : Tracker.dependents collection.tracker file = collection.scout.dependents file :=
    Scouting.dependents_eq _ _
  unfold Collection.delete
  rw [early]
  refine Current.refresh (distinct.without file) (apart.sublist List.filter_sublist)
    (fun entry member => claimed entry (fewer entry member))
    (fun entry member => readable entry (fewer entry member)) known ?_
  exact (current.released file apart).weaken fun _ _ stale => ⟨stale, rfl⟩

/-! ## Runs -/

/-- The changes of a history can all be taken in: their files belong to suites, their sources
are programs, and at no time do two files declare a class or a trait of one name. -/
structure Orderly (reader : Surface.Reader) (configuration : Configuration) (changes : List Change) : Prop where
  claimed : ∀ file source, .update file source ∈ changes →
    ((SuiteMatcher.ofConfiguration configuration).suiteOf? file).isSome
  readable : ∀ file source, .update file source ∈ changes → ∃ program, reader source = some (.program program)
  apart : ∀ earlier, earlier <+: changes → (TestScout.latest earlier).Apart reader

theorem mem_latest {changes : List Change} {entry : Path × String} (member : entry ∈ TestScout.latest changes) :
    .update entry.1 entry.2 ∈ changes := by
  suffices ∀ sources : Sources, entry ∈ changes.foldl Change.record sources →
      entry ∈ sources ∨ .update entry.1 entry.2 ∈ changes from (this [] member).resolve_left List.not_mem_nil
  clear member
  induction changes with
  | nil => exact fun _ member => .inl member
  | cons change rest ih =>
    intro sources member
    rcases ih _ member with before | later
    · cases change with
      | update file source =>
        rcases Sources.mem_put.mp before with ⟨old, -⟩ | rfl
        · exact .inl old
        · exact .inr List.mem_cons_self
      | delete file => exact .inl (Sources.mem_without.mp before).1
    · exact .inr (List.mem_cons_of_mem _ later)

theorem Orderly.before {changes : List Change} {change : Change}
    (orderly : Orderly reader configuration (changes ++ [change])) : Orderly reader configuration changes where
  claimed file source member := orderly.claimed file source (List.mem_append_left _ member)
  readable file source member := orderly.readable file source (List.mem_append_left _ member)
  apart earlier first := orderly.apart earlier (first.trans (List.prefix_append _ _))

/-- However a collection has got where it is, it tracks what the latest sources ask for. -/
theorem Orderly.current {changes : List Change} (orderly : Orderly reader configuration changes)
    (start : Current reader configuration [] (fun _ => False) collection) :
    Current reader configuration (TestScout.latest changes) (fun _ => False) (collection.run changes) := by
  induction changes using List.reverseRecOn with
  | nil => exact start
  | append_singleton changes change ih =>
    have sofar := ih orderly.before
    have distinct := latest_distinct changes
    have apart := orderly.before.apart changes List.prefix_rfl
    have after := orderly.apart _ List.prefix_rfl
    have claimed : ∀ entry ∈ TestScout.latest (changes ++ [change]),
        ((SuiteMatcher.ofConfiguration configuration).suiteOf? entry.1).isSome :=
      fun entry member => orderly.claimed _ _ (mem_latest member)
    have readable : ∀ entry ∈ TestScout.latest (changes ++ [change]),
        ∃ program, reader entry.2 = some (.program program) :=
      fun entry member => orderly.readable _ _ (mem_latest member)
    have step : collection.run (changes ++ [change]) = (collection.run changes).apply change := List.foldl_concat ..
    rw [latest_append] at after claimed readable ⊢
    rw [step]
    cases change with
    | update file source => exact sofar.update distinct apart after claimed readable
    | delete file =>
      exact sofar.delete file distinct apart (fun entry member => orderly.before.claimed _ _ (mem_latest member))
        fun entry member => orderly.before.readable _ _ (mem_latest member)

/-! ## Entries -/

private theorem Current.sorted (current : Current reader configuration latest stale collection) :
    (collection.entries.map FileEntry.withoutKeys).Pairwise SuiteFiles.Before :=
  List.pairwise_map.mpr current.ordered.suites.entries

private theorem Current.listed {other : Collection σ}
    (current : Current reader configuration latest (fun _ => False) collection)
    (again : Current reader configuration latest (fun _ => False) other) {without : FileEntry}
    (member : without ∈ collection.entries.map FileEntry.withoutKeys) :
    without ∈ other.entries.map FileEntry.withoutKeys := by
  obtain ⟨held, inside, same⟩ := List.mem_map.mp member
  obtain ⟨entry, known, own⟩ := current.tracked held inside
  have asked := (current.fresh entry known id without).mp ⟨held, inside, own, same⟩
  have definitions := current.remembers.same again.remembers (again.reader.trans current.reader.symm)
    (again.root.trans current.root.symm) entry
  rw [current.configured, due_congr configuration definitions, ← again.configured] at asked
  obtain ⟨found, listed, -, equal⟩ := (again.fresh entry known id without).mpr asked
  exact equal ▸ List.mem_map_of_mem listed

theorem Current.entries_eq {other : Collection σ} (current : Current reader configuration latest (fun _ => False) collection)
    (again : Current reader configuration latest (fun _ => False) other) :
    collection.entries.map FileEntry.withoutKeys = other.entries.map FileEntry.withoutKeys :=
  current.sorted.eq_of_mem_iff again.sorted fun _ => ⟨current.listed again, again.listed current⟩

def arrivals (sources : Sources) : List Change := sources.map fun (file, source) => .update file source

theorem latest_arrivals {sources : Sources} (distinct : sources.Distinct) : TestScout.latest (arrivals sources) = sources := by
  induction sources using List.reverseRecOn with
  | nil => rfl
  | append_singleton sources entry ih =>
    obtain ⟨before, -, apart⟩ := List.pairwise_append.mp distinct
    rw [arrivals, List.map_append, List.map_singleton, latest_append]
    refine (congrArg (Change.record · _) (ih before)).trans ?_
    exact Sources.put_new entry.2 fun other member => apart other member entry List.mem_cons_self

/-- Files whose classes and traits go by different names can come in in any order. -/
theorem orderly_arrivals {order : Sources} (distinct : order.Distinct)
    (claimed : ∀ entry ∈ order, ((SuiteMatcher.ofConfiguration configuration).suiteOf? entry.1).isSome)
    (readable : ∀ entry ∈ order, ∃ program, reader entry.2 = some (.program program)) (apart : order.Apart reader) :
    Orderly reader configuration (arrivals order) := by
  have listed : ∀ file source, .update file source ∈ arrivals order → (file, source) ∈ order := by
    intro file source member
    obtain ⟨entry, inside, same⟩ := List.mem_map.mp member
    cases same
    exact inside
  constructor
  · intro file source member
    exact claimed (file, source) (listed file source member)
  · intro file source member
    exact readable (file, source) (listed file source member)
  · intro earlier first
    have part : earlier = arrivals (order.take earlier.length) := by
      rw [arrivals, List.map_take]
      exact List.prefix_iff_eq_take.mp first
    rw [part, latest_arrivals (distinct.sublist (List.take_sublist _ _))]
    exact apart.sublist (List.take_sublist _ _)

/-- Files that are left after an orderly history can be brought in again in any order. -/
theorem Orderly.again {changes : List Change} (orderly : Orderly reader configuration changes) {order : Sources}
    (anyOrder : order.Perm (TestScout.latest changes)) : Orderly reader configuration (arrivals order) := by
  have known : ∀ entry ∈ order, .update entry.1 entry.2 ∈ changes :=
    fun entry member => mem_latest (anyOrder.mem_iff.mp member)
  apply orderly_arrivals ((latest_distinct changes).perm anyOrder.symm)
  · exact fun entry member => orderly.claimed _ _ (known entry member)
  · exact fun entry member => orderly.readable _ _ (known entry member)
  · exact (orderly.apart changes List.prefix_rfl).perm anyOrder.symm

private theorem entries_history {tracker : σ} {root : Path} (idle : Scouting.scout tracker = { reader, root })
    {changes : List Change} (orderly : Orderly reader configuration changes) {order : Sources}
    (anyOrder : order.Perm (TestScout.latest changes)) :
    ((ofConfiguration configuration tracker).run changes).entries.map FileEntry.withoutKeys =
      ((ofConfiguration configuration tracker).run (arrivals order)).entries.map FileEntry.withoutKeys := by
  have start := Current.start reader configuration root idle
  have again := (orderly.again anyOrder).current start
  rw [latest_arrivals ((latest_distinct changes).perm anyOrder.symm)] at again
  exact (orderly.current start).entries_eq (again.congr fun _ => anyOrder.mem_iff)

/-- After any orderly history the same entries are tracked, but for the keys of data sets, as
when the latest sources of the files that are left come in once, in any order. That holds for
a collection that only looks at files and for the one of an editor. -/
theorem entries_independent_of_history (reader : Surface.Reader) (configuration : Configuration) (changes : List Change)
    (orderly : Orderly reader configuration changes) (order : Sources)
    (anyOrder : order.Perm (TestScout.latest changes)) :
    (let fresh : Collection Scout := ofConfiguration configuration { reader, root := configuration.root }
     (fresh.run changes).entries.map FileEntry.withoutKeys =
        (fresh.run (arrivals order)).entries.map FileEntry.withoutKeys) ∧
      (let fresh : Collection Editor := ofConfiguration configuration { scout := { reader, root := configuration.root } }
       (fresh.run changes).entries.map FileEntry.withoutKeys =
        (fresh.run (arrivals order)).entries.map FileEntry.withoutKeys) :=
  ⟨entries_history rfl orderly anyOrder, entries_history rfl orderly anyOrder⟩

/-- A reader of three sources: a base class with one test or with two, and a class that extends it. -/
private def familyReader : Surface.Reader := fun source =>
  let base := fun (tests : List String) => Code.Node.classDecl {
    name := "Base", isAbstract := true, body := tests.map fun name => .method { name, body := some {} } }
  match source with
  | "base" => some (.program { children := [base ["testFirst"]] })
  | "more" => some (.program { children := [base ["testFirst", "testSecond"]] })
  | "child" => some (.program { children := [.classDecl { name := "Child", parent := some "Base" }] })
  | _ => none

private def familyConfiguration : Configuration where
  root := ⟨"/p"⟩
  rules := [{ suite := "unit", tag := .file, value := "B.php" }, { suite := "late", tag := .file, value := "C.php" }]

/-- The class comes before the class that it extends, which then changes, goes away and comes back. -/
private def familyHistory : List Change :=
  [.update ⟨"/p/C.php"⟩ "child", .update ⟨"/p/B.php"⟩ "base", .update ⟨"/p/B.php"⟩ "more", .delete ⟨"/p/B.php"⟩,
    .update ⟨"/p/B.php"⟩ "more"]

private theorem family_orderly : Orderly familyReader familyConfiguration familyHistory := by
  refine ⟨?_, ?_, ?_⟩
  · intro file source member
    simp only [familyHistory, List.mem_cons, Change.update.injEq, reduceCtorEq, List.not_mem_nil, or_false, false_or] at member
    rcases member with ⟨rfl, rfl⟩ | ⟨rfl, rfl⟩ | ⟨rfl, rfl⟩ | ⟨rfl, rfl⟩
    all_goals decide +kernel
  · intro file source member
    simp only [familyHistory, List.mem_cons, Change.update.injEq, reduceCtorEq, List.not_mem_nil, or_false, false_or] at member
    rcases member with ⟨rfl, rfl⟩ | ⟨rfl, rfl⟩ | ⟨rfl, rfl⟩ | ⟨rfl, rfl⟩
    all_goals exact ⟨_, rfl⟩
  · intro earlier first
    have listed := (List.mem_inits _ _).mpr first
    have checked : ∀ earlier ∈ familyHistory.inits, (TestScout.latest earlier).Apart familyReader := by
      unfold Sources.Apart
      decide +kernel
    exact checked earlier listed

theorem family_entries_independent :
    Orderly familyReader familyConfiguration familyHistory ∧
      List.Perm [(⟨"/p/B.php"⟩, "more"), (⟨"/p/C.php"⟩, "child")] (TestScout.latest familyHistory) ∧
      let fresh : Collection Editor :=
        ofConfiguration familyConfiguration { scout := { reader := familyReader, root := ⟨"/p"⟩ } }
      (fresh.run familyHistory).entries.map FileEntry.withoutKeys =
          (fresh.run [.update ⟨"/p/B.php"⟩ "more", .update ⟨"/p/C.php"⟩ "child"]).entries.map FileEntry.withoutKeys ∧
        (fresh.run familyHistory).entries.map (fun entry => (Definition.flattenAll entry.tests).map (·.id)) =
          [["Child", "Child::testFirst", "Child::testSecond"]] := by
  have anyOrder : List.Perm [(⟨"/p/B.php"⟩, "more"), (⟨"/p/C.php"⟩, "child")] (TestScout.latest familyHistory) := by
    have same : TestScout.latest familyHistory = [(⟨"/p/C.php"⟩, "child"), (⟨"/p/B.php"⟩, "more")] := by decide +kernel
    rw [same]
    exact List.Perm.swap ..
  exact ⟨family_orderly, anyOrder,
    (entries_independent_of_history familyReader familyConfiguration familyHistory family_orderly _ anyOrder).2,
    by decide +kernel⟩

end Collection

end TestScout
