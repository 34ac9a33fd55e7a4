import TestScout.Proofs.CollectionHistory
import TestScout.Proofs.DataSetKeys
import TestScout.Proofs.DefinitionGrove

/-! Files that come in one after the other. Whatever the order, a test ends up with the keys
that its providers give when all files are there, if its providers can be followed. A test
whose provider belongs to a class that no reference leads to has these keys only when that
class has come in earlier. -/

namespace TestScout
open Test Discovery

namespace Collection

variable {σ : Type} [Tracker σ]

def tests (collection : Collection σ) : List Definition :=
  collection.entries.flatMap fun entry => Definition.flattenAll entry.tests

variable [Scouting σ] {reader : Surface.Reader} {configuration : Configuration} {sources latest : Sources}
  {stale : Path → Prop} {collection : Collection σ}

/-- The definitions of a file as a scout finds them, without namespaces. -/
def items (scout : Scout) (entry : Path × String) (suite : String) : List Definition :=
  (scout.definitions entry.2 entry.1 (some suite)).filter (·.kind != .space)

/-- The entries of files that are not out of date have the keys that the scout finds now. -/
def Keyed (reader : Surface.Reader) (sources latest : Sources) (stale : Path → Prop) (collection : Collection σ) : Prop :=
  ∀ entry ∈ latest, ¬stale entry.1 → ∀ held ∈ collection.entries, held.file.same entry.1 = true →
    (Definition.flattenAll held.tests).map (settled reader sources) =
      (items collection.scout entry held.suite).map (settled reader sources)

theorem items_congr {first second : Scout} {entry : Path × String} (suite : String)
    (same : (first.definitions entry.2 entry.1 (some suite)).map (settled reader sources) =
      (second.definitions entry.2 entry.1 (some suite)).map (settled reader sources)) :
    (items first entry suite).map (settled reader sources) = (items second entry suite).map (settled reader sources) := by
  have filtered (definitions : List Definition) :
      (definitions.filter (·.kind != .space)).map (settled reader sources) =
        (definitions.map (settled reader sources)).filter (·.kind != .space) := by
    rw [List.filter_map]
    rfl
  rw [items, items, filtered, filtered, same]

theorem flattenAll_parsed (tracker : σ) (source : String) (file : Path) (suite : String) :
    (Definition.flattenAll (Tracker.parse tracker source file suite).2).map Definition.bare =
      items ((Scouting.scout tracker).look source file (some suite)).1 (file, source) suite := by
  rw [Scouting.tests_parse, Definition.forest]
  rw [Definition.flattenAll_nest (Scout.look_flat _ source file (some suite)), Scout.look_definitions]
  rfl

theorem file_of_mem_items {scout : Scout} {entry : Path × String} {suite : String} {test : Definition}
    (member : test ∈ items scout entry suite) : test.file = entry.1 := by
  have found := (List.mem_filter.mp member).1
  unfold Scout.definitions at found
  split at found
  · cases found
  · obtain ⟨definition, -, rfl⟩ := List.mem_map.mp found
    rfl

/-! ## Steps -/

theorem Keyed.weaken (keyed : Keyed reader sources latest stale collection) {further : Path → Prop}
    (wider : ∀ entry ∈ latest, stale entry.1 → further entry.1) : Keyed reader sources latest further collection := by
  intro entry member healthy
  exact keyed entry member fun old => healthy (wider entry member old)

/-- Entries keep the keys of the tests that can be followed still when there are more sources. -/
theorem Keyed.grow (keyed : Keyed reader latest latest stale collection) {further : Path → Prop}
    (wider : ∀ entry ∈ latest, stale entry.1 → further entry.1)
    (before : ∀ entry ∈ latest, ¬further entry.1 → ∀ test : Definition, test.file = entry.1 →
      Followed reader sources test → Followed reader latest test) : Keyed reader sources latest further collection := by
  intro entry member healthy held listed own
  have early := keyed entry member (fun old => healthy (wider entry member old)) held listed own
  have again (tests : List Definition) (home : ∀ test ∈ tests, test.file = entry.1) :
      (tests.map (settled reader latest)).map (settled reader sources) = tests.map (settled reader sources) := by
    rw [List.map_map]
    apply List.map_congr_left
    intro test inside
    exact settled_settled (before entry member healthy test (home test inside))
  have found : ∀ test ∈ items collection.scout entry held.suite, test.file = entry.1 := fun _ => file_of_mem_items
  have tracked : ∀ test ∈ Definition.flattenAll held.tests, test.file = entry.1 := by
    intro test inside
    have mapped := List.mem_map_of_mem (f := settled reader latest) inside
    rw [early] at mapped
    obtain ⟨other, known, same⟩ := List.mem_map.mp mapped
    have home : (settled reader latest other).file = (settled reader latest test).file := congrArg Definition.file same
    exact home.symm.trans (found other known)
  -- Tests are settled early on both sides, which makes no difference, and between that the keys are those found.
  rw [← again _ tracked, early, again _ found]

/-- A file that is taken in has the keys that the scout finds. Other files keep theirs as long
as the scout finds nothing else for them. -/
theorem Keyed.store (keyed : Keyed reader sources latest stale collection) (ordered : collection.Ordered) {file : Path}
    {source suite : String} {further : Path → Prop}
    (kept : ∀ entry ∈ latest, entry.1.same file = false → ¬further entry.1 → ¬stale entry.1 ∧ ∀ name,
      (items collection.scout entry name).map (settled reader sources) =
        (items (collection.store file source suite).scout entry name).map (settled reader sources)) :
    Keyed reader sources (latest.put file source) further (collection.store file source suite) := by
  obtain ⟨-, entries⟩ := ordered.store file source suite
  intro entry member healthy held listed own
  rcases (entries held).mp listed with ⟨-, rfl⟩ | ⟨old, foreign⟩
  · rcases Sources.mem_put.mp member with ⟨-, foreign⟩ | rfl
    · rw [Path.same_comm, foreign] at own
      cases own
    · obtain ⟨-, scout⟩ := store_setting collection file source suite
      have keys := congrArg (List.map (settled reader sources)) (flattenAll_parsed collection.tracker source file suite)
      rw [List.map_map] at keys
      rw [scout]
      exact keys
  · rcases Sources.mem_put.mp member with ⟨inside, differs⟩ | rfl
    · obtain ⟨fresh, same⟩ := kept entry inside differs healthy
      exact (keyed entry inside fresh held old own).trans (same held.suite)
    · rw [own] at foreign
      cases foreign

/-- Files that are taken in again with the sources that they have leave the keys as they are. -/
theorem Keyed.again (keyed : Keyed reader sources latest stale collection)
    (current : Current reader configuration latest stale collection)
    (distinct : latest.Distinct) (apart : latest.Apart reader)
    (readable : ∀ entry ∈ latest, ∃ program, reader entry.2 = some (.program program)) {file : Path} {source suite : String}
    (inside : (file, source) ∈ latest)
    (home : (SuiteMatcher.ofConfiguration configuration).suiteOf? file = some suite) {further : Path → Prop}
    (healthy : ∀ entry ∈ latest, entry.1.same file = false → ¬further entry.1 → ¬stale entry.1) :
    Keyed reader sources latest further (collection.store file source suite) := by
  have after := current.again distinct apart readable inside home healthy
  have kept : Keyed reader sources (latest.put file source) further (collection.store file source suite) := by
    apply keyed.store current.ordered
    intro entry member differs sound
    refine ⟨healthy entry member differs sound, fun name => ?_⟩
    have same := current.remembers.definitions_eq after.remembers (after.reader.trans current.reader.symm)
      (after.root.trans current.root.symm) entry (some name)
    rw [items, items, same]
  intro entry member
  exact kept entry ((distinct.mem_put_self inside entry).mpr member)

theorem Keyed.refresh {origin : Path} {dependents : List (Path × String)} (distinct : latest.Distinct)
    (apart : latest.Apart reader)
    (claimed : ∀ entry ∈ latest, ((SuiteMatcher.ofConfiguration configuration).suiteOf? entry.1).isSome)
    (readable : ∀ entry ∈ latest, ∃ program, reader entry.2 = some (.program program))
    (known : ∀ entry ∈ dependents, entry ∈ latest ∧ entry.1.same origin = false)
    (current : Current reader configuration latest (fun file => ∃ entry ∈ dependents, entry.1.same file = true) collection)
    (keyed : Keyed reader sources latest (fun file => ∃ entry ∈ dependents, entry.1.same file = true) collection) :
    Keyed reader sources latest (fun _ => False) (refresh origin dependents [] collection) := by
  let refreshed := Collection.refresh origin dependents [] collection
  suffices both : Current reader configuration latest (fun _ => False) refreshed ∧
      Keyed reader sources latest (fun _ => False) refreshed from both.2
  apply refresh_induction (motive := fun stale collection => Current reader configuration latest stale collection ∧
    Keyed reader sources latest stale collection) claimed _ _ _ known
  · exact ⟨current.weaken fun _ _ old => ⟨old, rfl⟩, keyed.weaken fun _ _ old => ⟨old, rfl⟩⟩
  · intro stale collection both
    exact both.1.matcher
  · intro stale further collection both wider
    exact ⟨both.1.weaken wider, both.2.weaken wider⟩
  · intro stale further collection both entry inside suite home healthy
    exact ⟨both.1.again distinct apart readable inside home healthy,
      both.2.again both.1 distinct apart readable inside home healthy⟩

/-- When a new file comes in, all tests that can be followed have the keys that the scout finds. -/
theorem Keyed.arrive (keyed : Keyed reader latest latest (fun _ => False) collection)
    (current : Current reader configuration latest (fun _ => False) collection) {file : Path} {source : String}
    (new : ∀ entry ∈ latest, entry.1.same file = false) (distinct : latest.Distinct) (before : latest.Apart reader)
    (after : (latest.put file source).Apart reader)
    (claimed : ∀ entry ∈ latest.put file source,
      ((SuiteMatcher.ofConfiguration configuration).suiteOf? entry.1).isSome)
    (readable : ∀ entry ∈ latest.put file source, ∃ program, reader entry.2 = some (.program program)) :
    Keyed reader (latest.put file source) (latest.put file source) (fun _ => False) (collection.update file source).1 := by
  have last : (file, source) ∈ latest.put file source := List.mem_append_right _ List.mem_cons_self
  obtain ⟨suite, home⟩ := Option.isSome_iff_exists.mp (claimed _ last)
  obtain ⟨program, read⟩ := readable _ last
  have suiteOf : collection.suiteOf? file = some suite := by rw [suiteOf?, current.matcher, home]
  have stored := current.stored read home before after
  have known := current.known_dependents suite read after
  rw [update_eq collection suiteOf]
  generalize refreshed : collection.scout.dependents file ++ (collection.store file source suite).scout.dependents file =
    dependents at stored known ⊢
  let stale := fun other : Path => ∃ entry ∈ dependents, entry.1.same other = true
  obtain rfl := current.reader
  have more : ∀ entry ∈ latest, entry ∈ latest.put file source :=
    fun entry member => Sources.mem_put.mpr (.inl ⟨member, new entry member⟩)
  have unreached : ∀ entry ∈ latest, ¬stale entry.1 → ∀ name ∈ declaredNames collection.scout.reader entry.2,
      Registry.plainName name ∉ collection.scout.registry.reached file ∧
        Registry.plainName name ∉ (collection.store file source suite).scout.registry.reached file := by
    intro entry inside healthy
    refine current.remembers.not_reached stored.remembers stored.reader before after (fun _ => latest.mem_put_elsewhere)
      inside (new entry inside) ?_ ?_
    · apply current.remembers.independent
      rintro ⟨dependent, listed, same⟩
      exact healthy ⟨dependent, refreshed ▸ List.mem_append_left _ listed, same⟩
    · apply stored.remembers.independent
      rintro ⟨dependent, listed, same⟩
      exact healthy ⟨dependent, refreshed ▸ List.mem_append_right _ listed, same⟩
  -- First the new source counts, then it is taken in, and then the files that depend on it are taken in again.
  have grown : Keyed collection.scout.reader (latest.put file source) latest stale collection := by
    refine keyed.grow (fun _ _ old => old.elim) fun entry inside healthy test home => ?_
    refine current.remembers.followed_before stored.remembers stored.reader (fun _ => latest.mem_put_elsewhere) more
      (unreached entry inside healthy) ?_ home
    exact fun other member same => distinct.eq_of_same member inside same
  have keys : Keyed collection.scout.reader (latest.put file source) (latest.put file source) stale
      (collection.store file source suite) := by
    refine grown.store current.ordered fun entry inside differs healthy => ⟨healthy, fun name => items_congr name ?_⟩
    exact current.remembers.settled_definitions stored.remembers stored.reader (fun _ => latest.mem_put_elsewhere) more
      (unreached entry inside healthy) (stored.root.trans current.root.symm) inside (some name)
  exact Keyed.refresh (distinct.put file source) after claimed readable known stored keys

/-- After new files have come in one by one, every test that can be followed has the keys that the scout finds. -/
theorem keyed_arrivals (start : Current reader configuration [] (fun _ => False) collection) {order : Sources}
    (distinct : order.Distinct)
    (claimed : ∀ entry ∈ order, ((SuiteMatcher.ofConfiguration configuration).suiteOf? entry.1).isSome)
    (readable : ∀ entry ∈ order, ∃ program, reader entry.2 = some (.program program)) (apart : order.Apart reader) :
    Keyed reader order order (fun _ => False) (collection.run (arrivals order)) := by
  induction order using List.reverseRecOn with
  | nil => exact fun _ member => nomatch member
  | append_singleton order entry ih =>
    obtain ⟨before, -, differs⟩ := List.pairwise_append.mp distinct
    have new : ∀ other ∈ order, other.1.same entry.1 = false :=
      fun other member => differs other member entry List.mem_cons_self
    have earlier : ∀ other ∈ order, other ∈ order ++ [entry] := fun other => List.mem_append_left _
    have still : Sources.Apart reader order := apart.sublist (List.sublist_append_left _ _)
    have orderly := orderly_arrivals before (fun other member => claimed other (earlier other member))
      (fun other member => readable other (earlier other member)) still
    have current := orderly.current start
    rw [latest_arrivals before] at current
    have sofar := ih before (fun other member => claimed other (earlier other member))
      (fun other member => readable other (earlier other member)) still
    have split : collection.run (arrivals (order ++ [entry])) =
        ((collection.run (arrivals order)).update entry.1 entry.2).1 := by
      rw [arrivals, List.map_append]
      exact List.foldl_concat ..
    have put : order ++ [entry] = Sources.put order entry.1 entry.2 := (Sources.put_new entry.2 new).symm
    rw [split]
    rw [put] at apart claimed readable ⊢
    exact sofar.arrive current new before still apart claimed readable

/-! ## All files -/

/-- Two collections that have come by the same sources track the same tests, and of those that
can be followed with the same keys: those of their providers, as they are known when all sources are. -/
structure SameKeys (reader : Surface.Reader) (sources : Sources) (first second : Collection σ) : Prop where
  tests : List.Forall₂ (fun test other => test.bare.withoutKeys = other.bare.withoutKeys ∧
    (Followed reader sources test → test.dataSets = other.dataSets)) first.tests second.tests
  registered : ∀ info, info ∈ first.scout.registry.classes ↔ Declares reader sources info
  keys : ∀ test ∈ first.tests, test.kind = .method → test.annotations.dataProvider ≠ [] → Followed reader sources test →
    ∃ entry ∈ sources, entry.1.same test.file = true ∧ ∃ program, reader entry.2 = some (.program program) ∧
      ∃ scope ∈ Scope.ofProgram program, ∃ node ∈ scope.classes,
        test.qualifiedClass = some (scope.qualify node.name) ∧
        test.dataSets = test.annotations.dataProvider.flatMap
          (providerKeysOf scope first.scout.registry (scope.qualify node.name))

/-- The tests in two lists of entries are settled alike if those of matching entries are. -/
theorem settled_entries {first second : List FileEntry}
    (entries : first.map FileEntry.withoutKeys = second.map FileEntry.withoutKeys)
    (same : ∀ held ∈ first, ∀ other ∈ second, held.withoutKeys = other.withoutKeys →
      (Definition.flattenAll held.tests).map (settled reader sources) =
        (Definition.flattenAll other.tests).map (settled reader sources)) :
    (first.flatMap fun entry => Definition.flattenAll entry.tests).map (settled reader sources) =
      (second.flatMap fun entry => Definition.flattenAll entry.tests).map (settled reader sources) := by
  induction first generalizing second with
  | nil =>
    rw [List.map_nil, eq_comm, List.map_eq_nil_iff] at entries
    rw [entries]
  | cons held rest ih =>
    cases second with
    | nil => cases entries
    | cons other others =>
      obtain ⟨own, further⟩ := List.cons_eq_cons.mp entries
      have later := ih further fun held inside other within =>
        same held (List.mem_cons_of_mem _ inside) other (List.mem_cons_of_mem _ within)
      rw [List.flatMap_cons, List.flatMap_cons, List.map_append, List.map_append, later,
        same held List.mem_cons_self other List.mem_cons_self own]

theorem forall₂_of_settled {tests others : List Definition}
    (same : tests.map (settled reader sources) = others.map (settled reader sources)) :
    List.Forall₂ (fun test other => test.bare.withoutKeys = other.bare.withoutKeys ∧
      (Followed reader sources test → test.dataSets = other.dataSets)) tests others := by
  have all : List.Forall₂ (· = ·) (tests.map (settled reader sources)) (others.map (settled reader sources)) :=
    same ▸ List.forall₂_refl _
  rw [List.forall₂_map_left_iff, List.forall₂_map_right_iff] at all
  exact all.imp fun test other equal => alike_of_settled equal

theorem exists_definition_of_mem_items {scout : Scout} {entry : Path × String} {suite : String} {item : Definition}
    (member : item ∈ items scout entry suite) : ∃ program, scout.reader entry.2 = some (.program program) ∧
      ∃ definition ∈ definitionsOf scout.registry entry.1 scout.root program,
        item = Scout.housed entry.1 (some suite) definition := by
  have found := (List.mem_filter.mp member).1
  unfold Scout.definitions at found
  split at found
  · cases found
  next program same =>
    obtain ⟨definition, listed, rfl⟩ := List.mem_map.mp found
    refine ⟨program, ?_, definition, listed, rfl⟩
    simp only [Scout.program?] at same
    split at same
    next inner equal => rw [equal, Option.some_inj.mp same]
    next => cases same

theorem sameKeys_of_keyed {first second : Collection σ}
    (current : Current reader configuration sources (fun _ => False) first)
    (again : Current reader configuration sources (fun _ => False) second)
    (keyed : Keyed reader sources sources (fun _ => False) first)
    (further : Keyed reader sources sources (fun _ => False) second) : SameKeys reader sources first second where
  tests := by
    refine forall₂_of_settled (settled_entries (current.entries_eq again) fun held listed other within equal => ?_)
    obtain ⟨entry, inside, own⟩ := current.tracked held listed
    have file : held.file = other.file := congrArg (fun entry => entry.file) equal
    have suite : held.suite = other.suite := congrArg (fun entry => entry.suite) equal
    have definitions := current.remembers.definitions_eq again.remembers (again.reader.trans current.reader.symm)
      (again.root.trans current.root.symm) entry (some held.suite)
    rw [keyed entry inside id held listed own, further entry inside id other within (file ▸ own), ← suite, items, items,
      definitions]
  registered := by
    intro info
    rw [current.remembers.classes, current.reader]
    rfl
  keys := by
    intro test member kind given followed
    obtain ⟨held, listed, within⟩ := List.mem_flatMap.mp member
    obtain ⟨entry, inside, own⟩ := current.tracked held listed
    have mapped := List.mem_map_of_mem (f := settled reader sources) within
    rw [keyed entry inside id held listed own] at mapped
    obtain ⟨item, found, same⟩ := List.mem_map.mp mapped
    have keys := (alike_of_settled same.symm).2 followed
    have file : item.file = test.file := (congrArg Definition.file same : (settled reader sources item).file = _)
    have itemKind : item.kind = test.kind := (congrArg Definition.kind same : (settled reader sources item).kind = _)
    have annotations : item.annotations = test.annotations :=
      (congrArg Definition.annotations same : (settled reader sources item).annotations = _)
    have qualifiedClass : item.qualifiedClass = test.qualifiedClass :=
      (congrArg Definition.qualifiedClass same : (settled reader sources item).qualifiedClass = _)
    rw [← annotations] at given ⊢
    rw [← itemKind] at kind
    rw [← file, ← qualifiedClass, keys]
    obtain ⟨program, read, definition, defined, rfl⟩ := exists_definition_of_mem_items found
    refine ⟨entry, inside, Path.same_refl _, program, current.reader ▸ read, ?_⟩
    have provided := keys_of_mem_definitionsOf defined (show definition.kind = .method from kind)
      (show definition.annotations.dataProvider ≠ [] from given)
    exact provided

private theorem settled_arrivals (start : Current reader configuration [] (fun _ => False) collection)
    (distinct : sources.Distinct)
    (claimed : ∀ entry ∈ sources, ((SuiteMatcher.ofConfiguration configuration).suiteOf? entry.1).isSome)
    (readable : ∀ entry ∈ sources, ∃ program, reader entry.2 = some (.program program)) (apart : sources.Apart reader)
    {order : Sources} (anyOrder : order.Perm sources) :
    Current reader configuration sources (fun _ => False) (collection.run (arrivals order)) ∧
      Keyed reader sources sources (fun _ => False) (collection.run (arrivals order)) := by
  have same (entry : Path × String) : entry ∈ order ↔ entry ∈ sources := anyOrder.mem_iff
  have once := distinct.perm anyOrder.symm
  have still := apart.perm anyOrder.symm
  have home := fun entry member => claimed entry ((same entry).mp member)
  have read := fun entry member => readable entry ((same entry).mp member)
  have current := (orderly_arrivals once home read still).current start
  rw [latest_arrivals once] at current
  have keyed := keyed_arrivals start once home read still
  have grown : Keyed reader sources order (fun _ => False) (collection.run (arrivals order)) :=
    keyed.grow (fun _ _ old => old) fun _ _ _ test _ followed => followed.mem_congr fun entry => (same entry).symm
  exact ⟨current.congr same, fun entry member => grown entry ((same entry).mpr member)⟩

private theorem sameKeys_arrivals (start : Current reader configuration [] (fun _ => False) collection)
    (distinct : sources.Distinct)
    (claimed : ∀ entry ∈ sources, ((SuiteMatcher.ofConfiguration configuration).suiteOf? entry.1).isSome)
    (readable : ∀ entry ∈ sources, ∃ program, reader entry.2 = some (.program program)) (apart : sources.Apart reader)
    {first second : Sources} (anyOrder : first.Perm sources) (anyOther : second.Perm sources) :
    SameKeys reader sources (collection.run (arrivals first)) (collection.run (arrivals second)) := by
  obtain ⟨current, keyed⟩ := settled_arrivals start distinct claimed readable apart anyOrder
  obtain ⟨again, further⟩ := settled_arrivals start distinct claimed readable apart anyOther
  exact sameKeys_of_keyed current again keyed further

/-- Files come in, each once, with classes and traits of different names. In whatever order they
come, the tests that can be followed end up with the keys that their providers have when all
classes are known. That holds for a collection that only looks at files and for the one of an editor. -/
theorem keys_independent_of_arrival (reader : Surface.Reader) (configuration : Configuration) (sources : Sources)
    (distinct : sources.Distinct)
    (claimed : ∀ entry ∈ sources, ((SuiteMatcher.ofConfiguration configuration).suiteOf? entry.1).isSome)
    (readable : ∀ entry ∈ sources, ∃ program, reader entry.2 = some (.program program)) (apart : sources.Apart reader)
    (first second : Sources) (anyOrder : first.Perm sources) (anyOther : second.Perm sources) :
    (let fresh : Collection Scout := ofConfiguration configuration { reader, root := configuration.root }
     SameKeys reader sources (fresh.run (arrivals first)) (fresh.run (arrivals second))) ∧
      (let fresh : Collection Editor := ofConfiguration configuration { scout := { reader, root := configuration.root } }
       SameKeys reader sources (fresh.run (arrivals first)) (fresh.run (arrivals second))) := by
  constructor
  · intro fresh
    exact sameKeys_arrivals (Current.start reader configuration _ rfl) distinct claimed readable apart anyOrder anyOther
  · intro fresh
    exact sameKeys_arrivals (Current.start reader configuration _ rfl) distinct claimed readable apart anyOrder anyOther

/-- A reader of three sources: a table of prices, a test that takes its data from the table by
name, and one that extends the table. -/
private def priceReader : Surface.Reader := fun source =>
  let row := fun (name : String) => ({ key := some (.string { value := name, raw := name }), value := .unknown none } : Code.Entry)
  let rows : Code.Node := .method {
    name := "rows", isStatic := true
    body := some { children := [.returned { value := some (.array { entries := [row "one", row "two"] }) }] } }
  let test : Code.Node := .method {
    name := "testPrice", body := some {}
    comments := [⟨.doc, "/** @dataProvider PriceTable::rows */", {}⟩] }
  match source with
  | "table" => some (.program { children := [.classDecl { name := "PriceTable", body := [rows] }] })
  | "test" => some (.program { children := [.classDecl { name := "PriceTest", body := [test] }] })
  | "heir" => some (.program { children := [.classDecl { name := "PriceTest", parent := some "PriceTable", body := [test] }] })
  | _ => none

private def priceConfiguration : Configuration where
  root := ⟨"/p"⟩
  rules := [{ suite := "unit", tag := .file, value := "Table.php" }, { suite := "unit", tag := .file, value := "Test.php" }]

private def priceSources (test : String) : Sources := [(⟨"/p/Test.php"⟩, test), (⟨"/p/Table.php"⟩, "table")]

private def priceKeys (order : Sources) : List (List String) :=
  let fresh : Collection Editor := ofConfiguration priceConfiguration { scout := { reader := priceReader, root := ⟨"/p"⟩ } }
  (fresh.run (arrivals order)).tests.map (·.dataSets)

private theorem price_distinct (test : String) : (priceSources test).Distinct := by
  apply List.pairwise_pair.mpr
  show (⟨"/p/Test.php"⟩ : Path).same ⟨"/p/Table.php"⟩ = false
  decide +kernel

private theorem price_claimed (test : String) : ∀ entry ∈ priceSources test,
    ((SuiteMatcher.ofConfiguration priceConfiguration).suiteOf? entry.1).isSome := by
  simp only [priceSources, List.forall_mem_cons]
  decide +kernel

private theorem price_readable {test : String} (known : ∃ program, priceReader test = some (.program program)) :
    ∀ entry ∈ priceSources test, ∃ program, priceReader entry.2 = some (.program program) := by
  intro entry member
  cases member with
  | head => exact known
  | tail _ further =>
    rw [List.mem_singleton.mp further]
    exact ⟨_, rfl⟩

/-- A test that takes its data from a class by name alone has no keys when it comes before the class. -/
theorem price_keys_depend_on_arrival :
    let sources := priceSources "test"
    sources.Distinct ∧
      (∀ entry ∈ sources, ((SuiteMatcher.ofConfiguration priceConfiguration).suiteOf? entry.1).isSome) ∧
      (∀ entry ∈ sources, ∃ program, priceReader entry.2 = some (.program program)) ∧ sources.Apart priceReader ∧
      sources.reverse.Perm sources ∧
      priceKeys sources = [[], []] ∧ priceKeys sources.reverse = [[], ["\"one\"", "\"two\""]] := by
  have apart : (priceSources "test").Apart priceReader := by
    unfold Sources.Apart
    decide +kernel
  exact ⟨price_distinct _, price_claimed _, price_readable ⟨_, rfl⟩, apart, List.reverse_perm _, by decide +kernel⟩

private theorem heir_followed {test : Definition} (home : test.file = ⟨"/p/Test.php"⟩)
    (given : test.annotations.dataProvider = ["PriceTable::rows"]) : Followed priceReader (priceSources "heir") test := by
  intro entry member own program read scope inside _ provider listed holder front
  rw [home] at own
  rw [given] at listed
  cases member with
  | head =>
    obtain rfl := Code.Node.program.inj (Option.some.inj read)
    obtain rfl := List.mem_singleton.mp inside
    obtain rfl := List.mem_singleton.mp listed
    obtain rfl := Option.some.inj front
    have table : Registry.Leads (Declares priceReader (priceSources "heir")) "PriceTable" "PriceTable" := .here rfl
    refine .inl ⟨"PriceTest", by decide +kernel, .step _ ⟨_, List.mem_cons_self, List.mem_cons_self⟩ ?_ ?_ table⟩
    · decide +kernel
    · decide +kernel
  | tail _ further =>
    rw [List.mem_singleton.mp further] at own
    exact absurd own (by decide +kernel)

/-- A test that takes its data from a class that it extends has its keys whichever comes first. -/
theorem heir_keys_settled :
    let sources := priceSources "heir"
    let fresh : Collection Editor := ofConfiguration priceConfiguration { scout := { reader := priceReader, root := ⟨"/p"⟩ } }
    sources.Apart priceReader ∧
      (∀ test : Definition, test.file = ⟨"/p/Test.php"⟩ → test.annotations.dataProvider = ["PriceTable::rows"] →
        Followed priceReader sources test) ∧
      SameKeys priceReader sources (fresh.run (arrivals sources)) (fresh.run (arrivals sources.reverse)) ∧
      priceKeys sources = [[], ["\"one\"", "\"two\""]] ∧ priceKeys sources.reverse = [[], ["\"one\"", "\"two\""]] := by
  have apart : (priceSources "heir").Apart priceReader := by
    unfold Sources.Apart
    decide +kernel
  have both := keys_independent_of_arrival priceReader priceConfiguration (priceSources "heir") (price_distinct _)
    (price_claimed _) (price_readable ⟨_, rfl⟩) apart (priceSources "heir") (priceSources "heir").reverse (List.Perm.refl _)
    (List.reverse_perm _)
  exact ⟨apart, fun _ => heir_followed, both.2, by decide +kernel⟩

end Collection

end TestScout
