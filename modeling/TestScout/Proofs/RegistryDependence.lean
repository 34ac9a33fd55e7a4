import TestScout.Proofs.PathOrder
import TestScout.Proofs.TextWords
import TestScout.Registry.Dependents
import TestScout.Registry.Methods

/-! Everything that can be seen on a class is reached by following references. The files that
depend on a file are therefore the only ones whose classes can look different after it has
changed, as long as no two files declare a class of one name. -/

namespace TestScout

theorem relativeName_idem (name : String) : relativeName (relativeName name) = relativeName name := by
  have shortened (text : List Char) :
      (text.dropWhile (· == '\\')).dropWhile (· == '\\') = text.dropWhile (· == '\\') := by
    induction text with
    | nil => rfl
    | cons c rest ih =>
      rw [List.dropWhile_cons]
      split
      next => exact ih
      next other => exact List.dropWhile_cons_of_neg (p := (· == '\\')) other
  rw [relativeName, relativeName, String.toList_ofList, shortened]

theorem toLower_eq_backslash (c : Char) : (c.toLower == '\\') = (c == '\\') := by
  rw [Bool.eq_iff_iff, beq_iff_eq, beq_iff_eq, Text.toLower_eq_iff rfl]

theorem toLower_relativeName (name : String) : (relativeName name).toLower = relativeName name.toLower := by
  have blind : (fun c : Char => c == '\\') ∘ Char.toLower = fun c => c == '\\' := funext toLower_eq_backslash
  have mapped (text : String) : text.toLower = text.map Char.toLower := rfl
  apply String.toList_injective
  simp only [relativeName, mapped, String.toList_map, String.toList_ofList, List.dropWhile_map, blind]

namespace Registry

theorem plainName_relativeName (name : String) : plainName (relativeName name) = plainName name := by
  rw [plainName, relativeName_idem, plainName]

/-- A name that reads like a plain one in lower case has no backslash in front. -/
theorem plainName_eq_of_toLower_eq {first second : String} (same : first.toLower = plainName second) :
    plainName first = plainName second := by
  rw [plainName, toLower_relativeName, same, plainName, toLower_relativeName, relativeName_idem]

/-! ## Finding entries -/

theorem find?_eq_some_iff {registry : Registry} {name : String} {info : ClassInfo} :
    registry.find? name = some info ↔ info ∈ registry.classes ∧ info.name = relativeName name := by
  constructor
  · intro found
    exact ⟨List.mem_of_find?_eq_some found, by simpa using List.find?_some found⟩
  · intro ⟨member, same⟩
    obtain ⟨before, after, split⟩ := List.append_of_mem member
    have distinct := registry.distinct
    rw [split, List.map_append, List.map_cons, List.nodup_append] at distinct
    rw [find?, List.find?_eq_some_iff_append]
    refine ⟨by simpa using same, before, after, split, ?_⟩
    intro other earlier
    have apart := distinct.2.2 _ (List.mem_map_of_mem earlier) _ List.mem_cons_self
    simpa [← same] using apart

theorem find?_congr {first second : Registry} {name : String}
    (same : ∀ info, info.name = relativeName name → (info ∈ first.classes ↔ info ∈ second.classes)) :
    first.find? name = second.find? name := by
  apply Option.ext
  intro info
  rw [find?_eq_some_iff, find?_eq_some_iff]
  exact ⟨fun ⟨member, named⟩ => ⟨(same info named).mp member, named⟩,
    fun ⟨member, named⟩ => ⟨(same info named).mpr member, named⟩⟩

/-! ## References -/

theorem references_ne_nil_of_refersToAny {names : List String} {info : ClassInfo} (refers : refersToAny names info = true) :
    info.references ≠ [] := by
  intro none
  simp [refersToAny, none] at refers

theorem mem_of_mem_referring {names : List String} {classes : List ClassInfo} {info : ClassInfo}
    (member : info ∈ referring names classes) : info ∈ classes ∧ info.references ≠ [] := by
  fun_induction referring names classes with
  | case1 => cases member
  | case2 names classes _ ih =>
    rcases List.mem_append.mp member with direct | further
    · simp only [referrers, List.mem_filter, Bool.and_eq_true] at direct
      exact ⟨direct.1, references_ne_nil_of_refersToAny direct.2.2⟩
    · obtain ⟨inside, refers⟩ := ih further
      exact ⟨(List.mem_filter.mp inside).1, refers⟩

/-- Whoever refers to a name that has been reached is reached as well. -/
theorem referring_closed {names : List String} {classes : List ClassInfo} {info : ClassInfo} (member : info ∈ classes)
    (refers : refersToAny (names ++ (referring names classes).map (·.name.toLower)) info = true) :
    info.name.toLower ∈ names ++ (referring names classes).map (·.name.toLower) := by
  fun_induction referring names classes with
  | case1 names classes none =>
    simp only [List.map_nil, List.append_nil] at refers ⊢
    apply Classical.byContradiction
    intro missing
    have found : info ∈ referrers names classes := by simp [referrers, member, missing, refers]
    rw [none] at found
    cases found
  | case2 names classes _ ih =>
    rw [List.map_append, ← List.append_assoc] at refers ⊢
    by_cases listed : info.name.toLower ∈ names
    · exact List.mem_append_left _ (List.mem_append_left _ listed)
    by_cases direct : refersToAny names info = true
    · have found : info ∈ referrers names classes := by simp [referrers, member, listed, direct]
      exact List.mem_append_left _ (List.mem_append_right _ (List.mem_map_of_mem found))
    · exact ih (by simp [strangers, member, listed, direct]) refers

/-- The names that a change of a file reaches, in lower case: those of its own classes and
those of the classes that refer to them, directly or not. -/
def reached (registry : Registry) (file : Path) : List String :=
  let names := (registry.declaredIn file).map (·.name.toLower)
  names ++ (referring names registry.classes).map (·.name.toLower)

theorem reached_own {registry : Registry} {file : Path} {info : ClassInfo} (member : info ∈ registry.classes)
    (own : info.file.same file = true) : info.name.toLower ∈ registry.reached file :=
  List.mem_append_left _ (List.mem_map_of_mem (List.mem_filter.mpr ⟨member, own⟩))

theorem reached_of_reference {registry : Registry} {file : Path} {info : ClassInfo} (member : info ∈ registry.classes)
    {reference : String} (refers : reference ∈ info.references) (known : plainName reference ∈ registry.reached file) :
    info.name.toLower ∈ registry.reached file :=
  referring_closed member (List.any_eq_true.mpr ⟨reference, refers, List.contains_iff_mem.mpr known⟩)

private theorem collected_present (file other : Path) (infos : List ClassInfo) (files : List Path) :
    (∃ found ∈ infos.foldl (fun files info =>
        if info.file.same file then files else info.file.insertInto files) files, found.same other = true) ↔
      (∃ found ∈ files, found.same other = true) ∨
        ∃ info ∈ infos, info.file.same file = false ∧ info.file.same other = true := by
  induction infos generalizing files with
  | nil => simp
  | cons info rest ih =>
    rw [List.foldl_cons, ih]
    simp only [List.mem_cons, exists_eq_or_imp]
    split
    next own => simp [own]
    next foreign => simp [foreign, Path.exists_same_insertInto, or_assoc, or_left_comm]

private theorem collected_declared {file found : Path} {infos : List ClassInfo} {files : List Path}
    (member : found ∈ infos.foldl (fun files info =>
      if info.file.same file then files else info.file.insertInto files) files) :
    found ∈ files ∨ ∃ info ∈ infos, info.file.same file = false ∧ info.file = found := by
  induction infos generalizing files with
  | nil => exact .inl member
  | cons info rest ih =>
    rw [List.foldl_cons] at member
    rcases ih member with present | ⟨later, inside, foreign⟩
    · split at present
      next => exact .inl present
      next foreign =>
        rcases Path.mem_of_mem_insertInto present with rfl | before
        · exact .inr ⟨info, List.mem_cons_self, by simpa using foreign, rfl⟩
        · exact .inl before
    · exact .inr ⟨later, List.mem_cons_of_mem _ inside, foreign⟩

/-- Dependent files are spelled as their entries spell them, and some entry of each has a reference. -/
theorem declared_of_mem_dependentFiles {registry : Registry} {file dependent : Path}
    (member : dependent ∈ registry.dependentFiles file) :
    ∃ info ∈ registry.classes, info.file = dependent ∧ info.references ≠ [] ∧ dependent.same file = false := by
  rcases collected_declared member with impossible | ⟨info, found, foreign, rfl⟩
  · cases impossible
  · obtain ⟨inside, refers⟩ := mem_of_mem_referring found
    exact ⟨info, inside, rfl, refers, foreign⟩

/-- The dependent files are those of the entries that refer to the file, apart from itself. -/
theorem exists_same_dependentFiles {registry : Registry} {file other : Path} :
    (∃ dependent ∈ registry.dependentFiles file, dependent.same other = true) ↔
      ∃ info ∈ referring ((registry.declaredIn file).map (·.name.toLower)) registry.classes,
        info.file.same file = false ∧ info.file.same other = true := by
  rw [dependentFiles, collected_present]
  simp

private theorem collected_ordered (file : Path) (infos : List ClassInfo) {files : List Path}
    (ordered : files.Pairwise (·.compare · = .lt)) : (infos.foldl (fun files info =>
      if info.file.same file then files else info.file.insertInto files) files).Pairwise (·.compare · = .lt) := by
  induction infos generalizing files with
  | nil => exact ordered
  | cons info rest ih =>
    rw [List.foldl_cons]
    split
    · exact ih ordered
    · exact ih (Path.insertInto_ordered ordered)

/-- Dependent files come in the order of their paths, each of them once. -/
theorem dependentFiles_ordered (registry : Registry) (file : Path) :
    (registry.dependentFiles file).Pairwise (·.compare · = .lt) :=
  collected_ordered file _ List.Pairwise.nil

/-- What refers to the entries of a file is in the file or in a dependent one. -/
theorem file_of_mem_referring {registry : Registry} {file : Path} {info : ClassInfo}
    (member : info ∈ referring ((registry.declaredIn file).map (·.name.toLower)) registry.classes) :
    info.file.same file = true ∨ ∃ dependent ∈ registry.dependentFiles file, dependent.same info.file = true := by
  by_cases own : info.file.same file = true
  · exact .inl own
  · refine .inr (exists_same_dependentFiles.mpr ⟨info, member, ?_, Path.same_refl _⟩)
    simpa using own

/-- A name is reached because the file declares it or because a dependent file does. -/
theorem declared_of_mem_reached {registry : Registry} {file : Path} {name : String} (found : name ∈ registry.reached file) :
    ∃ info ∈ registry.classes, info.name.toLower = name ∧
      (info.file.same file = true ∨ ∃ dependent ∈ registry.dependentFiles file, dependent.same info.file = true) := by
  rcases List.mem_append.mp found with own | further
  · obtain ⟨info, member, rfl⟩ := List.mem_map.mp own
    obtain ⟨inside, same⟩ := List.mem_filter.mp member
    exact ⟨info, inside, rfl, .inl same⟩
  · obtain ⟨info, member, rfl⟩ := List.mem_map.mp further
    exact ⟨info, (mem_of_mem_referring member).1, rfl, file_of_mem_referring member⟩

theorem dependentFiles_eq_nil {registry : Registry} {file : Path}
    (absent : ∀ info ∈ registry.classes, info.file.same file = false) : registry.dependentFiles file = [] := by
  have none : registry.declaredIn file = [] := List.filter_eq_nil_iff.mpr fun info member => by simp [absent info member]
  have still : referring [] registry.classes = [] := by
    rw [referring, dif_pos]
    simp [referrers, refersToAny]
  rw [dependentFiles, none, List.map_nil, still, List.foldl_nil]

/-! ## Forgetting files -/

theorem referring_filter {keep : ClassInfo → Bool} {names : List String} {classes : List ClassInfo}
    (kept : ∀ info ∈ referring names classes, keep info = true) :
    referring names (classes.filter keep) = referring names classes := by
  have direct : ∀ names classes, referrers names (classes.filter keep) = (referrers names classes).filter keep := by
    intro names classes
    simp only [referrers, List.filter_filter, Bool.and_comm]
  have others : ∀ names classes, strangers names (classes.filter keep) = (strangers names classes).filter keep := by
    intro names classes
    simp only [strangers, List.filter_filter, Bool.and_comm]
  fun_induction referring names classes with
  | case1 names classes none =>
    rw [referring, dif_pos]
    rw [direct, none, List.filter_nil]
  | case2 names classes some ih =>
    have all : (referrers names classes).filter keep = referrers names classes :=
      List.filter_eq_self.mpr fun info member => kept info (List.mem_append_left _ member)
    rw [referring, dif_neg (by rwa [direct, all]), direct, all, others]
    rw [ih fun info member => kept info (List.mem_append_right _ member)]

section

variable {registry : Registry} {keep : Path → Bool} {file : Path} (across : ∀ path, path.same file = true → keep path = true)
include across

theorem declaredIn_filter : (registry.filter (keep ·.file)).declaredIn file = registry.declaredIn file := by
  rw [declaredIn, declaredIn, filter, List.filter_filter]
  refine List.filter_congr fun info _ => ?_
  cases own : info.file.same file with
  | true => rw [across info.file own, Bool.and_self]
  | false => rw [Bool.false_and]

/-- As long as the dependent files are kept, it does not matter which others are. -/
theorem dependentFiles_filter
    (kept : ∀ dependent ∈ registry.dependentFiles file, ∀ path, dependent.same path = true → keep path = true) :
    (registry.filter (keep ·.file)).dependentFiles file = registry.dependentFiles file := by
  have same : referring ((registry.declaredIn file).map (·.name.toLower)) (registry.filter (keep ·.file)).classes =
      referring ((registry.declaredIn file).map (·.name.toLower)) registry.classes := by
    refine referring_filter fun info member => ?_
    rcases file_of_mem_referring member with own | ⟨dependent, listed, found⟩
    · exact across info.file own
    · exact kept dependent listed info.file found
  rw [dependentFiles, dependentFiles, declaredIn_filter across, same]

end

end Registry

end TestScout
