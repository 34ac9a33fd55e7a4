import TestScout.Proofs.SuiteExclusion
import TestScout.Proofs.TextWords

/-! Which files a suite has by a directory. The path of the directory may be written with blanks around it, a dot in front and
slashes at the end, and the suite has every file below it, at any depth, whose name ends as the rule says. Paths are compared
as they are written otherwise, so a dot that stands elsewhere is a name that no file is below. -/

namespace TestScout.Suite
open Text

variable {root : Path} {rule : Rule} {names : List (List Char)}

/-- A name in a path that is written out, without marks of globs, slashes, backslashes and colons. -/
def IsName (name : List Char) : Prop := name ≠ [] ∧ ∀ c ∈ name, c ∉ globMarks ∧ c ≠ '/' ∧ c ≠ '\\' ∧ c ≠ ':'

instance : DecidablePred IsName := fun name =>
  decidable_of_iff (name ≠ [] ∧ name.all fun c => c ∉ globMarks ∧ c ≠ '/' ∧ c ≠ '\\' ∧ c ≠ ':')
    (by simp only [IsName, List.all_eq_true, decide_eq_true_eq])

/-- The ways to write the path that names make. Blanks around it, one dot in front of a slash and slashes at the end make no
difference. Every other dot is a name. -/
structure Rule.Spells (rule : Rule) (names : List (List Char)) : Prop where
  filled : names ≠ []
  isName : ∀ name ∈ names, IsName name
  text : ∃ front slashes, (front = ['.', '/'] ∨ front = [] ∧ ¬['.', '/'] <+: ['/'].intercalate names) ∧
    (∀ c ∈ slashes, c = '/') ∧ trim rule.value.toList = front ++ ['/'].intercalate names ++ slashes

/-- How the names of the files in a directory end. -/
def Rule.ending (rule : Rule) : List Char := (rule.suffix.getD usualSuffix).toList

/-- The directory that names lead to from the root on. -/
def directoryOf (root : Path) (names : List (List Char)) : List Char :=
  dropEndWhile (· == '/') (normalize root.text).toList ++ '/' :: ['/'].intercalate names

/-- Whether a file lies below the directory that names lead to, at any depth, and has a name that ends as the rule says. The
case of ASCII letters makes no difference. -/
def Rule.Claims (rule : Rule) (names : List (List Char)) (root file : Path) : Prop :=
  let path := (normalize file.text).toList
  lower (directoryOf root names ++ ['/']) <+: lower path ∧ lower rule.ending <:+ lower (lastPiece '/' path)

instance {file : Path} : Decidable (rule.Claims names root file) := inferInstanceAs (Decidable (_ ∧ _))

/-- Where a name is a dot, nothing is claimed but what has the dot in its own path. -/
theorem Rule.Claims.dot {file : Path} (claims : rule.Claims names root file) (dot : ['.'] ∈ names) :
    ['/', '.', '/'] <:+: (normalize file.text).toList := by
  have inside : ['/', '.', '/'] <:+: directoryOf root names ++ ['/'] := by
    rw [directoryOf, List.append_assoc]
    exact (infix_intercalate dot).trans (List.suffix_append _ _).isInfix
  obtain ⟨before, after, whole⟩ := (inside.map Char.toLower).trans claims.1.isInfix
  obtain ⟨front, rest, split, frontSame, -⟩ := List.map_eq_append_iff.mp whole.symm
  obtain ⟨start, middle, rfl, -, lowered⟩ := List.map_eq_append_iff.mp frontSame
  obtain rfl : middle = ['/', '.', '/'] := (lower_eq_iff rfl).mp lowered
  rw [split]
  exact ⟨start, rest, rfl⟩

section

variable (spells : rule.Spells names)
include spells

theorem Rule.Spells.mem {c : Char} (member : c ∈ ['/'].intercalate names) : c ∉ globMarks ∧ c ≠ '\\' ∧ c ≠ ':' := by
  rcases mem_intercalate member with rfl | ⟨name, listed, inside⟩
  · decide
  · obtain ⟨-, plain⟩ := spells.isName name listed
    exact ⟨(plain c inside).1, (plain c inside).2.2⟩

/-- The first name stands in front, so that the path does not start with a slash. -/
theorem Rule.Spells.exists_head? : ∃ c, c ≠ '/' ∧ (['/'].intercalate names).head? = some c := by
  obtain ⟨name, rest, rfl⟩ := List.exists_cons_of_ne_nil spells.filled
  obtain ⟨filled, plain⟩ := spells.isName name List.mem_cons_self
  obtain ⟨c, name, rfl⟩ := List.exists_cons_of_ne_nil filled
  exact ⟨c, (plain c List.mem_cons_self).2.1, by cases rest <;> rfl⟩

theorem Rule.Spells.dropEndWhile_eq (front : List Char) :
    dropEndWhile (· == '/') (front ++ ['/'].intercalate names) = front ++ ['/'].intercalate names := by
  obtain ⟨name, member, before, ends⟩ := exists_suffix_intercalate spells.filled ['/']
  obtain ⟨filled, plain⟩ := spells.isName name member
  rw [← ends, ← List.append_assoc]
  exact dropEndWhile_append filled fun c inside => beq_eq_false_iff_ne.mpr (plain c inside).2.1

/-- Every way to write a path comes down to its names. -/
theorem Rule.Spells.path_eq : rule.path = ['/'].intercalate names := by
  obtain ⟨front, slashes, dotted, trailing, text⟩ := spells.text
  have cut : dropEndWhile (· == '/') (trim rule.value.toList) = front ++ ['/'].intercalate names := by
    rw [text, dropEndWhile_append_of_pos fun c member => beq_iff_eq.mpr (trailing c member), spells.dropEndWhile_eq]
  have some : front ++ ['/'].intercalate names ≠ [] := by
    obtain ⟨c, -, first⟩ := spells.exists_head?
    exact List.append_ne_nil_of_right_ne_nil _ fun empty => by rw [empty] at first; cases first
  have plain : '\\' ∉ trim rule.value.toList := by
    rw [text, List.mem_append, List.mem_append, not_or, not_or]
    refine ⟨⟨?_, fun member => (spells.mem member).2.1 rfl⟩, fun member => absurd (trailing _ member) (by decide)⟩
    rcases dotted with rfl | ⟨rfl, -⟩ <;> decide
  rw [path, normalize_plain plain (cut ▸ some), cut]
  rcases dotted with rfl | ⟨rfl, undotted⟩
  · rw [after?_append]
    rfl
  · rw [List.nil_append]
    cases found : after? ['.', '/'] (['/'].intercalate names) with
    | none => rfl
    | some rest => exact absurd ⟨rest, (eq_append_of_after? found).symm⟩ undotted

theorem Rule.Spells.base_eq (root : Path) : rule.base (normalize root.text) = escape (directoryOf root names) := by
  have plain : ∀ c ∈ rule.path, c ∉ globMarks ∧ c ≠ ':' := by
    rw [spells.path_eq]
    exact fun c member => ⟨(spells.mem member).1, (spells.mem member).2.2⟩
  obtain ⟨c, other, first⟩ := spells.exists_head?
  have relative : (['/'].intercalate names).head? ≠ some '/' := fun slash => other (Option.some_inj.mp (first.symm.trans slash))
  rw [Rule.base_plain plain, spells.path_eq, if_neg relative, directoryOf]

/-- The glob of a rule for a directory matches what the rule claims. -/
theorem Rule.Spells.glob (directory : rule.tag = .directory) (literal : ∀ c ∈ rule.ending, c ∉ globMarks ∧ c ≠ '\\' ∧ c ≠ '/')
    (root : Path) : ∃ glob : Glob, Glob.ofText? (rule.pattern (normalize root.text)) = some glob ∧
      ∀ file : Path, glob.isMatch .ignored (normalize file.text) = true ↔ rule.Claims names root file := by
  have plain : '\\' ∉ directoryOf root names := by
    rw [directoryOf, List.mem_append, List.mem_cons, not_or, not_or]
    exact ⟨fun member => backslash_not_mem_normalize _ ((prefix_dropEndWhile _ _).subset member), by decide,
      fun member => (spells.mem member).2.1 rfl⟩
  have text : rule.pattern (normalize root.text) =
      String.ofList (escape (directoryOf root names)) ++ "/**/*" ++ String.ofList rule.ending := by
    simp only [pattern, directory, spells.base_eq, ending, String.ofList_toList]
  have read := Glob.ofText?_ending plain fun c member => ⟨(literal c member).1, (literal c member).2.1⟩
  rw [← text] at read
  refine ⟨_, read, fun file => ?_⟩
  have unmarked : '/' ∉ lower rule.ending := by
    intro member
    obtain ⟨c, inside, slash⟩ := List.mem_map.mp member
    exact (literal c inside).2.2 ((toLower_eq_iff rfl).mp slash)
  rw [Glob.isMatch_ending, Claims, lower_append, lower_lastPiece rfl]
  constructor
  · rintro ⟨below, whole, ends⟩
    rw [whole, lastPiece_append, suffix_lastPiece_iff unmarked]
    exact ⟨⟨below, List.append_assoc _ _ _⟩, ends⟩
  · rintro ⟨⟨below, whole⟩, ends⟩
    have slashed : lower (normalize file.text).toList = lower (directoryOf root names) ++ '/' :: below := by
      rw [← whole, List.append_assoc]
      rfl
    rw [slashed, lastPiece_append, suffix_lastPiece_iff unmarked] at ends
    exact ⟨below, slashed, ends⟩

end

end TestScout.Suite

/-! ## One rule for a directory -/

namespace TestScout.SuiteMatcher
open Suite Text

variable {root : Path} {rule : Rule}

/-- **What a directory gives to its suite.** A suite with one directory has exactly the files that the rule claims, in every
way to write the path, for every root and at every depth. -/
theorem suiteOf?_directory {names : List (List Char)} (directory : rule.tag = .directory) (spells : rule.Spells names)
    (literal : ∀ c ∈ rule.ending, c ∉ globMarks ∧ c ≠ '\\' ∧ c ≠ '/') (root file : Path) :
    (ofConfiguration ⟨root, [rule]⟩).suiteOf? file = if rule.Claims names root file then some rule.suite else none := by
  obtain ⟨glob, read, matching⟩ := spells.glob directory literal root
  have rules : (ofConfiguration ⟨root, [rule]⟩).rules = [(rule, glob)] := @rules_insert root [] [] rule glob read
  have included : ∀ suite, (ofConfiguration ⟨root, [rule]⟩).excludes suite file = false := by
    intro suite
    simp only [excludes, rules, List.any_cons, List.any_nil, directory, reduceCtorEq, decide_false, Bool.false_and, Bool.or_false]
  have claiming : (ofConfiguration ⟨root, [rule]⟩).claiming? file =
      if glob.isMatch .ignored (normalize file.text) then some rule.suite else none := by
    simp only [claiming?, rules, List.find?_cons, List.find?_nil, directory, reduceCtorEq, ne_eq, not_false_eq_true, decide_true,
      Bool.true_and]
    cases glob.isMatch .ignored (normalize file.text) <;> rfl
  rw [suiteOf?_eq, claiming]
  simp only [included, matching, Bool.not_false]
  split <;> rfl

private def blankRule : Rule := ⟨"unit", .directory, " ./tests/Unit// ", none⟩

/-- Blanks, a dot in front and slashes at the end change nothing, and neither does the case of letters. The brackets in the
name of the root are part of the name. -/
theorem suiteOf?_directory_brackets :
    blankRule.Spells ["tests".toList, "Unit".toList] ∧
    blankRule.Claims ["tests".toList, "Unit".toList] ⟨"/p[1]/"⟩ ⟨"/P[1]/Tests/unit/Cart/SumTest.PHP"⟩ ∧
    (ofConfiguration ⟨⟨"/p[1]/"⟩, [blankRule]⟩).suiteOf? ⟨"/P[1]/Tests/unit/Cart/SumTest.PHP"⟩ = some "unit" := by
  have spells : blankRule.Spells ["tests".toList, "Unit".toList] :=
    ⟨List.cons_ne_nil _ _, by decide +kernel, "./".toList, ['/', '/'], .inl rfl, by simp, by decide +kernel⟩
  have claims : blankRule.Claims ["tests".toList, "Unit".toList] ⟨"/p[1]/"⟩ ⟨"/P[1]/Tests/unit/Cart/SumTest.PHP"⟩ := by
    decide +kernel
  have listed : blankRule.ending.all fun c => c ∉ globMarks ∧ c ≠ '\\' ∧ c ≠ '/' := by decide +kernel
  have literal : ∀ c ∈ blankRule.ending, c ∉ globMarks ∧ c ≠ '\\' ∧ c ≠ '/' := by
    simpa only [List.all_eq_true, decide_eq_true_eq] using listed
  have suite := suiteOf?_directory rfl spells literal ⟨"/p[1]/"⟩ ⟨"/P[1]/Tests/unit/Cart/SumTest.PHP"⟩
  exact ⟨spells, claims, suite.trans (if_pos claims)⟩

/-- A dot that stands for the root, between names or behind another dot is taken for a name. All these rules write a directory
that the file is below, and none claims it. -/
theorem directory_not_claimed :
    let of (value : String) := (ofConfiguration ⟨⟨"/p"⟩, [⟨"unit", .directory, value, none⟩]⟩).suiteOf? ⟨"/p/tests/unit/CartTest.php"⟩
    let below (value : String) := Path.isUnder ⟨"/p/tests/unit/CartTest.php"⟩ (Path.join ⟨"/p"⟩ ⟨value⟩)
    ∀ value ∈ [".", "./", "tests/./unit", "././tests", "tests/unit/."], below value = true ∧ of value = none := by
  decide +kernel

end TestScout.SuiteMatcher
