import Mathlib.Data.List.DropRight
import Mathlib.Data.List.Induction
import TestScout.Proofs.GlobText

/-! What a rule excludes from a suite when its value is a path that is written out. A name with an extension stands for one
file, and any other name for a directory with all that is below it. Nothing else changes the suite it had. -/

namespace TestScout
open Text

theorem Text.prefix_dropEndWhile (condition : Char → Bool) (text : List Char) : dropEndWhile condition text <+: text :=
  List.rdropWhile_prefix condition text

namespace Suite

variable {root : Path} {rule : Rule}

/-- Whether the value of a rule is a path that is written out: without marks of globs, backslashes and colons, without
blanks around it, without parts that are dots, and with some name in it. -/
structure Rule.IsLiteral (rule : Rule) : Prop where
  plain : ∀ c ∈ rule.value.toList, c ∉ globMarks ∧ c ≠ '\\' ∧ c ≠ ':'
  trimmed : trim rule.value.toList = rule.value.toList
  undotted : ∀ segment ∈ (⟨rule.value⟩ : Path).segments, segment ≠ "." ∧ segment ≠ ".."
  named : ∃ c ∈ rule.value.toList, c ≠ '/'

instance : Decidable rule.IsLiteral :=
  decidable_of_iff
    ((rule.value.toList.all fun c => c ∉ globMarks ∧ c ≠ '\\' ∧ c ≠ ':') ∧ trim rule.value.toList = rule.value.toList ∧
      ((⟨rule.value⟩ : Path).segments.all fun segment => segment ≠ "." ∧ segment ≠ "..") ∧ rule.value.toList.any (· ≠ '/'))
    (by
      simp only [List.all_eq_true, List.any_eq_true, decide_eq_true_eq]
      exact ⟨fun ⟨plain, trimmed, undotted, named⟩ => ⟨plain, trimmed, undotted, named⟩,
        fun ⟨plain, trimmed, undotted, named⟩ => ⟨plain, trimmed, undotted, named⟩⟩)

/-- The value of a rule without slashes at the end. -/
def Rule.written (rule : Rule) : List Char := dropEndWhile (· == '/') rule.value.toList

/-- The path that a rule writes out. What does not start with a slash stands behind the root. -/
def Rule.place (rule : Rule) (root : Path) : List Char :=
  if rule.written.head? = some '/' then rule.written
  else dropEndWhile (· == '/') (normalize root.text).toList ++ '/' :: rule.written

/-- Whether a file is the one that a rule writes out, when the name at the end has an extension, or is below the directory
that the rule writes out. The case of ASCII letters makes no difference. -/
def Rule.Covers (rule : Rule) (root file : Path) : Prop :=
  let path := lower (normalize file.text).toList
  ((Path.extension? ⟨String.ofList rule.written⟩).isSome → path = lower (rule.place root)) ∧
    ((Path.extension? ⟨String.ofList rule.written⟩).isNone → lower (rule.place root ++ ['/']) <+: path)

instance {file : Path} : Decidable (rule.Covers root file) := inferInstanceAs (Decidable (_ ∧ _))

/-! ## The glob of a rule -/

/-- No mark is a slash, and none ends in one when it is put in brackets. -/
theorem dropEndWhile_escape (text : List Char) :
    dropEndWhile (· == '/') (escape text) = escape (dropEndWhile (· == '/') text) := by
  induction text using List.reverseRecOn with
  | nil => rfl
  | append_singleton text c ih =>
    rw [Glob.escape_append]
    by_cases slashed : c = '/'
    · subst slashed
      exact (List.rdropWhile_concat_pos _ _ _ rfl).trans (ih.trans (congrArg escape (List.rdropWhile_concat_pos _ text _ rfl).symm))
    · have kept : dropEndWhile (· == '/') (text ++ [c]) = text ++ [c] :=
        List.rdropWhile_concat_neg _ _ _ (by rwa [beq_iff_eq])
      rw [kept, Glob.escape_append]
      by_cases mark : globMarks.contains c
      · have bracketed : escape [c] = ['[', c] ++ [']'] := by rw [escape, List.flatMap_singleton, if_pos mark]; rfl
        rw [bracketed, ← List.append_assoc]
        exact List.rdropWhile_concat_neg _ _ _ (by decide)
      · have single : escape [c] = [c] := by rw [escape, List.flatMap_singleton, if_neg mark]
        rw [single]
        exact List.rdropWhile_concat_neg _ _ _ (by rwa [beq_iff_eq])

theorem backslash_not_mem_normalize (path : String) : '\\' ∉ (normalize path).toList := by
  have swapped : '\\' ∉ path.toList.map fun c => if c = '\\' then '/' else c := by
    rw [List.mem_map]
    rintro ⟨c, -, same⟩
    split at same
    · cases same
    next other => exact other same
  have cut := fun member => swapped ((prefix_dropEndWhile (· == '/') _).subset member)
  unfold normalize
  simp only
  split
  · split <;> decide
  next trimmed kept =>
    rw [String.toList_ofList]
    exact cut

/-- A path without backslashes loses the slashes at its end, and nothing else. -/
theorem normalize_plain {text : List Char} (plain : '\\' ∉ text) (filled : dropEndWhile (· == '/') text ≠ []) :
    (normalize (String.ofList text)).toList = dropEndWhile (· == '/') text := by
  have same : text.map (fun c => if c = '\\' then '/' else c) = text := by
    refine (List.map_congr_left fun c member => ?_).trans (List.map_id _)
    have other : c ≠ '\\' := fun backslash => plain (backslash ▸ member)
    exact if_neg other
  rw [normalize, String.toList_ofList, same]
  split
  next empty => exact absurd empty filled
  next trimmed _ => exact String.toList_ofList

/-- A path without marks of globs and without a drive stands for itself, behind the root unless it starts with a slash. -/
theorem Rule.base_plain (plain : ∀ c ∈ rule.path, c ∉ globMarks ∧ c ≠ ':') : rule.base (normalize root.text) =
    escape (if rule.path.head? = some '/' then rule.path
      else dropEndWhile (· == '/') (normalize root.text).toList ++ '/' :: rule.path) := by
  have unmarked : ∀ c ∈ rule.path, c ∉ globMarks := fun c member => (plain c member).1
  have undriven : rule.path[1]? ≠ some ':' := fun drive => (plain _ (List.mem_of_getElem? drive)).2 rfl
  have placed : isPlaced rule.path = true ↔ rule.path.head? = some '/' := by
    rw [isPlaced, Bool.or_eq_true, beq_iff_eq, beq_iff_eq, or_iff_left undriven]
  rw [base]
  by_cases rooted : rule.path.head? = some '/'
  · rw [if_pos (placed.mpr rooted), if_pos rooted, Glob.escape_plain unmarked]
  · have behind : escape ('/' :: rule.path) = '/' :: rule.path :=
      Glob.escape_plain (List.forall_mem_cons.mpr ⟨by decide, unmarked⟩)
    rw [if_neg (placed.not.mpr rooted), if_neg rooted, Glob.escape_append, behind, dropEndWhile_escape]

variable (literal : rule.IsLiteral)
include literal

theorem Rule.IsLiteral.written_ne_nil : rule.written ≠ [] := by
  obtain ⟨c, member, other⟩ := literal.named
  intro empty
  exact other (beq_iff_eq.mp (List.rdropWhile_eq_nil_iff.mp empty c member))

omit literal in
theorem Rule.prefix_written : rule.written <+: rule.value.toList := prefix_dropEndWhile _ _

theorem Rule.IsLiteral.plain_written : ∀ c ∈ rule.written, c ∉ globMarks ∧ c ≠ '\\' ∧ c ≠ ':' :=
  fun c member => literal.plain c (rule.prefix_written.subset member)

theorem Rule.IsLiteral.normalize_value : (normalize (String.ofList (trim rule.value.toList))).toList = rule.written := by
  rw [literal.trimmed]
  exact normalize_plain (fun member => (literal.plain _ member).2.1 rfl) literal.written_ne_nil

/-- No dot is taken off, because no part is one. -/
theorem Rule.IsLiteral.path_eq : rule.path = rule.written := by
  rw [path, literal.normalize_value]
  cases found : after? ['.', '/'] rule.written with
  | none => rfl
  | some rest =>
    obtain ⟨left, whole⟩ := rule.prefix_written
    rw [eq_append_of_after? found] at whole
    have first : "." ∈ (⟨rule.value⟩ : Path).segments := by
      rw [Path.segments, ← whole]
      exact List.mem_cons_self
    exact absurd rfl (literal.undotted _ first).1

theorem Rule.IsLiteral.base_eq : rule.base (normalize root.text) = escape (rule.place root) := by
  have plain : ∀ c ∈ rule.path, c ∉ globMarks ∧ c ≠ ':' := by
    rw [literal.path_eq]
    exact fun c member => ⟨(literal.plain_written c member).1, (literal.plain_written c member).2.2⟩
  rw [Rule.base_plain plain, literal.path_eq, place]

theorem Rule.IsLiteral.backslash_not_mem_place : '\\' ∉ rule.place root := by
  have plain : '\\' ∉ rule.written := fun member => (literal.plain_written _ member).2.1 rfl
  rw [place]
  split
  · exact plain
  · rw [List.mem_append, List.mem_cons, not_or, not_or]
    exact ⟨fun member => backslash_not_mem_normalize _ ((prefix_dropEndWhile _ _).subset member), by decide, plain⟩

/-- The glob of a rule that is written out matches what the rule covers. -/
theorem Rule.IsLiteral.glob (exclude : rule.tag = .exclude) (root : Path) : ∃ glob : Glob,
    Glob.ofText? (rule.pattern (normalize root.text)) = some glob ∧
      ∀ file : Path, glob.isMatch .ignored (normalize file.text) = true ↔ rule.Covers root file := by
  have plain : '\\' ∉ rule.place root := literal.backslash_not_mem_place
  simp only [pattern, exclude, literal.base_eq, literal.path_eq, Covers]
  cases Path.extension? ⟨String.ofList rule.written⟩ with
  | some extension => exact ⟨_, Glob.ofText?_escape plain, fun file => Glob.isMatch_text.trans (by simp)⟩
  | none => exact ⟨_, Glob.ofText?_below plain, fun file => Glob.isMatch_below.trans (by simp)⟩

end Suite

/-! ## One more rule -/

namespace SuiteMatcher

variable {matcher : SuiteMatcher} {file : Path}

/-- The suite of the first rule that takes a file in. -/
def claiming? (matcher : SuiteMatcher) (file : Path) : Option String :=
  (matcher.rules.find? fun (rule, glob) => rule.tag ≠ .exclude && glob.isMatch .ignored (Suite.normalize file.text)).map (·.1.suite)

/-- Whether a rule of a suite excludes a file. -/
def excludes (matcher : SuiteMatcher) (suite : String) (file : Path) : Bool :=
  matcher.rules.any fun (rule, glob) =>
    rule.tag = .exclude && rule.suite == suite && glob.isMatch .ignored (Suite.normalize file.text)

theorem suiteOf?_eq : matcher.suiteOf? file = (matcher.claiming? file).filter fun suite => !matcher.excludes suite file := by
  simp only [suiteOf?, claiming?, excludes]
  generalize matcher.rules.find? _ = found
  cases found with
  | none => rfl
  | some claiming =>
    rw [Option.map_some, Option.filter_some]
    simp only [Option.bind_eq_bind, Option.bind_some]
    cases matcher.rules.any _ <;> rfl

variable {root : Path} {before after : List Suite.Rule} {rule : Suite.Rule} {glob : Glob}

/-- The rules of a configuration in which one more rule stands. -/
theorem rules_insert (read : Glob.ofText? (rule.pattern (Suite.normalize root.text)) = some glob) :
    (ofConfiguration ⟨root, before ++ rule :: after⟩).rules =
      (ofConfiguration ⟨root, before⟩).rules ++ (rule, glob) :: (ofConfiguration ⟨root, after⟩).rules := by
  have one : ∀ left, (Glob.ofText? (rule.pattern (Suite.normalize root.text))).map (rule, ·) = left → left = some (rule, glob) :=
    fun left same => same.symm.trans (congrArg _ read)
  simp only [ofConfiguration, List.filterMap_append, List.filterMap_cons, one _ rfl]

theorem rules_append : (ofConfiguration ⟨root, before ++ after⟩).rules =
    (ofConfiguration ⟨root, before⟩).rules ++ (ofConfiguration ⟨root, after⟩).rules := List.filterMap_append

/-- A rule that excludes files takes none in. -/
theorem claiming?_insert (read : Glob.ofText? (rule.pattern (Suite.normalize root.text)) = some glob)
    (exclude : rule.tag = .exclude) :
    (ofConfiguration ⟨root, before ++ rule :: after⟩).claiming? file = (ofConfiguration ⟨root, before ++ after⟩).claiming? file := by
  simp only [claiming?, rules_insert read, rules_append, List.find?_append, List.find?_cons, exclude]
  rfl

theorem excludes_insert (read : Glob.ofText? (rule.pattern (Suite.normalize root.text)) = some glob)
    (exclude : rule.tag = .exclude) (suite : String) :
    (ofConfiguration ⟨root, before ++ rule :: after⟩).excludes suite file =
      ((ofConfiguration ⟨root, before ++ after⟩).excludes suite file ||
        rule.suite == suite && glob.isMatch .ignored (Suite.normalize file.text)) := by
  simp only [excludes, rules_insert read, rules_append, List.any_append, List.any_cons, exclude, decide_true, Bool.true_and]
  ac_rfl

/-- **What one more rule excludes.** No file that the rule covers is of its suite. Every other file keeps the suite it had,
and so does a file that the first rule to take it in gives to another suite. -/
theorem suiteOf?_excluding (literal : rule.IsLiteral) (exclude : rule.tag = .exclude) (root : Path) (before after : List Suite.Rule)
    (file : Path) :
    (rule.Covers root file → (ofConfiguration ⟨root, before ++ rule :: after⟩).suiteOf? file ≠ some rule.suite) ∧
      (¬rule.Covers root file ∨ (ofConfiguration ⟨root, before ++ rule :: after⟩).claiming? file ≠ some rule.suite →
        (ofConfiguration ⟨root, before ++ rule :: after⟩).suiteOf? file = (ofConfiguration ⟨root, before ++ after⟩).suiteOf? file) := by
  obtain ⟨glob, read, covering⟩ := literal.glob exclude root
  have claiming : (ofConfiguration ⟨root, before ++ rule :: after⟩).claiming? file =
      (ofConfiguration ⟨root, before ++ after⟩).claiming? file := claiming?_insert read exclude
  rw [suiteOf?_eq, suiteOf?_eq, ← claiming]
  simp only [excludes_insert read exclude]
  constructor
  · intro covered suite
    obtain ⟨-, kept⟩ := Option.filter_eq_some_iff.mp suite
    simp only [(covering file).mpr covered, Bool.and_true, BEq.rfl, Bool.or_true, Bool.not_true, Bool.false_eq_true] at kept
  · intro apart
    cases claimed : (ofConfiguration ⟨root, before ++ rule :: after⟩).claiming? file with
    | none => rfl
    | some suite =>
      have unmatched : (rule.suite == suite && glob.isMatch .ignored (Suite.normalize file.text)) = false := by
        rw [Bool.and_eq_false_iff, beq_eq_false_iff_ne, ← Bool.not_eq_true, covering file]
        exact apart.symm.imp_left fun other same => other (claimed.trans (congrArg some same.symm))
      rw [Option.filter_some, Option.filter_some, unmatched, Bool.or_false]

private def cartRule : Suite.Rule := ⟨"unit", .directory, "tests", none⟩

private def legacyRule : Suite.Rule := ⟨"unit", .exclude, "tests/Legacy", none⟩

/-- What is below the directory is not of the suite, and what is next to it still is. -/
theorem suiteOf?_excluding_legacy :
    (legacyRule.Covers ⟨"/p"⟩ ⟨"/p/tests/legacy/Old/CartTest.php"⟩ ∧
      (ofConfiguration ⟨⟨"/p"⟩, [cartRule, legacyRule]⟩).suiteOf? ⟨"/p/tests/legacy/Old/CartTest.php"⟩ ≠ some "unit") ∧
    (¬legacyRule.Covers ⟨"/p"⟩ ⟨"/p/tests/LegacyTest.php"⟩ ∧
      (ofConfiguration ⟨⟨"/p"⟩, [cartRule, legacyRule]⟩).suiteOf? ⟨"/p/tests/LegacyTest.php"⟩ = some "unit") := by
  have literal : legacyRule.IsLiteral := by decide +kernel
  have covered : legacyRule.Covers ⟨"/p"⟩ ⟨"/p/tests/legacy/Old/CartTest.php"⟩ := by decide +kernel
  have beside : ¬legacyRule.Covers ⟨"/p"⟩ ⟨"/p/tests/LegacyTest.php"⟩ := by decide +kernel
  have one := suiteOf?_excluding literal rfl ⟨"/p"⟩ [cartRule] [] ⟨"/p/tests/legacy/Old/CartTest.php"⟩
  have two := suiteOf?_excluding literal rfl ⟨"/p"⟩ [cartRule] [] ⟨"/p/tests/LegacyTest.php"⟩
  exact ⟨⟨covered, one.1 covered⟩, beside, (two.2 (.inl beside)).trans (by decide +kernel)⟩

/-- A name with a dot stands for a file and not for what is below a directory, a name without a dot for what is below and
not for the file itself, a slash alone for nothing, and a doubled slash is no single one. -/
theorem directory_not_excluded :
    let of (rules : List Suite.Rule) (file : Path) := (ofConfiguration ⟨⟨"/p"⟩, rules⟩).suiteOf? file
    (Path.isUnder ⟨"/p/tests/v1.2/CartTest.php"⟩ ⟨"/p/tests/v1.2"⟩ = true ∧
      of [cartRule, ⟨"unit", .exclude, "tests/v1.2", none⟩] ⟨"/p/tests/v1.2/CartTest.php"⟩ = some "unit") ∧
    of [⟨"unit", .file, "tests/smoke", none⟩, ⟨"unit", .exclude, "tests/smoke", none⟩] ⟨"/p/tests/smoke"⟩ = some "unit" ∧
    of [cartRule, ⟨"unit", .exclude, "/", none⟩] ⟨"/p/tests/CartTest.php"⟩ = some "unit" ∧
    of [cartRule, ⟨"unit", .exclude, "tests//old", none⟩] ⟨"/p/tests/old/CartTest.php"⟩ = some "unit" := by
  decide +kernel

end SuiteMatcher

end TestScout
