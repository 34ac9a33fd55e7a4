import Mathlib
import TestScout.Proofs.AttributeGroups
import TestScout.Proofs.NameResolution
import TestScout.Test.Annotations

/-! Which attributes count. An attribute counts by what its name stands for where it is written, and a name that is spelled out
in the namespace of the attributes counts everywhere. The name is cut off the text in front of the arguments, which may have
commas and brackets in them. It loses a backslash in front on the way, so that it is then taken for a name that is not full. -/

namespace TestScout

namespace Source.Nesting

variable {separator : Char} {nesting : Nesting} {text : List Char}

/-! ## Splitting -/

/-- The same place with more brackets around it. -/
def deeper (nesting : Nesting) (levels : Int) : Nesting := { nesting with depth := nesting.depth + levels }

theorem step_deeper (nesting : Nesting) (levels : Int) (c : Char) : (nesting.deeper levels).step c = (nesting.step c).deeper levels := by
  obtain ⟨depth, quote, escaped⟩ := nesting
  cases quote <;> simp only [step, deeper] <;> grind

theorem foldl_deeper (nesting : Nesting) (levels : Int) (text : List Char) :
    text.foldl step (nesting.deeper levels) = (text.foldl step nesting).deeper levels := by
  induction text generalizing nesting with
  | nil => rfl
  | cons c text ih => rw [List.foldl_cons, step_deeper, ih, List.foldl_cons]

/-- Whether a text closes no bracket that it has not opened. -/
def ClosesOwn (text : List Char) : Prop := ∀ front ∈ text.inits, 0 ≤ (front.foldl step top).depth

instance : Decidable (ClosesOwn text) := inferInstanceAs (Decidable (∀ front ∈ text.inits, _))

/-- In parentheses nothing separates, if only the last one closes what the first one opens. -/
theorem pieces_enclosed (closed : ClosesOwn text) :
    top.pieces separator ('(' :: (text ++ [')'])) = ['(' :: (text ++ [')'])] := by
  have opening : top.separates separator '(' = false := by simp [separates, nests]
  have inside : Passes separator (top.step '(') text (text.foldl step (top.step '(')) := by
    refine passes_of_joined fun front c rest split => separates_inner (.inr ?_)
    have starts : front ∈ text.inits := (List.mem_inits front text).mpr ⟨c :: rest, split.symm⟩
    have entered : top.step '(' = top.deeper 1 := rfl
    have positive := closed front starts
    rw [entered, foldl_deeper]
    show (front.foldl step top).depth + 1 ≠ 0
    omega
  have closing : ∀ nesting : Nesting, nesting.separates separator ')' = false := fun nesting => by simp [separates, nests]
  exact (Passes.cons opening (inside.append (.single (closing _) rfl))).pieces_eq

end Source.Nesting

/-! ## Reading -/

namespace Source
open Code Text Nesting Surface.Lenient.Lexer

/-- Arguments as they stand behind a name, which may also stand without any. -/
def parenthesized : Option String → List Char
  | some text => '(' :: (text.toList ++ [')'])
  | none => []

/-- An attribute that stands alone in its group. -/
def attributeText (reference : String) (arguments : Option String) : String :=
  String.ofList ('#' :: ('[' :: (reference.toList ++ parenthesized arguments) ++ [']']))

variable {reference : String} {arguments : Option String}

section

variable (written : IsReference reference) (unblanked : trim reference.toList = reference.toList)
include written unblanked

theorem exists_solid_first : ∃ c rest, reference.toList = c :: rest ∧ isBlank c = false := by
  have filled : reference.toList ≠ [] := by
    intro empty
    refine written.relativeName_ne ?_
    rw [relativeName, empty]
    rfl
  obtain ⟨c, rest, same⟩ := List.exists_cons_of_ne_nil filled
  exact ⟨c, rest, same, isBlank_of_trim (same ▸ unblanked)⟩

theorem splitTopLevel_reference (closed : ∀ text ∈ arguments, ClosesOwn text.toList) :
    splitTopLevel (reference.toList ++ parenthesized arguments) ',' = [reference.toList ++ parenthesized arguments] := by
  have behind : top.pieces ',' (parenthesized arguments) = [parenthesized arguments] := by
    cases arguments with
    | none => rfl
    | some text => exact pieces_enclosed (closed text rfl)
  have front : Passes ',' top reference.toList top := passes_plain rfl (plain_reference written)
  have shown : blank (reference.toList ++ parenthesized arguments) = false := by
    obtain ⟨c, rest, same, solid⟩ := exists_solid_first written unblanked
    rw [same, List.cons_append, blank, List.all_cons, solid, Bool.false_and]
  rw [splitTopLevel, front.pieces_append, behind, List.modifyHead_cons, List.filter_singleton, shown]
  rfl

theorem Attribute.ofText?_reference : Attribute.ofText? (reference.toList ++ parenthesized arguments) =
    some ⟨relativeName reference, Attribute.argumentsOf ((arguments.map String.toList).getD [])⟩ := by
  have unopened : ∀ c ∈ reference.toList, c ≠ '(' := fun c member => written.ne_of_mem member rfl (by decide)
  have named : ∀ values, named? reference.toList values = some ⟨relativeName reference, values⟩ := fun values =>
    (named?_eq_some_iff written.relativeName_ne).mpr ⟨(dropWhile_trim_iff written).mpr unblanked, rfl⟩
  cases arguments with
  | none => rw [parenthesized, List.append_nil, ofText?_bare unopened, named]; rfl
  | some text => exact (ofText?_listed unopened text.toList).trans (named _)

/-- A reference is the name of an attribute without the backslash in front. -/
theorem AttributeGroup.ofText_reference (closed : ∀ text ∈ arguments, ClosesOwn text.toList) (extent : Option Extent) :
    (AttributeGroup.ofText (attributeText reference arguments) extent).attributes =
      [⟨relativeName reference, Attribute.argumentsOf ((arguments.map String.toList).getD [])⟩] := by
  rw [attributeText, ofText_enclosed, splitTopLevel_reference written unblanked closed, List.filterMap_cons,
    Attribute.ofText?_reference written unblanked]
  rfl

end

end Source

/-! ## Names -/

namespace Test.Mark
open Source Text

variable {name short : String} {arguments : List String}

/-- Whether a full name is that of an attribute with a meaning for tests, by its name in their namespace. -/
def IsAttributeName (name short : String) : Prop := ∃ space, sameName space attributeNamespace = true ∧ name = space ++ short

theorem attributeName?_eq_some_iff : attributeName? name = some short ↔ IsAttributeName name short := by
  rw [attributeName?, Option.ite_none_right_eq_some, Option.some_inj]
  constructor
  · rintro ⟨same, rfl⟩
    refine ⟨_, same, ?_⟩
    rw [← String.ofList_append, List.take_append_drop, String.ofList_toList]
  · rintro ⟨space, same, rfl⟩
    have length : space.toList.length = attributeNamespace.length := by
      have mapped := congrArg List.length (sameName_iff_lower.mp same)
      rw [lower, lower, List.length_map, List.length_map] at mapped
      exact mapped.trans String.length_toList
    rw [String.toList_append, List.take_left' length, List.drop_left' length, String.ofList_toList, String.ofList_toList]
    exact ⟨same, rfl⟩

/-- The names that attributes with a meaning for tests have in their namespace. -/
def supported : List String :=
  ["Test", "Group", "Ticket", "Depends", "DependsUsingDeepClone", "DependsUsingShallowClone", "DataProvider", "TestDox"]

@[simp] theorem attributeName?_append (short : String) : attributeName? (attributeNamespace ++ short) = some short :=
  attributeName?_eq_some_iff.mpr ⟨attributeNamespace, beq_self_eq_true _, rfl⟩

/-- Whatever name leads to it, the mark is that of the name in the namespace. -/
theorem ofAttribute?_eq {resolve : String → String}
    (found : (attributeName? name <|> attributeName? (resolve name)) = some short) :
    ofAttribute? resolve ⟨name, arguments⟩ = ofAttribute? id ⟨attributeNamespace ++ short, arguments⟩ := by
  rw [ofAttribute?, ofAttribute?, found, attributeName?_append]
  rfl

theorem ofAttribute?_unsupported (foreign : short ∉ supported) :
    ofAttribute? id ⟨attributeNamespace ++ short, arguments⟩ = none := by
  simp only [supported, List.mem_cons, List.not_mem_nil, or_false, not_or] at foreign
  simp [ofAttribute?, foreign]

theorem ofAttribute?_supported (known : short ∈ supported) (given : short = "Test" ∨ arguments ≠ []) :
    (ofAttribute? id ⟨attributeNamespace ++ short, arguments⟩).isSome := by
  rcases given with rfl | given
  · simp [ofAttribute?]
  · obtain ⟨first, rest, rfl⟩ := List.exists_cons_of_ne_nil given
    simp only [supported, List.mem_cons, List.not_mem_nil, or_false] at known
    rcases known with rfl | rfl | rfl | rfl | rfl | rfl | rfl | rfl <;> simp [ofAttribute?]

/-- There are three backslashes in the namespace. -/
theorem IsAttributeName.count_eq (named : IsAttributeName name short) :
    name.toList.count '\\' = 3 + short.toList.count '\\' := by
  obtain ⟨space, same, rfl⟩ := named
  have three : (lower attributeNamespace.toList).count '\\' = 3 := by decide +kernel
  rw [String.toList_append, List.count_append, ← count_lower rfl, sameName_iff_lower.mp same, three]

/-- The namespace ends with a backslash. -/
theorem IsAttributeName.lastPiece_eq (named : IsAttributeName name short) :
    lastPiece '\\' name.toList = lastPiece '\\' short.toList := by
  obtain ⟨space, same, rfl⟩ := named
  have closed : lower attributeNamespace.toList = lower "PHPUnit\\Framework\\Attributes".toList ++ ['\\'] := by decide +kernel
  obtain ⟨front, last, split, -, lowered⟩ := List.map_eq_append_iff.mp ((sameName_iff_lower.mp same).trans closed)
  obtain rfl := (lower_eq_iff rfl).mp lowered
  rw [String.toList_append, split, List.append_assoc, List.singleton_append, lastPiece_append]

/-- The namespace does not start with a backslash. -/
theorem IsAttributeName.head?_ne (named : IsAttributeName name short) : name.toList.head? ≠ some '\\' := by
  obtain ⟨space, same, rfl⟩ := named
  intro marked
  obtain ⟨c, rest, split, lowered, -⟩ := List.map_eq_cons_iff.mp (sameName_iff_lower.mp same)
  rw [String.toList_append, split, List.cons_append, List.head?_cons, Option.some_inj] at marked
  rw [marked] at lowered
  exact absurd lowered (by decide)

end Test.Mark

/-! ## Names in scopes -/

namespace Discovery.Scope
open Source Test Code Text

variable {scope : Scope} {name reference full short : String} {arguments : List String}

/-- Whether an attribute counts under a name in the namespace of the attributes: it stands for this name in its scope, or spells
it out. -/
def CountsAs (scope : Scope) (reference short : String) : Prop :=
  short ∈ Mark.supported ∧
    ((∃ full, scope.Means reference full ∧ Mark.IsAttributeName full short) ∨ Mark.IsAttributeName reference short)

theorem countsAs_iff (filled : name ≠ "") : scope.CountsAs name short ↔ short ∈ Mark.supported ∧
    (Mark.attributeName? (scope.resolve name) = some short ∨ Mark.attributeName? name = some short) := by
  rw [Mark.attributeName?_eq_some_iff, Mark.attributeName?_eq_some_iff]
  refine and_congr_right fun _ => or_congr_left ?_
  constructor
  · rintro ⟨full, means, named⟩
    rwa [(means_iff filled).mp means]
  · exact fun named => ⟨_, (means_iff filled).mpr rfl, named⟩

/-- A name that is spelled out is led to nothing in the namespace but what it spells out. -/
theorem Means.short_eq {first rest : List Char} {own : String} (means : scope.Means (String.ofList (first ++ rest)) full)
    (starts : Starts first rest) (spelled : Mark.IsAttributeName (String.ofList (first ++ rest)) own)
    (led : Mark.IsAttributeName full short) (single : '\\' ∉ short.toList) : own = short := by
  obtain ⟨front, kept⟩ := means.suffix starts
  have marks := spelled.count_eq
  rw [String.toList_ofList, List.count_append, List.count_eq_zero_of_not_mem starts.2.1, Nat.zero_add] at marks
  have fewer := led.count_eq
  rw [← kept, List.count_append, List.count_eq_zero_of_not_mem single] at fewer
  have alone : '\\' ∉ own.toList := List.count_eq_zero.mp (by omega)
  obtain ⟨more, rfl⟩ : ∃ more, rest = '\\' :: more := by
    rcases starts.2.2 with rfl | marked
    · rw [List.count_nil] at marks
      omega
    · exact List.head?_eq_some_iff.mp marked
  have ownLast := spelled.lastPiece_eq
  have ledLast := led.lastPiece_eq
  rw [String.toList_ofList, lastPiece_append, lastPiece_eq_self alone] at ownLast
  rw [← kept, lastPiece_append, lastPiece_eq_self single] at ledLast
  exact String.toList_injective (ownLast.symm.trans ledLast)

/-- A name that is not full makes the mark that it counts for, and none if it does not count. -/
theorem ofAttribute?_resolve (filled : name ≠ "") (relative : name.toList.head? ≠ some '\\') :
    (∀ short, scope.CountsAs name short → Mark.ofAttribute? scope.resolve ⟨name, arguments⟩ =
        Mark.ofAttribute? id ⟨Mark.attributeNamespace ++ short, arguments⟩) ∧
      ((∀ short, ¬scope.CountsAs name short) → Mark.ofAttribute? scope.resolve ⟨name, arguments⟩ = none) := by
  constructor
  · rintro short ⟨known, led⟩
    refine Mark.ofAttribute?_eq ?_
    cases spelled : Mark.attributeName? name with
    | some own =>
      have isOwn := Mark.attributeName?_eq_some_iff.mp spelled
      have same : own = short := by
        rcases led with ⟨full, means, named⟩ | named
        · have plain : ∀ short ∈ Mark.supported, '\\' ∉ short.toList := by decide +kernel
          obtain ⟨first, rest, split, starts⟩ := exists_starts (mt String.toList_eq_nil_iff.mp filled) relative
          obtain rfl : name = String.ofList (first ++ rest) := by rw [← split, String.ofList_toList]
          exact means.short_eq starts isOwn named (plain short known)
        · exact Option.some_inj.mp (spelled.symm.trans (Mark.attributeName?_eq_some_iff.mpr named))
      exact congrArg some same
    | none =>
      obtain ⟨-, resolved | named⟩ := (countsAs_iff filled).mp ⟨known, led⟩
      · exact resolved
      · cases spelled.symm.trans named
  · intro foreign
    cases found : (Mark.attributeName? name <|> Mark.attributeName? (scope.resolve name)) with
    | none =>
      rw [Mark.ofAttribute?, found]
      rfl
    | some short =>
      rw [Mark.ofAttribute?_eq found]
      refine Mark.ofAttribute?_unsupported fun known => foreign short ((countsAs_iff filled).mpr ⟨known, ?_⟩)
      exact ((Option.orElse_eq_some _ _ _).mp found).symm.imp And.right id

/-- What a reference counts for, it counts for without the backslash in front. -/
theorem CountsAs.relative (written : IsReference reference) (counts : scope.CountsAs reference short) :
    scope.CountsAs (relativeName reference) short := by
  obtain ⟨-, -, -, -, plain | marked⟩ := written.relative
  · rwa [← plain]
  · obtain ⟨known, led⟩ := counts
    refine ⟨known, .inr ?_⟩
    rcases led with ⟨full, means, named⟩ | named
    · have absolute : reference = String.ofList ('\\' :: (relativeName reference).toList) := by
        rw [← marked, String.ofList_toList]
      have filled : reference ≠ "" := by
        rintro rfl
        cases marked
      rw [means_iff filled, absolute, resolve, resolveName_full, String.ofList_toList] at means
      rwa [means]
    · exact absurd (congrArg List.head? marked) named.head?_ne

theorem ofMarks_ne (mark : Mark) : Annotations.ofMarks [mark] ≠ {} := by
  cases mark <;> simp [Annotations.ofMarks, Annotations.add, appendNew]

/-- **Which attributes count.** An attribute makes the mark of the name that it counts for, whatever its scope imports and however
it is written. Any other attribute makes none, unless there is a backslash in front that it would count without. -/
theorem attributes_count_by_name (scope : Scope) (written : IsReference reference)
    (unblanked : trim reference.toList = reference.toList) {arguments : Option String}
    (closed : ∀ text ∈ arguments, Nesting.ClosesOwn text.toList) (extent : Option Extent) :
    let noted := Annotations.ofAttributes scope.resolve [AttributeGroup.ofText (attributeText reference arguments) extent]
    let values := Attribute.argumentsOf ((arguments.map String.toList).getD [])
    (∀ short, scope.CountsAs reference short →
      noted = Annotations.ofMarks (Mark.ofAttribute? id ⟨Mark.attributeNamespace ++ short, values⟩).toList ∧
        (short = "Test" ∨ values ≠ [] → noted ≠ {})) ∧
    ((∀ short, ¬scope.CountsAs reference short) →
      (reference.toList.head? = some '\\' → ∀ short, ¬scope.CountsAs (relativeName reference) short) → noted = {}) := by
  intro noted values
  have marks : noted = Annotations.ofMarks (Mark.ofAttribute? scope.resolve ⟨relativeName reference, values⟩).toList := by
    simp only [noted, values, Annotations.ofAttributes, List.flatMap_singleton,
      AttributeGroup.ofText_reference written unblanked closed extent, List.filterMap_cons, List.filterMap_nil]
    cases Mark.ofAttribute? scope.resolve _ <;> rfl
  obtain ⟨counted, uncounted⟩ := @ofAttribute?_resolve scope _ values written.relativeName_ne written.head?_relativeName
  constructor
  · intro short counts
    rw [marks, counted short (counts.relative written)]
    refine ⟨rfl, fun given => ?_⟩
    obtain ⟨mark, found⟩ := Option.isSome_iff_exists.mp (Mark.ofAttribute?_supported counts.1 given)
    rw [found]
    exact ofMarks_ne mark
  · intro foreign stripped
    rw [marks, uncounted]
    · rfl
    · obtain ⟨-, -, -, -, plain | marked⟩ := written.relative
      · rwa [← plain]
      · exact stripped (congrArg List.head? marked)

private def aliasScope : Scope where
  space := some "App"
  imports := ⟨[("checks", "phpunit\\Framework\\Attributes\\Test"), ("test", "PHPUnit\\Framework\\Attributes\\Test")]⟩

/-- An attribute counts under another name that it is imported by. -/
theorem alias_counts :
    aliasScope.CountsAs "Checks" "Test" ∧
    Annotations.ofAttributes aliasScope.resolve [AttributeGroup.ofText "#[Checks()]" none] = { isTest := true } := by
  have written : IsReference "Checks" := ⟨["Checks".toList], List.cons_ne_nil _ _, by decide +kernel, .inl (by decide +kernel)⟩
  have resolved : Mark.attributeName? (aliasScope.resolve "Checks") = some "Test" := by cbv
  have counts : aliasScope.CountsAs "Checks" "Test" := (countsAs_iff (by decide)).mpr ⟨by decide, .inl resolved⟩
  have closed : ∀ text ∈ some "", Nesting.ClosesOwn text.toList := by
    rintro text ⟨⟩
    decide +kernel
  obtain ⟨noted, -⟩ := (attributes_count_by_name aliasScope written (by decide +kernel) closed none).1 "Test" counts
  have text : attributeText "Checks" (some "") = "#[Checks()]" := by decide +kernel
  rw [text] at noted
  exact ⟨counts, noted.trans (by simp [Mark.ofAttribute?, Annotations.ofMarks, Annotations.add])⟩

/-- A name in full is taken for the import of the same name, and so is a name with a blank in front that is no blank for the
language. Neither stands for an attribute with a meaning for tests. -/
theorem foreign_attributes_count :
    (∀ short, ¬aliasScope.CountsAs "\\Test" short) ∧
    Annotations.ofAttributes aliasScope.resolve [AttributeGroup.ofText "#[\\Test]" none] = { isTest := true } ∧
    IsReference "\u3000Test" ∧ (∀ short, ¬aliasScope.CountsAs "\u3000Test" short) ∧
    Annotations.ofAttributes aliasScope.resolve [AttributeGroup.ofText "#[\u3000Test]" none] = { isTest := true } := by
  have foreign : ∀ name, name ≠ "" → Mark.attributeName? (aliasScope.resolve name) = none → Mark.attributeName? name = none →
      ∀ short, ¬aliasScope.CountsAs name short := by
    intro name filled resolved spelled short counts
    have names := ((countsAs_iff filled).mp counts).2
    rw [resolved, spelled] at names
    exact names.elim nofun nofun
  refine ⟨foreign _ (by decide) (by cbv) (by cbv), by cbv, ?_, foreign _ (by decide) (by cbv) (by cbv), by cbv⟩
  exact ⟨["\u3000Test".toList], List.cons_ne_nil _ _, by decide +kernel, .inl (by decide +kernel)⟩

end Discovery.Scope

end TestScout
