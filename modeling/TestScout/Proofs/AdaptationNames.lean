import Mathlib
import TestScout.Discovery.Scope
import TestScout.Proofs.ClassReferences

/-! Which traits the clauses of a class name once they have been read from their texts. A clause is cut into words at its
blanks, and a reference loses the backslash in front of it there. The scope of the class therefore takes a full name for one
that is meant from the namespace on, unless the scope leads both to the same name. -/

namespace TestScout.Code
open Text

variable {reference method : String}

/-! ## Reading a clause -/

namespace Adaptation

/-- The clause by which a class takes a method from one trait instead of others. -/
def insteadOfText (reference method : String) (others : List String) : String :=
  reference ++ "::" ++ method ++ " insteadof " ++ ", ".intercalate others

/-- The clause by which a class gives a method of a trait a further name. -/
def asText (reference method newName : String) : String := reference ++ "::" ++ method ++ " as " ++ newName

/-- The first word of a clause. -/
def target (reference method : String) : List Char := reference.toList ++ (':' :: [':'] ++ method.toList)

theorem target_solid (written : IsReference reference) (unbroken : ∀ c ∈ reference.toList, isBlank c = false)
    (isWord : IsWord method.toList) (whole : ∀ c ∈ method.toList, isBlank c = false) : Solid (target reference method) := by
  have colons : ∀ c ∈ [':', ':'], isBlank c = false ∧ c ≠ ';' := by simp [isBlank]
  apply (written.solid unbroken).append
  intro c member
  rcases List.mem_append.mp member with before | inside
  · exact colons c before
  · exact (isWord.solid whole).2 c inside

theorem reference_target (written : IsReference reference) (method : String) :
    Adaptation.reference (target reference method) = (some (relativeName reference), method) := by
  have absent : ':' ∉ reference.toList := fun member => written.ne_of_mem member rfl (by decide) rfl
  rw [Adaptation.reference, target, splitOnce_append absent]
  simp only [String.ofList_toList]

theorem insteadOfNames_eq {others : List String} {tokens : List (List Char)} (filled : others ≠ [])
    (written : ∀ other ∈ others, IsReference other) (unbroken : ∀ other ∈ others, ∀ c ∈ other.toList, isBlank c = false)
    (same : [' '].intercalate tokens = [',', ' '].intercalate (others.map String.toList)) :
    insteadOfNames tokens = others.map relativeName := by
  have solid : ∀ name ∈ others.map String.toList, Solid name ∧ ',' ∉ name := by
    intro name member
    obtain ⟨other, inside, rfl⟩ := List.mem_map.mp member
    have written := written other inside
    exact ⟨written.solid (unbroken other inside), fun comma => written.ne_of_mem comma rfl (by decide) rfl⟩
  have pieces : (splitAt (· == ',') ([] ++ [',', ' '].intercalate (others.map String.toList))).map trim = _ :=
    map_trim_splitAt (mt List.map_eq_nil_iff.mp filled) solid nofun
  have names : ((splitAt (· == ',') ([' '].intercalate tokens)).map fun name => relativeName (String.ofList (trim name))) =
      others.map relativeName := by
    calc
      _ = ((splitAt (· == ',') ([] ++ [',', ' '].intercalate (others.map String.toList))).map trim).map
          fun name => relativeName (String.ofList name) := by
        rw [List.map_map, List.nil_append, ← same]
        rfl
      _ = others.map relativeName := by
        rw [pieces, List.map_map]
        exact List.map_congr_left fun other _ => congrArg relativeName String.ofList_toList
  rw [insteadOfNames, names, List.filter_eq_self]
  intro name member
  obtain ⟨other, inside, rfl⟩ := List.mem_map.mp member
  simpa using (written other inside).relativeName_ne

private theorem toLower_insteadof : "insteadof".toLower = "insteadof" := String.toList_injective (by decide +kernel)

private theorem toLower_as : "as".toLower = "as" := String.toList_injective (by decide +kernel)

section

variable (written : IsReference reference) (unbroken : ∀ c ∈ reference.toList, isBlank c = false)
  (isWord : IsWord method.toList) (whole : ∀ c ∈ method.toList, isBlank c = false)
include written unbroken isWord whole

/-- Of each reference a clause keeps what is left without a backslash in front. -/
theorem ofText?_insteadOfText {others : List String} (filled : others ≠ []) (others_written : ∀ other ∈ others, IsReference other)
    (others_unbroken : ∀ other ∈ others, ∀ c ∈ other.toList, isBlank c = false) :
    ofText? (insteadOfText reference method others) =
      some (.precedence (relativeName reference) method (others.map relativeName)) := by
  have names_solid : ∀ name ∈ others.map String.toList, Solid name := by
    intro name member
    obtain ⟨other, inside, rfl⟩ := List.mem_map.mp member
    exact (others_written other inside).solid (others_unbroken other inside)
  obtain ⟨tokens, some_tokens, tokens_solid, same⟩ := exists_tokens (mt List.map_eq_nil_iff.mp filled) names_solid
  have text : (insteadOfText reference method others).toList =
      [' '].intercalate (target reference method :: "insteadof".toList :: tokens) := by
    obtain ⟨token, rest, rfl⟩ := List.exists_cons_of_ne_nil some_tokens
    rw [List.intercalate_cons_cons, List.intercalate_cons_cons, same]
    simp [insteadOfText, target, String.toList_intercalate]
  have solid : ∀ token ∈ target reference method :: "insteadof".toList :: tokens, Solid token := by
    refine List.forall_mem_cons.mpr ⟨target_solid written unbroken isWord whole, List.forall_mem_cons.mpr ⟨?_, tokens_solid⟩⟩
    exact ⟨by decide, by simp [isBlank]⟩
  simp only [ofText?, text, trim_intercalate (List.cons_ne_nil _ _) solid, words_intercalate solid, reference_target written,
    String.ofList_toList, toLower_insteadof, insteadOfNames_eq filled others_written others_unbroken same, Option.map_some]

theorem ofText?_asText {newName : String} (named : IsWord newName.toList) (closed : ∀ c ∈ newName.toList, isBlank c = false) :
    ofText? (asText reference method newName) =
      some (.rename (some (relativeName reference)) method (renamed [newName]).1 (renamed [newName]).2) := by
  have text : (asText reference method newName).toList =
      [' '].intercalate [target reference method, "as".toList, newName.toList] := by
    rw [List.intercalate_cons_cons, List.intercalate_cons_cons, List.intercalate_singleton]
    simp [asText, target]
  have solid : ∀ token ∈ [target reference method, "as".toList, newName.toList], Solid token := by
    refine List.forall_mem_cons.mpr ⟨target_solid written unbroken isWord whole, List.forall_mem_cons.mpr ⟨?_, ?_⟩⟩
    · exact ⟨by decide, by simp [isBlank]⟩
    · exact List.forall_mem_singleton.mpr (named.solid closed)
  simp only [ofText?, text, trim_intercalate (List.cons_ne_nil _ _) solid, words_intercalate solid, reference_target written,
    String.ofList_toList, toLower_as, List.map_cons, List.map_nil]

end

theorem renamed_singleton {newName : String} (name : Visibility.ofWord? newName = none) :
    renamed [newName] = (some newName, none) := by
  simp [renamed, name]

end Adaptation

end TestScout.Code

namespace TestScout.Discovery.Scope
open Code Adaptation

variable {scope : Scope} {reference : String}

/-- A reference means the same to a scope with and without a backslash in front, unless the backslash is there and the scope
leads the rest elsewhere. -/
theorem resolve_relativeName (written : IsReference reference)
    (reached : reference.toList.head? = some '\\' → scope.resolve (relativeName reference) = relativeName reference) :
    scope.resolve (relativeName reference) = scope.resolve reference := by
  obtain ⟨-, -, -, -, text⟩ := written.relative
  rcases text with plain | marked
  · rw [← plain]
  · rw [reached (by rw [marked]; rfl), Scope.resolve, resolveName, marked]
    exact String.ofList_toList.symm

/-- The clauses of a class name the traits that they are written for, under the names that the traits of the class go by. This
holds for names without blanks beyond ASCII, and for references with a backslash in front when the scope leads the rest to
the same name. -/
theorem adaptations_name_their_traits (scope : Scope) (reference method newName : String) (others : List String)
    (filled : others ≠ []) (written : ∀ name ∈ reference :: others, IsReference name)
    (isWord : IsWord method.toList) (named : IsWord newName.toList)
    (unbroken : ∀ name ∈ method :: newName :: reference :: others, ∀ c ∈ name.toList, Text.isBlank c = false)
    (reached : ∀ name ∈ reference :: others, name.toList.head? = some '\\' →
      scope.resolve (relativeName name) = relativeName name) :
    (ofText? (insteadOfText reference method others)).map scope.resolveAdaptation =
        some (.precedence (scope.resolve reference) method (others.map scope.resolve)) ∧
      (∃ given visibility, (ofText? (asText reference method newName)).map scope.resolveAdaptation =
          some (.rename (some (scope.resolve reference)) method given visibility) ∧
        (Visibility.ofWord? newName = none → given = some newName ∧ visibility = none)) ∧
      ∀ (file : Path) (name : String) (body : List Node) (node : TraitUse), .traitUse node ∈ body → reference ∈ node.traits →
        ∀ clause ∈ node.adaptations, ofText? (insteadOfText reference method others) = some clause →
          ∃ ofTrait ∈ (scope.infoOf file name body).traits,
            .precedence ofTrait method (others.map scope.resolve) ∈ (scope.infoOf file name body).adaptations := by
  obtain ⟨reference_written, others_written⟩ := List.forall_mem_cons.mp written
  obtain ⟨reference_reached, others_reached⟩ := List.forall_mem_cons.mp reached
  obtain ⟨method_unbroken, newName_unbroken, reference_unbroken, others_unbroken⟩ :
      (∀ c ∈ method.toList, Text.isBlank c = false) ∧ (∀ c ∈ newName.toList, Text.isBlank c = false) ∧
        (∀ c ∈ reference.toList, Text.isBlank c = false) ∧ ∀ other ∈ others, ∀ c ∈ other.toList, Text.isBlank c = false := by
    simpa only [List.forall_mem_cons] using unbroken
  have own : scope.resolve (relativeName reference) = scope.resolve reference :=
    resolve_relativeName reference_written reference_reached
  have all : (others.map relativeName).map scope.resolve = others.map scope.resolve := by
    rw [List.map_map]
    exact List.map_congr_left fun other inside => resolve_relativeName (others_written other inside) (others_reached other inside)
  have preferred : (ofText? (insteadOfText reference method others)).map scope.resolveAdaptation =
      some (.precedence (scope.resolve reference) method (others.map scope.resolve)) := by
    rw [ofText?_insteadOfText reference_written reference_unbroken isWord method_unbroken filled others_written others_unbroken,
      Option.map_some, resolveAdaptation, own, all]
  refine ⟨preferred, ?_, ?_⟩
  · refine ⟨(renamed [newName]).1, (renamed [newName]).2, ?_, fun name => ?_⟩
    · rw [ofText?_asText reference_written reference_unbroken isWord method_unbroken named newName_unbroken, Option.map_some,
        resolveAdaptation, Option.map_some, own]
    · rw [renamed_singleton name]
      exact ⟨rfl, rfl⟩
  · intro file name body node used listed clause kept read
    have inside : node ∈ body.filterMap traitUse? := List.mem_filterMap.mpr ⟨_, used, rfl⟩
    refine ⟨scope.resolve reference, List.mem_flatMap.mpr ⟨node, inside, List.mem_map_of_mem listed⟩, ?_⟩
    rw [read, Option.map_some, Option.some_inj] at preferred
    exact List.mem_flatMap.mpr ⟨node, inside, preferred ▸ List.mem_map_of_mem kept⟩

/-- Inside of a namespace that imports two classes, one of them under its own name. -/
private def parlour : Scope := { space := some "App", imports := ⟨[("greets", "Lib\\Greets"), ("hall", "Hall")]⟩ }

/-- An imported trait is preferred to a nested one and to one without a namespace, which is imported, too. -/
theorem parlour_prefers_import :
    (ofText? "Greets::hello insteadof sub\\Sells, \\Hall").map parlour.resolveAdaptation =
        some (.precedence "Lib\\Greets" "hello" ["App\\sub\\Sells", "Hall"]) ∧
      (ofText? "Greets::hello as welcome").map parlour.resolveAdaptation =
        some (.rename (some "Lib\\Greets") "hello" (some "welcome") none) := by
  have greets : parlour.resolve "Greets" = "Lib\\Greets" := by cbv
  have sells : parlour.resolve "sub\\Sells" = "App\\sub\\Sells" := by cbv
  have hall : parlour.resolve "\\Hall" = "Hall" := by cbv
  have written : ∀ name ∈ ["Greets", "sub\\Sells", "\\Hall"], IsReference name := by
    simp only [List.forall_mem_cons, List.not_mem_nil, false_imp_iff, implies_true, and_true]
    exact ⟨⟨["Greets".toList], by decide, by decide, .inl rfl⟩, ⟨["sub".toList, "Sells".toList], by decide, by decide, .inl rfl⟩,
      ⟨["Hall".toList], by decide, by decide, .inr rfl⟩⟩
  have reached : ∀ name ∈ ["Greets", "sub\\Sells", "\\Hall"], name.toList.head? = some '\\' →
      parlour.resolve (relativeName name) = relativeName name := by
    simp only [List.forall_mem_cons, List.not_mem_nil, false_imp_iff, implies_true, and_true]
    exact ⟨by decide, by decide, fun _ => by cbv⟩
  obtain ⟨preferred, ⟨given, visibility, further, plain⟩, -⟩ := adaptations_name_their_traits parlour "Greets" "hello" "welcome"
    ["sub\\Sells", "\\Hall"] (by decide) written (by decide) (by decide) (by simp [Text.isBlank]) reached
  obtain ⟨rfl, rfl⟩ := plain (by cbv)
  simp only [List.map_cons, List.map_nil, greets, sells, hall] at preferred further
  exact ⟨preferred, further⟩

/-- Inside of a namespace without imports. -/
private def cellar : Scope := { space := some "App" }

/-- A trait without a namespace is taken for one of the namespace, and one whose name has a blank beyond ASCII for none. -/
theorem cellar_mistakes_traits :
    (∀ name ∈ ["\\Greets", "Gre\u3000ets", "Sells"], IsReference name) ∧ cellar.resolve "\\Greets" = "Greets" ∧
      (ofText? (insteadOfText "\\Greets" "hello" ["Sells"])).map cellar.resolveAdaptation =
        some (.precedence "App\\Greets" "hello" ["App\\Sells"]) ∧
      (ofText? (asText "\\Greets" "hello" "welcome")).map cellar.resolveAdaptation =
        some (.rename (some "App\\Greets") "hello" (some "welcome") none) ∧
      ofText? (insteadOfText "Gre\u3000ets" "hello" ["Sells"]) = none := by
  refine ⟨?_, by cbv, by cbv, by cbv, by cbv⟩
  simp only [List.forall_mem_cons, List.not_mem_nil, false_imp_iff, implies_true, and_true]
  exact ⟨⟨["Greets".toList], by decide, by decide, .inr rfl⟩, ⟨["Gre\u3000ets".toList], by decide, by decide, .inl rfl⟩,
    ⟨["Sells".toList], by decide, by decide, .inl rfl⟩⟩

end TestScout.Discovery.Scope
