import Mathlib.Data.List.Infix
import TestScout.Discovery.Scope
import TestScout.Proofs.TextWords

/-! What a name of a class stands for. A name with a backslash in front is full. Any other name is led to an imported class by
its first segment, or else to the namespace that it is written in. -/

namespace TestScout
open Text

/-- A name in full means the same everywhere. -/
theorem resolveName_full (space : Option String) (imports : Imports) (rest : List Char) :
    resolveName space imports (String.ofList ('\\' :: rest)) = String.ofList rest := by
  rw [resolveName, String.toList_ofList]
  rfl

/-- Whether a name starts with one segment, behind which it ends or goes on with a backslash. -/
def Starts (first rest : List Char) : Prop := first ≠ [] ∧ '\\' ∉ first ∧ (rest = [] ∨ rest.head? = some '\\')

theorem exists_starts {text : List Char} (filled : text ≠ []) (relative : text.head? ≠ some '\\') :
    ∃ first rest, text = first ++ rest ∧ Starts first rest := by
  by_cases marked : '\\' ∈ text
  · obtain ⟨first, rest, rfl, single⟩ := List.eq_append_cons_of_mem marked
    refine ⟨first, '\\' :: rest, rfl, ?_, single, .inr rfl⟩
    rintro rfl
    exact relative rfl
  · exact ⟨text, [], (List.append_nil _).symm, filled, marked, .inl rfl⟩

namespace Discovery.Scope

variable {scope : Scope} {name full : String}

/-- What a name stands for in a scope. -/
inductive Means (scope : Scope) : String → String → Prop
  | absolute (rest : List Char) : scope.Means (String.ofList ('\\' :: rest)) (String.ofList rest)
  | imported {first rest : List Char} {full : String} (starts : Starts first rest)
    (found : scope.imports.find? (String.ofList first).toLower = some full) :
    scope.Means (String.ofList (first ++ rest)) (full ++ String.ofList rest)
  | here {first rest : List Char} (starts : Starts first rest)
    (unknown : scope.imports.find? (String.ofList first).toLower = none) :
    scope.Means (String.ofList (first ++ rest)) (scope.qualify (String.ofList (first ++ rest)))

/-- A name that starts with a segment is led on by the import of this segment. -/
theorem resolve_append {first rest : List Char} (starts : Starts first rest) :
    scope.resolve (String.ofList (first ++ rest)) =
      ((scope.imports.find? (String.ofList first).toLower).map (· ++ String.ofList rest)).getD
        (scope.qualify (String.ofList (first ++ rest))) := by
  obtain ⟨filled, single, behind⟩ := starts
  rw [resolve, resolveName, String.toList_ofList]
  split
  next more same =>
    obtain ⟨c, others, rfl⟩ := List.exists_cons_of_ne_nil filled
    obtain ⟨rfl, -⟩ := List.cons.inj same
    exact absurd List.mem_cons_self single
  next =>
    rcases behind with rfl | marked
    · rw [List.append_nil, splitOnce_eq_none single]
      cases scope.imports.find? (String.ofList first).toLower with
      | none => rfl
      | some full => exact String.append_empty.symm
    · obtain ⟨rest, rfl⟩ := List.head?_eq_some_iff.mp marked
      have split : splitOnce ['\\'] (first ++ '\\' :: rest) = some (first, rest) := splitOnce_append single
      have marked : "\\" ++ String.ofList rest = String.ofList ('\\' :: rest) := String.ofList_append.symm
      simp only [split]
      cases scope.imports.find? (String.ofList first).toLower with
      | none => rfl
      | some full => exact String.append_assoc.trans (congrArg _ marked)

theorem means_iff (filled : name ≠ "") : scope.Means name full ↔ scope.resolve name = full := by
  constructor
  · intro means
    cases means with
    | absolute rest => exact resolveName_full _ _ rest
    | imported starts found => rw [resolve_append starts, found]; rfl
    | here starts unknown => rw [resolve_append starts, unknown]; rfl
  · rintro rfl
    obtain ⟨text, rfl⟩ : ∃ text, name = String.ofList text := ⟨name.toList, String.ofList_toList.symm⟩
    by_cases relative : text.head? = some '\\'
    · obtain ⟨rest, rfl⟩ := List.head?_eq_some_iff.mp relative
      rw [resolve, resolveName_full]
      exact .absolute rest
    · obtain ⟨first, rest, rfl, starts⟩ := exists_starts (fun empty => filled (congrArg String.ofList empty)) relative
      rw [resolve_append starts]
      cases found : scope.imports.find? (String.ofList first).toLower with
      | none => exact .here starts found
      | some full => exact .imported starts found

/-- Of a name that is not full, what follows the first segment is kept. -/
theorem Means.suffix {first rest : List Char} (means : scope.Means (String.ofList (first ++ rest)) full)
    (starts : Starts first rest) : rest <:+ full.toList := by
  have filled : String.ofList (first ++ rest) ≠ "" := by
    intro empty
    have none := congrArg String.toList empty
    rw [String.toList_ofList] at none
    exact starts.1 (List.append_eq_nil_iff.mp none).1
  rw [means_iff filled, resolve_append starts] at means
  subst means
  cases scope.imports.find? (String.ofList first).toLower with
  | some full => exact ⟨full.toList, by simp⟩
  | none =>
    show rest <:+ (TestScout.qualify scope.space (String.ofList (first ++ rest))).toList
    have own : rest <:+ (String.ofList (first ++ rest)).toList := ⟨first, String.toList_ofList.symm⟩
    unfold TestScout.qualify
    split
    · split
      · exact own
      · exact own.trans ⟨_, String.toList_append.symm⟩
    · exact own

end Discovery.Scope

end TestScout
