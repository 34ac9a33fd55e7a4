import TestScout.Code.Tree
import TestScout.Proofs.TextWords
import TestScout.Surface.Lenient.Lexer

/-! How classes and traits are referred to: by names with backslashes between them, and with one in front of a name that is
full. -/

namespace TestScout.Code
open Text Surface.Lenient.Lexer

/-- A name of one segment, as the language allows it. -/
def IsWord (word : List Char) : Prop :=
  ∃ first rest, word = first :: rest ∧ isNameStart first = true ∧ ∀ c ∈ rest, isNamePart c = true

instance : DecidablePred IsWord
  | [] => isFalse fun ⟨_, _, empty, _⟩ => nomatch empty
  | first :: rest => decidable_of_iff (isNameStart first = true ∧ rest.all isNamePart = true) (by simp [IsWord])

/-- A reference to a class or a trait: one segment or several, with or without a backslash in front. -/
def IsReference (reference : String) : Prop :=
  ∃ segments : List (List Char), segments ≠ [] ∧ (∀ segment ∈ segments, IsWord segment) ∧
    (reference.toList = ['\\'].intercalate segments ∨ reference.toList = '\\' :: ['\\'].intercalate segments)

theorem isNamePart_of_mem {word : List Char} (isWord : IsWord word) {c : Char} (member : c ∈ word) : isNamePart c = true := by
  obtain ⟨first, rest, rfl, start, parts⟩ := isWord
  rcases List.mem_cons.mp member with rfl | later
  · rw [isNamePart, start, Bool.true_or]
  · exact parts c later

theorem ne_of_isNamePart {c other : Char} (part : isNamePart c = true) (foreign : isNamePart other = false) : c ≠ other := by
  rintro rfl
  rw [part] at foreign
  cases foreign

theorem head?_intercalate {segments : List (List Char)} (filled : segments ≠ []) (isWord : ∀ segment ∈ segments, IsWord segment)
    (mark : Char) : ∃ first ∈ ([mark].intercalate segments).head?, isNameStart first = true := by
  cases segments with
  | nil => exact absurd rfl filled
  | cons segment rest =>
    obtain ⟨first, others, rfl, start, -⟩ := isWord segment List.mem_cons_self
    cases rest with
    | nil => exact ⟨first, by simp, start⟩
    | cons second rest => exact ⟨first, by simp [List.intercalate_cons_cons], start⟩

variable {reference method : String}

/-- A reference is made of names, and of at most one backslash in front of them. -/
theorem IsReference.relative (written : IsReference reference) : ∃ segments : List (List Char), segments ≠ [] ∧
    (∀ segment ∈ segments, IsWord segment) ∧ (relativeName reference).toList = ['\\'].intercalate segments ∧
      (reference = relativeName reference ∨ reference.toList = '\\' :: (relativeName reference).toList) := by
  obtain ⟨segments, filled, isWord, text⟩ := written
  obtain ⟨first, head, start⟩ := head?_intercalate filled isWord '\\'
  have full : (['\\'].intercalate segments).dropWhile (· == '\\') = ['\\'].intercalate segments := by
    obtain ⟨rest, split⟩ := List.head?_eq_some_iff.mp head
    have other : first ≠ '\\' := by
      rintro rfl
      exact absurd start (by decide)
    rw [split]
    exact List.dropWhile_cons_of_neg (by simpa using other)
  refine ⟨segments, filled, isWord, ?_⟩
  rcases text with plain | marked
  · have same : (relativeName reference).toList = ['\\'].intercalate segments := by
      rw [relativeName, String.toList_ofList, plain, full]
    exact ⟨same, .inl (String.toList_injective (plain.trans same.symm))⟩
  · have same : (relativeName reference).toList = ['\\'].intercalate segments := by
      rw [relativeName, String.toList_ofList, marked, List.dropWhile_cons_of_pos rfl, full]
    exact ⟨same, .inr (marked.trans (by rw [same]))⟩

theorem IsReference.relativeName_ne (written : IsReference reference) : relativeName reference ≠ "" := by
  obtain ⟨segments, filled, isWord, same, -⟩ := written.relative
  obtain ⟨first, head, -⟩ := head?_intercalate filled isWord '\\'
  intro empty
  rw [← same, empty] at head
  cases head

theorem IsReference.head?_relativeName (written : IsReference reference) : (relativeName reference).toList.head? ≠ some '\\' := by
  obtain ⟨segments, filled, isWord, same, -⟩ := written.relative
  obtain ⟨first, head, start⟩ := head?_intercalate filled isWord '\\'
  rw [same, Option.mem_def.mp head]
  rintro ⟨⟩
  exact absurd start (by decide)

theorem IsReference.mark_or_part (written : IsReference reference) {c : Char} (member : c ∈ reference.toList) :
    c = '\\' ∨ isNamePart c = true := by
  obtain ⟨segments, -, isWord, same, text⟩ := written.relative
  have inside : c ∈ (relativeName reference).toList → c = '\\' ∨ isNamePart c = true := by
    intro member
    rw [same] at member
    exact (mem_intercalate member).imp_right fun ⟨segment, listed, found⟩ => isNamePart_of_mem (isWord segment listed) found
  rcases text with plain | marked
  · rw [plain] at member
    exact inside member
  · rw [marked] at member
    exact (List.mem_cons.mp member).elim .inl inside

theorem IsReference.ne_of_mem (written : IsReference reference) {c other : Char} (member : c ∈ reference.toList)
    (foreign : isNamePart other = false) (apart : other ≠ '\\') : c ≠ other := by
  rcases written.mark_or_part member with rfl | part
  · exact apart.symm
  · exact ne_of_isNamePart part foreign

theorem IsReference.solid (written : IsReference reference) (unbroken : ∀ c ∈ reference.toList, isBlank c = false) :
    Solid reference.toList := by
  refine ⟨fun empty => written.relativeName_ne ?_, fun c member => ⟨unbroken c member, written.ne_of_mem member rfl (by decide)⟩⟩
  rw [relativeName, empty]
  rfl

theorem IsWord.solid {word : List Char} (isWord : IsWord word) (unbroken : ∀ c ∈ word, isBlank c = false) : Solid word := by
  refine ⟨?_, fun c member => ⟨unbroken c member, ne_of_isNamePart (isNamePart_of_mem isWord member) rfl⟩⟩
  obtain ⟨first, rest, rfl, -⟩ := isWord
  exact List.cons_ne_nil first rest

end TestScout.Code
