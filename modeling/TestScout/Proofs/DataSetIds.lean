import Mathlib.Data.List.Infix
import TestScout.Proofs.DataSetGrammar

/-! The ids of data sets. The phrase in front of a key overlaps with itself by nothing but the blank at its ends, and no
key starts like the phrase goes on, so the id of a test and a key can be told from the id of the data set. -/

namespace TestScout.Test

/-- An id that cannot be mistaken for the one of a data set. -/
def Plain (id : String) : Prop := ¬dataSetPhrase.toList <:+: id.toList

instance (id : String) : Decidable (Plain id) := inferInstanceAs (Decidable ¬_)

/-- What a runner can name a data set by. -/
def IsKey (key : String) : Prop := isDataSetKey key.toList = true

instance (key : String) : Decidable (IsKey key) := inferInstanceAs (Decidable (_ = true))

theorem isKey_of_dataSetKey? {name key : String} (found : dataSetKey? name = some key) : IsKey key := by
  obtain ⟨-, ⟨-, form⟩, -⟩ := keyOf?_eq_some_iff.mp (dataSetKey?_eq_some_iff.mp found)
  exact isDataSetKey_iff.mpr form

private theorem head?_of_isDataSetKey {key : List Char} (isKey : isDataSetKey key = true) :
    key.head? = some '#' ∨ key.head? = some '"' := by
  unfold isDataSetKey at isKey
  split at isKey
  · exact .inl rfl
  · exact .inr rfl
  · cases isKey

private theorem phrase_overlap : ∀ rest ∈ dataSetPhrase.toList.tails,
    rest = [] ∨ rest.head? ≠ some ' ' ∨ rest = [' '] ∨ rest[1]? ≠ some 'w' := by decide

/-- A second phrase in an id of a data set would start inside of the id of the test. -/
private theorem eq_nil_of_phrase {id between first second : List Char} (plain : ¬dataSetPhrase.toList <:+: id ++ between)
    (isKey : isDataSetKey first = true)
    (same : ' ' :: dataSetPhrase.toList ++ first = between ++ ' ' :: dataSetPhrase.toList ++ second) : between = [] := by
  cases between with
  | nil => rfl
  | cons c front =>
    exfalso
    obtain ⟨rfl, inner⟩ : ' ' = c ∧ dataSetPhrase.toList ++ first = front ++ (' ' :: dataSetPhrase.toList ++ second) := by
      simpa using same
    rcases List.append_eq_append_iff.mp inner with ⟨rest, whole, -⟩ | ⟨rest, split, goesOn⟩
    · refine plain ⟨id ++ [' '], rest, ?_⟩
      rw [whole]
      simp
    · have tail : rest ∈ dataSetPhrase.toList.tails := (List.mem_tails _ _).mpr ⟨front, split.symm⟩
      have head : first.head? ≠ some ' ' ∧ first.head? ≠ some 'w' := by
        rcases head?_of_isDataSetKey isKey with hash | quote
        · simp [hash]
        · simp [quote]
      -- What is left of the first phrase, and the key behind it, would have to be the beginning of the second phrase.
      have begins : ' ' :: 'w' :: (dataSetPhrase.toList.tail ++ second) = rest ++ first := goesOn
      have overlap := phrase_overlap rest tail
      match rest with
      | [] =>
        rw [List.nil_append] at begins
        simp [← begins] at head
      | [d] =>
        rw [List.singleton_append, List.cons.injEq] at begins
        simp [← begins.2] at head
      | d :: e :: more =>
        simp only [List.cons_append, List.cons.injEq] at begins
        simp [← begins.1, ← begins.2.1] at overlap

/-- Different tests or different keys have data sets with different ids. -/
theorem eq_of_dataSetChild_id {first second : Definition} {key other : String} (plain : Plain first.id) (clear : Plain second.id)
    (isKey : IsKey key) (known : IsKey other) (same : (first.dataSetChild key).id = (second.dataSetChild other).id) :
    first.id = second.id ∧ key = other := by
  rw [Plain] at plain clear
  have texts : first.id.toList ++ (' ' :: dataSetPhrase.toList ++ key.toList) =
      second.id.toList ++ (' ' :: dataSetPhrase.toList ++ other.toList) := by
    have equal := congrArg String.toList same
    simpa [Definition.dataSetChild] using equal
  have ids : first.id.toList = second.id.toList := by
    rcases List.append_eq_append_iff.mp texts with ⟨between, longer, rest⟩ | ⟨between, longer, rest⟩
    · have none := eq_nil_of_phrase (longer ▸ clear) isKey (by simpa using rest)
      rw [longer, none, List.append_nil]
    · have none := eq_nil_of_phrase (longer ▸ plain) known (by simpa using rest)
      rw [longer, none, List.append_nil]
  rw [ids] at texts
  have keys := List.append_cancel_left (List.append_cancel_left texts)
  exact ⟨String.toList_injective ids, String.toList_injective keys⟩

end TestScout.Test
