import TestScout.Test.DataSet

/-! The names by which a runner tells of data sets. Such a name ends in a key behind a fixed phrase. The phrase may come up
more than once, also inside of a label, and then the first one that a key follows counts. A key goes on to the end of the
name, so the phrase alone decides where it starts. -/

namespace TestScout.Test

/-- The forms of keys: a number in decimal digits behind a hash mark, and a label on one line in double quotes. -/
inductive KeyForm : List Char → Prop
  | number {digits : List Char} (filled : digits ≠ []) (decimal : ∀ c ∈ digits, Text.isDigit c = true) : KeyForm ('#' :: digits)
  | label {text : List Char} (quoted : 2 ≤ text.length) (opened : text.head? = some '"') (closed : text.getLast? = some '"')
      (line : '\n' ∉ text) : KeyForm text

theorem isDataSetKey_iff {text : List Char} : isDataSetKey text = true ↔ KeyForm text := by
  constructor
  · intro isKey
    unfold isDataSetKey at isKey
    split at isKey
    next digits =>
      rw [Bool.and_eq_true, Bool.not_eq_true', List.isEmpty_eq_false_iff, List.all_eq_true] at isKey
      exact .number isKey.1 isKey.2
    next rest =>
      rw [Bool.and_eq_true, beq_iff_eq, Bool.not_eq_true', ← Bool.not_eq_true, List.contains_iff_mem] at isKey
      obtain ⟨last, line⟩ := isKey
      cases rest with
      | nil => cases last
      | cons c rest =>
        refine .label (Nat.le_add_left 2 rest.length) rfl (by rwa [List.getLast?_cons_cons]) ?_
        exact List.not_mem_cons_of_ne_of_not_mem (by decide) line
    · cases isKey
  · rintro (⟨filled, decimal⟩ | ⟨quoted, opened, closed, line⟩)
    · rw [isDataSetKey, Bool.and_eq_true, Bool.not_eq_true', List.isEmpty_eq_false_iff, List.all_eq_true]
      exact ⟨filled, decimal⟩
    · obtain ⟨rest, rfl⟩ := List.head?_eq_some_iff.mp opened
      cases rest with
      | nil => exact absurd quoted (by decide)
      | cons c rest =>
        rw [List.getLast?_cons_cons] at closed
        rw [isDataSetKey, Bool.and_eq_true, beq_iff_eq, Bool.not_eq_true', ← Bool.not_eq_true, List.contains_iff_mem]
        exact ⟨closed, fun member => line (List.mem_cons_of_mem _ member)⟩

/-- Whether a text is made of a front, the phrase and a key. -/
def Splits (text front key : List Char) : Prop := text = front ++ (dataSetPhrase.toList ++ key) ∧ KeyForm key

theorem not_splits_nil {front key : List Char} : ¬Splits [] front key := by
  rintro ⟨same, -⟩
  obtain ⟨-, phrase⟩ := List.append_eq_nil_iff.mp same.symm
  exact List.append_ne_nil_of_left_ne_nil (by decide) key phrase

/-- The phrase starts with the text, or further on in it. -/
theorem splits_cons_iff {c : Char} {text front key : List Char} : Splits (c :: text) front key ↔
    (front = [] ∧ Splits (c :: text) [] key) ∨ ∃ rest, front = c :: rest ∧ Splits text rest key := by
  cases front with
  | nil => simp
  | cons d front =>
    rw [Splits, Splits, List.cons_append, List.cons.injEq]
    constructor
    · rintro ⟨⟨rfl, same⟩, form⟩
      exact .inr ⟨front, rfl, same, form⟩
    · rintro (⟨empty, -⟩ | ⟨rest, same, split, form⟩)
      · cases empty
      · obtain ⟨rfl, rfl⟩ := List.cons.inj same
        exact ⟨⟨rfl, split⟩, form⟩

theorem filter_after?_eq_some_iff {text key : List Char} :
    (Text.after? dataSetPhrase.toList text).filter isDataSetKey = some key ↔ Splits text [] key := by
  rw [Option.filter_eq_some_iff, isDataSetKey_iff, Splits, List.nil_append]
  refine and_congr_left fun _ => ⟨Text.eq_append_of_after?, ?_⟩
  rintro rfl
  exact Text.after?_append _ _

/-- What is found is the key behind the shortest front. -/
theorem keyOf?_eq_some_iff {text key : List Char} : keyOf? text = some key ↔
    ∃ front, Splits text front key ∧ ∀ before rest, Splits text before rest → front.length ≤ before.length := by
  induction text with
  | nil => exact iff_of_false nofun fun ⟨_, splits, _⟩ => not_splits_nil splits
  | cons c text ih =>
    rw [keyOf?]
    split
    next found here =>
      have splits := filter_after?_eq_some_iff.mp here
      rw [Option.some_inj]
      constructor
      · rintro rfl
        exact ⟨[], splits, fun _ _ _ => Nat.zero_le _⟩
      · rintro ⟨front, split, shortest⟩
        obtain rfl := List.eq_nil_of_length_eq_zero (Nat.le_zero.mp (shortest [] found splits))
        exact List.append_cancel_left (splits.1.symm.trans split.1)
    next none =>
      have later : ∀ {front rest}, Splits (c :: text) front rest → ∃ front', front = c :: front' ∧ Splits text front' rest := by
        intro front rest splits
        refine (splits_cons_iff.mp splits).resolve_left fun ⟨_, here⟩ => ?_
        rw [filter_after?_eq_some_iff.mpr here] at none
        cases none
      rw [ih]
      constructor
      · rintro ⟨front, split, shortest⟩
        refine ⟨c :: front, splits_cons_iff.mpr (.inr ⟨front, rfl, split⟩), fun before rest splits => ?_⟩
        obtain ⟨before, rfl, further⟩ := later splits
        exact Nat.succ_le_succ (shortest before rest further)
      · rintro ⟨front, splits, shortest⟩
        obtain ⟨front, rfl, split⟩ := later splits
        refine ⟨front, split, fun before rest further => ?_⟩
        exact Nat.le_of_succ_le_succ (shortest (c :: before) rest (splits_cons_iff.mpr (.inr ⟨before, rfl, further⟩)))

/-- Nothing is found only where nothing has the form of a key. -/
theorem keyOf?_eq_none_iff {text : List Char} : keyOf? text = none ↔ ∀ front key, ¬Splits text front key := by
  induction text with
  | nil => exact iff_of_true rfl fun _ _ => not_splits_nil
  | cons c text ih =>
    rw [keyOf?]
    split
    next found here => exact iff_of_false nofun fun none => none [] found (filter_after?_eq_some_iff.mp here)
    next none =>
      rw [ih]
      constructor
      · intro apart front key splits
        rcases splits_cons_iff.mp splits with ⟨-, here⟩ | ⟨rest, -, further⟩
        · rw [filter_after?_eq_some_iff.mpr here] at none
          cases none
        · exact apart rest key further
      · exact fun apart front key splits => apart (c :: front) key (splits_cons_iff.mpr (.inr ⟨front, rfl, splits⟩))

theorem dataSetKey?_eq_some_iff {name key : String} : dataSetKey? name = some key ↔ keyOf? name.toList = some key.toList := by
  rw [dataSetKey?, Option.map_eq_some_iff]
  constructor
  · rintro ⟨text, found, rfl⟩
    rw [found, String.toList_ofList]
  · exact fun found => ⟨_, found, String.ofList_toList⟩

/-- **Which names name a data set.** The key of a name is what follows the first phrase behind which the name has the form of
a key to its end. A test has a data set under a name exactly when there is such a phrase in it, and its id is then the one of
the test with the phrase and the key behind it. -/
theorem data_sets_told_from_names (definition : Definition) (name : String) :
    (∀ key : String, dataSetKey? name = some key ↔
      ∃ front, (name = front ++ dataSetPhrase ++ key ∧ KeyForm key.toList) ∧
        ∀ before rest : String, name = before ++ dataSetPhrase ++ rest → KeyForm rest.toList → front.length ≤ before.length) ∧
    (definition.dataSetChild? name = none ↔ ¬∃ front key : String, name = front ++ dataSetPhrase ++ key ∧ KeyForm key.toList) ∧
    ∀ child, definition.dataSetChild? name = some child →
      ∃ key, dataSetKey? name = some key ∧ child.id = definition.id ++ " " ++ "with data set " ++ key := by
  have splits : ∀ front key : String, Splits name.toList front.toList key.toList ↔
      name = front ++ dataSetPhrase ++ key ∧ KeyForm key.toList := by
    intro front key
    rw [Splits, ← String.toList_inj, String.toList_append, String.toList_append, List.append_assoc]
  refine ⟨fun key => ?_, ?_, ?_⟩
  · rw [dataSetKey?_eq_some_iff, keyOf?_eq_some_iff]
    constructor
    · rintro ⟨front, split, shortest⟩
      refine ⟨String.ofList front, (splits _ _).mp (by rwa [String.toList_ofList]), fun before rest same form => ?_⟩
      rw [String.length_ofList, ← String.length_toList]
      exact shortest _ _ ((splits before rest).mpr ⟨same, form⟩)
    · rintro ⟨front, split, shortest⟩
      refine ⟨front.toList, (splits front key).mpr split, fun before rest further => ?_⟩
      obtain ⟨same, form⟩ := (splits (String.ofList before) (String.ofList rest)).mp (by simpa using further)
      rw [String.length_toList, ← String.length_ofList (l := before)]
      exact shortest _ _ same form
  · rw [Definition.dataSetChild?, Option.map_eq_none_iff, dataSetKey?, Option.map_eq_none_iff, keyOf?_eq_none_iff]
    constructor
    · rintro apart ⟨front, key, split⟩
      exact apart _ _ ((splits front key).mpr split)
    · intro apart front key split
      exact apart ⟨String.ofList front, String.ofList key, (splits _ _).mp (by simpa using split)⟩
  · intro child made
    obtain ⟨key, found, rfl⟩ := Option.map_eq_some_iff.mp made
    refine ⟨key, found, ?_⟩
    simp only [Definition.dataSetChild, dataSetPhrase, String.append_assoc]

end TestScout.Test
