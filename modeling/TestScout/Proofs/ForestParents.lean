import Mathlib.Data.List.Basic
import TestScout.Proofs.DefinitionTrails

/-! Nesting a list by depth is undone by flattening the forest, and tells of each definition what it lies below: the
closest one before it in the list that is less deep. Definitions are told apart by their places, for a list may hold the
same one twice. -/

namespace TestScout.Test

variable {α : Type} {depth : α → Nat} {opened before elements : List α}

/-- What is closed by an element is too deep for anything that lies less deep than that element. -/
private theorem find?_dropWhile {closing bound : Nat} (lower : bound ≤ closing) :
    (opened.dropWhile (closing ≤ depth ·)).find? (depth · < bound) = opened.find? (depth · < bound) := by
  have closed : (opened.takeWhile (closing ≤ depth ·)).find? (depth · < bound) = none := by
    rw [List.find?_eq_none]
    intro element member shallow
    have deep : closing ≤ depth element := by simpa using List.mem_takeWhile_imp member
    exact Nat.not_lt_of_le (Nat.le_trans lower deep) (by simpa using shallow)
  have split : opened.takeWhile (closing ≤ depth ·) ++ opened.dropWhile (closing ≤ depth ·) = opened :=
    List.takeWhile_append_dropWhile
  calc
    _ = (opened.takeWhile (closing ≤ depth ·) ++ opened.dropWhile (closing ≤ depth ·)).find? (depth · < bound) := by
      rw [List.find?_append, closed, Option.none_or]
    _ = _ := by rw [split]

/-- The innermost element around another one is the closest before it that is less deep. What is open needs to agree with
what has been read only in the closest element above each depth. -/
theorem head?_of_trail (agree : ∀ bound, opened.find? (depth · < bound) = before.find? (depth · < bound)) {place : Nat}
    {above : List α} {element : α} (trail : (trails depth opened elements)[place]? = some (above, element)) :
    above.head? = ((elements.take place).reverse ++ before).find? (depth · < depth element) := by
  induction elements generalizing opened before place with
  | nil => simp [trails] at trail
  | cons first rest ih =>
    cases place with
    | zero =>
      obtain ⟨rfl, rfl⟩ := Prod.mk.inj (Option.some_inj.mp trail)
      rw [List.take_zero, List.reverse_nil, List.nil_append, ← agree, List.find?_eq_head?_dropWhile_not]
      simp only [← decide_not, Nat.not_lt]
    | succ place =>
      have further : ∀ bound, (first :: opened.dropWhile (depth first ≤ depth ·)).find? (depth · < bound) =
          (first :: before).find? (depth · < bound) := by
        intro bound
        by_cases shallow : depth first < bound
        · rw [List.find?_cons_of_pos (by simpa using shallow), List.find?_cons_of_pos (by simpa using shallow)]
        · rw [List.find?_cons_of_neg (by simpa using shallow), List.find?_cons_of_neg (by simpa using shallow),
            find?_dropWhile (Nat.le_of_not_lt shallow), agree]
      rw [List.take_succ_cons, List.reverse_cons, List.append_assoc, List.singleton_append]
      exact ih further trail

namespace Definition

variable {definitions : List Definition} {place : Nat}

/-- Of two places in a list, the definition at the first one is less deep. -/
def LessDeep (definitions : List Definition) (place other : Nat) : Prop :=
  ∃ first ∈ definitions[place]?, ∃ second ∈ definitions[other]?, first.depth < second.depth

instance (definitions : List Definition) (place other : Nat) : Decidable (LessDeep definitions place other) :=
  inferInstanceAs (Decidable (∃ first ∈ definitions[place]?, ∃ second ∈ definitions[other]?, first.depth < second.depth))

/-- A place is the last one in front of another at which something less deep stands. -/
def Closest (definitions : List Definition) (parent place : Nat) : Prop :=
  parent < place ∧ LessDeep definitions parent place ∧
    ∀ between < place, parent < between → ¬LessDeep definitions between place

instance (definitions : List Definition) (parent place : Nat) : Decidable (Closest definitions parent place) :=
  inferInstanceAs (Decidable (_ ∧ _ ∧ _))

theorem Closest.unique {first second : Nat} (closest : Closest definitions first place)
    (other : Closest definitions second place) : first = second := by
  obtain ⟨first_earlier, first_shallow, first_last⟩ := closest
  obtain ⟨second_earlier, second_shallow, second_last⟩ := other
  rcases Nat.lt_trichotomy first second with before | same | behind
  · exact absurd second_shallow (first_last second second_earlier before)
  · exact same
  · exact absurd first_shallow (second_last first first_earlier behind)

/-- What is met first on the way back from a place, among the definitions that are less deep than a bound. -/
private def metBefore (definitions : List Definition) (place bound : Nat) : Option (Definition × Nat) :=
  (definitions.zipIdx.take place).reverse.find? (·.1.depth < bound)

private theorem mem_before {entry : Definition × Nat} :
    entry ∈ (definitions.zipIdx.take place).reverse ↔ entry.2 < place ∧ definitions[entry.2]? = some entry.1 := by
  rw [List.mem_reverse, List.mem_iff_getElem?]
  constructor
  · intro ⟨index, here⟩
    rw [List.getElem?_take, List.getElem?_zipIdx] at here
    split at here
    next before =>
      obtain ⟨definition, listed, rfl⟩ := Option.map_eq_some_iff.mp here
      rw [Nat.zero_add]
      exact ⟨before, listed⟩
    next => cases here
  · intro ⟨before, listed⟩
    refine ⟨entry.2, ?_⟩
    rw [List.getElem?_take_of_lt before, List.getElem?_zipIdx, listed, Option.map_some, Nat.zero_add]

variable {definition : Definition}

private theorem metBefore_eq_none (listed : definitions[place]? = some definition) :
    metBefore definitions place definition.depth = none ↔ ∀ earlier < place, ¬LessDeep definitions earlier place := by
  rw [metBefore, List.find?_eq_none]
  constructor
  · intro deep earlier before ⟨first, here, second, there, less⟩
    obtain rfl := Option.some_inj.mp (there.symm.trans listed)
    exact deep (first, earlier) (mem_before.mpr ⟨before, here⟩) (decide_eq_true less)
  · intro none entry member less
    obtain ⟨before, here⟩ := mem_before.mp member
    exact none entry.2 before ⟨entry.1, here, definition, listed, of_decide_eq_true less⟩

private theorem closest_of_metBefore (listed : definitions[place]? = some definition) {parent : Definition × Nat}
    (met : metBefore definitions place definition.depth = some parent) : Closest definitions parent.2 place := by
  obtain ⟨less, behind, ahead, split, deep⟩ := List.find?_eq_some_iff_append.mp met
  obtain ⟨before, here⟩ := mem_before.mp (List.mem_of_find?_eq_some met)
  -- On the way back the places go down.
  have ordered : (definitions.zipIdx.take place).reverse.Pairwise (·.2 > ·.2) := by
    rw [List.pairwise_reverse]
    refine List.Pairwise.sublist (List.take_sublist _ _) (List.Pairwise.of_map Prod.snd (fun _ _ less => less) ?_)
    rw [List.zipIdx_map_snd]
    exact List.pairwise_lt_range'
  refine ⟨before, ⟨parent.1, here, definition, listed, of_decide_eq_true less⟩, ?_⟩
  intro between front after ⟨first, inside, second, there, shallow⟩
  obtain rfl := Option.some_inj.mp (there.symm.trans listed)
  have member : (first, between) ∈ (definitions.zipIdx.take place).reverse := mem_before.mpr ⟨front, inside⟩
  rw [split] at ordered member
  obtain ⟨-, later, -⟩ := List.pairwise_append.mp ordered
  rcases List.mem_append.mp member with met | rest
  · simpa [shallow] using deep _ met
  · rcases List.mem_cons.mp rest with same | further
    · exact absurd (congrArg Prod.snd same) (Nat.ne_of_gt after)
    · exact absurd ((List.pairwise_cons.mp later).1 _ further) (Nat.lt_asymm after)

private theorem metBefore_eq_some (listed : definitions[place]? = some definition) (parent : Nat) :
    (metBefore definitions place definition.depth).map (·.2) = some parent ↔ Closest definitions parent place := by
  constructor
  · intro met
    obtain ⟨entry, found, rfl⟩ := Option.map_eq_some_iff.mp met
    exact closest_of_metBefore listed found
  · intro closest
    cases met : metBefore definitions place definition.depth with
    | none => exact absurd closest.2.1 ((metBefore_eq_none listed).mp met parent closest.1)
    | some entry => exact congrArg some ((closest_of_metBefore listed met).unique closest)

/-- Flattening undoes nesting, and nesting puts a definition below the closest one before it that is less deep. It is at
the top just when there is none. -/
theorem forest_unfolds (definitions : List Definition) (flat : ∀ definition ∈ definitions, definition.children = []) :
    let listed := definitions.filter (·.kind != .space)
    (flattenAll (forest definitions)).map bare = listed ∧
      (ancestorsAll [] 0 (forest definitions)).length = listed.length ∧
      ∀ place above, (ancestorsAll [] 0 (forest definitions))[place]? = some above →
        (∀ parent, above.getLast? = some parent ↔ Closest listed parent place) ∧
        (above = [] ↔ ∀ earlier < place, ¬LessDeep listed earlier place) := by
  intro listed
  have flat : ∀ definition ∈ listed, definition.children = [] := fun definition member =>
    flat definition (List.mem_filter.mp member).1
  have ancestors : ancestorsAll [] 0 (forest definitions) = _ := ancestorsAll_nest flat [] 0
  have elements : (trails (fun entry : Definition × Nat => entry.1.depth) [] listed.zipIdx).map (·.2) = listed.zipIdx :=
    trails_elements [] listed.zipIdx
  refine ⟨flattenAll_nest flat, ?_, ?_⟩
  · rw [ancestors, List.length_map, ← List.length_map (f := Prod.snd), elements, List.length_zipIdx]
  intro place above here
  rw [ancestors, List.getElem?_map, Option.map_eq_some_iff] at here
  obtain ⟨⟨around, definition, index⟩, trail, rfl⟩ := here
  have element : listed[place]? = some definition := by
    have here := congrArg (·[place]?) elements
    simp only [List.getElem?_map, trail, Option.map_some, List.getElem?_zipIdx] at here
    obtain ⟨other, listed, same⟩ := Option.map_eq_some_iff.mp here.symm
    rw [listed, (Prod.mk.inj same).1]
  have innermost : around.head? = ((listed.zipIdx.take place).reverse ++ []).find? (·.1.depth < definition.depth) :=
    head?_of_trail (fun _ => rfl) trail
  rw [List.append_nil, ← metBefore] at innermost
  refine ⟨fun parent => ?_, ?_⟩
  · rw [← metBefore_eq_some element, ← innermost]
    simp
  · rw [← metBefore_eq_none element, ← innermost]
    simp

/-- A list with jumps, drops and repetitions, in which two equal definitions have different parents. -/
private def jumpyList : List Definition :=
  let named (kind : DefinitionKind) (id : String) (depth : Nat) : Definition := { kind, id, label := id, depth }
  [named .method "count" 3, named .space "Shop" 1, named .classLike "Cart" 2, named .method "total" 7, named .method "sum" 4,
    named .space "Hall" 0, named .method "count" 3, named .dataSet "count #0" 0, named .describe "heat" 0,
    named .method "count" 3]

/-- The second of three equal tests lies below the cart and the third one below the last group; the first one is at the top. -/
theorem jumpy_list_unfolds : (∀ definition ∈ jumpyList, definition.children = []) ∧
    ((flattenAll (forest jumpyList)).map bare).map (·.id) =
      ["count", "Cart", "total", "sum", "count", "count #0", "heat", "count"] ∧
    ∃ first second third : List Nat, (ancestorsAll [] 0 (forest jumpyList))[0]? = some first ∧ first = [] ∧
      (ancestorsAll [] 0 (forest jumpyList))[4]? = some second ∧ second.getLast? = some 1 ∧
      (ancestorsAll [] 0 (forest jumpyList))[7]? = some third ∧ third.getLast? = some 6 := by
  have flat : ∀ definition ∈ jumpyList, definition.children = [] := by decide
  obtain ⟨unfolded, length, parents⟩ := forest_unfolds jumpyList flat
  have present {place : Nat} (inside : place < 8) : ∃ above, (ancestorsAll [] 0 (forest jumpyList))[place]? = some above :=
    ⟨_, List.getElem?_eq_getElem (length ▸ inside)⟩
  obtain ⟨first, first_here⟩ := present (show 0 < 8 by decide)
  obtain ⟨second, second_here⟩ := present (show 4 < 8 by decide)
  obtain ⟨third, third_here⟩ := present (show 7 < 8 by decide)
  refine ⟨flat, unfolded ▸ by decide, first, second, third, first_here, ?_, second_here, ?_, third_here, ?_⟩
  · exact (parents 0 first first_here).2.mpr (by decide)
  · exact ((parents 4 second second_here).1 1).mpr (by decide)
  · exact ((parents 7 third third_here).1 6).mpr (by decide)

end Definition

end TestScout.Test
