import TestScout.Proofs.BuilderAdditions

/-! The items of a file, block by block. Nothing in its block is around a class, and everything else in the block is
below one. -/

namespace TestScout.Outline
open Test

variable {ids : Ref → String} {bed : Bed} {beds : List Bed} {above front back : List Ref} {ref : Ref}

theorem mem_spacePlantings_of_split (path : List Ref) :
    ⟨path ++ front, ref, false⟩ ∈ spacePlantings path (front ++ ref :: back) := by
  induction front generalizing path with
  | nil =>
    rw [List.append_nil]
    exact List.mem_cons_self
  | cons first front ih =>
    refine List.mem_cons_of_mem _ ?_
    have later := ih (path ++ [first])
    rwa [List.append_assoc] at later

theorem Bed.space_mem_plantings (split : bed.spaces = front ++ ref :: back) : ⟨front, ref, false⟩ ∈ bed.plantings := by
  refine List.mem_append_left _ ?_
  rw [split]
  exact mem_spacePlantings_of_split []

theorem Bed.item_mem_plantings {above : List (Ref × Definition)} {item : Ref × Definition}
    (trail : (above, item) ∈ trails (·.2.depth) [] bed.items) :
    ⟨bed.spaces ++ (above.map (·.1)).reverse, item.1, true⟩ ∈ bed.plantings := by
  refine List.mem_append_right _ ?_
  rw [itemPlantings_eq]
  exact List.mem_map.mpr ⟨_, trail, rfl⟩

theorem Bed.mem_refs : (∃ planting ∈ bed.plantings, ref = planting.ref) ↔
    ref ∈ bed.spaces ∨ ∃ item ∈ bed.items, item.1 = ref := by
  constructor
  · rintro ⟨planting, member, rfl⟩
    rcases List.mem_append.mp member with space | item
    · obtain ⟨-, front, back, split, -⟩ := mem_spacePlantings space
      exact .inl (by simp [split])
    · obtain ⟨-, -, entry, -, inside, same, -⟩ := mem_itemPlantings item
      exact .inr ⟨entry, inside, same.symm⟩
  · rintro (space | ⟨item, inside, rfl⟩)
    · obtain ⟨planting, member, same⟩ := ref_mem_spacePlantings space
      exact ⟨planting, List.mem_append_left _ member, same.symm⟩
    · obtain ⟨planting, member, same⟩ := ref_mem_itemPlantings inside
      exact ⟨planting, List.mem_append_right _ member, same.symm⟩

section

variable {block : SpaceBlock} {items opened above : List (Ref × Definition)} {item : Ref × Definition}
  (shaped : block.Shaped) (labels : items.map (·.2) = block.classes.labels)
include shaped labels

theorem item_kind (member : item ∈ items) :
    item.2.kind = .classLike ∧ item.2.depth = block.depth ∧ item.2.space = block.space.map (·.label) ∨
      item.2.kind ≠ .classLike ∧ block.depth < item.2.depth := by
  have listed : item.2 ∈ block.classes.labels := labels ▸ List.mem_map_of_mem member
  refine (shaped.classes.label listed).2.imp_right fun ⟨kind, deep⟩ => ⟨?_, deep⟩
  rcases kind with kind | kind <;> simp [kind]

theorem first_item : ∃ first rest, items = first :: rest ∧ first.2.depth = block.depth := by
  obtain ⟨first, rest, split, -, depth⟩ := shaped.first
  obtain ⟨item, others, same, rfl, -⟩ := List.map_eq_cons_iff.mp (labels.trans split)
  exact ⟨item, others, same, depth⟩

theorem item_lower (member : item ∈ items) : block.depth ≤ item.2.depth := by
  rcases item_kind shaped labels member with ⟨-, depth, -⟩ | ⟨-, deeper⟩
  · exact Nat.le_of_eq depth.symm
  · exact Nat.le_of_lt deeper

/-- Nothing in its block is around a class. -/
theorem class_trail (trail : (above, item) ∈ trails (·.2.depth) [] items) (kind : item.2.kind = .classLike) : above = [] := by
  obtain ⟨member, around⟩ := mem_of_mem_trails trail
  rcases item_kind shaped labels member with ⟨-, depth, -⟩ | ⟨other, -⟩
  · cases above with
    | nil => rfl
    | cons closest above =>
      have shallow : closest.2.depth < item.2.depth := shallow_of_mem_trails trail closest rfl
      have low := item_lower shaped labels ((around closest List.mem_cons_self).resolve_left nofun)
      omega
  · exact absurd kind other

/-- Anything but a class has something around it in its block. -/
theorem member_trail (trail : (above, item) ∈ trails (·.2.depth) [] items) (kind : item.2.kind ≠ .classLike) : above ≠ [] := by
  obtain ⟨first, rest, split, depth⟩ := first_item shaped labels
  have deep : block.depth < item.2.depth :=
    ((item_kind shaped labels (mem_of_mem_trails trail).1).resolve_left fun found => kind found.1).2
  rw [split] at trail
  rcases List.mem_cons.mp trail with same | later
  · cases same
    exact absurd depth (Nat.ne_of_gt deep)
  · obtain ⟨around, inside, -⟩ := exists_around ⟨first, List.mem_cons_self, Nat.le_of_eq depth⟩ later deep
    exact List.ne_nil_of_mem inside

/-- What is around an item within its block is closest to it. -/
theorem inner_trail (trail : (above, item) ∈ trails (·.2.depth) opened items) :
    ∃ inner outer, above = inner ++ outer ∧ (inner, item) ∈ trails (·.2.depth) [] items := by
  obtain ⟨first, others, listed, depth⟩ := first_item shaped labels
  have lower : ∀ item ∈ others, first.2.depth ≤ item.2.depth := fun item member =>
    depth ▸ item_lower shaped labels (listed ▸ List.mem_cons_of_mem _ member)
  obtain ⟨outer, under⟩ : ∃ outer, trails (·.2.depth) opened (first :: others) =
      (trails (·.2.depth) [] (first :: others)).map fun trail => (trail.1 ++ outer, trail.2) := trails_under lower opened
  rw [listed, under] at trail
  obtain ⟨⟨inner, element⟩, member, same⟩ := List.mem_map.mp trail
  cases same
  exact ⟨inner, outer, rfl, listed ▸ member⟩

end

theorem trails_beds (sown : ∀ bed ∈ beds, bed.Sown ids) (shaped : ∀ bed ∈ beds, bed.block.Shaped)
    {opened above : List (Ref × Definition)} {item : Ref × Definition}
    (trail : (above, item) ∈ trails (·.2.depth) opened (beds.flatMap (·.items))) :
    ∃ bed ∈ beds, ∃ inner outer, above = inner ++ outer ∧ (inner, item) ∈ trails (·.2.depth) [] bed.items := by
  induction beds generalizing opened with
  | nil => cases trail
  | cons bed rest ih =>
    rw [List.flatMap_cons] at trail
    obtain ⟨further, split, -⟩ := trails_append opened bed.items (rest.flatMap (·.items))
    rw [split] at trail
    rcases List.mem_append.mp trail with here | later
    · have items := (sown bed List.mem_cons_self).items
      obtain ⟨inner, outer, same, linked⟩ := inner_trail (shaped bed List.mem_cons_self) items here
      exact ⟨bed, List.mem_cons_self, inner, outer, same, linked⟩
    · obtain ⟨other, member, inner, outer, same, linked⟩ :=
        ih (fun other member => sown other (List.mem_cons_of_mem _ member))
          (fun other member => shaped other (List.mem_cons_of_mem _ member)) later
      exact ⟨other, List.mem_cons_of_mem _ member, inner, outer, same, linked⟩

end TestScout.Outline
