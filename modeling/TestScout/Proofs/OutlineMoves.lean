import TestScout.Proofs.OutlinePruning

/-! Moving items about. Whatever an outline does with places leaves the items as they look, and it puts no item into a
place that does not exist. -/

namespace TestScout.Outline

/-- All that is in places exists, and so do the places. -/
structure Valid (outline : Outline) : Prop where
  children : ∀ place, ∀ ref ∈ outline.childrenOf place, ref < outline.nodes.size
  parents : ∀ ref, outline.Inside (outline.parentOf ref)

/-- Nothing but the places of items has changed. -/
structure Moved (first second : Outline) : Prop where
  size : second.nodes.size = first.nodes.size
  item : ∀ ref, second.item ref = first.item ref
  valid : first.Valid → second.Valid

variable {outline : Outline} {place : Place} {ref : Ref} {refs : List Ref}

namespace Moved

variable {first second third : Outline}

theorem refl (outline : Outline) : Moved outline outline := ⟨rfl, fun _ => rfl, id⟩

theorem trans (one : Moved first second) (two : Moved second third) : Moved first third where
  size := two.size.trans one.size
  item ref := (two.item ref).trans (one.item ref)
  valid sound := two.valid (one.valid sound)

theorem idOf (moved : Moved first second) (ref : Ref) : second.idOf ref = first.idOf ref := congrArg Item.id (moved.item ref)

theorem inside (moved : Moved first second) (inside : first.Inside place) : second.Inside place := by
  intro ref same
  have valid := inside ref same
  rwa [moved.size]

theorem foldl {α : Type} {step : Outline → α → Outline} {elements : List α}
    (moves : ∀ current : Outline, current.nodes.size = first.nodes.size → ∀ element ∈ elements,
      Moved current (step current element)) : Moved first (elements.foldl step first) := by
  induction elements generalizing first with
  | nil => exact refl first
  | cons element rest ih =>
    have here := moves first rfl element List.mem_cons_self
    refine here.trans (ih ?_)
    intro current same other later
    exact moves current (same.trans here.size) other (List.mem_cons_of_mem _ later)

end Moved

theorem mem_childrenOf_setChildren {other : Place} (member : ref ∈ (outline.setChildren place refs).childrenOf other) :
    ref ∈ refs ∨ ref ∈ outline.childrenOf other := by
  by_cases inside : outline.Inside place
  · rw [childrenOf_setChildren inside] at member
    split at member
    · exact .inl member
    · exact .inr member
  · cases place with
    | none => exact absurd nofun inside
    | some above =>
      -- Nothing is put into a place that does not exist.
      have missing : outline.nodes.size ≤ above := by
        by_contra valid
        apply inside
        intro ref same
        cases same
        exact Nat.lt_of_not_le valid
      cases other with
      | none => exact .inr member
      | some below =>
        right
        simp only [childrenOf, setChildren, Array.getElem?_modify] at member ⊢
        by_cases same : above = below
        · rw [← same, Array.getElem?_eq_none missing] at member
          simp at member
        · rwa [if_neg same] at member

theorem moved_setParent (ref : Ref) (inside : outline.Inside place) : Moved outline (outline.setParent ref place) where
  size := size_setParent
  item := item_setParent
  valid sound := by
    refine ⟨?_, ?_⟩
    · intro other child member
      rw [childrenOf_setParent] at member
      rw [size_setParent]
      exact sound.children other child member
    · intro other above same
      rw [size_setParent]
      by_cases valid : ref < outline.nodes.size
      · rw [parentOf_setParent valid] at same
        split at same
        · exact inside above same
        · exact sound.parents other above same
      · rw [setParent_eq_self (Nat.le_of_not_lt valid)] at same
        exact sound.parents other above same

theorem moved_setChildren (exist : outline.Valid → ∀ ref ∈ refs, ref < outline.nodes.size) :
    Moved outline (outline.setChildren place refs) where
  size := size_setChildren refs
  item := item_setChildren refs
  valid sound := by
    refine ⟨?_, ?_⟩
    · intro other child member
      rw [size_setChildren]
      cases mem_childrenOf_setChildren member with
      | inl new => exact exist sound child new
      | inr old => exact sound.children other child old
    · intro other above same
      rw [parentOf_setChildren] at same
      rw [size_setChildren]
      exact sound.parents other above same

theorem inside_top (outline : Outline) : outline.Inside none := nofun

theorem moved_release (place : Place) (ref : Ref) : Moved outline (outline.release place ref) := by
  unfold release
  split
  · exact moved_setParent ref (inside_top outline)
  · exact Moved.refl outline

theorem inside_below (valid : ref < outline.nodes.size) : outline.Inside (some ref) := by
  intro other same
  cases same
  exact valid

theorem moved_add (inside : outline.Inside place) (valid : ref < outline.nodes.size) :
    Moved outline (outline.add place ref) := by
  have placed := moved_setParent ref inside
  have here : ref < (outline.setParent ref place).nodes.size := by rwa [size_setParent]
  cases found : outline.child? place (outline.idOf ref) with
  | none =>
    rw [add_of_none found]
    refine placed.trans (moved_setChildren ?_)
    intro sound other member
    cases List.mem_append.mp member with
    | inl former =>
      rw [← childrenOf_setParent] at former
      exact sound.children place other former
    | inr last => exact List.mem_singleton.mp last ▸ here
  | some former =>
    have swapped : Moved outline (outline.swap place former ref) := by
      refine placed.trans (moved_setChildren ?_)
      intro sound other member
      obtain ⟨child, listed, rfl⟩ := List.mem_map.mp member
      split
      · exact here
      · rw [← childrenOf_setParent] at listed
        exact sound.children place child listed
    rw [add_of_some found]
    split
    · exact swapped
    · exact swapped.trans (moved_release place former)

theorem moved_delete (place : Place) (id : String) : Moved outline (outline.delete place id).1 := by
  unfold delete
  split
  · exact Moved.refl outline
  · refine Moved.trans (moved_setChildren ?_) (moved_release place _)
    intro sound other member
    exact sound.children place other (List.mem_filter.mp member).1

theorem moved_addAll (inside : outline.Inside place) (exist : ∀ ref ∈ refs, ref < outline.nodes.size) :
    Moved outline (refs.foldl (·.add place ·) outline) := by
  apply Moved.foldl
  intro current same ref member
  refine moved_add ?_ ?_
  · intro above here
    exact same ▸ inside above here
  · exact same ▸ exist ref member

theorem moved_replace (inside : outline.Inside place) (exist : ∀ ref ∈ refs, ref < outline.nodes.size) :
    Moved outline (outline.replace place refs) := by
  have released : Moved outline (((outline.childrenOf place).filter fun ref => !refs.contains ref).foldl
      (·.release place ·) outline) := by
    apply Moved.foldl
    intro current _ ref _
    exact moved_release place ref
  have emptied : Moved outline (((((outline.childrenOf place).filter fun ref => !refs.contains ref).foldl
      (·.release place ·) outline)).setChildren place []) := released.trans (moved_setChildren fun _ => nofun)
  refine emptied.trans (moved_addAll (emptied.inside inside) ?_)
  intro ref member
  rw [emptied.size]
  exact exist ref member

theorem moved_keep (others : List Ref) : Moved outline (outline.keep others) := by
  obtain ⟨size, -, children, parents⟩ := keep_views outline others
  refine ⟨size, ?_, ?_⟩
  · intro ref
    simp only [item, keep, Array.getElem?_map, Option.map_map]
    rfl
  · intro sound
    refine ⟨?_, ?_⟩
    · intro place ref member
      rw [children] at member
      rw [size]
      exact sound.children place ref member
    · intro ref above same
      rw [parents, Option.filter_eq_some_iff] at same
      rw [size]
      exact sound.parents ref above same.1

/-- Items have been added to a place. What is there is there by its parent, unless it was before. -/
structure Put (place : Place) (refs : List Ref) (first second : Outline) : Prop where
  moved : Moved first second
  elsewhere : ∀ other, other ≠ place → second.childrenOf other = first.childrenOf other
  distinct : ((second.childrenOf place).map second.idOf).Nodup
  here : ∀ ref ∈ second.childrenOf place, ref ∈ refs ∧ second.parentOf ref = place ∨
    ref ∉ refs ∧ ref ∈ first.childrenOf place ∧ (first.parentOf ref = place → second.parentOf ref = place)
  added : ∀ ref ∈ refs, second.parentOf ref = place ∨ second.parentOf ref = none
  others : ∀ ref, ref ∉ refs → second.parentOf ref = first.parentOf ref ∨
    first.parentOf ref = place ∧ second.parentOf ref = none

theorem put_addAll (inside : outline.Inside place) (distinct : ((outline.childrenOf place).map outline.idOf).Nodup)
    (exist : ∀ ref ∈ refs, ref < outline.nodes.size) : Put place refs outline (refs.foldl (·.add place ·) outline) := by
  induction refs using List.reverseRecOn with
  | nil => exact ⟨.refl outline, fun _ _ => rfl, distinct, fun ref member => .inr ⟨nofun, member, id⟩, nofun, fun _ _ => .inl rfl⟩
  | append_singleton refs ref ih =>
    have put := ih fun other member => exist other (List.mem_append_left _ member)
    rw [List.foldl_concat]
    generalize refs.foldl (·.add place ·) outline = middle at put ⊢
    have within := put.moved.inside inside
    have valid : ref < middle.nodes.size := put.moved.size ▸ exist ref (List.mem_append_right _ List.mem_cons_self)
    refine ⟨put.moved.trans (moved_add within valid), ?_, nodup_add within put.distinct, ?_, ?_, ?_⟩
    · exact fun other away => (childrenOf_add_ne within away).trans (put.elsewhere other away)
    · intro child member
      rcases (mem_childrenOf_add within put.distinct child).mp member with rfl | ⟨old, apart⟩
      · exact .inl ⟨List.mem_append_right _ List.mem_cons_self, parentOf_add_self valid⟩
      have differs : child ≠ ref := fun same => apart (congrArg _ same)
      have still : (middle.add place ref).parentOf child = middle.parentOf child := by
        rw [parentOf_add_ne valid differs, if_neg]
        exact fun ⟨found, _⟩ => apart (mem_of_child? found).2
      rw [still]
      refine (put.here child old).imp (And.imp_left (List.mem_append_left _)) (And.imp_left fun away member => ?_)
      exact (List.mem_append.mp member).elim away fun last => differs (List.mem_singleton.mp last)
    · intro other member
      by_cases same : other = ref
      · exact .inl (same ▸ parentOf_add_self (same ▸ valid))
      rw [parentOf_add_ne valid same]
      split
      · exact .inr rfl
      · exact put.added other ((List.mem_append.mp member).resolve_right fun last => same (List.mem_singleton.mp last))
    · intro other away
      have before : other ∉ refs := fun member => away (List.mem_append_left _ member)
      have differs : other ≠ ref := fun same => away (same ▸ List.mem_append_right _ List.mem_cons_self)
      rw [parentOf_add_ne valid differs]
      rcases put.others other before with same | ⟨below, free⟩
      · rw [same]
        split
        next replaced => exact .inr ⟨replaced.2, rfl⟩
        next => exact .inl rfl
      · rw [free, ite_self]
        exact .inr ⟨below, rfl⟩

/-- Items that are told by their ids. -/
def Keyed (outline : Outline) (entries : List (String × Ref)) : Prop :=
  ∀ entry ∈ entries, entry.2 < outline.nodes.size ∧ outline.idOf entry.2 = entry.1

theorem Keyed.moved {first second : Outline} {entries : List (String × Ref)} (keyed : Keyed first entries)
    (moved : Moved first second) : Keyed second entries := by
  intro entry member
  obtain ⟨valid, same⟩ := keyed entry member
  exact ⟨moved.size ▸ valid, (moved.idOf entry.2).trans same⟩

end TestScout.Outline

namespace TestScout.Editor
open Outline

/-- What is remembered while items are taken out goes by its own ids. -/
theorem moved_prune (levels : Nat) (ref : Ref) {outline : Outline} {removed : List (String × Ref)} (sound : outline.Valid)
    (keyed : Keyed outline removed) :
    Moved outline (prune levels ref (outline, removed)).1 ∧
      Keyed (prune levels ref (outline, removed)).1 (prune levels ref (outline, removed)).2 := by
  induction levels generalizing ref outline removed with
  | zero =>
    have deleted : Moved outline (outline.delete (outline.parentOf ref) (outline.idOf ref)).1 := moved_delete _ _
    have last : prune 0 ref (outline, removed) = ((outline.delete (outline.parentOf ref) (outline.idOf ref)).1, removed) := by
      rw [prune.eq_def]
      cases below : outline.parentOf ref <;> simp only [below]
    rw [last]
    exact ⟨deleted, keyed.moved deleted⟩
  | succ levels ih =>
    cases below : outline.parentOf ref with
    | none =>
      have deleted : Moved outline (outline.delete none (outline.idOf ref)).1 := moved_delete _ _
      rw [prune_top removed below]
      exact ⟨deleted, keyed.moved deleted⟩
    | some parent =>
      have deleted : Moved outline (outline.delete (some parent) (outline.idOf ref)).1 := moved_delete _ _
      rw [prune_below removed below]
      split
      · have longer : Keyed (outline.delete (some parent) (outline.idOf ref)).1
            (((outline.delete (some parent) (outline.idOf ref)).1.idOf parent, parent) :: removed) := by
          refine List.forall_mem_cons.mpr ⟨⟨?_, rfl⟩, keyed.moved deleted⟩
          rw [deleted.size]
          exact sound.parents ref parent below
        obtain ⟨further, known⟩ := ih parent (deleted.valid sound) longer
        exact ⟨deleted.trans further, known⟩
      · exact ⟨deleted, keyed.moved deleted⟩

end TestScout.Editor
