import Mathlib.Data.List.Nodup
import TestScout.Proofs.DataSetPlaces
import TestScout.Proofs.SpaceLikeIds

/-! Where the items of classes lie. An item may be left over in several places, so its parent alone does not tell them.
What can be reached holds nothing but items whose ids continue the one of their place, and items of classes; and the item
of a class is nowhere but below its parent. So when a class is taken out of the place that it was put into last, it can be
reached nowhere else in the place of another one. -/

namespace TestScout.Outline
open Test

variable {outline first second third : Outline} {classes others alive living : Ref → Prop} {place : Place}
  {ref : Ref} {refs : List Ref}

/-! ## Everything below an item -/

private theorem exists_twice (again : ¬refs.Nodup) : ∃ twice before between after,
    refs = before ++ twice :: (between ++ twice :: after) := by
  induction refs with
  | nil => exact absurd List.nodup_nil again
  | cons ref rest ih =>
    by_cases member : ref ∈ rest
    · obtain ⟨between, after, rfl⟩ := List.append_of_mem member
      exact ⟨ref, [], between, after, rfl⟩
    · obtain ⟨twice, before, between, after, rfl⟩ := ih fun distinct => again (List.nodup_cons.mpr ⟨member, distinct⟩)
      exact ⟨twice, ref :: before, between, after, rfl⟩

/-- However long a way down is, there is one that is not longer than there are items. -/
theorem mem_descendants_of_chain (sound : outline.Valid) {root : Ref} {path : List Ref}
    (lies : Chain outline.Holds (some root) path) (last : path.getLast? = some ref) : ref ∈ outline.descendants root := by
  generalize length : path.length = bound
  induction bound using Nat.strong_induction_on generalizing path with
  | _ bound ih =>
    by_cases short : path.length ≤ outline.nodes.size
    · exact mem_descendantsUpTo lies short (List.mem_cons_of_mem _ (List.mem_of_getLast? last))
    have inside : ∀ other ∈ path, other < outline.nodes.size := by
      intro other member
      obtain ⟨before, after, rfl⟩ := List.append_of_mem member
      exact sound.children _ other (chain_append.mp lies).2.1
    have again : ¬path.Nodup := by
      intro distinct
      have few := (distinct.subperm fun other member => List.mem_range.mpr (inside other member)).length_le
      rw [List.length_range] at few
      exact short few
    -- The way goes through one item twice, and the circle in between can be left out.
    obtain ⟨twice, before, between, after, rfl⟩ := exists_twice again
    obtain ⟨first, held, circle⟩ := chain_append.mp lies
    have cut : Chain outline.Holds (some root) (before ++ twice :: after) :=
      chain_append.mpr ⟨first, held, (chain_append.mp circle).2.2⟩
    refine ih _ ?_ cut ?_ rfl
    · simp only [← length, List.length_append, List.length_cons]
      omega
    · rw [← last]
      simp only [List.getLast?_append, List.getLast?_cons]
      simp

theorem mem_descendants_of_child (sound : outline.Valid) {root above : Ref} (below : above ∈ outline.descendants root)
    (member : ref ∈ outline.childrenOf (some above)) : ref ∈ outline.descendants root := by
  rcases path_of_mem_descendantsUpTo below with rfl | ⟨front, lies⟩
  · have lies : Chain outline.Holds (some above) [ref] := ⟨member, trivial⟩
    exact mem_descendants_of_chain sound lies rfl
  · have further : Chain outline.Holds (some root) ((front ++ [above]) ++ [ref]) :=
      chain_append.mpr ⟨lies, by simpa using ⟨member, trivial⟩⟩
    exact mem_descendants_of_chain sound further (List.getLast?_concat)

theorem mem_descendants_self (outline : Outline) (root : Ref) : root ∈ outline.descendants root := by
  rw [descendants]
  cases outline.nodes.size with
  | zero => exact List.mem_singleton_self root
  | succ levels => exact List.mem_cons_self

/-! ## Lineage -/

/-- An item has an id that continues the one of its place, or one like a namespace's at the top. -/
def Kin (outline : Outline) (place : Place) (ref : Ref) : Prop :=
  match place with
  | none => SpaceLike (outline.idOf ref)
  | some above => (outline.idOf above).toList <+: (outline.idOf ref).toList

structure Lineage (outline : Outline) (classes alive : Ref → Prop) : Prop where
  valid : outline.Valid
  distinct : ∀ place, ((outline.childrenOf place).map outline.idOf).Nodup
  exist : ∀ ref, alive ref → ref < outline.nodes.size
  below : ∀ place, Open alive place → ∀ ref ∈ outline.childrenOf place, alive ref
  parents : ∀ ref above, outline.parentOf ref = some above → alive above
  /-- An item of a class is only where its parent says, unless it is at home there anyway. -/
  kin : ∀ place, Open alive place → ∀ ref ∈ outline.childrenOf place,
    outline.Kin place ref ∨ classes ref ∧ outline.parentOf ref = place
  /-- Above classes and namespaces there are only namespaces. -/
  spaces : ∀ ref above, classes ref ∨ SpaceLike (outline.idOf ref) → outline.parentOf ref = some above →
    SpaceLike (outline.idOf above)
  /-- A class that goes by an id like that of a namespace is at the top. -/
  alone : ∀ ref, classes ref → SpaceLike (outline.idOf ref) → outline.parentOf ref = none

/-- Items keep their ids, and lose places at most. What is still below its parent keeps it. -/
structure Thinned (first second : Outline) : Prop where
  size : first.nodes.size ≤ second.nodes.size
  ids : ∀ ref < first.nodes.size, second.idOf ref = first.idOf ref
  children : ∀ place, (second.childrenOf place).Sublist (first.childrenOf place)
  parents : ∀ ref above, second.parentOf ref = some above → first.parentOf ref = some above
  stays : ∀ place, ∀ ref ∈ second.childrenOf place, first.parentOf ref = place → second.parentOf ref = place

namespace Thinned

theorem refl (outline : Outline) : Thinned outline outline :=
  ⟨Nat.le_refl _, fun _ _ => rfl, fun _ => List.Sublist.refl _, fun _ _ => id, fun _ _ _ => id⟩

theorem trans (one : Thinned first second) (two : Thinned second third) : Thinned first third where
  size := Nat.le_trans one.size two.size
  ids ref valid := (two.ids ref (Nat.lt_of_lt_of_le valid one.size)).trans (one.ids ref valid)
  children place := (two.children place).trans (one.children place)
  parents ref above same := one.parents ref above (two.parents ref above same)
  stays place ref member same := two.stays place ref member (one.stays place ref ((two.children place).subset member) same)

theorem distinct (thinned : Thinned first second) (sound : first.Valid)
    (distinct : ((first.childrenOf place).map first.idOf).Nodup) : ((second.childrenOf place).map second.idOf).Nodup := by
  have ids : (second.childrenOf place).map second.idOf = (second.childrenOf place).map first.idOf :=
    List.map_congr_left fun ref member => thinned.ids ref (sound.children place ref ((thinned.children place).subset member))
  rw [ids]
  exact distinct.sublist ((thinned.children place).map _)

end Thinned

/-- An outline that has lost places and got new items has a lineage, as long as no class is left over below its parent
that counts no longer. -/
theorem Lineage.thinned (lineage : Lineage first classes alive) (thinned : Thinned first second) (valid : second.Valid)
    (more : ∀ ref, alive ref → living ref)
    (new : ∀ ref, living ref → alive ref ∨ first.nodes.size ≤ ref ∧ ref < second.nodes.size)
    (fewer : ∀ ref, others ref → classes ref)
    (left : ∀ place, ∀ ref ∈ second.childrenOf place, classes ref → first.parentOf ref = place → others ref) :
    Lineage second others living := by
  have nowhere : ∀ ref, first.nodes.size ≤ ref → first.parentOf ref = none := fun ref beyond => by
    rw [parentOf, Array.getElem?_eq_none beyond]
    rfl
  -- Nothing is below a new item.
  have known : ∀ place, Open living place → ∀ ref ∈ second.childrenOf place, Open alive place := by
    intro place reachable ref member above same
    refine (new above (reachable above same)).resolve_right ?_
    rintro ⟨beyond, -⟩
    have old := (thinned.children place).subset member
    rw [same, childrenOf_eq_nil beyond] at old
    cases old
  have kept : ∀ ref, alive ref → second.idOf ref = first.idOf ref := fun ref living => thinned.ids ref (lineage.exist ref living)
  refine ⟨valid, fun place => thinned.distinct lineage.valid (lineage.distinct place), ?_, ?_, ?_, ?_, ?_, ?_⟩
  · intro ref here
    rcases new ref here with old | ⟨-, inside⟩
    · exact Nat.lt_of_lt_of_le (lineage.exist ref old) thinned.size
    · exact inside
  · intro place reachable ref member
    exact more ref (lineage.below place (known place reachable ref member) ref ((thinned.children place).subset member))
  · exact fun ref above same => more above (lineage.parents ref above (thinned.parents ref above same))
  · intro place reachable ref member
    have before := known place reachable ref member
    have old := (thinned.children place).subset member
    refine (lineage.kin place before ref old).imp ?_ ?_
    · intro kin
      cases place with
      | none => rwa [Kin, kept ref (lineage.below none before ref old)]
      | some above => rwa [Kin, kept ref (lineage.below _ before ref old), kept above (before above rfl)]
    · rintro ⟨isClass, parent⟩
      exact ⟨left place ref member isClass parent, thinned.stays place ref member parent⟩
  · intro ref above either same
    have parent := thinned.parents ref above same
    rw [kept above (lineage.parents ref above parent)]
    refine lineage.spaces ref above (either.imp (fewer ref) fun like => ?_) parent
    by_cases inside : ref < first.nodes.size
    · rwa [thinned.ids ref inside] at like
    · rw [nowhere ref (Nat.le_of_not_lt inside)] at parent
      cases parent
  · intro ref isClass like
    refine Option.eq_none_iff_forall_ne_some.mpr fun above same => ?_
    have parent := thinned.parents ref above same
    by_cases inside : ref < first.nodes.size
    · rw [thinned.ids ref inside] at like
      rw [lineage.alone ref (fewer ref isClass) like] at parent
      cases parent
    · rw [nowhere ref (Nat.le_of_not_lt inside)] at parent
      cases parent

/-! ## Taking out -/

theorem thinned_delete (inside : outline.Inside place) (id : String) : Thinned outline (outline.delete place id).1 := by
  unfold delete
  split
  · exact .refl outline
  next ref found =>
    have children : ∀ other, ((outline.setChildren place ((outline.childrenOf place).filter (· != ref))).release place ref).childrenOf other =
        if other = place then (outline.childrenOf place).filter (· != ref) else outline.childrenOf other := by
      intro other
      rw [childrenOf_release, childrenOf_setChildren inside]
    refine ⟨by simp, by simp, ?_, ?_, ?_⟩
    · intro other
      rw [children]
      split
      next here => exact here ▸ List.filter_sublist
      next => exact List.Sublist.refl _
    · intro other above same
      rw [parentOf_release, parentOf_setChildren, parentOf_setChildren] at same
      split at same
      · cases same
      · exact same
    · intro other child member parent
      rw [parentOf_release, parentOf_setChildren, parentOf_setChildren, if_neg]
      · exact parent
      · rintro ⟨rfl, here⟩
        rw [children, if_pos (parent.symm.trans here)] at member
        simp at member

theorem thinned_replace_nil (inside : outline.Inside place) : Thinned outline (outline.replace place []) := by
  have moved : Moved outline (outline.replace place []) := moved_replace inside nofun
  refine ⟨moved.size.ge, fun ref _ => moved.idOf ref, ?_, ?_, ?_⟩
  · intro other
    rw [childrenOf_replace_nil inside]
    split
    · exact List.nil_sublist _
    · exact List.Sublist.refl _
  · intro ref above same
    rw [parentOf_replace_nil] at same
    split at same
    · cases same
    · exact same
  · intro other ref member parent
    rw [childrenOf_replace_nil inside] at member
    split at member
    next => cases member
    next elsewhere =>
      rw [parentOf_replace_nil, if_neg, parent]
      exact fun ⟨_, here⟩ => elsewhere (parent.symm.trans here)

theorem idOf_ne_of_mem_delete (inside : outline.Inside place) (distinct : ((outline.childrenOf place).map outline.idOf).Nodup)
    {id : String} (member : ref ∈ (outline.delete place id).1.childrenOf place) : outline.idOf ref ≠ id := by
  unfold delete at member
  split at member
  next missing => exact child?_eq_none_iff.mp missing ref member
  next former found =>
    obtain ⟨inner, rfl⟩ := mem_of_child? found
    rw [childrenOf_release, childrenOf_setChildren inside, if_pos rfl] at member
    obtain ⟨held, differs⟩ := List.mem_filter.mp member
    intro same
    simp [eq_of_idOf_eq distinct held inner same] at differs

/-- What is forgotten takes nothing with it but places. -/
theorem Lineage.keep (lineage : Lineage outline classes alive) (others : List Ref) :
    Lineage (outline.keep others) classes fun ref => alive ref ∧ ref ∈ (outline.top ++ others).flatMap outline.descendants := by
  obtain ⟨size, ids, children, parents⟩ := keep_views outline others
  have kept : ∀ ref above, (outline.keep others).parentOf ref = some above →
      outline.parentOf ref = some above ∧ above ∈ (outline.top ++ others).flatMap outline.descendants := by
    intro ref above same
    rw [parents, Option.filter_eq_some_iff, List.contains_iff_mem] at same
    exact same
  have opened : ∀ place, Open (fun ref => alive ref ∧ ref ∈ (outline.top ++ others).flatMap outline.descendants) place →
      Open alive place := fun place reachable => reachable.mono fun _ => And.left
  have kin : ∀ place ref, outline.Kin place ref → (outline.keep others).Kin place ref := by
    intro place ref kin
    cases place <;> simpa only [Kin, ids] using kin
  refine ⟨(moved_keep others).valid lineage.valid, ?_, fun ref living => size ▸ lineage.exist ref living.1, ?_, ?_, ?_, ?_, ?_⟩
  · intro place
    rw [children, funext ids]
    exact lineage.distinct place
  · intro place reachable ref member
    rw [children] at member
    refine ⟨lineage.below place (opened place reachable) ref member, ?_⟩
    cases place with
    | none => exact List.mem_flatMap.mpr ⟨ref, List.mem_append_left _ member, mem_descendants_self outline ref⟩
    | some above =>
      obtain ⟨root, listed, below⟩ := List.mem_flatMap.mp (reachable above rfl).2
      exact List.mem_flatMap.mpr ⟨root, listed, mem_descendants_of_child lineage.valid below member⟩
  · intro ref above same
    obtain ⟨before, inside⟩ := kept ref above same
    exact ⟨lineage.parents ref above before, inside⟩
  · intro place reachable ref member
    rw [children] at member
    refine (lineage.kin place (opened place reachable) ref member).imp (kin place ref) fun ⟨isClass, parent⟩ => ⟨isClass, ?_⟩
    rw [parents, parent]
    cases place with
    | none => rfl
    | some above => exact Option.filter_some_pos (List.contains_iff_mem.mpr (reachable above rfl).2)
  · intro ref above either same
    rw [ids] at either ⊢
    exact lineage.spaces ref above either (kept ref above same).1
  · intro ref isClass like
    rw [ids] at like
    rw [parents, lineage.alone ref isClass like]
    rfl

/-! ## Putting in -/

/-- Items can be added to a place that they are kin to, and classes to namespaces. -/
theorem Lineage.put (lineage : Lineage first classes alive) (put : Put place refs first second) (reachable : Open alive place)
    (living : ∀ ref ∈ refs, alive ref) (more : ∀ ref, classes ref → others ref)
    (new : ∀ ref, others ref → classes ref ∨ ref ∈ refs) (kin : ∀ ref ∈ refs, first.Kin place ref ∨ others ref)
    (spaces : ∀ ref ∈ refs, others ref ∨ SpaceLike (first.idOf ref) → ∀ above ∈ place, SpaceLike (first.idOf above))
    (again : ∀ ref ∈ refs, classes ref → SpaceLike (first.idOf ref))
    (alone : ∀ ref ∈ refs, others ref → SpaceLike (first.idOf ref) → place = none) : Lineage second others alive := by
  have ids : ∀ ref, second.idOf ref = first.idOf ref := put.moved.idOf
  have kept : ∀ around ref, first.Kin around ref → second.Kin around ref := by
    intro around ref kin
    cases around <;> simpa only [Kin, ids] using kin
  refine ⟨put.moved.valid lineage.valid, ?_, fun ref here => put.moved.size ▸ lineage.exist ref here, ?_, ?_, ?_, ?_, ?_⟩
  · intro around
    by_cases same : around = place
    · exact same ▸ put.distinct
    · rw [put.elsewhere around same, funext ids]
      exact lineage.distinct around
  · intro around inside ref member
    by_cases same : around = place
    · subst same
      rcases put.here ref member with ⟨added, -⟩ | ⟨-, old, -⟩
      · exact living ref added
      · exact lineage.below around inside ref old
    · exact lineage.below around inside ref (put.elsewhere around same ▸ member)
  · intro ref above same
    by_cases added : ref ∈ refs
    · rcases put.added ref added with here | none
      · exact reachable above (here.symm.trans same)
      · rw [none] at same
        cases same
    · rcases put.others ref added with still | ⟨-, none⟩
      · exact lineage.parents ref above (still.symm.trans same)
      · rw [none] at same
        cases same
  · intro around inside ref member
    by_cases same : around = place
    · subst same
      rcases put.here ref member with ⟨added, here⟩ | ⟨-, old, stays⟩
      · exact (kin ref added).imp (kept around ref) fun isClass => ⟨isClass, here⟩
      · exact (lineage.kin around inside ref old).imp (kept around ref) fun ⟨isClass, parent⟩ => ⟨more ref isClass, stays parent⟩
    · rw [put.elsewhere around same] at member
      refine (lineage.kin around inside ref member).imp (kept around ref) fun ⟨isClass, parent⟩ => ⟨more ref isClass, ?_⟩
      -- A class that is put into another place would have been at the top, and put there again.
      by_cases added : ref ∈ refs
      · have like := again ref added isClass
        exact absurd (parent.symm.trans (lineage.alone ref isClass like) |>.trans (alone ref added (more ref isClass) like).symm) same
      · rcases put.others ref added with still | ⟨below, -⟩
        · exact still.trans parent
        · exact absurd (parent.symm.trans below) same
  · intro ref above either same
    rw [ids] at either ⊢
    by_cases added : ref ∈ refs
    · rcases put.added ref added with here | none
      · exact spaces ref added either above (here.symm.trans same)
      · rw [none] at same
        cases same
    · rcases put.others ref added with still | ⟨-, none⟩
      · exact lineage.spaces ref above (either.imp_left fun isClass => (new ref isClass).resolve_right added) (still.symm.trans same)
      · rw [none] at same
        cases same
  · intro ref isClass like
    rw [ids] at like
    by_cases added : ref ∈ refs
    · exact (put.added ref added).elim (·.trans (alone ref added isClass like)) id
    · have before := lineage.alone ref ((new ref isClass).resolve_right added) like
      exact (put.others ref added).elim (·.trans before) (·.2)

end TestScout.Outline

namespace TestScout.Editor
open Test Outline

variable {outline : Outline} {removed : List (String × Ref)} {refs : List Ref}

/-- Items have been taken out of the places that they were put into last, and namespaces that were emptied by this. -/
structure TakenOut (outline : Outline) (removed : List (String × Ref)) (refs : List Ref) (result : Outline × List (String × Ref)) :
    Prop where
  moved : Moved outline result.1
  thinned : Thinned outline result.1
  remembered : ∃ emptied : List (String × Ref), result.2 = emptied ++ removed ∧
    ∀ found ∈ emptied, SpaceLike found.1 ∧ ∃ child, outline.parentOf child = some found.2
  gone : ∀ ref ∈ refs, ref ∉ result.1.childrenOf (outline.parentOf ref)
  cleared : ∀ ref ∈ refs, outline.parentOf ref = none → ∀ child ∈ result.1.childrenOf none, outline.idOf child ≠ outline.idOf ref
  /-- Nothing is emptied at the top. -/
  shallow : (∀ ref ∈ refs, outline.parentOf ref = none) → result.2 = removed

theorem TakenOut.trans {middle result : Outline × List (String × Ref)} {further : List Ref}
    (one : TakenOut outline removed refs middle) (two : TakenOut middle.1 middle.2 further result) :
    TakenOut outline removed (refs ++ further) result := by
  have free : ∀ ref, outline.parentOf ref = none → middle.1.parentOf ref = none := by
    intro ref none
    refine Option.eq_none_iff_forall_ne_some.mpr fun above same => ?_
    rw [one.thinned.parents ref above same] at none
    cases none
  refine ⟨one.moved.trans two.moved, one.thinned.trans two.thinned, ?_, ?_, ?_, ?_⟩
  · obtain ⟨early, before, like⟩ := one.remembered
    obtain ⟨late, after, alike⟩ := two.remembered
    refine ⟨late ++ early, by rw [after, before, List.append_assoc], fun found member => ?_⟩
    rcases List.mem_append.mp member with second | first
    · exact (alike found second).imp id fun ⟨child, same⟩ => ⟨child, one.thinned.parents child found.2 same⟩
    · exact like found first
  · intro ref member held
    have before := (two.thinned.children _).subset held
    rcases List.mem_append.mp member with first | second
    · exact one.gone ref first before
    · exact two.gone ref second (one.thinned.stays _ ref before rfl ▸ held)
  · intro ref member top child held
    rcases List.mem_append.mp member with first | second
    · exact one.cleared ref first top child ((two.thinned.children none).subset held)
    · rw [← one.moved.idOf, ← one.moved.idOf]
      exact two.cleared ref second (free ref top) child held
  · intro shallow
    rw [two.shallow fun ref member => free ref (shallow ref (List.mem_append_right _ member))]
    exact one.shallow fun ref member => shallow ref (List.mem_append_left _ member)

variable {ref : Ref} (sound : outline.Valid) (distinct : ∀ place, ((outline.childrenOf place).map outline.idOf).Nodup)
include sound distinct

private theorem takenOut_delete : TakenOut outline removed [ref]
    ((outline.delete (outline.parentOf ref) (outline.idOf ref)).1, removed) := by
  have left : ∀ child ∈ (outline.delete (outline.parentOf ref) (outline.idOf ref)).1.childrenOf (outline.parentOf ref),
      outline.idOf child ≠ outline.idOf ref := fun child => idOf_ne_of_mem_delete (sound.parents ref) (distinct _)
  refine ⟨moved_delete _ _, thinned_delete (sound.parents ref) _, ⟨[], rfl, nofun⟩, ?_, ?_, fun _ => rfl⟩
  · rw [List.forall_mem_singleton]
    exact fun held => left ref held rfl
  · rw [List.forall_mem_singleton]
    intro top
    rwa [top] at left ⊢

theorem takenOut_prune (levels : Nat) (first : ∀ above, outline.parentOf ref = some above → SpaceLike (outline.idOf above))
    (next : ∀ other above, SpaceLike (outline.idOf other) → outline.parentOf other = some above → SpaceLike (outline.idOf above)) :
    TakenOut outline removed [ref] (prune levels ref (outline, removed)) := by
  induction levels generalizing ref outline removed with
  | zero =>
    have last : prune 0 ref (outline, removed) = ((outline.delete (outline.parentOf ref) (outline.idOf ref)).1, removed) := by
      rw [prune.eq_def]
      cases below : outline.parentOf ref <;> simp only [below]
    rw [last]
    exact takenOut_delete sound distinct
  | succ levels ih =>
    have deleted : TakenOut outline removed [ref] _ := takenOut_delete sound distinct
    cases parent : outline.parentOf ref with
    | none =>
      rw [parent] at deleted
      rwa [prune_top removed parent]
    | some above =>
      rw [prune_below removed parent]
      rw [parent] at deleted
      have ids : ∀ other, (outline.delete (some above) (outline.idOf ref)).1.idOf other = outline.idOf other := idOf_delete _
      generalize (outline.delete (some above) (outline.idOf ref)).1 = middle at deleted ids ⊢
      split
      · have below : ¬∀ other ∈ [ref], outline.parentOf other = none := by simp [parent]
        have remembering : TakenOut outline removed [ref] (middle, (middle.idOf above, above) :: removed) :=
          { deleted with
            remembered := ⟨[_], rfl, List.forall_mem_singleton.mpr ⟨ids above ▸ first above parent, ref, parent⟩⟩
            shallow := fun top => absurd top below }
        have higher : TakenOut middle ((middle.idOf above, above) :: removed) [above]
            (prune levels above (middle, (middle.idOf above, above) :: removed)) := by
          refine ih (deleted.moved.valid sound) (fun place => deleted.thinned.distinct sound (distinct place)) ?_ ?_
          · intro higher same
            rw [ids]
            exact next above higher (first above parent) (deleted.thinned.parents above higher same)
          · intro other higher like same
            rw [ids] at like ⊢
            exact next other higher like (deleted.thinned.parents other higher same)
        have climbed := remembering.trans higher
        exact { climbed with
          gone := fun other member => climbed.gone other (List.mem_append_left _ member)
          cleared := fun other member => climbed.cleared other (List.mem_append_left _ member)
          shallow := fun top => absurd top below }
      · exact deleted

theorem takenOut_pruneAll (levels : Nat) (refs : List Ref)
    (first : ∀ ref ∈ refs, ∀ above, outline.parentOf ref = some above → SpaceLike (outline.idOf above))
    (next : ∀ other above, SpaceLike (outline.idOf other) → outline.parentOf other = some above → SpaceLike (outline.idOf above)) :
    TakenOut outline removed refs (refs.foldl (fun state ref => prune levels ref state) (outline, removed)) := by
  induction refs generalizing outline removed with
  | nil => exact ⟨.refl outline, .refl outline, ⟨[], rfl, nofun⟩, nofun, nofun, fun _ => rfl⟩
  | cons ref rest ih =>
    have one : TakenOut outline removed [ref] _ := takenOut_prune sound distinct levels (first ref List.mem_cons_self) next
    refine one.trans (ih (one.moved.valid sound) (fun place => one.thinned.distinct sound (distinct place)) ?_ ?_)
    · intro other member above same
      rw [one.moved.idOf]
      exact first other (List.mem_cons_of_mem _ member) above (one.thinned.parents other above same)
    · intro other above like same
      rw [one.moved.idOf] at like ⊢
      exact next other above like (one.thinned.parents other above same)

end TestScout.Editor
