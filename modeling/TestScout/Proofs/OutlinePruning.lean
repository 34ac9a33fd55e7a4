import TestScout.Editor.Basic
import TestScout.Proofs.OutlineForest

/-! Taking items out of an outline. An item is taken out together with the items above it in which nothing is left
then; all others stay where they are. -/

namespace TestScout.Outline

variable {first second third outline : Outline} {live : Ref → Prop} {place : Place} {ref : Ref} {front : List Ref}

/-- Some items have been taken out of their places. -/
structure Pruned (live gone : Ref → Prop) (first second : Outline) : Prop where
  size : second.nodes.size = first.nodes.size
  ids : ∀ ref, second.idOf ref = first.idOf ref
  forested : Forested second live
  holds : ∀ place, Open live place → ∀ ref, second.Holds place ref ↔ first.Holds place ref ∧ ¬gone ref

namespace Pruned

variable {gone further : Ref → Prop}

theorem refl (forested : Forested outline live) : Pruned live (fun _ => False) outline outline :=
  ⟨rfl, fun _ => rfl, forested, fun _ _ _ => by simp⟩

theorem trans (one : Pruned live gone first second) (two : Pruned live further second third) :
    Pruned live (fun ref => gone ref ∨ further ref) first third where
  size := two.size.trans one.size
  ids ref := (two.ids ref).trans (one.ids ref)
  forested := two.forested
  holds place reachable ref := by
    rw [two.holds place reachable, one.holds place reachable, and_assoc, not_or]

theorem congr (pruned : Pruned live gone first second) (same : ∀ ref, gone ref ↔ further ref) :
    Pruned live further first second where
  __ := pruned
  holds place reachable ref := by rw [pruned.holds place reachable, same]

theorem chain (pruned : Pruned live gone first second) (reachable : Open live place) {path : List Ref}
    (lies : Chain first.Holds place path) (forested : Forested first live) (left : ∀ ref ∈ path, ¬gone ref) :
    Chain second.Holds place path := by
  induction path generalizing place with
  | nil => trivial
  | cons ref rest ih =>
    have living := (forested.inside place ref reachable lies.1).1
    exact ⟨(pruned.holds place reachable ref).mpr ⟨lies.1, left ref List.mem_cons_self⟩,
      ih (Open.below living) lies.2 fun other member => left other (List.mem_cons_of_mem _ member)⟩

end Pruned

theorem pruned_delete (forested : Forested outline live) (reachable : Open live place) (held : outline.Holds place ref) :
    Pruned live (· = ref) outline (outline.delete place (outline.idOf ref)).1 := by
  have left := mem_childrenOf_delete (forested.within reachable) (forested.distinct place reachable) held
  refine ⟨size_delete _, idOf_delete _, forested.delete reachable held, fun elsewhere open_place other => ?_⟩
  rw [Holds, left]
  refine and_congr_right fun found => ⟨fun kept same => ?_, fun differs _ => differs⟩
  subst same
  exact kept (forested.place_unique open_place reachable found held) rfl

theorem Pruned.filled_of_ne (pruned : Pruned live (· = ref) first second) (forested : Forested first live)
    (reachable : Open live place) (held : first.Holds place ref) {other : Ref} (living : live other)
    (differs : some other ≠ place) (filled : first.childrenOf (some other) ≠ []) : second.childrenOf (some other) ≠ [] := by
  obtain ⟨child, member⟩ := List.exists_mem_of_ne_nil _ filled
  have stays : child ≠ ref := by
    rintro rfl
    exact differs (forested.place_unique (Open.below living) reachable member held)
  exact List.ne_nil_of_mem ((pruned.holds (some other) (Open.below living) child).mpr ⟨member, stays⟩)

end TestScout.Outline

namespace TestScout.Outline

/-! ## Forgetting -/

theorem mem_descendantsUpTo {outline : Outline} {levels : Nat} {ref : Ref} {path : List Ref}
    (lies : Chain outline.Holds (some ref) path) (enough : path.length ≤ levels) {last : Ref} (member : last ∈ ref :: path) :
    last ∈ outline.descendantsUpTo levels ref := by
  induction levels generalizing ref path with
  | zero =>
    obtain rfl := List.length_eq_zero_iff.mp (Nat.le_zero.mp enough)
    exact member
  | succ levels ih =>
    rw [descendantsUpTo]
    rcases List.mem_cons.mp member with rfl | below
    · exact List.mem_cons_self
    cases path with
    | nil => cases below
    | cons next path =>
      exact List.mem_cons_of_mem _ (List.mem_flatMap.mpr
        ⟨next, lies.1, ih lies.2 (Nat.le_of_succ_le_succ enough) below⟩)

theorem path_of_mem_descendantsUpTo {outline : Outline} {levels : Nat} {root ref : Ref} (member : ref ∈ outline.descendantsUpTo levels root) :
    ref = root ∨ ∃ front, Chain outline.Holds (some root) (front ++ [ref]) := by
  induction levels generalizing root with
  | zero => exact .inl (List.mem_singleton.mp member)
  | succ levels ih =>
    rw [descendantsUpTo] at member
    rcases List.mem_cons.mp member with same | deeper
    · exact .inl same
    · obtain ⟨child, held, below⟩ := List.mem_flatMap.mp deeper
      rcases ih below with rfl | ⟨front, lies⟩
      · exact .inr ⟨[], held, trivial⟩
      · exact .inr ⟨child :: front, held, lies⟩

theorem mem_kept (forested : Forested outline live) {path : List Ref} (lies : Chain outline.Holds none path)
    (member : ref ∈ path) (others : List Ref) : ref ∈ (outline.top ++ others).flatMap outline.descendants := by
  cases path with
  | nil => cases member
  | cons first rest =>
    have length := forested.path_length lies
    exact List.mem_flatMap.mpr ⟨first, List.mem_append_left _ lies.1,
      mem_descendantsUpTo lies.2 (Nat.le_of_succ_le length) member⟩

theorem keep_views (outline : Outline) (others : List Ref) :
    (outline.keep others).nodes.size = outline.nodes.size ∧ (∀ ref, (outline.keep others).idOf ref = outline.idOf ref) ∧
      (∀ place, (outline.keep others).childrenOf place = outline.childrenOf place) ∧
      ∀ ref, (outline.keep others).parentOf ref =
        (outline.parentOf ref).filter ((outline.top ++ others).flatMap outline.descendants).contains := by
  refine ⟨Array.size_map .., fun ref => ?_, fun place => ?_, fun ref => ?_⟩
  · simp only [idOf, item, keep, Array.getElem?_map, Option.map_map]
    rfl
  · cases place with
    | none => rfl
    | some ref =>
      simp only [childrenOf, keep, Array.getElem?_map, Option.map_map]
      rfl
  · simp only [parentOf, keep, Array.getElem?_map]
    cases outline.nodes[ref]? <;> rfl

/-- Forgetting items leaves those alone that can be found from the top. -/
theorem Forested.keep (forested : Forested outline live)
    (rooted : ∀ ref, live ref → ∃ front, Chain outline.Holds none (front ++ [ref])) (others : List Ref) :
    Forested (outline.keep others) live := by
  obtain ⟨size, ids, children, parents⟩ := keep_views outline others
  refine ⟨fun ref living => size ▸ forested.valid ref living, fun place ref reachable member => ?_, fun place reachable => ?_⟩
  · rw [children] at member
    obtain ⟨living, parent⟩ := forested.inside place ref reachable member
    refine ⟨living, ?_⟩
    rw [parents, parent]
    cases place with
    | none => rfl
    | some above =>
      obtain ⟨front, lies⟩ := rooted above (reachable above rfl)
      have kept := mem_kept forested lies (List.mem_append_right _ List.mem_cons_self) others
      simp only [Option.filter_some, List.contains_iff_mem]
      exact if_pos kept
  · rw [children, funext ids]
    exact forested.distinct place reachable

end TestScout.Outline

namespace TestScout.Editor
open Outline

variable {outline : Outline} {live : Ref → Prop} {ref : Ref} {front : List Ref} {levels : Nat}

theorem prune_top (removed : List (String × Ref)) (top : outline.parentOf ref = none) :
    prune levels ref (outline, removed) = ((outline.delete none (outline.idOf ref)).1, removed) := by
  rw [prune.eq_def]
  simp only [top]

theorem prune_below {parent : Ref} (removed : List (String × Ref)) (below : outline.parentOf ref = some parent) :
    let pruned := (outline.delete (some parent) (outline.idOf ref)).1
    prune (levels + 1) ref (outline, removed) =
      if (pruned.childrenOf (some parent)).isEmpty then
        prune levels parent (pruned, (pruned.idOf parent, parent) :: removed)
      else (pruned, removed) := by
  rw [prune.eq_def]
  simp only [below]

/-- An item has been taken out with all items above it that were emptied by this, and these are remembered. -/
structure Pruning (live : Ref → Prop) (outline : Outline) (removed : List (String × Ref)) (ref : Ref) (gone : List Ref)
    (result : Outline × List (String × Ref)) : Prop where
  pruned : Pruned live (· ∈ gone) outline result.1
  self : ref ∈ gone
  emptied : ∀ other ∈ gone, other ≠ ref → ∀ child, outline.Holds (some other) child → child ∈ gone
  filled : ∀ other, live other → other ∉ gone → outline.childrenOf (some other) ≠ [] →
    result.1.childrenOf (some other) ≠ []
  remembered : ∀ entry, entry ∈ result.2 ↔
    entry ∈ removed ∨ ∃ other ∈ gone, other ≠ ref ∧ entry = (outline.idOf other, other)

namespace Pruning

variable {removed : List (String × Ref)} {taken : Outline} (forested : Forested outline live)
  (deleted : Pruned live (· = ref) outline taken)
include deleted

omit forested in
theorem single (filled : ∀ other, live other → other ≠ ref → outline.childrenOf (some other) ≠ [] →
    taken.childrenOf (some other) ≠ []) : Pruning live outline removed ref [ref] (taken, removed) where
  pruned := deleted.congr fun other => by simp
  self := List.mem_cons_self
  emptied other member differs := absurd (List.mem_singleton.mp member) differs
  filled other alive stays := filled other alive fun same => stays (List.mem_singleton.mpr same)
  remembered entry := by simp

include forested in
/-- The item above has nothing left and is taken out, too. -/
theorem climb {parent : Ref} (held : outline.Holds (some parent) ref) (empty : taken.childrenOf (some parent) = [])
    {gone : List Ref} {result : Outline × List (String × Ref)}
    (climbed : Pruning live taken ((taken.idOf parent, parent) :: removed) parent gone result)
    (alive : ∀ other ∈ gone, live other) (apart : ref ∉ gone) : Pruning live outline removed ref (ref :: gone) result := by
  have reachable : Open live (some parent) := Open.below (alive parent climbed.self)
  refine ⟨(deleted.trans climbed.pruned).congr fun other => by simp, List.mem_cons_self, ?_, ?_, ?_⟩
  · intro other member differs child found
    have inside := (List.mem_cons.mp member).resolve_left differs
    by_cases same : child = ref
    · exact same ▸ List.mem_cons_self
    have kept := (deleted.holds (some other) (Open.below (alive other inside)) child).mpr ⟨found, same⟩
    refine List.mem_cons_of_mem _ ?_
    by_cases closest : other = parent
    · rw [Holds, closest, empty] at kept
      cases kept
    · exact climbed.emptied other inside closest child kept
  · intro other living stays some
    obtain ⟨-, stays⟩ := not_or.mp (fun either => stays (List.mem_cons.mpr either))
    have differs : other ≠ parent := fun same => stays (same ▸ climbed.self)
    refine climbed.filled other living stays (deleted.filled_of_ne forested reachable held living ?_ some)
    exact fun same => differs (Option.some_inj.mp same)
  · intro entry
    rw [climbed.remembered, List.mem_cons]
    simp only [deleted.ids]
    constructor
    · rintro ((rfl | old) | ⟨other, member, -, rfl⟩)
      · exact .inr ⟨parent, List.mem_cons_of_mem _ climbed.self, fun same => apart (same ▸ climbed.self), rfl⟩
      · exact .inl old
      · exact .inr ⟨other, List.mem_cons_of_mem _ member, fun same => apart (same ▸ member), rfl⟩
    · rintro (old | ⟨other, member, differs, rfl⟩)
      · exact .inl (.inr old)
      · by_cases closest : other = parent
        · exact .inl (.inl (by rw [closest]))
        · exact .inr ⟨other, (List.mem_cons.mp member).resolve_left differs, closest, rfl⟩

end Pruning

/-- What is taken out is the end of the path to an item. -/
theorem prune_pruning (forested : Forested outline live) (lies : Chain outline.Holds none (front ++ [ref]))
    (enough : front.length ≤ levels) (removed : List (String × Ref)) :
    ∃ gone ⊆ front ++ [ref], Pruning live outline removed ref gone (prune levels ref (outline, removed)) := by
  induction front using List.reverseRecOn generalizing levels outline ref removed with
  | nil =>
    obtain ⟨held, top⟩ := forested.parent_of_path lies
    have deleted := pruned_delete forested Open.top held
    rw [prune_top removed top]
    refine ⟨[ref], List.Subset.refl _, .single deleted ?_⟩
    intro other alive _ filled
    exact deleted.filled_of_ne forested Open.top held alive nofun filled
  | append_singleton front parent ih =>
    obtain ⟨held, below⟩ := forested.parent_of_path lies
    rw [List.getLast?_concat] at held below
    have above := (chain_append.mp lies).1
    have reachable : Open live (some parent) := Open.below (forested.alive_of_path above Open.top (by simp))
    have deleted := pruned_delete forested reachable held
    have apart : ref ∉ front ++ [parent] := fun member =>
      (List.nodup_append.mp (forested.path_nodup lies)).2.2 ref member ref List.mem_cons_self rfl
    rw [List.length_append, List.length_singleton] at enough
    obtain ⟨levels, rfl⟩ := Nat.exists_eq_add_of_le' enough
    -- The path to the item above is one shorter and, if that item goes as well, not touched yet.
    rw [← Nat.add_assoc, prune_below removed below]
    generalize (outline.delete (some parent) (outline.idOf ref)).1 = taken at deleted
    split
    next empty =>
      have still := deleted.chain Open.top above forested fun other member same => apart (same ▸ member)
      obtain ⟨gone, path, climbed⟩ :=
        ih deleted.forested still (Nat.le_add_left _ levels) ((taken.idOf parent, parent) :: removed)
      refine ⟨ref :: gone, List.cons_subset.mpr ⟨by simp, fun other member => List.mem_append_left _ (path member)⟩, ?_⟩
      refine .climb forested deleted held (List.isEmpty_iff.mp empty) climbed ?_ fun member => apart (path member)
      intro other member
      exact forested.alive_of_path above Open.top (path member)
    next some =>
      refine ⟨[ref], by simp, .single deleted ?_⟩
      intro other alive _ filled
      by_cases closest : other = parent
      · subst closest
        simpa using some
      · refine deleted.filled_of_ne forested reachable held alive ?_ filled
        exact fun same => closest (Option.some_inj.mp same)

/-- Several classes have been taken out with all namespaces that were emptied by this. -/
structure Cleared (live spaces : Ref → Prop) (outline : Outline) (removed : List (String × Ref)) (classes : List Ref)
    (gone : Ref → Prop) (result : Outline × List (String × Ref)) : Prop where
  pruned : Pruned live gone outline result.1
  all : ∀ ref ∈ classes, gone ref
  only : ∀ ref, gone ref → ref ∈ classes ∨ spaces ref
  emptied : ∀ ref, gone ref → spaces ref → ∀ child, outline.Holds (some ref) child → gone child
  filled : ∀ ref, live ref → ¬gone ref → outline.childrenOf (some ref) ≠ [] → result.1.childrenOf (some ref) ≠ []
  remembered : ∀ entry, entry ∈ result.2 ↔
    entry ∈ removed ∨ ∃ ref, gone ref ∧ spaces ref ∧ entry = (outline.idOf ref, ref)

/-- One more class has been taken out before the others. -/
theorem Cleared.cons {spaces gone : Ref → Prop} {removed : List (String × Ref)} {first : Ref} {rest taken : List Ref}
    {middle result : Outline × List (String × Ref)} (alive : ∀ ref, spaces ref → live ref)
    (step : Pruning live outline removed first taken middle) (kinds : ∀ ref ∈ taken, ref = first ∨ spaces ref)
    (plain : ¬spaces first) (cleared : Cleared live spaces middle.1 middle.2 rest gone result) :
    Cleared live spaces outline removed (first :: rest) (fun ref => ref ∈ taken ∨ gone ref) result := by
  refine ⟨step.pruned.trans cleared.pruned, ?_, ?_, ?_, ?_, ?_⟩
  · exact List.forall_mem_cons.mpr ⟨.inl step.self, fun ref member => .inr (cleared.all ref member)⟩
  · rintro ref (early | late)
    · exact (kinds ref early).imp (fun same : ref = first => same ▸ List.mem_cons_self) id
    · exact (cleared.only ref late).imp (List.mem_cons_of_mem _) id
  · rintro ref (early | late) space child held
    · exact .inl (step.emptied ref early (fun same => plain (same ▸ space)) child held)
    · by_cases gone : child ∈ taken
      · exact .inl gone
      · refine .inr (cleared.emptied ref late space child ?_)
        exact (step.pruned.holds _ (Open.below (alive ref space)) child).mpr ⟨held, gone⟩
  · intro ref living stays filled
    obtain ⟨early, late⟩ := not_or.mp stays
    exact cleared.filled ref living late (step.filled ref living early filled)
  · intro entry
    rw [cleared.remembered, step.remembered]
    simp only [step.pruned.ids]
    constructor
    · rintro ((old | ⟨ref, member, differs, rfl⟩) | ⟨ref, late, space, rfl⟩)
      · exact .inl old
      · exact .inr ⟨ref, .inl member, (kinds ref member).resolve_left differs, rfl⟩
      · exact .inr ⟨ref, .inr late, space, rfl⟩
    · rintro (old | ⟨ref, early | late, space, rfl⟩)
      · exact .inl (.inl old)
      · exact .inl (.inr ⟨ref, early, fun same => plain (same ▸ space), rfl⟩)
      · exact .inr ⟨ref, late, space, rfl⟩

theorem prune_cleared {spaces : Ref → Prop} (forested : Forested outline live) (alive : ∀ ref, spaces ref → live ref)
    {classes : List Ref} (distinct : classes.Nodup) (plain : ∀ ref ∈ classes, ¬spaces ref)
    (paths : ∀ ref ∈ classes, ∃ front, (∀ space ∈ front, spaces space) ∧ Chain outline.Holds none (front ++ [ref]))
    (enough : outline.nodes.size ≤ levels) (removed : List (String × Ref)) :
    ∃ gone, Cleared live spaces outline removed classes gone
      (classes.foldl (fun state ref => prune levels ref state) (outline, removed)) := by
  induction classes generalizing outline removed with
  | nil => exact ⟨fun _ => False, Pruned.refl forested, by simp, by simp, by simp, fun _ _ _ => id, by simp⟩
  | cons first rest ih =>
    obtain ⟨apart, distinct⟩ := List.nodup_cons.mp distinct
    have first_plain := plain first List.mem_cons_self
    obtain ⟨front, within, lies⟩ := paths first List.mem_cons_self
    have short : front.length ≤ levels := by
      have length := forested.path_length lies
      rw [List.length_append, List.length_singleton] at length
      omega
    obtain ⟨taken, path, step⟩ := prune_pruning forested lies short removed
    have kinds : ∀ ref ∈ taken, ref = first ∨ spaces ref := fun ref member =>
      (List.mem_append.mp (path member)).symm.imp List.mem_singleton.mp (within ref)
    -- The paths to the other classes are left, for what has been taken out is no class and has nothing below it.
    have later : ∀ ref ∈ rest, ∃ front, (∀ space ∈ front, spaces space) ∧
        Chain (prune levels first (outline, removed)).1.Holds none (front ++ [ref]) := by
      intro ref member
      obtain ⟨above, within, lies⟩ := paths ref (List.mem_cons_of_mem _ member)
      refine ⟨above, within, step.pruned.chain Open.top lies forested (lies.stays ?_ ?_)⟩
      · intro space listed gone
        exact step.emptied space gone fun same => first_plain (same ▸ within space listed)
      · intro gone
        rcases kinds ref gone with rfl | space
        · exact apart member
        · exact plain ref (List.mem_cons_of_mem _ member) space
    obtain ⟨gone, cleared⟩ := ih step.pruned.forested distinct (fun ref member => plain ref (List.mem_cons_of_mem _ member))
      later (step.pruned.size ▸ enough) (prune levels first (outline, removed)).2
    exact ⟨_, cleared.cons alive step kinds first_plain⟩

end TestScout.Editor
