import TestScout.Proofs.OutlineMoves

/-! Editing an outline from outside. Items are made, put into places, taken out and exchanged in any order, and what nobody
holds any more is gone. An item can be put into several places, and again into the one that it is in. The parent that an item
names has it as a child at every moment. The other way round, a child names the place that it is in as long as no item is put
into a second place. -/

namespace TestScout.Outline

/-- Something that is done to an outline from outside. -/
inductive Edit where
  | create (item : Item)
  | add (place : Place) (ref : Ref)
  | delete (place : Place) (id : String)
  | replace (place : Place) (refs : List Ref)
  /-- These are the items that are still held, apart from those of the outline. -/
  | hold (others : List Ref)

/-- An outline that is edited, with the items that are not gone. -/
structure Bench where
  outline : Outline := {}
  alive : List Ref := []

variable {bench : Bench} {outline first second : Outline} {place : Place} {ref : Ref} {refs pending : List Ref}

namespace Bench

def Open (bench : Bench) (place : Place) : Prop := Outline.Open (· ∈ bench.alive) place

def perform (bench : Bench) : Edit → Bench
  | .create item =>
    let (outline, ref) := bench.outline.create item
    { outline, alive := bench.alive ++ [ref] }
  | .add place ref => { bench with outline := bench.outline.add place ref }
  | .delete place id => { bench with outline := (bench.outline.delete place id).1 }
  | .replace place refs => { bench with outline := bench.outline.replace place refs }
  | .hold others =>
    let kept := (bench.outline.top ++ others).flatMap bench.outline.descendants
    { outline := bench.outline.keep others, alive := bench.alive.filter kept.contains }

def performAll (bench : Bench) (edits : List Edit) : Bench := edits.foldl perform bench

/-- No place but this one has the item. -/
def OnlyIn (bench : Bench) (place : Place) (ref : Ref) : Prop :=
  ∀ other, bench.Open other → ref ∈ bench.outline.childrenOf other → other = place

end Bench

def Edit.Usable (bench : Bench) : Edit → Prop
  | .create _ => True
  | .add place ref => bench.Open place ∧ ref ∈ bench.alive
  | .delete place _ => bench.Open place
  | .replace place refs => bench.Open place ∧ ∀ ref ∈ refs, ref ∈ bench.alive
  | .hold others => ∀ ref ∈ others, ref ∈ bench.alive

/-- An edit puts no item into a place while another place has it. -/
def Edit.Exclusive (bench : Bench) : Edit → Prop
  | .add place ref => bench.OnlyIn place ref
  | .replace place refs => ∀ ref ∈ refs, bench.OnlyIn place ref
  | _ => True

/-- Something holds of every edit, at the moment when it is made. -/
def Along (holds : Bench → Edit → Prop) : Bench → List Edit → Prop
  | _, [] => True
  | bench, edit :: rest => holds bench edit ∧ Along holds (bench.perform edit) rest

instance (bench : Bench) (place : Place) : Decidable (bench.Open place) :=
  decidable_of_iff (∀ ref ∈ place, ref ∈ bench.alive) Iff.rfl

instance (bench : Bench) (place : Place) (ref : Ref) : Decidable (bench.OnlyIn place ref) :=
  decidable_of_iff (∀ other ∈ none :: bench.alive.map some, ref ∈ bench.outline.childrenOf other → other = place) <| by
    refine ⟨fun known other opened => known other ?_, fun only other known => only other ?_⟩
    · cases other with
      | none => exact List.mem_cons_self
      | some above => exact List.mem_cons_of_mem _ (List.mem_map_of_mem (opened above rfl))
    · rintro above rfl
      simpa using known

instance (bench : Bench) : (edit : Edit) → Decidable (edit.Usable bench)
  | .create _ => inferInstanceAs (Decidable True)
  | .add place ref => inferInstanceAs (Decidable (bench.Open place ∧ ref ∈ bench.alive))
  | .delete place _ => inferInstanceAs (Decidable (bench.Open place))
  | .replace place refs => inferInstanceAs (Decidable (bench.Open place ∧ ∀ ref ∈ refs, ref ∈ bench.alive))
  | .hold others => inferInstanceAs (Decidable (∀ ref ∈ others, ref ∈ bench.alive))

instance (bench : Bench) : (edit : Edit) → Decidable (edit.Exclusive bench)
  | .add place ref => inferInstanceAs (Decidable (bench.OnlyIn place ref))
  | .replace place refs => inferInstanceAs (Decidable (∀ ref ∈ refs, bench.OnlyIn place ref))
  | .create _ | .delete _ _ | .hold _ => inferInstanceAs (Decidable True)

instance decidableAlong (holds : Bench → Edit → Prop) [∀ bench edit, Decidable (holds bench edit)] :
    (bench : Bench) → (edits : List Edit) → Decidable (Along holds bench edits)
  | _, [] => inferInstanceAs (Decidable True)
  | bench, edit :: rest =>
    have := decidableAlong holds (bench.perform edit) rest
    inferInstanceAs (Decidable (holds bench edit ∧ Along holds (bench.perform edit) rest))

/-! ## Parents have their children -/

/-- The parent that an item names has it, or it is one of those that are still to be put there. -/
def Linked (outline : Outline) (place : Place) (pending : List Ref) : Prop :=
  ∀ ref above, outline.parentOf ref = some above →
    ref ∈ outline.childrenOf (some above) ∨ some above = place ∧ ref ∈ pending

theorem linked_nil : Linked outline place [] ↔
    ∀ ref above, outline.parentOf ref = some above → ref ∈ outline.childrenOf (some above) := by
  simp [Linked]

theorem Linked.add (linked : Linked outline place (ref :: pending)) (inside : outline.Inside place)
    (distinct : ((outline.childrenOf place).map outline.idOf).Nodup) (valid : ref < outline.nodes.size) :
    Linked (outline.add place ref) place pending := by
  intro other above named
  by_cases same : other = ref
  · subst same
    rw [parentOf_add_self valid] at named
    left
    rw [← named]
    exact (mem_childrenOf_add inside distinct other).mpr (.inl rfl)
  rw [parentOf_add_ne valid same] at named
  split at named
  · cases named
  next stays =>
    rcases linked other above named with member | ⟨here, later⟩
    · left
      by_cases here : some above = place
      · subst here
        refine (mem_childrenOf_add inside distinct other).mpr (.inr ⟨member, fun equal => stays ⟨?_, named⟩⟩)
        rw [← equal]
        exact child?_of_mem distinct member
      · rwa [childrenOf_add_ne inside here]
    · exact .inr ⟨here, (List.mem_cons.mp later).resolve_left same⟩

theorem Linked.addAll (linked : Linked outline place refs) (inside : outline.Inside place)
    (distinct : ((outline.childrenOf place).map outline.idOf).Nodup) (exist : ∀ ref ∈ refs, ref < outline.nodes.size) :
    Linked (refs.foldl (·.add place ·) outline) place [] := by
  induction refs generalizing outline with
  | nil => exact linked
  | cons ref rest ih =>
    obtain ⟨valid, others⟩ := List.forall_mem_cons.mp exist
    have moved := moved_add inside valid
    refine ih (linked.add inside distinct valid) (moved.inside inside) (nodup_add inside distinct) ?_
    intro other member
    rw [size_add]
    exact others other member

/-- What is left of an outline when the items of a place are about to be exchanged. -/
private def cleared (outline : Outline) (place : Place) (refs : List Ref) : Outline :=
  (((outline.childrenOf place).filter fun ref => !refs.contains ref).foldl (·.release place ·) outline).setChildren place []

private theorem moved_cleared (outline : Outline) (place : Place) (refs : List Ref) : Moved outline (outline.cleared place refs) := by
  refine Moved.trans (Moved.foldl ?_) (moved_setChildren fun _ => nofun)
  intro current _ ref _
  exact moved_release place ref

private theorem cleared_views (inside : outline.Inside place) (refs : List Ref) :
    (∀ other, (outline.cleared place refs).childrenOf other = if other = place then [] else outline.childrenOf other) ∧
      ∀ ref, (outline.cleared place refs).parentOf ref =
        if (ref ∈ outline.childrenOf place ∧ ref ∉ refs) ∧ outline.parentOf ref = place then none else outline.parentOf ref := by
  obtain ⟨size, -, children, parents⟩ :=
    released_views place ((outline.childrenOf place).filter fun ref => !refs.contains ref) outline
  refine ⟨fun other => ?_, fun ref => ?_⟩
  · rw [cleared, childrenOf_setChildren, children]
    intro above same
    rw [size]
    exact inside above same
  · rw [cleared, parentOf_setChildren, parents]
    simp

/-- Items that stay where they are wait for being put there again. -/
private theorem Linked.cleared (linked : Linked outline place []) (inside : outline.Inside place) (refs : List Ref) :
    Linked (outline.cleared place refs) place refs := by
  obtain ⟨children, parents⟩ := cleared_views inside refs
  intro ref above named
  rw [parents] at named
  split at named
  · cases named
  next stays =>
    have member := linked_nil.mp linked ref above named
    rw [children]
    split
    next here =>
      subst here
      refine .inr ⟨rfl, by_contra fun away => stays ⟨⟨member, away⟩, named⟩⟩
    next => exact .inl member

/-! ## What every edit keeps -/

/-- No place has two items with one id, and the parent that an item names has it. -/
structure Consistent (bench : Bench) : Prop where
  valid : bench.outline.Valid
  exist : ∀ ref ∈ bench.alive, ref < bench.outline.nodes.size
  distinct : ∀ place, ((bench.outline.childrenOf place).map bench.outline.idOf).Nodup
  linked : ∀ ref above, bench.outline.parentOf ref = some above → ref ∈ bench.outline.childrenOf (some above)
  parents : ∀ ref, bench.Open (bench.outline.parentOf ref)

theorem Consistent.within (consistent : Consistent bench) (reachable : bench.Open place) : bench.outline.Inside place :=
  fun ref same => consistent.exist ref (reachable ref same)

def Bench.Named (bench : Bench) : Prop :=
  ∀ place, bench.Open place → ∀ ref ∈ bench.outline.childrenOf place, bench.outline.parentOf ref = place

theorem Consistent.create (consistent : Consistent bench) (item : Item) : Consistent (bench.perform (.create item)) where
  valid := by
    refine ⟨fun place ref member => ?_, fun ref above named => ?_⟩
    · have before := consistent.valid.children place ref (childrenOf_create item place ▸ member)
      exact Nat.lt_of_lt_of_eq (Nat.lt_succ_of_lt before) (size_create item).symm
    · have before := consistent.valid.parents ref above (parentOf_create item ref ▸ named)
      exact Nat.lt_of_lt_of_eq (Nat.lt_succ_of_lt before) (size_create item).symm
  exist ref member := by
    refine Nat.lt_of_lt_of_eq (?_ : ref < bench.outline.nodes.size + 1) (size_create item).symm
    rcases List.mem_append.mp member with old | new
    · exact Nat.lt_succ_of_lt (consistent.exist ref old)
    · rw [List.mem_singleton.mp new]
      exact Nat.lt_succ_self _
  distinct place := by
    have same : ((bench.outline.create item).1.childrenOf place).map (bench.outline.create item).1.idOf =
        (bench.outline.childrenOf place).map bench.outline.idOf := by
      rw [childrenOf_create]
      refine List.map_congr_left fun ref member => ?_
      rw [idOf_create, if_neg (Nat.ne_of_lt (consistent.valid.children place ref member))]
    exact same ▸ consistent.distinct place
  linked ref above named := by
    have before := consistent.linked ref above (parentOf_create item ref ▸ named)
    exact (childrenOf_create item (some above)).symm ▸ before
  parents ref above named :=
    List.mem_append_left _ (consistent.parents ref above (parentOf_create item ref ▸ named))

theorem Bench.Named.create (named : bench.Named) (item : Item) :
    (bench.perform (.create item)).Named := by
  intro place reachable ref member
  have before : ref ∈ bench.outline.childrenOf place := childrenOf_create item place ▸ member
  refine (parentOf_create item ref).trans (named place ?_ ref before)
  intro above same
  subst same
  -- The new item has no children yet, so the one that has some was there before.
  refine (List.mem_append.mp (reachable above rfl)).resolve_right fun new => ?_
  rw [List.mem_singleton.mp new] at before
  exact absurd before (childrenOf_eq_nil (Nat.le_refl _) ▸ List.not_mem_nil)

/-- An outline in which a place has been emptied, or not, before items are put into it. -/
structure Ready (bench : Bench) (place : Place) (ready : Outline) : Prop where
  moved : Moved bench.outline ready
  elsewhere : ∀ other, other ≠ place → ready.childrenOf other = bench.outline.childrenOf other
  fewer : ∀ ref ∈ ready.childrenOf place, ref ∈ bench.outline.childrenOf place
  parents : ∀ ref, ready.parentOf ref = bench.outline.parentOf ref ∨
    bench.outline.parentOf ref = place ∧ ready.parentOf ref = none ∧ ref ∉ ready.childrenOf place

theorem Consistent.put (consistent : Consistent bench) (reachable : bench.Open place) (ready : Ready bench place first)
    (put : Put place refs first second) (linked : Linked second place []) : Consistent { bench with outline := second } where
  valid := put.moved.valid (ready.moved.valid consistent.valid)
  exist ref member := by
    rw [put.moved.size, ready.moved.size]
    exact consistent.exist ref member
  distinct other := by
    by_cases same : other = place
    · exact same ▸ put.distinct
    · rw [put.elsewhere other same, ready.elsewhere other same, funext (ready.moved.trans put.moved).idOf]
      exact consistent.distinct other
  linked := linked_nil.mp linked
  parents ref above named := by
    by_cases member : ref ∈ refs
    · rcases put.added ref member with here | nowhere
      · exact reachable above (here.symm.trans named)
      · exact absurd (nowhere.symm.trans named) nofun
    rcases put.others ref member with same | ⟨-, nowhere⟩
    · rcases ready.parents ref with still | ⟨-, nowhere, -⟩
      · exact consistent.parents ref above (still.symm.trans (same.symm.trans named))
      · exact absurd (nowhere.symm.trans (same.symm.trans named)) nofun
    · exact absurd (nowhere.symm.trans named) nofun

theorem Bench.Named.put (named : bench.Named) (reachable : bench.Open place) (ready : Ready bench place first)
    (put : Put place refs first second) (only : ∀ ref ∈ refs, bench.OnlyIn place ref) :
    Bench.Named { bench with outline := second } := by
  intro other opened ref member
  by_cases same : other = place
  · subst same
    rcases put.here ref member with ⟨-, here⟩ | ⟨-, old, stays⟩
    · exact here
    · refine stays ?_
      rcases ready.parents ref with still | ⟨-, -, gone⟩
      · exact still.trans (named other opened ref (ready.fewer ref old))
      · exact absurd old gone
  · have before : ref ∈ bench.outline.childrenOf other :=
      ready.elsewhere other same ▸ put.elsewhere other same ▸ member
    have there := named other opened ref before
    have away : ref ∉ refs := fun inside => same (only ref inside other opened before)
    have still : first.parentOf ref = bench.outline.parentOf ref :=
      (ready.parents ref).resolve_right fun gone => same (there.symm.trans gone.1)
    rcases put.others ref away with kept | ⟨moved, -⟩
    · exact kept.trans (still.trans there)
    · exact absurd (there.symm.trans (still.symm.trans moved)) same

private theorem ready_self (bench : Bench) (place : Place) : Ready bench place bench.outline :=
  ⟨.refl _, fun _ _ => rfl, fun _ => id, fun _ => .inl rfl⟩

private theorem Consistent.put_add (consistent : Consistent bench) (reachable : bench.Open place) (living : ref ∈ bench.alive) :
    Put place [ref] bench.outline (bench.outline.add place ref) ∧ Linked (bench.outline.add place ref) place [] := by
  have inside := consistent.within reachable
  have valid := consistent.exist ref living
  refine ⟨put_addAll inside (consistent.distinct place) (by simpa using valid), ?_⟩
  refine Linked.add ?_ inside (consistent.distinct place) valid
  exact fun ref above named => .inl (consistent.linked ref above named)

private theorem ready_cleared (inside : bench.outline.Inside place) (refs : List Ref) :
    Ready bench place (bench.outline.cleared place refs) := by
  obtain ⟨children, parents⟩ := cleared_views inside refs
  refine ⟨moved_cleared bench.outline place refs, fun other away => (children other).trans (if_neg away), ?_, fun ref => ?_⟩
  · rw [children, if_pos rfl]
    exact nofun
  · rw [parents, children, if_pos rfl]
    split
    next gone => exact .inr ⟨gone.2, rfl, List.not_mem_nil⟩
    next => exact .inl rfl

private theorem Consistent.put_replace (consistent : Consistent bench) (reachable : bench.Open place)
    (living : ∀ ref ∈ refs, ref ∈ bench.alive) :
    Put place refs (bench.outline.cleared place refs) (bench.outline.replace place refs) ∧
      Linked (bench.outline.replace place refs) place [] := by
  have inside := consistent.within reachable
  have moved := moved_cleared bench.outline place refs
  have within := moved.inside inside
  have empty : (bench.outline.cleared place refs).childrenOf place = [] :=
    ((cleared_views inside refs).1 place).trans (if_pos rfl)
  have distinct : (((bench.outline.cleared place refs).childrenOf place).map (bench.outline.cleared place refs).idOf).Nodup := by
    rw [empty]
    exact List.nodup_nil
  have exist : ∀ ref ∈ refs, ref < (bench.outline.cleared place refs).nodes.size := by
    intro ref member
    rw [moved.size]
    exact consistent.exist ref (living ref member)
  have linked : Linked (bench.outline.cleared place refs) place refs :=
    (linked_nil.mpr consistent.linked).cleared inside refs
  exact ⟨put_addAll within distinct exist, linked.addAll within distinct exist⟩

private theorem Consistent.delete_views (consistent : Consistent bench) (reachable : bench.Open place) (id : String) :
    (∀ other, ((bench.outline.delete place id).1.childrenOf other).Sublist (bench.outline.childrenOf other)) ∧
      ∀ ref, (bench.outline.delete place id).1.parentOf ref = bench.outline.parentOf ref ∧
          (∀ other, bench.outline.parentOf ref = other → ref ∈ bench.outline.childrenOf other →
            ref ∈ (bench.outline.delete place id).1.childrenOf other) ∨
        bench.outline.parentOf ref = place ∧ (bench.outline.delete place id).1.parentOf ref = none ∧
          ref ∉ (bench.outline.delete place id).1.childrenOf place := by
  cases found : bench.outline.child? place id with
  | none =>
    rw [delete, found]
    exact ⟨fun other => List.Sublist.refl _, fun ref => .inl ⟨rfl, fun _ _ => fun held => held⟩⟩
  | some removed =>
    obtain ⟨member, rfl⟩ := mem_of_child? found
    have distinct := consistent.distinct place
    have children := mem_childrenOf_delete (consistent.within reachable) distinct member
    refine ⟨fun other => ?_, fun ref => ?_⟩
    · rw [delete_of_mem distinct member, childrenOf_release, childrenOf_setChildren (consistent.within reachable)]
      split
      next same => exact same ▸ List.filter_sublist
      next => exact List.Sublist.refl _
    rw [parentOf_delete distinct member]
    by_cases gone : ref = removed ∧ bench.outline.parentOf removed = place
    · obtain ⟨rfl, here⟩ := gone
      refine .inr ⟨here, if_pos ⟨rfl, here⟩, fun still => ?_⟩
      exact ((children place ref).mp still).2 rfl rfl
    · refine .inl ⟨if_neg gone, fun other named held => (children other ref).mpr ⟨held, ?_⟩⟩
      rintro rfl rfl
      exact gone ⟨rfl, named⟩

theorem Consistent.delete (consistent : Consistent bench) (reachable : bench.Open place) (id : String) :
    Consistent (bench.perform (.delete place id)) := by
  obtain ⟨fewer, parents⟩ := consistent.delete_views reachable id
  have moved : Moved bench.outline (bench.outline.delete place id).1 := moved_delete place id
  refine ⟨moved.valid consistent.valid, fun ref living => ?_, fun other => ?_, fun ref above named => ?_, fun ref above named => ?_⟩
  · exact Nat.lt_of_lt_of_eq (consistent.exist ref living) moved.size.symm
  · have same : (bench.outline.delete place id).1.idOf = bench.outline.idOf := funext moved.idOf
    exact ((fewer other).map _).nodup (same ▸ consistent.distinct other)
  · rcases parents ref with ⟨same, stays⟩ | ⟨-, nowhere, -⟩
    · have before := same.symm.trans named
      exact stays _ before (consistent.linked ref above before)
    · exact absurd (nowhere.symm.trans named) nofun
  · rcases parents ref with ⟨same, -⟩ | ⟨-, nowhere, -⟩
    · exact consistent.parents ref above (same.symm.trans named)
    · exact absurd (nowhere.symm.trans named) nofun

theorem Consistent.named_delete (consistent : Consistent bench) (named : bench.Named) (reachable : bench.Open place)
    (id : String) : (bench.perform (.delete place id)).Named := by
  obtain ⟨fewer, parents⟩ := consistent.delete_views reachable id
  intro other opened ref member
  have before := named other opened ref ((fewer other).mem member)
  rcases parents ref with ⟨same, -⟩ | ⟨here, -, gone⟩
  · exact same.trans before
  · obtain rfl : other = place := before.symm.trans here
    exact absurd member gone

theorem Consistent.hold (consistent : Consistent bench) (others : List Ref) : Consistent (bench.perform (.hold others)) := by
  obtain ⟨size, ids, children, parents⟩ := keep_views bench.outline others
  have named_before (ref above : Ref) (named : (bench.outline.keep others).parentOf ref = some above) :
      bench.outline.parentOf ref = some above ∧ above ∈ (bench.outline.top ++ others).flatMap bench.outline.descendants := by
    rw [parents, Option.filter_eq_some_iff] at named
    exact ⟨named.1, List.contains_iff_mem.mp named.2⟩
  refine ⟨(moved_keep others).valid consistent.valid, fun ref living => ?_, fun place => ?_, fun ref above named => ?_, fun ref above named => ?_⟩
  · exact Nat.lt_of_lt_of_eq (consistent.exist ref (List.mem_filter.mp living).1) size.symm
  · have same : (bench.outline.keep others).idOf = bench.outline.idOf := funext ids
    exact (congrArg List.Nodup (congrArg₂ List.map same (children place))).mpr (consistent.distinct place)
  · exact (children (some above)).symm ▸ consistent.linked ref above (named_before ref above named).1
  · obtain ⟨before, kept⟩ := named_before ref above named
    exact List.mem_filter.mpr ⟨consistent.parents ref above before, List.contains_iff_mem.mpr kept⟩

theorem Bench.Named.hold (named : bench.Named) (others : List Ref) : (bench.perform (.hold others)).Named := by
  obtain ⟨-, -, children, parents⟩ := keep_views bench.outline others
  intro place reachable ref member
  have opened : bench.Open place := fun above same => (List.mem_filter.mp (reachable above same)).1
  refine (parents ref).trans ?_
  rw [named place opened ref (children place ▸ member)]
  cases place with
  | none => rfl
  | some above => exact Option.filter_some_pos (List.mem_filter.mp (reachable above rfl)).2

theorem Consistent.perform (consistent : Consistent bench) {edit : Edit} (usable : edit.Usable bench) :
    Consistent (bench.perform edit) := by
  cases edit with
  | create item => exact consistent.create item
  | add place ref =>
    obtain ⟨put, linked⟩ := consistent.put_add usable.1 usable.2
    exact consistent.put usable.1 (ready_self bench place) put linked
  | delete place id => exact consistent.delete usable id
  | replace place refs =>
    obtain ⟨put, linked⟩ := consistent.put_replace usable.1 usable.2
    exact consistent.put usable.1 (ready_cleared (consistent.within usable.1) refs) put linked
  | hold others => exact consistent.hold others

theorem Consistent.named_perform (consistent : Consistent bench) (named : bench.Named) {edit : Edit} (usable : edit.Usable bench)
    (exclusive : edit.Exclusive bench) : (bench.perform edit).Named := by
  cases edit with
  | create item => exact named.create item
  | add place ref =>
    refine named.put usable.1 (ready_self bench place) (consistent.put_add usable.1 usable.2).1 ?_
    intro other member
    rw [List.mem_singleton.mp member]
    exact exclusive
  | delete place id => exact consistent.named_delete named usable id
  | replace place refs =>
    have ready := ready_cleared (consistent.within usable.1) refs
    exact named.put usable.1 ready (consistent.put_replace usable.1 usable.2).1 exclusive
  | hold others => exact named.hold others

theorem Consistent.performAll (consistent : Consistent bench) {edits : List Edit} (usable : Along Edit.Usable bench edits) :
    Consistent (bench.performAll edits) := by
  induction edits generalizing bench with
  | nil => exact consistent
  | cons edit rest ih => exact ih (consistent.perform usable.1) usable.2

theorem Consistent.named_performAll (consistent : Consistent bench) (named : bench.Named) {edits : List Edit}
    (usable : Along Edit.Usable bench edits) (exclusive : Along Edit.Exclusive bench edits) : (bench.performAll edits).Named := by
  induction edits generalizing bench with
  | nil => exact named
  | cons edit rest ih =>
    have next := consistent.named_perform named usable.1 exclusive.1
    exact ih (consistent.perform usable.1) next usable.2 exclusive.2

theorem childrenOf_empty (place : Place) : ({} : Outline).childrenOf place = [] := by cases place <;> rfl

theorem consistent_empty : Consistent {} where
  valid := ⟨fun place ref member => absurd (childrenOf_empty place ▸ member) List.not_mem_nil, nofun⟩
  exist := nofun
  distinct place := by
    rw [childrenOf_empty]
    exact List.nodup_nil
  linked := nofun
  parents := nofun

theorem named_empty : Bench.Named {} := fun place _ _ member => absurd (childrenOf_empty place ▸ member) List.not_mem_nil

/-- However an outline is edited, no place has two items with one id, and the parent that an item names is there and has it
as a child. If no item is put into a place while another place has it, whatever is in a place names just this place, and what is
in no place names none. -/
theorem edits_keep_links (edits : List Edit) (usable : Along Edit.Usable {} edits) :
    let bench := ({} : Bench).performAll edits
    (∀ place, ((bench.outline.childrenOf place).map bench.outline.idOf).Nodup) ∧
      (∀ ref above, bench.outline.parentOf ref = some above →
        above ∈ bench.alive ∧ ref ∈ bench.outline.childrenOf (some above)) ∧
      (Along Edit.Exclusive {} edits →
        (∀ place, bench.Open place → ∀ ref ∈ bench.outline.childrenOf place, bench.outline.parentOf ref = place) ∧
          ∀ ref, (∀ place, bench.Open place → ref ∉ bench.outline.childrenOf place) → bench.outline.parentOf ref = none) := by
  intro bench
  have consistent : Consistent bench := consistent_empty.performAll usable
  refine ⟨consistent.distinct, fun ref above named => ⟨consistent.parents ref above named, consistent.linked ref above named⟩,
    fun exclusive => ⟨consistent_empty.named_performAll named_empty usable exclusive, fun ref detached => ?_⟩⟩
  by_contra placed
  obtain ⟨above, named⟩ := Option.ne_none_iff_exists'.mp placed
  exact detached (some above) (named ▸ consistent.parents ref) (consistent.linked ref above named)

/-- A shop with two tills of one id and a rack. The second till comes instead of the first one, then everything is exchanged
by a list that has the rack twice and both tills, and at last the rack is taken out. -/
private def shopEdits : List Edit :=
  [.create { id := "shop", label := "" }, .create { id := "till", label := "" }, .create { id := "till", label := "" },
    .create { id := "rack", label := "" }, .add none 0, .add (some 0) 1, .add (some 0) 2, .replace (some 0) [3, 1, 3, 2],
    .delete (some 0) "rack", .hold [1]]

/-- The till that came last is the only one that names the shop. -/
theorem last_till_in_shop :
    let bench := ({} : Bench).performAll shopEdits
    (∀ ref above, bench.outline.parentOf ref = some above →
        above ∈ bench.alive ∧ ref ∈ bench.outline.childrenOf (some above)) ∧
      (∀ place, bench.Open place → ∀ ref ∈ bench.outline.childrenOf place, bench.outline.parentOf ref = place) ∧
      bench.alive = [0, 1, 2] ∧ bench.outline.childrenOf (some 0) = [2] ∧ bench.outline.parentOf 2 = some 0 ∧
      bench.outline.parentOf 1 = none := by
  obtain ⟨-, linked, named⟩ := edits_keep_links shopEdits (by decide +kernel)
  exact ⟨linked, (named (by decide +kernel)).1, by decide +kernel⟩

/-- An item that is put into a second place stays in the first one, but names only the second. -/
example :
    let bench := ({} : Bench).performAll [.create { id := "shop", label := "" }, .create { id := "till", label := "" },
      .add none 1, .add (some 0) 1]
    bench.outline.top = [1] ∧ bench.outline.parentOf 1 = some 0 := by decide +kernel

end TestScout.Outline
