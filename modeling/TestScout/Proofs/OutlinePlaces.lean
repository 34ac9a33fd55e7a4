import TestScout.Outline.Basic

/-! What the operations of an outline do to what can be seen of it: the ids of items, the item
that each one was put below last, and what is in each place. -/

namespace TestScout.Outline

/-- A place is either the top or below an item that exists. -/
def Inside (outline : Outline) (place : Place) : Prop := ∀ ref, place = some ref → ref < outline.nodes.size

/-- Outlines that differ at most in how their items look. -/
structure Alike (first second : Outline) : Prop where
  size : second.nodes.size = first.nodes.size
  ids : ∀ ref, second.idOf ref = first.idOf ref
  parents : ∀ ref, second.parentOf ref = first.parentOf ref
  children : ∀ place, second.childrenOf place = first.childrenOf place

variable {outline : Outline} {place : Place} {ref : Ref}

theorem Alike.refl (outline : Outline) : Alike outline outline := ⟨rfl, fun _ => rfl, fun _ => rfl, fun _ => rfl⟩

theorem Alike.trans {first second third : Outline} (before : Alike first second) (after : Alike second third) :
    Alike first third where
  size := after.size.trans before.size
  ids ref := (after.ids ref).trans (before.ids ref)
  parents ref := (after.parents ref).trans (before.parents ref)
  children place := (after.children place).trans (before.children place)

theorem Alike.child? {first second : Outline} (alike : Alike first second) (place : Place) (id : String) :
    second.child? place id = first.child? place id := by
  simp only [Outline.child?, alike.children, alike.ids]

theorem alike_change (outline : Outline) (ref : Ref) (update : Item → Item) :
    Alike outline (outline.change ref update) where
  size := Array.size_modify
  ids other := by
    simp only [idOf, item, change, Array.getElem?_modify]
    split
    next same => cases outline.nodes[other]? <;> rfl
    next => rfl
  parents other := by
    simp only [parentOf, change, Array.getElem?_modify]
    split
    next same => cases outline.nodes[other]? <;> rfl
    next => rfl
  children place := by
    cases place with
    | none => rfl
    | some other =>
      simp only [childrenOf, change, Array.getElem?_modify]
      split
      next same => cases outline.nodes[other]? <;> rfl
      next => rfl

/-! ## Setting parents and children -/

@[simp] theorem size_setParent : (outline.setParent ref place).nodes.size = outline.nodes.size := Array.size_modify

theorem item_setParent (other : Ref) : (outline.setParent ref place).item other = outline.item other := by
  simp only [item, setParent, Array.getElem?_modify]
  split
  next same => cases outline.nodes[other]? <;> rfl
  next => rfl

@[simp] theorem idOf_setParent (other : Ref) : (outline.setParent ref place).idOf other = outline.idOf other :=
  congrArg Item.id (item_setParent other)

@[simp] theorem childrenOf_setParent (other : Place) :
    (outline.setParent ref place).childrenOf other = outline.childrenOf other := by
  cases other with
  | none => rfl
  | some other =>
    simp only [childrenOf, setParent, Array.getElem?_modify]
    split
    next same => cases outline.nodes[other]? <;> rfl
    next => rfl

theorem parentOf_setParent (valid : ref < outline.nodes.size) (other : Ref) :
    (outline.setParent ref place).parentOf other = if other = ref then place else outline.parentOf other := by
  simp only [parentOf, setParent, Array.getElem?_modify]
  by_cases same : ref = other
  · subst same
    simp [valid]
  · rw [if_neg same, if_neg (Ne.symm same)]

theorem setParent_eq_self (invalid : outline.nodes.size ≤ ref) : outline.setParent ref place = outline := by
  have same : outline.nodes.modify ref ({ · with parent := place }) = outline.nodes := by
    apply Array.ext_getElem?
    intro other
    rw [Array.getElem?_modify]
    split
    next equal => simp [← equal, Array.getElem?_eq_none invalid]
    next => rfl
  rw [setParent, same]

@[simp] theorem size_setChildren (refs : List Ref) : (outline.setChildren place refs).nodes.size = outline.nodes.size := by
  cases place with
  | none => rfl
  | some ref => exact Array.size_modify

theorem item_setChildren (refs : List Ref) (other : Ref) : (outline.setChildren place refs).item other = outline.item other := by
  cases place with
  | none => rfl
  | some ref =>
    simp only [item, setChildren, Array.getElem?_modify]
    split
    next same => cases outline.nodes[other]? <;> rfl
    next => rfl

@[simp] theorem idOf_setChildren (refs : List Ref) (other : Ref) :
    (outline.setChildren place refs).idOf other = outline.idOf other := congrArg Item.id (item_setChildren refs other)

@[simp] theorem parentOf_setChildren (refs : List Ref) (other : Ref) :
    (outline.setChildren place refs).parentOf other = outline.parentOf other := by
  cases place with
  | none => rfl
  | some ref =>
    simp only [parentOf, setChildren, Array.getElem?_modify]
    split
    next same => cases outline.nodes[other]? <;> rfl
    next => rfl

theorem childrenOf_setChildren (inside : outline.Inside place) (refs : List Ref) (other : Place) :
    (outline.setChildren place refs).childrenOf other = if other = place then refs else outline.childrenOf other := by
  cases place with
  | none => cases other <;> rfl
  | some ref =>
    have valid := inside ref rfl
    cases other with
    | none => rfl
    | some other =>
      simp only [childrenOf, setChildren, Array.getElem?_modify]
      by_cases same : ref = other
      · subst same
        simp [valid]
      · rw [if_neg same, if_neg (by simpa using Ne.symm same)]

/-! ## Releasing -/

@[simp] theorem size_release : (outline.release place ref).nodes.size = outline.nodes.size := by
  unfold release
  split <;> simp

@[simp] theorem idOf_release (other : Ref) : (outline.release place ref).idOf other = outline.idOf other := by
  unfold release
  split <;> simp

@[simp] theorem childrenOf_release (other : Place) :
    (outline.release place ref).childrenOf other = outline.childrenOf other := by
  unfold release
  split <;> simp

theorem parentOf_release (other : Ref) :
    (outline.release place ref).parentOf other =
      if other = ref ∧ outline.parentOf ref = place then none else outline.parentOf other := by
  unfold release
  split
  next placed =>
    by_cases valid : ref < outline.nodes.size
    · simp [parentOf_setParent valid, placed]
    · rw [setParent_eq_self (Nat.le_of_not_lt valid)]
      split
      next same =>
        have missing : outline.nodes[ref]? = none := Array.getElem?_eq_none (Nat.le_of_not_lt valid)
        simp [parentOf, same.1, missing]
      next => rfl
  next elsewhere => simp [elsewhere]

/-- Items that have been released from a place, one after the other. -/
theorem released_views (place : Place) (refs : List Ref) (outline : Outline) :
    let released := refs.foldl (·.release place ·) outline
    released.nodes.size = outline.nodes.size ∧ (∀ other, released.idOf other = outline.idOf other) ∧
      (∀ other, released.childrenOf other = outline.childrenOf other) ∧
      ∀ other, released.parentOf other =
        if other ∈ refs ∧ outline.parentOf other = place then none else outline.parentOf other := by
  induction refs generalizing outline with
  | nil => simp
  | cons ref rest ih =>
    obtain ⟨size, ids, children, parents⟩ := ih (outline.release place ref)
    refine ⟨by simpa using size, fun other => by simpa using ids other, fun other => by simpa using children other, ?_⟩
    intro other
    rw [List.foldl_cons, parents, parentOf_release]
    by_cases same : other = ref
    · subst same
      by_cases placed : outline.parentOf other = place <;> simp [placed]
    · simp [same]

/-! ## Children by their ids -/

theorem mem_of_child? {id : String} (found : outline.child? place id = some ref) :
    ref ∈ outline.childrenOf place ∧ outline.idOf ref = id :=
  ⟨List.mem_of_find?_eq_some found, by simpa using List.find?_some found⟩

theorem child?_eq_none_iff {id : String} :
    outline.child? place id = none ↔ ∀ ref ∈ outline.childrenOf place, outline.idOf ref ≠ id := by
  simp [child?]

theorem child?_of_mem (distinct : ((outline.childrenOf place).map outline.idOf).Nodup)
    (member : ref ∈ outline.childrenOf place) : outline.child? place (outline.idOf ref) = some ref := by
  obtain ⟨before, after, split⟩ := List.append_of_mem member
  rw [child?, split, List.find?_append]
  rw [split, List.map_append, List.map_cons, List.nodup_append] at distinct
  have earlier : before.find? (outline.idOf · == outline.idOf ref) = none := by
    rw [List.find?_eq_none]
    intro other inside
    simpa using distinct.2.2 _ (List.mem_map_of_mem inside) _ List.mem_cons_self
  rw [earlier]
  simp

theorem eq_of_idOf_eq (distinct : ((outline.childrenOf place).map outline.idOf).Nodup) {other : Ref}
    (member : ref ∈ outline.childrenOf place) (found : other ∈ outline.childrenOf place)
    (same : outline.idOf ref = outline.idOf other) : ref = other := by
  have first := child?_of_mem distinct member
  rw [same, child?_of_mem distinct found] at first
  exact (Option.some_inj.mp first).symm

/-! ## Making and adding items -/

theorem size_create (item : Item) : (outline.create item).1.nodes.size = outline.nodes.size + 1 := by
  simp [create]

theorem item_create (item : Item) (other : Ref) :
    (outline.create item).1.item other = if other = outline.nodes.size then item else outline.item other := by
  simp only [Outline.item, create, Array.getElem?_push]
  split
  next same => simp
  next => rfl

theorem idOf_create (item : Item) (other : Ref) :
    (outline.create item).1.idOf other = if other = outline.nodes.size then item.id else outline.idOf other := by
  rw [idOf, item_create]
  split <;> rfl

theorem parentOf_create (item : Item) (other : Ref) : (outline.create item).1.parentOf other = outline.parentOf other := by
  simp only [parentOf, create, Array.getElem?_push]
  split
  next same => simp [same]
  next => rfl

theorem childrenOf_create (item : Item) (other : Place) :
    (outline.create item).1.childrenOf other = outline.childrenOf other := by
  cases other with
  | none => rfl
  | some other =>
    simp only [childrenOf, create, Array.getElem?_push]
    split
    next same => simp [same]
    next => rfl

theorem childrenOf_eq_nil (invalid : outline.nodes.size ≤ ref) : outline.childrenOf (some ref) = [] := by
  simp [childrenOf, Array.getElem?_eq_none invalid]

theorem add_of_none (new : outline.child? place (outline.idOf ref) = none) :
    outline.add place ref = (outline.setParent ref place).setChildren place (outline.childrenOf place ++ [ref]) := by
  have still : (outline.setParent ref place).child? place ((outline.setParent ref place).idOf ref) = none := by
    simpa [child?] using new
  simp only [add, still, childrenOf_setParent]

/-- An outline in which an item has taken the place of another one. -/
def swap (outline : Outline) (place : Place) (former ref : Ref) : Outline :=
  (outline.setParent ref place).setChildren place
    ((outline.childrenOf place).map fun other => if other = former then ref else other)

theorem add_of_some {former : Ref} (found : outline.child? place (outline.idOf ref) = some former) :
    outline.add place ref =
      if former = ref then outline.swap place former ref else (outline.swap place former ref).release place former := by
  have still : (outline.setParent ref place).child? place ((outline.setParent ref place).idOf ref) = some former := by
    simpa [child?] using found
  simp only [add, still, childrenOf_setParent, swap]

@[simp] theorem size_add : (outline.add place ref).nodes.size = outline.nodes.size := by
  cases found : outline.child? place (outline.idOf ref) with
  | none => simp [add_of_none found]
  | some former =>
    rw [add_of_some found]
    split <;> simp [swap]

@[simp] theorem idOf_add (other : Ref) : (outline.add place ref).idOf other = outline.idOf other := by
  cases found : outline.child? place (outline.idOf ref) with
  | none => simp [add_of_none found]
  | some former =>
    rw [add_of_some found]
    split <;> simp [swap]

theorem Inside.setParent (inside : outline.Inside place) : (outline.setParent ref place).Inside place :=
  fun other same => by simpa using inside other same

theorem childrenOf_add_ne (inside : outline.Inside place) {other : Place} (elsewhere : other ≠ place) :
    (outline.add place ref).childrenOf other = outline.childrenOf other := by
  cases found : outline.child? place (outline.idOf ref) with
  | none => simp [add_of_none found, childrenOf_setChildren inside.setParent, elsewhere]
  | some former =>
    rw [add_of_some found]
    split <;> simp [swap, childrenOf_setChildren inside.setParent, elsewhere]

theorem childrenOf_add_of_none (inside : outline.Inside place) (new : outline.child? place (outline.idOf ref) = none) :
    (outline.add place ref).childrenOf place = outline.childrenOf place ++ [ref] := by
  rw [add_of_none new, childrenOf_setChildren inside.setParent, if_pos rfl]

theorem childrenOf_add_of_some (inside : outline.Inside place) {former : Ref}
    (found : outline.child? place (outline.idOf ref) = some former) : (outline.add place ref).childrenOf place =
      (outline.childrenOf place).map fun other => if other = former then ref else other := by
  rw [add_of_some found]
  split <;> simp [swap, childrenOf_setChildren inside.setParent]

/-- Among items with different ids, an item that is added takes the place of the one with its id. -/
theorem mem_childrenOf_add (inside : outline.Inside place) (distinct : ((outline.childrenOf place).map outline.idOf).Nodup)
    (other : Ref) : other ∈ (outline.add place ref).childrenOf place ↔
      other = ref ∨ other ∈ outline.childrenOf place ∧ outline.idOf other ≠ outline.idOf ref := by
  cases found : outline.child? place (outline.idOf ref) with
  | none =>
    have new := child?_eq_none_iff.mp found
    rw [childrenOf_add_of_none inside found, List.mem_append, List.mem_singleton]
    constructor
    · rintro (old | rfl)
      · exact .inr ⟨old, new other old⟩
      · exact .inl rfl
    · rintro (rfl | ⟨old, -⟩)
      · exact .inr rfl
      · exact .inl old
  | some former =>
    obtain ⟨member, same⟩ := mem_of_child? found
    rw [childrenOf_add_of_some inside found, List.mem_map]
    constructor
    · rintro ⟨old, listed, rfl⟩
      split
      · exact .inl rfl
      next differs =>
        refine .inr ⟨listed, fun equal => differs ?_⟩
        exact eq_of_idOf_eq distinct listed member (equal.trans same.symm)
    · rintro (rfl | ⟨listed, differs⟩)
      · exact ⟨former, member, if_pos rfl⟩
      · refine ⟨other, listed, if_neg fun equal => differs ?_⟩
        rw [equal, same]

theorem nodup_add (inside : outline.Inside place) (distinct : ((outline.childrenOf place).map outline.idOf).Nodup) :
    (((outline.add place ref).childrenOf place).map (outline.add place ref).idOf).Nodup := by
  have ids : (outline.add place ref).idOf = outline.idOf := funext fun other => idOf_add other
  rw [ids]
  cases found : outline.child? place (outline.idOf ref) with
  | none =>
    have new := child?_eq_none_iff.mp found
    rw [childrenOf_add_of_none inside found, List.map_append]
    refine List.nodup_append.mpr ⟨distinct, by simp, ?_⟩
    intro id member other last equal
    obtain ⟨old, listed, rfl⟩ := List.mem_map.mp member
    simp only [List.map_cons, List.map_nil, List.mem_singleton] at last
    exact new old listed (equal.trans last)
  | some former =>
    obtain ⟨-, same⟩ := mem_of_child? found
    have kept : ((outline.childrenOf place).map fun other => if other = former then ref else other).map outline.idOf =
        (outline.childrenOf place).map outline.idOf := by
      rw [List.map_map]
      refine List.map_congr_left fun other _ => ?_
      simp only [Function.comp_apply]
      split
      next equal => rw [equal, same]
      next => rfl
    rwa [childrenOf_add_of_some inside found, kept]

theorem parentOf_add_self (valid : ref < outline.nodes.size) : (outline.add place ref).parentOf ref = place := by
  cases found : outline.child? place (outline.idOf ref) with
  | none => simp [add_of_none found, parentOf_setParent valid]
  | some former =>
    rw [add_of_some found]
    split
    · simp [swap, parentOf_setParent valid]
    next differs => simp [swap, parentOf_release, parentOf_setParent valid, Ne.symm differs]

/-- An item that stays where it is keeps its parent, and one that is replaced has none. -/
theorem parentOf_add_ne (valid : ref < outline.nodes.size) {other : Ref} (differs : other ≠ ref) :
    (outline.add place ref).parentOf other =
      if outline.child? place (outline.idOf ref) = some other ∧ outline.parentOf other = place then none
      else outline.parentOf other := by
  cases found : outline.child? place (outline.idOf ref) with
  | none => simp [add_of_none found, parentOf_setParent valid, differs]
  | some former =>
    rw [add_of_some found]
    simp only [Option.some.injEq]
    split
    next same =>
      rw [if_neg fun ⟨equal, _⟩ => differs (equal.symm.trans same)]
      simp [swap, parentOf_setParent valid, differs]
    next =>
      simp only [swap, parentOf_release, parentOf_setChildren, parentOf_setParent valid]
      by_cases equal : former = other
      · subst equal
        simp [differs]
      · simp [equal, Ne.symm equal, differs]

/-! ## Taking items out -/

theorem delete_of_mem (distinct : ((outline.childrenOf place).map outline.idOf).Nodup)
    (member : ref ∈ outline.childrenOf place) : (outline.delete place (outline.idOf ref)).1 =
      (outline.setChildren place ((outline.childrenOf place).filter (· != ref))).release place ref := by
  rw [delete, child?_of_mem distinct member]

theorem mem_childrenOf_delete (inside : outline.Inside place)
    (distinct : ((outline.childrenOf place).map outline.idOf).Nodup) (member : ref ∈ outline.childrenOf place)
    (elsewhere : Place) (other : Ref) :
    other ∈ (outline.delete place (outline.idOf ref)).1.childrenOf elsewhere ↔
      other ∈ outline.childrenOf elsewhere ∧ (elsewhere = place → other ≠ ref) := by
  rw [delete_of_mem distinct member, childrenOf_release, childrenOf_setChildren inside]
  split
  next same => simp [same]
  next differs => simp [differs]

theorem size_delete (id : String) : (outline.delete place id).1.nodes.size = outline.nodes.size := by
  unfold delete
  split <;> simp

theorem idOf_delete (id : String) (other : Ref) : (outline.delete place id).1.idOf other = outline.idOf other := by
  unfold delete
  split <;> simp

theorem parentOf_delete (distinct : ((outline.childrenOf place).map outline.idOf).Nodup)
    (member : ref ∈ outline.childrenOf place) (other : Ref) :
    (outline.delete place (outline.idOf ref)).1.parentOf other =
      if other = ref ∧ outline.parentOf ref = place then none else outline.parentOf other := by
  rw [delete_of_mem distinct member, parentOf_release, parentOf_setChildren, parentOf_setChildren]

theorem replace_nil (outline : Outline) (place : Place) : outline.replace place [] =
    ((outline.childrenOf place).foldl (·.release place ·) outline).setChildren place [] := by
  have all : (outline.childrenOf place).filter (fun ref => !([] : List Ref).contains ref) = outline.childrenOf place :=
    List.filter_eq_self.mpr fun _ _ => rfl
  rw [replace, all, List.foldl_nil]

@[simp] theorem size_replace_nil : (outline.replace place []).nodes.size = outline.nodes.size := by
  rw [replace_nil, size_setChildren]
  exact (released_views place _ _).1

@[simp] theorem idOf_replace_nil (other : Ref) : (outline.replace place []).idOf other = outline.idOf other := by
  rw [replace_nil, idOf_setChildren]
  exact (released_views place _ _).2.1 other

theorem childrenOf_replace_nil (inside : outline.Inside place) (other : Place) :
    (outline.replace place []).childrenOf other = if other = place then [] else outline.childrenOf other := by
  obtain ⟨size, -, children, -⟩ := released_views place (outline.childrenOf place) outline
  have still : ((outline.childrenOf place).foldl (·.release place ·) outline).Inside place :=
    fun ref same => size ▸ inside ref same
  rw [replace_nil, childrenOf_setChildren still, children]

theorem parentOf_replace_nil (other : Ref) : (outline.replace place []).parentOf other =
    if other ∈ outline.childrenOf place ∧ outline.parentOf other = place then none else outline.parentOf other := by
  rw [replace_nil, parentOf_setChildren]
  exact (released_views place _ _).2.2.2 other

end TestScout.Outline
