import TestScout.Proofs.BuilderBeds
import TestScout.Proofs.OutlineMoves

/-! The tags that a builder gives. The item of a definition has the groups of the definition as its tags, and the item
of a test method those of the class around it as well. Nothing else that a builder does changes tags. -/

namespace TestScout.Outline
open Test

variable {outline : Outline} {ref : Ref}

/-- Tags have changed at most where an item has one of some ids. -/
structure Retagged (among : String → Prop) (first second : Outline) : Prop where
  size : first.nodes.size ≤ second.nodes.size
  ids : ∀ ref < first.nodes.size, second.idOf ref = first.idOf ref
  tags : ∀ ref < first.nodes.size, ¬among (first.idOf ref) → (second.item ref).tags = (first.item ref).tags

namespace Retagged

variable {among wider : String → Prop} {first second third : Outline}

theorem trans (one : Retagged among first second) (two : Retagged among second third) : Retagged among first third where
  size := Nat.le_trans one.size two.size
  ids ref valid := (two.ids ref (Nat.lt_of_lt_of_le valid one.size)).trans (one.ids ref valid)
  tags ref valid away := by
    have further := two.tags ref (Nat.lt_of_lt_of_le valid one.size)
    rw [one.ids ref valid] at further
    exact (further away).trans (one.tags ref valid away)

theorem weaken (retagged : Retagged among first second) (more : ∀ id, among id → wider id) : Retagged wider first second :=
  ⟨retagged.size, retagged.ids, fun ref valid away => retagged.tags ref valid fun id => away (more _ id)⟩

end Retagged

theorem Moved.retagged {first second : Outline} (moved : Moved first second) : Retagged (fun _ => False) first second where
  size := Nat.le_of_eq moved.size.symm
  ids ref _ := moved.idOf ref
  tags ref _ _ := congrArg Item.tags (moved.item ref)

theorem Extends.valid {first second : Outline} (extension : Extends first second) (sound : first.Valid) : second.Valid where
  children place ref member := by
    rw [extension.children] at member
    exact Nat.lt_of_lt_of_le (sound.children place ref member) extension.size
  parents ref above same := by
    rw [extension.parents] at same
    exact Nat.lt_of_lt_of_le (sound.parents ref above same) extension.size

theorem item_change (update : Item → Item) (other : Ref) :
    (outline.change ref update).item other = if other = ref ∧ ref < outline.nodes.size then
      { update (outline.item ref) with id := outline.idOf ref } else outline.item other := by
  simp only [idOf, item, change, Array.getElem?_modify]
  by_cases same : other = ref
  · subst same
    by_cases valid : other < outline.nodes.size
    · simp [valid]
    · simp [valid]
  · simp [same, Ne.symm same]

theorem retagged_change (ref : Ref) (update : Item → Item) :
    Retagged (· = outline.idOf ref) outline (outline.change ref update) where
  size := Nat.le_of_eq (alike_change outline ref update).size.symm
  ids other _ := (alike_change outline ref update).ids other
  tags other _ away := by
    rw [item_change, if_neg]
    intro here
    exact away (congrArg outline.idOf here.1)

theorem retagged_change_of_tags {update : Item → Item} (same : ∀ item, (update item).tags = item.tags) :
    Retagged (fun _ => False) outline (outline.change ref update) where
  size := Nat.le_of_eq (alike_change outline ref update).size.symm
  ids other _ := (alike_change outline ref update).ids other
  tags other _ _ := by
    rw [item_change]
    split
    next here => rw [here.1, same]
    next => rfl

def Frame.bare (frame : Frame) : Frame := { frame with children := [] }

def Frame.root : Frame := {}

/-- The frame that the item of a definition opens. -/
def Frame.ofItem (item : Ref × Definition) : Frame :=
  { ref := some item.1, kind := some item.2.kind, depth := item.2.depth }

/-- A definition is in the groups that it names, and a test method in those of the class right around it. -/
def InGroup (group : String) (above : List (Ref × Definition)) (item : Ref × Definition) : Prop :=
  group ∈ item.2.annotations.group ∨ item.2.kind = .method ∧
    ∃ parent ∈ above.head?, parent.2.kind = .classLike ∧ group ∈ parent.2.annotations.group

theorem inGroup_append {group : String} {inner outer : List (Ref × Definition)} {item : Ref × Definition}
    (nonempty : item.2.kind = .method → inner ≠ []) : InGroup group (inner ++ outer) item ↔ InGroup group inner item := by
  refine or_congr_right (and_congr_right ?_)
  intro method
  rw [List.head?_append_of_ne_nil _ (nonempty method)]

/-- The tags of an item are its groups. -/
structure Marked (outline : Outline) (above : List (Ref × Definition)) (item : Ref × Definition) : Prop where
  valid : item.1 < outline.nodes.size
  id : outline.idOf item.1 = item.2.id
  tags : ∀ tag, tag ∈ (outline.item item.1).tags ↔ ∃ group, tag = groupMark ++ group ∧ InGroup group above item

theorem Marked.later {among : String → Prop} {first second : Outline} {above : List (Ref × Definition)}
    {item : Ref × Definition} (marked : Marked first above item) (retagged : Retagged among first second)
    (away : ¬among item.2.id) : Marked second above item where
  valid := Nat.lt_of_lt_of_le marked.valid retagged.size
  id := (retagged.ids item.1 marked.valid).trans marked.id
  tags := by
    rw [← marked.id] at away
    rw [retagged.tags item.1 marked.valid away]
    exact marked.tags

namespace Builder

variable {builder : Builder}

/-- Everything that a builder has at hand exists. -/
structure Tended (builder : Builder) : Prop where
  valid : builder.outline.Valid
  frames : ∀ frame ∈ builder.frames, builder.outline.Inside frame.ref ∧ ∀ ref ∈ frame.children, ref < builder.outline.nodes.size
  keyed : builder.outline.Keyed builder.previous

theorem tended_start {previous : List (String × Ref)} (sound : outline.Valid) (keyed : outline.Keyed previous)
    (uri : Option String) : Builder.Tended { outline, uri, previous } where
  valid := sound
  frames := by
    rw [List.forall_mem_singleton]
    exact ⟨fun _ inside => absurd inside (Option.not_mem_none _), List.forall_mem_nil _⟩
  keyed := keyed

theorem moved_flush {frame : Frame} (inside : outline.Inside frame.ref) (exist : ∀ ref ∈ frame.children, ref < outline.nodes.size) :
    Moved outline (flush outline frame) := by
  unfold flush
  split
  · exact moved_replace inside exist
  · exact moved_addAll inside exist

theorem Tended.withOutline (tended : builder.Tended) {outline : Outline} (valid : outline.Valid) {among : String → Prop}
    (retagged : Retagged among builder.outline outline) : ({ builder with outline } : Builder).Tended where
  valid := valid
  frames frame member := by
    obtain ⟨inside, collected⟩ := tended.frames frame member
    refine ⟨?_, ?_⟩
    · intro ref same
      exact Nat.lt_of_lt_of_le (inside ref same) retagged.size
    · intro ref listed
      exact Nat.lt_of_lt_of_le (collected ref listed) retagged.size
  keyed entry member := by
    obtain ⟨exist, same⟩ := tended.keyed entry member
    exact ⟨Nat.lt_of_lt_of_le exist retagged.size, (retagged.ids entry.2 exist).trans same⟩

/-- A builder goes on, and tags change at most where an item has one of some ids. -/
structure Advances (among : String → Prop) (first second : Builder) : Prop where
  tended : second.Tended
  retagged : Retagged among first.outline second.outline

theorem Advances.trans {among : String → Prop} {first second third : Builder} (one : Advances among first second)
    (two : Advances among second third) : Advances among first third := ⟨two.tended, one.retagged.trans two.retagged⟩

theorem Advances.weaken {among wider : String → Prop} {first second : Builder} (advances : Advances among first second)
    (more : ∀ id, among id → wider id) : Advances wider first second := ⟨advances.tended, advances.retagged.weaken more⟩

theorem Tended.ascend (tended : builder.Tended) (depth : Nat) : Advances (fun _ => False) builder (builder.ascend depth) ∧
    (builder.ascend depth).frames = builder.frames.dropWhile (depth ≤ ·.depth) := by
  generalize opened : builder.frames = frames
  induction frames generalizing builder with
  | nil =>
    rw [ascend_of_nil opened]
    exact ⟨⟨tended, (Moved.refl _).retagged⟩, opened⟩
  | cons frame rest ih =>
    by_cases deep : depth ≤ frame.depth
    · obtain ⟨inside, collected⟩ := tended.frames frame (opened ▸ List.mem_cons_self)
      have moved := moved_flush inside collected
      have flushed := tended.withOutline (moved.valid tended.valid) moved.retagged
      have closed : ({ builder with frames := rest, outline := flush builder.outline frame } : Builder).Tended := by
        refine ⟨flushed.valid, ?_, flushed.keyed⟩
        intro other member
        exact flushed.frames other (opened ▸ List.mem_cons_of_mem _ member)
      obtain ⟨later, frames⟩ := ih closed rfl
      rw [ascend_of_le opened deep]
      refine ⟨⟨later.tended, moved.retagged.trans later.retagged⟩, ?_⟩
      rw [frames, List.dropWhile_cons_of_pos (by simpa using deep)]
    · rw [ascend_of_lt opened (Nat.lt_of_not_le deep)]
      refine ⟨⟨tended, (Moved.refl _).retagged⟩, ?_⟩
      rw [opened, List.dropWhile_cons_of_neg (by simpa using deep)]

theorem Tended.change (tended : builder.Tended) (ref : Ref) (update : Item → Item) :
    ({ builder with outline := builder.outline.change ref update } : Builder).Tended :=
  tended.withOutline ((alike_change builder.outline ref update).extends.valid tended.valid) (retagged_change ref update)

theorem Tended.obtain (tended : builder.Tended) (id label : String) :
    let (chosen, ref, _) := builder.obtain id label
    Advances (fun _ => False) builder chosen ∧ chosen.frames = builder.frames ∧ chosen.built = builder.built ∧
      ref < chosen.outline.nodes.size ∧ chosen.outline.idOf ref = id := by
  have relabelled : ∀ ref, Retagged (fun _ => False) builder.outline (builder.outline.change ref ({ · with label })) :=
    fun ref => retagged_change_of_tags fun _ => rfl
  have known : ∀ ref < builder.outline.nodes.size, builder.outline.idOf ref = id →
      ref < (builder.outline.change ref ({ · with label })).nodes.size ∧
        (builder.outline.change ref ({ · with label })).idOf ref = id := by
    intro ref valid same
    exact ⟨Nat.lt_of_lt_of_le valid (relabelled ref).size, ((relabelled ref).ids ref valid).trans same⟩
  unfold Builder.obtain
  cases found : builder.outline.child? builder.parent id with
  | some ref =>
    obtain ⟨member, same⟩ := mem_of_child? found
    have valid := tended.valid.children builder.parent ref member
    exact ⟨⟨tended.change ref _, relabelled ref⟩, rfl, rfl, known ref valid same⟩
  | none =>
    cases spare : builder.previous.lookup id with
    | some ref =>
      obtain ⟨front, back, split, -⟩ := List.lookup_eq_some_iff.mp spare
      have listed : (id, ref) ∈ builder.previous := by
        rw [split]
        exact List.mem_append_right _ List.mem_cons_self
      obtain ⟨valid, same⟩ := tended.keyed (id, ref) listed
      have changed := tended.change ref ({ · with label })
      have taken : ({ builder with
          outline := builder.outline.change ref ({ · with label })
          previous := builder.previous.filter (·.1 != id) } : Builder).Tended := by
        refine ⟨changed.valid, changed.frames, ?_⟩
        intro entry member
        exact changed.keyed entry (List.mem_filter.mp member).1
      exact ⟨⟨taken, relabelled ref⟩, rfl, rfl, known ref valid same⟩
    | none =>
      let item : Item := { id, label, uri := builder.uri }
      have size : (builder.outline.create item).1.nodes.size = builder.outline.nodes.size + 1 := size_create item
      have retagged : Retagged (fun _ => False) builder.outline (builder.outline.create item).1 := by
        refine ⟨(extends_create item).size, (extends_create item).ids, ?_⟩
        intro ref valid _
        rw [item_create, if_neg (Nat.ne_of_lt valid)]
      have made := tended.withOutline ((extends_create item).valid tended.valid) retagged
      refine ⟨⟨made, retagged⟩, rfl, rfl, ?_, ?_⟩
      · show builder.outline.nodes.size < (builder.outline.create item).1.nodes.size
        omega
      · show (builder.outline.create item).1.idOf builder.outline.nodes.size = id
        rw [idOf_create, if_pos rfl]

theorem Tended.push (tended : builder.Tended) (valid : ref < builder.outline.nodes.size) (kind : DefinitionKind) (depth : Nat) :
    (builder.push ref kind depth).Tended ∧ (builder.push ref kind depth).frames.map Frame.bare =
      { ref := some ref, kind := some kind, depth } :: builder.frames.map Frame.bare := by
  have opened : builder.outline.Inside (some ref) ∧ ∀ child ∈ ([] : List Ref), child < builder.outline.nodes.size :=
    ⟨inside_below valid, nofun⟩
  unfold Builder.push
  cases frames : builder.frames with
  | nil =>
    refine ⟨⟨tended.valid, ?_, tended.keyed⟩, rfl⟩
    intro frame member
    rw [List.mem_singleton.mp member]
    exact opened
  | cons innermost rest =>
    refine ⟨⟨tended.valid, ?_, tended.keyed⟩, rfl⟩
    have around := frames ▸ tended.frames
    obtain ⟨inside, collected⟩ := around innermost List.mem_cons_self
    refine List.forall_mem_cons.mpr ⟨opened, List.forall_mem_cons.mpr ⟨⟨inside, ?_⟩, ?_⟩⟩
    · intro child member
      cases List.mem_append.mp member with
      | inl old => exact collected child old
      | inr last => exact List.mem_singleton.mp last ▸ valid
    · intro frame member
      exact around frame (List.mem_cons_of_mem _ member)

theorem mem_foldl_tags {tag : String} (tags collected : List String) :
    tag ∈ tags.foldl (fun collected tag => if collected.contains tag then collected else collected ++ [tag]) collected ↔
      tag ∈ collected ∨ tag ∈ tags := by
  induction tags generalizing collected with
  | nil => simp
  | cons first rest ih =>
    rw [List.foldl_cons, ih]
    split
    next known =>
      have listed : first ∈ collected := List.contains_iff_mem.mp known
      constructor
      · exact Or.imp_right (List.mem_cons_of_mem _)
      · rintro (old | here)
        · exact .inl old
        · rcases List.mem_cons.mp here with rfl | later
          · exact .inl listed
          · exact .inr later
    next => simp [or_assoc]

/-- The tags of a definition are its own groups and what the frame of a class passes on to a test method. -/
theorem mem_tagsOf {definition : Definition} {tag : String} : tag ∈ builder.tagsOf definition ↔
    tag ∈ definition.annotations.group.map (groupMark ++ ·) ∨ definition.kind = .method ∧
      ∃ frame ∈ builder.frames.head?, frame.kind = some .classLike ∧ ∃ above ∈ frame.ref, tag ∈ (builder.outline.item above).tags := by
  simp only [tagsOf, mem_foldl_tags, List.not_mem_nil, false_or, List.mem_append]
  refine or_congr_right ?_
  cases builder.frames.head? with
  | none => simp
  | some frame =>
    obtain ⟨ref?, kind?, depth, children⟩ := frame
    split
    next above _ _ same =>
      cases same
      split <;> simp [*]
    next other =>
      refine iff_of_false nofun ?_
      intro ⟨_, frame, same, class_like, above, placed, _⟩
      cases same
      simp only [Option.mem_def] at class_like placed
      subst class_like placed
      exact other above depth children rfl

theorem map_bare_dropWhile (frames : List Frame) (depth : Nat) :
    (frames.map Frame.bare).dropWhile (depth ≤ ·.depth) = (frames.dropWhile (depth ≤ ·.depth)).map Frame.bare := by
  rw [List.dropWhile_map]
  rfl

/-- The tags that are inherited are those from before the last steps. -/
theorem Tended.mem_tagsOf_later (tended : builder.Tended) {known : Builder}
    (retagged : Retagged (fun _ => False) builder.outline known.outline) {depth : Nat}
    (frames : known.frames = builder.frames.dropWhile (depth ≤ ·.depth)) {definition : Definition} {tag : String} :
    tag ∈ known.tagsOf definition ↔ tag ∈ definition.annotations.group.map (groupMark ++ ·) ∨
      definition.kind = .method ∧ ∃ frame ∈ ((builder.frames.map Frame.bare).dropWhile (depth ≤ ·.depth)).head?,
        frame.kind = some .classLike ∧ ∃ above ∈ frame.ref, tag ∈ (builder.outline.item above).tags := by
  rw [mem_tagsOf, frames, map_bare_dropWhile, List.head?_map]
  refine or_congr_right (and_congr_right ?_)
  intro _
  cases closest : (builder.frames.dropWhile (depth ≤ ·.depth)).head? with
  | none => simp
  | some frame =>
    have member : frame ∈ builder.frames := (List.dropWhile_sublist _).subset (List.mem_of_head? closest)
    have inside := (tended.frames frame member).1
    have old : ∀ above ∈ frame.ref, (known.outline.item above).tags = (builder.outline.item above).tags :=
      fun above placed => retagged.tags above (inside above placed) not_false
    simp only [Option.map_some, Option.mem_def, Option.some.injEq, exists_eq_left']
    refine and_congr_right fun _ => exists_congr fun above => and_congr_right fun placed => ?_
    rw [old above placed]

/-- The item of a definition gets the groups of the definition, and a test method those of the class whose frame it is in. -/
theorem Tended.addItem (tended : builder.Tended) (definition : Definition) (index : Nat) :
    ∃ ref, let after := builder.addItem definition index
      Advances (· = definition.id) builder after ∧ after.built = builder.built ++ [(ref, definition)] ∧
      after.frames.map Frame.bare = Frame.ofItem (ref, definition) ::
        (builder.frames.map Frame.bare).dropWhile (definition.depth ≤ ·.depth) ∧
      ref < after.outline.nodes.size ∧ after.outline.idOf ref = definition.id ∧
      ∀ tag, tag ∈ (after.outline.item ref).tags ↔ tag ∈ definition.annotations.group.map (groupMark ++ ·) ∨
        definition.kind = .method ∧ ∃ frame ∈ ((builder.frames.map Frame.bare).dropWhile (definition.depth ≤ ·.depth)).head?,
          frame.kind = some .classLike ∧ ∃ above ∈ frame.ref, tag ∈ (builder.outline.item above).tags := by
  obtain ⟨closed, frames⟩ := tended.ascend definition.depth
  have spec := closed.tended.obtain definition.id (labelOf definition.kind definition.label)
  simp only [Builder.addItem]
  revert spec
  generalize (builder.ascend definition.depth).obtain definition.id (labelOf definition.kind definition.label) = obtained
  obtain ⟨known, ref, isReused⟩ := obtained
  rintro ⟨chosen, still, built, valid, id⟩
  dsimp only at chosen still built valid id ⊢
  have before := closed.trans chosen
  have emptied : Moved known.outline (if (isReused && decide (definition.kind ≠ .method)) = true then
      known.outline.replace (some ref) [] else known.outline) := by
    split
    · exact moved_replace (inside_below valid) (List.forall_mem_nil _)
    · exact Moved.refl known.outline
  -- Whether an item that is used again is emptied or not, nothing but places changes.
  generalize (if (isReused && decide (definition.kind ≠ .method)) = true then
      known.outline.replace (some ref) [] else known.outline) = outline at emptied ⊢
  let update : Item → Item := ({ · with
    range := some (rangeOf definition)
    canResolve := definition.kind = .classLike
    sortText := some (sortTextOf definition index)
    tags := known.tagsOf definition })
  have same : outline.idOf ref = definition.id := (emptied.idOf ref).trans id
  have exist : ref < outline.nodes.size := emptied.size ▸ valid
  have changed : Retagged (· = outline.idOf ref) outline (outline.change ref update) := retagged_change ref update
  have tended_last : ({ known with outline := outline.change ref update, built := known.built ++ [(ref, definition)] } :
      Builder).Tended := by
    have moved := before.tended.withOutline (emptied.valid before.tended.valid) emptied.retagged
    exact ⟨(moved.change ref update).valid, (moved.change ref update).frames, (moved.change ref update).keyed⟩
  have here : ref < (outline.change ref update).nodes.size := Nat.lt_of_lt_of_le exist changed.size
  obtain ⟨pushed, opened⟩ := tended_last.push here definition.kind definition.depth
  refine ⟨ref, ⟨pushed, ?_⟩, ?_, ?_, here, (changed.ids ref exist).trans same, ?_⟩
  · rw [same] at changed
    exact ((before.retagged.trans emptied.retagged).weaken fun _ => False.elim).trans changed
  · show known.built ++ _ = _
    rw [built]
    rfl
  · rw [opened, map_bare_dropWhile, ← frames, ← still]
    rfl
  · intro tag
    have tags : ((outline.change ref update).item ref).tags = known.tagsOf definition := by
      rw [item_change, if_pos ⟨rfl, exist⟩]
    show tag ∈ ((outline.change ref update).item ref).tags ↔ _
    rw [tags]
    exact tended.mem_tagsOf_later before.retagged (still.trans frames)

theorem Tended.addSegment (tended : builder.Tended) (depth : Nat) (name segment : String) :
    ∃ ref, let after := builder.addSegment depth name segment
      Advances (fun _ => False) builder after ∧ after.built = builder.built ∧
      after.frames.map Frame.bare = { ref := some ref, kind := some .space, depth } :: builder.frames.map Frame.bare ∧
      after.outline.idOf ref = spaceMark ++ name := by
  have spec := tended.obtain (spaceMark ++ name) (labelOf .space segment)
  simp only [Builder.addSegment]
  revert spec
  generalize builder.obtain (spaceMark ++ name) (labelOf .space segment) = obtained
  obtain ⟨known, ref, isReused⟩ := obtained
  intro ⟨chosen, still, built, valid, id⟩
  dsimp only at chosen still built valid id ⊢
  let update : Item → Item := ({ · with sortText := some (spaceMark ++ name), canResolve := false })
  have changed : Retagged (fun _ => False) known.outline (known.outline.change ref update) :=
    retagged_change_of_tags fun _ => rfl
  have here : ref < (known.outline.change ref update).nodes.size := Nat.lt_of_lt_of_le valid changed.size
  obtain ⟨pushed, opened⟩ := (chosen.tended.change ref update).push here .space depth
  refine ⟨ref, ⟨pushed, chosen.retagged.trans changed⟩, built, ?_, (changed.ids ref valid).trans id⟩
  rw [opened, ← still]

theorem Tended.addSegments (tended : builder.Tended) (depth : Nat) (names : List (String × String)) :
    ∃ spaces : List Ref, let after := names.foldl (fun builder (name, segment) => builder.addSegment depth name segment) builder
      Advances (fun _ => False) builder after ∧ after.built = builder.built ∧ after.frames.map Frame.bare =
        (spaces.map fun ref => ({ ref := some ref, kind := some .space, depth } : Frame)) ++ builder.frames.map Frame.bare := by
  induction names generalizing builder with
  | nil => exact ⟨[], ⟨tended, (Moved.refl _).retagged⟩, rfl, rfl⟩
  | cons first rest ih =>
    obtain ⟨ref, first, built, opened, -⟩ := tended.addSegment depth first.1 first.2
    obtain ⟨spaces, later, kept, deeper⟩ := ih first.tended
    refine ⟨spaces ++ [ref], first.trans later, kept.trans built, ?_⟩
    refine deeper.trans ?_
    rw [opened, List.map_append, List.append_assoc]
    rfl

theorem dropWhile_ofItem {opened : List (Ref × Definition)} {base : List Frame} {depth : Nat}
    (low : ∀ frame ∈ base, frame.depth < depth) : (opened.map Frame.ofItem ++ base).dropWhile (depth ≤ ·.depth) =
      (opened.dropWhile (depth ≤ ·.2.depth)).map Frame.ofItem ++ base := by
  have around : ∀ frame ∈ base.head?, frame.depth < depth := fun frame first => low frame (List.mem_of_head? first)
  rw [dropWhile_around around, List.dropWhile_map]
  rfl

/-- The tags of an item that has just been added are its groups, when the frame around it is that of an item. -/
theorem marked_of_tags {outline before : Outline} {above : List (Ref × Definition)} {item : Ref × Definition} {base : List Frame}
    (valid : item.1 < outline.nodes.size) (id : outline.idOf item.1 = item.2.id)
    (tags : ∀ tag, tag ∈ (outline.item item.1).tags ↔ tag ∈ item.2.annotations.group.map (groupMark ++ ·) ∨
      item.2.kind = .method ∧ ∃ frame ∈ (above.map Frame.ofItem ++ base).head?,
        frame.kind = some .classLike ∧ ∃ ref ∈ frame.ref, tag ∈ (before.item ref).tags)
    (around : ∀ item ∈ above, item.2.kind = .classLike → ∃ outer, Marked before outer item)
    (nonempty : item.2.kind = .method → above ≠ []) : Marked outline above item := by
  refine ⟨valid, id, ?_⟩
  intro tag
  have own : tag ∈ item.2.annotations.group.map (groupMark ++ ·) ↔
      ∃ group, tag = groupMark ++ group ∧ group ∈ item.2.annotations.group := by
    rw [List.mem_map]
    exact exists_congr fun group => and_comm.trans (and_congr_left' eq_comm)
  simp only [InGroup, and_or_left, exists_or, tags, own]
  refine or_congr_right ?_
  by_cases method : item.2.kind = .method
  · cases above with
    | nil => exact absurd rfl (nonempty method)
    | cons parent outer =>
      simp only [method, true_and, List.map_cons, List.cons_append, List.head?_cons, Option.mem_def, Option.some.injEq,
        exists_eq_left', Frame.ofItem]
      by_cases class_like : parent.2.kind = .classLike
      · obtain ⟨further, marked⟩ := around parent List.mem_cons_self class_like
        simp [marked.tags, InGroup, class_like]
      · simp [class_like]
  · simp [method]

variable {definitions : List (Definition × Nat)}

theorem Tended.takeItem (tended : builder.Tended) {definition : Definition} (index : Nat) (item : definition.kind ≠ .space)
    {opened : List (Ref × Definition)} {base : List Frame} (frames : builder.frames.map Frame.bare = opened.map Frame.ofItem ++ base)
    (below : ∀ frame ∈ base, frame.depth < definition.depth)
    (known : ∀ item ∈ opened, item.2.kind = .classLike → ∃ above, Marked builder.outline above item) :
    ∃ ref, let after := builder.take definition index
      let around := opened.dropWhile (definition.depth ≤ ·.2.depth)
      Advances (· = definition.id) builder after ∧ after.built = builder.built ++ [(ref, definition)] ∧
      after.frames.map Frame.bare = ((ref, definition) :: around).map Frame.ofItem ++ base ∧
      ((definition.kind = .method → around ≠ []) → Marked after.outline around (ref, definition)) := by
  obtain ⟨ref, first, built, placed, valid, id, tags⟩ := tended.addItem definition index
  have taken : builder.take definition index = builder.addItem definition index := if_neg item
  rw [← taken] at first built placed valid id tags
  rw [frames, dropWhile_ofItem below] at placed tags
  rw [← List.cons_append, ← List.map_cons] at placed
  refine ⟨ref, first, built, placed, ?_⟩
  intro nonempty
  apply marked_of_tags valid id tags _ nonempty
  intro item member
  exact known item ((List.dropWhile_sublist _).subset member)

/-- The items of definitions are tagged one after the other, as long as each id comes once. -/
theorem Tended.takeAll (tended : builder.Tended) {opened : List (Ref × Definition)} {base : List Frame} {bottom : Nat}
    (frames : builder.frames.map Frame.bare = opened.map Frame.ofItem ++ base) (low : ∀ frame ∈ base, frame.depth < bottom)
    (open_deep : ∀ item ∈ opened, bottom ≤ item.2.depth) (deep : ∀ entry ∈ definitions, bottom ≤ entry.1.depth)
    (items : ∀ entry ∈ definitions, entry.1.kind ≠ .space) (distinct : (definitions.map (·.1.id)).Nodup)
    (known : ∀ item ∈ opened, item.2.id ∉ definitions.map (·.1.id) ∧
      (item.2.kind = .classLike → ∃ above, Marked builder.outline above item)) :
    ∃ items further : List (Ref × Definition), let after := builder.takeAll definitions
      Advances (· ∈ definitions.map (·.1.id)) builder after ∧ after.built = builder.built ++ items ∧
      items.map (·.2) = definitions.map (·.1) ∧ after.frames.map Frame.bare = further.map Frame.ofItem ++ base ∧
      (∀ item ∈ further, bottom ≤ item.2.depth) ∧
      ∀ above item, (above, item) ∈ trails (·.2.depth) opened items → (item.2.kind = .method → above ≠ []) →
        Marked after.outline above item := by
  induction definitions generalizing builder opened with
  | nil =>
    refine ⟨[], opened, ⟨tended, (Moved.refl _).retagged.weaken nofun⟩, (List.append_nil _).symm, rfl, frames, open_deep, ?_⟩
    intro above item trail
    cases trail
  | cons first rest ih =>
    obtain ⟨definition, index⟩ := first
    obtain ⟨away, distinct⟩ := List.nodup_cons.mp distinct
    have shallow : bottom ≤ definition.depth := deep _ List.mem_cons_self
    have below : ∀ frame ∈ base, frame.depth < definition.depth := by
      intro frame member
      have := low frame member
      omega
    obtain ⟨ref, first, built, placed, marked⟩ :=
      tended.takeItem index (items _ List.mem_cons_self) frames below fun item member => (known item member).2
    -- What stays open around the next definition has had its id, which does not come again.
    have older : ∀ item ∈ opened.dropWhile (definition.depth ≤ ·.2.depth), item ∈ opened :=
      fun item member => (List.dropWhile_sublist _).subset member
    have now_known : ∀ item ∈ (ref, definition) :: opened.dropWhile (definition.depth ≤ ·.2.depth),
        item.2.id ∉ rest.map (·.1.id) ∧
          (item.2.kind = .classLike → ∃ above, Marked (builder.take definition index).outline above item) := by
      refine List.forall_mem_cons.mpr ⟨⟨away, ?_⟩, ?_⟩
      · intro class_like
        refine ⟨_, marked ?_⟩
        intro method
        rw [show definition.kind = .classLike from class_like] at method
        cases method
      · intro item member
        obtain ⟨new, before⟩ := known item (older item member)
        refine ⟨fun later => new (List.mem_cons_of_mem _ later), ?_⟩
        intro class_like
        obtain ⟨above, marked⟩ := before class_like
        exact ⟨above, marked.later first.retagged fun same => new (same ▸ List.mem_cons_self)⟩
    have now_deep : ∀ item ∈ (ref, definition) :: opened.dropWhile (definition.depth ≤ ·.2.depth), bottom ≤ item.2.depth :=
      List.forall_mem_cons.mpr ⟨shallow, fun item member => open_deep item (older item member)⟩
    obtain ⟨others, further, later, more, same, final, final_deep, all⟩ := ih first.tended placed now_deep
      (fun entry member => deep entry (List.mem_cons_of_mem _ member))
      (fun entry member => items entry (List.mem_cons_of_mem _ member)) distinct now_known
    refine ⟨(ref, definition) :: others, further, ?_, ?_, ?_, final, final_deep, ?_⟩
    · refine (first.weaken ?_).trans (later.weaken ?_)
      · intro id same
        exact same ▸ List.mem_cons_self
      · intro id member
        exact List.mem_cons_of_mem _ member
    · show (Builder.takeAll (builder.take definition index) rest).built = _
      rw [more, built, List.append_assoc]
      rfl
    · rw [List.map_cons, same, List.map_cons]
    · intro above item trail nonempty
      rcases List.mem_cons.mp trail with here | deeper
      · cases here
        exact (marked nonempty).later later.retagged away
      · exact all above item deeper nonempty

/-- The segments of the namespace of a block open their frames first, none of which is as deep as a class. -/
theorem Tended.enter_block (tended : builder.Tended) (root : builder.frames.map Frame.bare = [Frame.root]) {block : SpaceBlock}
    (shaped : block.Shaped) (events : definitions.map (·.1) = block.events) :
    ∃ (entered : Builder) (inner : List (Definition × Nat)) (spaces : List Frame),
      builder.takeAll definitions = entered.takeAll inner ∧ inner.map (·.1) = block.classes.labels ∧
      Advances (fun _ => False) builder entered ∧ entered.built = builder.built ∧
      entered.frames.map Frame.bare = spaces ++ [Frame.root] ∧ ∀ frame ∈ spaces, frame.depth = 1 ∧ 1 < block.depth := by
  obtain ⟨space?, classes⟩ := block
  cases space? with
  | none => exact ⟨builder, definitions, [], rfl, events, ⟨tended, (Moved.refl _).retagged⟩, rfl, root, nofun⟩
  | some space =>
    obtain ⟨kind, depth⟩ := shaped.space space rfl
    obtain ⟨first, inner, rfl, rfl, others⟩ := List.map_eq_cons_iff.mp events
    obtain ⟨closed, frames⟩ := tended.ascend 1
    have still : (builder.ascend 1).frames.map Frame.bare = [Frame.root] := by
      rw [frames, ← map_bare_dropWhile, root]
      rfl
    obtain ⟨spaces, grown, built, opened⟩ := closed.tended.addSegments 1
      (qualifiedSegments "" (((Text.splitAt (· == '\\') first.1.label.toList).map String.ofList).filter (!·.isEmpty)))
    have taken : builder.take first.1 first.2 = (qualifiedSegments ""
        (((Text.splitAt (· == '\\') first.1.label.toList).map String.ofList).filter (!·.isEmpty))).foldl
          (fun builder (name, segment) => builder.addSegment 1 name segment) (builder.ascend 1) := by
      simp only [take, kind, if_true, addSpace, depth]
    rw [← taken, still] at opened
    rw [← taken] at grown built
    refine ⟨builder.take first.1 first.2, inner, _, rfl, others, closed.trans grown, built, opened, ?_⟩
    intro frame member
    obtain ⟨ref, -, rfl⟩ := List.mem_map.mp member
    exact ⟨rfl, Nat.lt_succ_self 1⟩

theorem Tended.block (tended : builder.Tended) (root : builder.frames.map Frame.bare = [Frame.root]) {block : SpaceBlock}
    (shaped : block.Shaped) (events : definitions.map (·.1) = block.events)
    (distinct : (block.classes.labels.map (·.id)).Nodup) :
    ∃ items : List (Ref × Definition), let after := (builder.takeAll definitions).ascend 1
      Advances (· ∈ block.classes.labels.map (·.id)) builder after ∧ after.built = builder.built ++ items ∧
      items.map (·.2) = block.classes.labels ∧ after.frames.map Frame.bare = [Frame.root] ∧
      ∀ opened above item, (above, item) ∈ trails (·.2.depth) opened items → Marked after.outline above item := by
  obtain ⟨entered, inner, spaces, taken, labels, first, built, frames, low⟩ := tended.enter_block root shaped events
  have members : ∀ entry ∈ inner, entry.1 ∈ block.classes.labels := fun entry member => labels ▸ List.mem_map_of_mem member
  have ids : inner.map (·.1.id) = block.classes.labels.map (·.id) := by
    rw [← labels, List.map_map]
    rfl
  have base : ∀ frame ∈ spaces ++ [Frame.root], frame.depth < block.depth := by
    intro frame member
    cases List.mem_append.mp member with
    | inl space =>
      obtain ⟨depth, deep⟩ := low frame space
      omega
    | inr last =>
      rw [List.mem_singleton.mp last]
      exact block.depth_pos
  have initial : entered.frames.map Frame.bare =
      ([] : List (Ref × Definition)).map Frame.ofItem ++ (spaces ++ [Frame.root]) := frames
  obtain ⟨items, further, later, more, same, opened, deep, marked⟩ := first.tended.takeAll initial base nofun
    (fun entry member => shaped.deep (members entry member)) (fun entry member => shaped.item (members entry member))
    (ids ▸ distinct) nofun
  rw [← taken, ids] at later
  rw [← taken] at more opened marked
  have listed := same.trans labels
  obtain ⟨closed, left⟩ := later.tended.ascend 1
  refine ⟨items, (first.weaken nofun).trans (later.trans (closed.weaken nofun)), ?_, listed, ?_, ?_⟩
  · show (builder.takeAll definitions).built = _
    rw [more, built]
  · rw [left, ← map_bare_dropWhile, opened, ← List.append_assoc, List.dropWhile_append_of_pos]
    · rfl
    · intro frame member
      cases List.mem_append.mp member with
      | inl own =>
        obtain ⟨item, inside, rfl⟩ := List.mem_map.mp own
        exact decide_eq_true (Nat.le_trans block.depth_pos (deep item inside))
      | inr space => exact decide_eq_true (Nat.le_of_eq (low frame space).1.symm)
  · intro opened above item trail
    obtain ⟨inner, outer, rfl, inside⟩ := inner_trail shaped listed trail
    have nonempty : item.2.kind = .method → inner ≠ [] := by
      intro method
      apply member_trail shaped listed inside
      rw [method]
      nofun
    obtain ⟨valid, id, tags⟩ := (marked inner item inside nonempty).later closed.retagged not_false
    refine ⟨valid, id, ?_⟩
    intro tag
    simp only [tags, inGroup_append nonempty]

theorem Tended.blocks (tended : builder.Tended) (root : builder.frames.map Frame.bare = [Frame.root]) {blocks : List SpaceBlock}
    (shaped : ∀ block ∈ blocks, block.Shaped) (events : definitions.map (·.1) = blocks.flatMap SpaceBlock.events)
    (distinct : ((blocks.flatMap (·.classes.labels)).map (·.id)).Nodup) :
    ∃ items : List (Ref × Definition), let after := (builder.takeAll definitions).ascend 1
      Advances (· ∈ (blocks.flatMap (·.classes.labels)).map (·.id)) builder after ∧ after.built = builder.built ++ items ∧
      items.map (·.2) = blocks.flatMap (·.classes.labels) ∧
      ∀ opened above item, (above, item) ∈ trails (·.2.depth) opened items → Marked after.outline above item := by
  induction blocks generalizing builder definitions with
  | nil =>
    obtain rfl := List.map_eq_nil_iff.mp events
    obtain ⟨closed, -⟩ := tended.ascend 1
    refine ⟨[], closed.weaken nofun, (List.append_nil _).symm, rfl, ?_⟩
    intro opened above item trail
    cases trail
  | cons block rest ih =>
    rw [List.flatMap_cons] at events
    rw [List.flatMap_cons, List.map_append, List.nodup_append] at distinct
    obtain ⟨own, others, apart⟩ := distinct
    obtain ⟨front, back, rfl, here, later⟩ := List.map_eq_append_iff.mp events
    obtain ⟨items, first, built, labels, top, marked⟩ := tended.block root (shaped block List.mem_cons_self) here own
    obtain ⟨further, grown, more, names, tagged⟩ :=
      ih first.tended top (fun other member => shaped other (List.mem_cons_of_mem _ member)) later others
    -- A block starts at the depth of a namespace, which closes the frames of the block before it.
    have start : startDepth 1 (back.map (·.1)) ≤ 1 := by
      rw [later]
      cases rest with
      | nil => exact Nat.le_refl 1
      | cons next rest =>
        rw [List.flatMap_cons]
        exact Nat.le_of_eq ((shaped next (by simp)).start _)
    have closed : (builder.takeAll (front ++ back)).ascend 1 =
        (((builder.takeAll front).ascend 1).takeAll back).ascend 1 := by
      rw [takeAll_ascend start, Builder.takeAll, List.foldl_append]
      rfl
    rw [closed, List.flatMap_cons]
    refine ⟨items ++ further, (first.weaken ?_).trans (grown.weaken ?_), ?_, ?_, ?_⟩
    · intro id member
      rw [List.map_append]
      exact List.mem_append_left _ member
    · intro id member
      rw [List.map_append]
      exact List.mem_append_right _ member
    · rw [more, built, List.append_assoc]
    · rw [List.map_append, labels, names]
    · intro opened above item trail
      obtain ⟨between, split⟩ : ∃ between : List (Ref × Definition), trails (·.2.depth) opened (items ++ further) =
          trails (·.2.depth) opened items ++ trails (·.2.depth) between further := by
        obtain ⟨between, split, -⟩ := trails_append opened items further
        exact ⟨between, split⟩
      rw [split] at trail
      cases List.mem_append.mp trail with
      | inl now =>
        refine (marked opened above item now).later grown.retagged ?_
        intro again
        have listed : item.2 ∈ block.classes.labels := labels ▸ List.mem_map_of_mem (mem_of_mem_trails now).1
        exact apart _ (List.mem_map_of_mem listed) _ again rfl
      | inr after => exact tagged between above item after

end Builder

/-- The items that are built for a file have their groups as tags, as long as the definitions of the file have different
ids. Nothing but tags of items with these ids changes. -/
theorem build_marks {previous : List (String × Ref)} (sound : outline.Valid) (keyed : outline.Keyed previous)
    (uri : Option String) {blocks : List SpaceBlock} (shaped : ∀ block ∈ blocks, block.Shaped)
    (distinct : ((blocks.flatMap (·.classes.labels)).map (·.id)).Nodup) :
    let built := build outline uri previous (blocks.flatMap SpaceBlock.events)
    built.1.Valid ∧ outline.nodes.size ≤ built.1.nodes.size ∧ (∀ ref < outline.nodes.size, built.1.idOf ref = outline.idOf ref) ∧
      built.2.map (·.2) = blocks.flatMap (·.classes.labels) ∧
      ∀ above item, (above, item) ∈ trails (·.2.depth) [] built.2 → Marked built.1 above item := by
  have tended := Builder.tended_start sound keyed uri
  have events : ((blocks.flatMap SpaceBlock.events).zipIdx).map (·.1) = blocks.flatMap SpaceBlock.events :=
    List.zipIdx_map_fst 0 _
  obtain ⟨items, grown, built, labels, marked⟩ := tended.blocks rfl shaped events distinct
  obtain ⟨closed, -⟩ := grown.tended.ascend 0
  rw [Builder.ascend_ascend (Nat.zero_le 1)] at closed
  have all := grown.retagged.trans (closed.retagged.weaken nofun)
  have result : (build outline uri previous (blocks.flatMap SpaceBlock.events)).2 = items := built
  refine ⟨closed.tended.valid, all.size, all.ids, result.symm ▸ labels, ?_⟩
  intro above item trail
  rw [result] at trail
  exact (marked [] above item trail).later closed.retagged not_false

end TestScout.Outline
