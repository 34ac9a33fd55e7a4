import TestScout.Proofs.DiscoveryOrder
import TestScout.Proofs.OutlineTwins

/-! Items that are taken up again. A builder that takes up items which a file had before shows the same as one that
makes every item anew: whatever an old item looks like and whatever is below it, nothing of this is left. -/

namespace TestScout.Outline
open Test

variable {near wider : Ref → Ref → Prop} {rank : Ref → Nat} {loose : Ref → Prop} {uri : Option String}

/-- Frames of items that are twins. -/
structure Frame.Twins (near : Ref → Ref → Prop) (rank : Ref → Nat) (frame other : Frame) : Prop where
  kind : frame.kind = other.kind
  depth : frame.depth = other.depth
  ref : Option.Rel near frame.ref other.ref
  children : List.Forall₂ (Beneath near rank other.ref) frame.children other.children

theorem Frame.Twins.mono {frame other : Frame} (twins : frame.Twins near rank other)
    (more : ∀ ref other, near ref other → wider ref other) : frame.Twins wider rank other := by
  refine ⟨twins.kind, twins.depth, ?_, Beneath.mono more twins.children⟩
  obtain ⟨-, -, related, -⟩ := twins
  generalize frame.ref = place at related
  generalize other.ref = place' at related
  cases related with
  | none => exact .none
  | some here => exact .some (more _ _ here)

/-- An item that a file had before can be taken up. A namespace among these has nothing to it but its name. -/
structure Leftover (outline : Outline) (uri : Option String) (entry : String × Ref) : Prop where
  valid : entry.2 < outline.nodes.size
  id : outline.idOf entry.2 = entry.1
  uri : (outline.item entry.2).uri = uri
  bare : spaceMark.toList <+: entry.1.toList → outline.childrenOf (some entry.2) = [] ∧
    (outline.item entry.2).range = none ∧ (outline.item entry.2).tags = []

theorem Leftover.later {outline next : Outline} {entry : String × Ref} (leftover : Leftover outline uri entry)
    (size : outline.nodes.size ≤ next.nodes.size) (item : next.item entry.2 = outline.item entry.2)
    (children : next.childrenOf (some entry.2) = outline.childrenOf (some entry.2)) : Leftover next uri entry where
  valid := Nat.lt_of_lt_of_le leftover.valid size
  id := by rw [idOf, item, ← idOf, leftover.id]
  uri := by rw [item, leftover.uri]
  bare space := by
    rw [item, children]
    exact leftover.bare space

namespace Builder

/-- Builders of which the first one takes up old items and the second one makes new items. -/
structure Twins (near : Ref → Ref → Prop) (rank : Ref → Nat) (loose : Ref → Prop) (first second : Builder) : Prop where
  outline : Outline.Twins near rank loose first.outline second.outline
  frames : List.Forall₂ (Frame.Twins near rank) first.frames second.frames
  built : List.Forall₂ (fun item other => near item.1 other.1 ∧ item.2 = other.2) first.built second.built
  spare : ∀ entry ∈ first.previous, Leftover first.outline first.uri entry ∧ ∀ other, ¬near entry.2 other
  anew : second.previous = []
  uri : second.uri = first.uri
  size : first.outline.nodes.size ≤ second.outline.nodes.size
  fresh : ∀ above other, second.outline.nodes.size ≤ other → above < other → rank above < rank other

variable {first second : Builder} {ref other : Ref}

/-! ## Closing frames -/

theorem childrenOf_addAll_ne {outline : Outline} {place elsewhere : Place} (inside : outline.Inside place)
    (away : elsewhere ≠ place) (refs : List Ref) :
    (refs.foldl (·.add place ·) outline).childrenOf elsewhere = outline.childrenOf elsewhere := by
  induction refs generalizing outline with
  | nil => rfl
  | cons ref rest ih =>
    have still : (outline.add place ref).Inside place := fun above same => by
      rw [size_add]
      exact inside above same
    rw [List.foldl_cons, ih still, childrenOf_add_ne inside away]

theorem childrenOf_flush_ne {outline : Outline} {frame : Frame} {elsewhere : Place} (inside : outline.Inside frame.ref)
    (away : elsewhere ≠ frame.ref) : (flush outline frame).childrenOf elsewhere = outline.childrenOf elsewhere := by
  unfold flush
  split
  · have views := emptied_views inside frame.children
    have still := views.1.inside inside
    have same := childrenOf_addAll_ne still away frame.children
    rw [views.2, if_neg away] at same
    exact same
  · exact childrenOf_addAll_ne inside away frame.children

/-- When the frames of twins are closed, the innermost item is no longer loose. -/
theorem flush_twins {outline outline' : Outline} {frame frame' : Frame} (twins : Outline.Twins near rank loose outline outline')
    (pair : frame.Twins near rank frame') (only : ∀ ref, loose ref → frame'.kind = some .method ∧ frame'.ref = some ref) :
    Outline.Twins near rank (fun _ => False) (flush outline frame) (flush outline' frame') := by
  unfold Builder.flush
  rw [pair.kind]
  split
  · refine (twins.replace pair.ref pair.children).weaken ?_
    intro ref free
    exact free.2 (only ref free.1).2.symm
  next other =>
    have tight : ∀ ref, ¬loose ref := fun ref free => other (only ref free).1
    exact (twins.addAll pair.ref (fun ref _ => tight ref) pair.children).weaken fun ref free => tight ref free

/-- No item is loose any more when a loose one belongs to the innermost frame, which is closed. -/
theorem Twins.ascend (twins : Twins near rank loose first second) (depth : Nat)
    (only : ∀ ref, loose ref → ∃ frame ∈ second.frames.head?, frame.kind = some .method ∧ frame.ref = some ref ∧
      depth ≤ frame.depth) :
    Twins near rank (fun _ => False) (first.ascend depth) (second.ascend depth) := by
  obtain ⟨outline, frames, built, spare, anew, uri, size, fresh⟩ := twins
  generalize opened : first.frames = opens at frames
  generalize opened' : second.frames = opens' at frames only
  induction frames generalizing first second loose with
  | nil =>
    rw [ascend_of_nil opened, ascend_of_nil opened']
    refine ⟨outline.weaken ?_, ?_, built, spare, anew, uri, size, fresh⟩
    · intro ref free
      obtain ⟨_, none, -⟩ := only ref free
      cases none
    · rw [opened, opened']
      exact .nil
  | @cons frame frame' rest rest' pair others ih =>
    by_cases deep : depth ≤ frame'.depth
    · rw [ascend_of_le opened (pair.depth ▸ deep), ascend_of_le opened' deep]
      have closed : Outline.Twins near rank (fun _ => False) (flush first.outline frame) (flush second.outline frame') := by
        apply flush_twins outline pair
        intro ref free
        obtain ⟨_, same, method, here, -⟩ := only ref free
        cases same
        exact ⟨method, here⟩
      obtain ⟨inside, inside'⟩ := outline.inside pair.ref
      have moved : Moved first.outline (flush first.outline frame) := by
        apply moved_flush inside
        intro ref member
        obtain ⟨_, twin, -⟩ := exists_of_mem_rel pair.children member
        exact (outline.exist twin).1
      have moved' : Moved second.outline (flush second.outline frame') := by
        apply moved_flush inside'
        intro ref member
        obtain ⟨_, twin, -⟩ := exists_of_mem_rel pair.children.flip member
        exact (outline.exist twin).2
      refine ih closed built ?_ anew uri ?_ ?_ rfl rfl fun _ => False.elim
      · intro entry listed
        obtain ⟨leftover, apart⟩ := spare entry listed
        refine ⟨leftover.later (Nat.le_of_eq moved.size.symm) (moved.item entry.2) ?_, apart⟩
        apply childrenOf_flush_ne inside
        intro same
        obtain ⟨other, twin⟩ := twin_of_place (same ▸ pair.ref)
        exact apart other twin
      · show (flush first.outline frame).nodes.size ≤ (flush second.outline frame').nodes.size
        rw [moved.size, moved'.size]
        exact size
      · show ∀ above other, (flush second.outline frame').nodes.size ≤ other → _
        rw [moved'.size]
        exact fresh
    · have shallow : frame'.depth < depth := Nat.lt_of_not_le deep
      rw [ascend_of_lt opened (pair.depth ▸ shallow), ascend_of_lt opened' shallow]
      refine ⟨outline.weaken ?_, ?_, built, spare, anew, uri, size, fresh⟩
      · intro ref free
        obtain ⟨_, same, -, -, open_⟩ := only ref free
        cases same
        exact deep open_
      · rw [opened, opened']
        exact .cons pair others

/-! ## Opening frames -/

theorem Twins.push (twins : Twins near rank loose first second) (here : near ref other)
    (deeper : ∀ above ∈ second.parent, rank above < rank other) (kind : DefinitionKind) (depth : Nat) :
    Twins near rank loose (first.push ref kind depth) (second.push other kind depth) := by
  have opened : Frame.Twins near rank { ref := some ref, kind := some kind, depth }
      { ref := some other, kind := some kind, depth } := ⟨rfl, rfl, .some here, .nil⟩
  refine ⟨twins.outline, ?_, twins.built, twins.spare, twins.anew, twins.uri, twins.size, twins.fresh⟩
  have frames := twins.frames
  simp only [Builder.parent] at deeper
  simp only [Builder.push]
  generalize first.frames = opens at frames
  generalize second.frames = opens' at frames deeper
  cases frames with
  | nil => exact .cons opened .nil
  | cons pair others =>
    refine .cons opened (.cons ⟨pair.kind, pair.depth, pair.ref, ?_⟩ others)
    exact List.rel_append pair.children (.cons ⟨here, deeper⟩ .nil)

theorem Twins.build (twins : Twins near rank loose first second) (here : near ref other) (definition : Definition) :
    Twins near rank loose { first with built := first.built ++ [(ref, definition)] }
      { second with built := second.built ++ [(other, definition)] } := by
  refine ⟨twins.outline, twins.frames, ?_, twins.spare, twins.anew, twins.uri, twins.size, twins.fresh⟩
  exact List.rel_append twins.built (.cons ⟨here, rfl⟩ .nil)

theorem Twins.parent (twins : Twins near rank loose first second) : Option.Rel near first.parent second.parent := by
  have frames := twins.frames
  simp only [Builder.parent]
  generalize first.frames = opens at frames
  generalize second.frames = opens' at frames
  cases frames with
  | nil => exact .none
  | cons pair _ => exact pair.ref

/-- Tags that are inherited are the same when the tags of twins are. -/
theorem tagsOf_eq {known known' : Builder} (frames : List.Forall₂ (Frame.Twins near rank) known.frames known'.frames)
    (tags : ∀ ref other, near ref other → (known.outline.item ref).tags = (known'.outline.item other).tags)
    (definition : Definition) : known.tagsOf definition = known'.tagsOf definition := by
  simp only [Builder.tagsOf]
  congr 2
  generalize known.frames = opens at frames
  generalize known'.frames = opens' at frames
  cases frames with
  | nil => rfl
  | @cons frame frame' _ _ pair _ =>
    obtain ⟨ref, kind, depth, children⟩ := frame
    obtain ⟨ref', kind', depth', children'⟩ := frame'
    obtain ⟨same, -, related, -⟩ := pair
    dsimp only at same related
    subst same
    cases related with
    | none => rfl
    | some here =>
      rcases kind with _ | (_ | _ | _ | _ | _)
      all_goals simp only [List.head?_cons, tags _ _ here]

/-- Builders stay twins when an item becomes or stays one of the twins and nothing else changes. -/
theorem Twins.grown (twins : Twins near rank loose first second) {free : Ref → Prop} {outline outline' : Outline}
    {previous : List (String × Ref)} (related : Outline.Twins wider rank free outline outline')
    (more : ∀ ref other, near ref other → wider ref other) (only : ∀ one two, wider one two → near one two ∨ one = ref)
    (confined : Confined ref first.outline outline) (fewer : ∀ entry ∈ previous, entry ∈ first.previous ∧ entry.2 ≠ ref)
    (size : outline.nodes.size ≤ outline'.nodes.size) (size' : second.outline.nodes.size ≤ outline'.nodes.size) :
    Twins wider rank free { first with outline, previous } { second with outline := outline' } where
  outline := related
  frames := twins.frames.imp fun _ _ pair => pair.mono more
  built := twins.built.imp fun _ _ pair => ⟨more _ _ pair.1, pair.2⟩
  spare entry member := by
    obtain ⟨listed, differs⟩ := fewer entry member
    obtain ⟨leftover, apart⟩ := twins.spare entry listed
    refine ⟨leftover.later confined.size (confined.item entry.2 leftover.valid differs) ?_, fun other pair => ?_⟩
    · exact confined.children _ fun same => differs (Option.some_inj.mp same)
    · exact (only entry.2 other pair).elim (apart other) differs
  anew := twins.anew
  uri := twins.uri
  size := size
  fresh above other high := twins.fresh above other (Nat.le_trans size' high)

/-! ## Taking up items -/

/-- An item is taken up that is not in its place yet: one that the file had before, or a new one. -/
structure Taken (builder : Builder) (name text : String) (chosen : Builder) (ref : Ref) (isReused : Bool) : Prop where
  rest : chosen = { builder with outline := chosen.outline, previous := chosen.previous }
  confined : Confined ref builder.outline chosen.outline
  fewer : ∀ entry ∈ chosen.previous, entry ∈ builder.previous ∧ entry.2 ≠ ref
  source : builder.outline.nodes.size ≤ ref ∨ ∃ entry ∈ builder.previous, entry.2 = ref
  valid : ref < chosen.outline.nodes.size
  grown : chosen.outline.nodes.size ≤ builder.outline.nodes.size + 1
  looks : ∃ look : Item, chosen.outline.item ref = { look with id := name, label := text, uri := builder.uri } ∧
    (isReused = false ∨ spaceMark.toList <+: name.toList → look.range = none ∧ look.tags = [])
  bare : isReused = false ∨ spaceMark.toList <+: name.toList → chosen.outline.childrenOf (some ref) = []
  anew : builder.previous = [] → isReused = false

theorem obtain_of_child {builder : Builder} {id : String} (found : builder.outline.child? builder.parent id = some ref)
    (label : String) : builder.obtain id label =
      ({ builder with outline := builder.outline.change ref ({ · with label }) }, ref, true) := by
  simp only [Builder.obtain, found]

theorem obtain_taken {builder : Builder} {id : String} (absent : builder.outline.child? builder.parent id = none)
    (spare : ∀ entry ∈ builder.previous, Leftover builder.outline builder.uri entry) (label : String) :
    ∃ chosen ref isReused, builder.obtain id label = (chosen, ref, isReused) ∧ Taken builder id label chosen ref isReused := by
  simp only [Builder.obtain, absent]
  cases known : builder.previous.lookup id with
  | some former =>
    obtain ⟨front, back, split, -⟩ := List.lookup_eq_some_iff.mp known
    have listed : (id, former) ∈ builder.previous := by simp [split]
    have leftover := spare _ listed
    have alike := alike_change builder.outline former ({ · with label })
    have confined := confined_change builder.outline former ({ · with label })
    refine ⟨_, _, _, rfl, rfl, confined, ?_, .inr ⟨_, listed, rfl⟩, alike.size ▸ leftover.valid, ?_, ?_, ?_, ?_⟩
    · intro entry member
      obtain ⟨old, differs⟩ := List.mem_filter.mp member
      refine ⟨old, fun same => ?_⟩
      have id_eq := (spare entry old).id
      rw [same, leftover.id] at id_eq
      simp [← id_eq] at differs
    · exact Nat.le_succ_of_le (Nat.le_of_eq alike.size)
    · refine ⟨builder.outline.item former, ?_, ?_⟩
      · simp only [item_change, leftover.valid, and_self, ite_true, leftover.id, ← leftover.uri]
      · rintro (new | space)
        · cases new
        · exact (leftover.bare space).2
    · rintro (new | space)
      · cases new
      · exact (alike.children _).trans (leftover.bare space).1
    · intro nothing
      rw [nothing] at listed
      cases listed
  | none =>
    let item : Item := { id, label, uri := builder.uri }
    have confined := confined_create builder.outline item
    have size : (builder.outline.create item).1.nodes.size = builder.outline.nodes.size + 1 := size_create item
    refine ⟨_, _, _, rfl, rfl, confined, ?_, .inl (Nat.le_refl _), ?_, Nat.le_of_eq size, ?_, ?_, fun _ => rfl⟩
    · intro entry member
      exact ⟨member, Nat.ne_of_lt (spare entry member).valid⟩
    · show builder.outline.nodes.size < (builder.outline.create item).1.nodes.size
      rw [size]
      exact Nat.lt_succ_self _
    · exact ⟨item, by rw [item_create]; exact if_pos rfl, fun _ => ⟨rfl, rfl⟩⟩
    · intro _
      show (builder.outline.create item).1.childrenOf (some builder.outline.nodes.size) = []
      rw [childrenOf_create, childrenOf_eq_nil (Nat.le_refl _)]

section

variable {name text : String} {chosen chosen' : Builder} {isReused isReused' : Bool}

/-- An item that is taken up has had no twin. -/
theorem Twins.apart (twins : Twins near rank loose first second) (taken : Taken first name text chosen ref isReused)
    (taken' : Taken second name text chosen' other isReused') : second.outline.nodes.size ≤ other ∧
      (∀ further, ¬near ref further) ∧ ∀ further, ¬near further other := by
  have high : second.outline.nodes.size ≤ other := by
    rcases taken'.source with new | ⟨entry, listed, -⟩
    · exact new
    · rw [twins.anew] at listed
      cases listed
  refine ⟨high, fun further here => ?_, fun further here => ?_⟩
  · rcases taken.source with new | ⟨entry, listed, same⟩
    · exact absurd (twins.outline.exist here).1 (Nat.not_lt_of_le new)
    · exact (twins.spare entry listed).2 further (same ▸ here)
  · exact absurd (twins.outline.exist here).2 (Nat.not_lt_of_le high)

/-- An item that one builder takes up and one that the other takes up become twins once they look the same. -/
theorem Twins.acquire (twins : Twins near rank (fun _ => False) first second) (free : Ref → Prop)
    (taken : Taken first name text chosen ref isReused) (taken' : Taken second name text chosen' other isReused')
    {outline outline' : Outline} (size : outline.nodes.size = chosen.outline.nodes.size)
    (size' : outline'.nodes.size = chosen'.outline.nodes.size) (confined : Confined ref chosen.outline outline)
    (confined' : Confined other chosen'.outline outline') (same : outline.item ref = outline'.item other)
    (bare : ¬free other → outline.childrenOf (some ref) = [] ∧ outline'.childrenOf (some other) = []) :
    Twins (fun one two => near one two ∨ one = ref ∧ two = other) rank free
      { first with outline, previous := chosen.previous } { second with outline := outline', previous := chosen'.previous } ∧
      ∀ above ∈ second.parent, rank above < rank other := by
  obtain ⟨high, new, new'⟩ := twins.apart taken taken'
  have all := taken.confined.trans confined
  have all' := taken'.confined.trans confined'
  have known := twins.outline.confined all all' new new'
  have valid : ref < outline.nodes.size := size ▸ taken.valid
  have valid' : other < outline'.nodes.size := size' ▸ taken'.valid
  have larger : outline.nodes.size ≤ outline'.nodes.size := by
    have grown := taken.grown
    have made : second.outline.nodes.size < chosen'.outline.nodes.size := Nat.lt_of_le_of_lt high taken'.valid
    have before := twins.size
    omega
  have nothing : chosen'.previous = second.previous := by
    rw [twins.anew]
    apply List.eq_nil_iff_forall_not_mem.mpr
    intro entry member
    have listed := (taken'.fewer entry member).1
    rw [twins.anew] at listed
    cases listed
  rw [nothing]
  refine ⟨twins.grown (known.adopt (fun _ => False.elim) valid valid' new new' same bare) (fun _ _ => .inl) ?_ all
    taken.fewer larger all'.size, ?_⟩
  · rintro one two (here | ⟨rfl, -⟩)
    · exact .inl here
    · exact .inr rfl
  · intro above around
    have related := twins.parent
    rw [Option.mem_def.mp around] at related
    obtain ⟨further, here⟩ := twin_of_place' related
    exact twins.fresh above _ high (Nat.lt_of_lt_of_le (twins.outline.exist here).2 high)

end

/-- The outline in which an item that has been taken up looks like its definition. -/
def furnish (outline : Outline) (ref : Ref) (isReused : Bool) (definition : Definition) (index : Nat) (tags : List String) :
    Outline :=
  (if isReused && definition.kind ≠ .method then outline.replace (some ref) [] else outline).change ref ({ · with
    range := some (rangeOf definition)
    canResolve := definition.kind = .classLike
    sortText := some (sortTextOf definition index)
    tags })

theorem addItem_eq {builder chosen : Builder} {definition : Definition} {isReused : Bool}
    (obtained : (builder.ascend definition.depth).obtain definition.id (labelOf definition.kind definition.label) =
      (chosen, ref, isReused)) (index : Nat) : builder.addItem definition index = ({ chosen with
        outline := furnish chosen.outline ref isReused definition index (chosen.tagsOf definition)
        built := chosen.built ++ [(ref, definition)] } : Builder).push ref definition.kind definition.depth := by
  simp only [addItem, obtained, furnish]

section

variable {outline : Outline} (valid : ref < outline.nodes.size) (isReused : Bool) (definition : Definition) (index : Nat)
  (tags : List String)

include valid

theorem furnish_views : (furnish outline ref isReused definition index tags).nodes.size = outline.nodes.size ∧
    Confined ref outline (furnish outline ref isReused definition index tags) ∧
    (furnish outline ref isReused definition index tags).item ref = { outline.item ref with
      range := some (rangeOf definition), canResolve := definition.kind = .classLike
      sortText := some (sortTextOf definition index), tags } := by
  have emptied : Moved outline (if (isReused && decide (definition.kind ≠ .method)) = true then
      outline.replace (some ref) [] else outline) ∧ Confined ref outline (if (isReused && decide (definition.kind ≠ .method)) = true then
      outline.replace (some ref) [] else outline) := by
    split
    · exact ⟨moved_replace (inside_below valid) nofun, confined_clear valid⟩
    · exact ⟨Moved.refl outline, Nat.le_refl _, fun _ _ _ => rfl, fun _ _ => rfl⟩
  rw [furnish]
  generalize (if (isReused && decide (definition.kind ≠ .method)) = true then
      outline.replace (some ref) [] else outline) = known at emptied
  refine ⟨(alike_change ..).size.trans emptied.1.size, emptied.2.trans (confined_change ..), ?_⟩
  rw [item_change, if_pos ⟨rfl, emptied.1.size ▸ valid⟩, idOf, emptied.1.item]

theorem childrenOf_furnish (other : definition.kind ≠ .method) :
    (furnish outline ref isReused definition index tags).childrenOf (some ref) =
      if isReused then [] else outline.childrenOf (some ref) := by
  rw [furnish, (alike_change ..).children]
  cases isReused with
  | false => simp
  | true => simp [other, childrenOf_replace_nil (inside_below valid)]

end

/-- Builders that have taken up an item and made it look like its definition go on alike. -/
theorem Twins.addItem_of_furnished {definition : Definition} {index : Nat} {builder builder' chosen chosen' : Builder}
    {isReused isReused' : Bool} (obtained : (builder.ascend definition.depth).obtain definition.id
      (labelOf definition.kind definition.label) = (chosen, ref, isReused))
    (obtained' : (builder'.ascend definition.depth).obtain definition.id
      (labelOf definition.kind definition.label) = (chosen', other, isReused'))
    (rest : chosen = { first with outline := chosen.outline, previous := chosen.previous })
    (rest' : chosen' = { second with outline := chosen'.outline, previous := chosen'.previous })
    (furnished : Twins near rank loose
      { first with
        outline := furnish chosen.outline ref isReused definition index (chosen.tagsOf definition)
        previous := chosen.previous }
      { second with
        outline := furnish chosen'.outline other isReused' definition index (chosen'.tagsOf definition)
        previous := chosen'.previous })
    (here : near ref other) (deeper : ∀ above ∈ second.parent, rank above < rank other) :
    Twins near rank loose (builder.addItem definition index) (builder'.addItem definition index) ∧
      (builder'.addItem definition index).frames.head? =
        some { ref := some other, kind := some definition.kind, depth := definition.depth } := by
  rw [addItem_eq obtained, addItem_eq obtained']
  refine ⟨?_, rfl⟩
  generalize chosen.tagsOf definition = tags at furnished ⊢
  generalize chosen'.tagsOf definition = tags' at furnished ⊢
  rw [rest, rest']
  exact (furnished.build here definition).push here deeper definition.kind definition.depth

/-- Both builders find an item in its place. -/
theorem Twins.addItem_of_child (twins : Twins near rank (fun _ => False) first second) {definition : Definition} (index : Nat)
    {builder builder' : Builder} (closed : builder.ascend definition.depth = first)
    (closed' : builder'.ascend definition.depth = second)
    (found : first.outline.child? first.parent definition.id = some ref)
    (found' : second.outline.child? second.parent definition.id = some other) (pair : Beneath near rank second.parent ref other) :
    Twins near rank (fun _ => False) (builder.addItem definition index) (builder'.addItem definition index) ∧
      (builder'.addItem definition index).frames.head? =
        some { ref := some other, kind := some definition.kind, depth := definition.depth } := by
  let label := labelOf definition.kind definition.label
  let outline := first.outline.change ref ({ · with label })
  let outline' := second.outline.change other ({ · with label })
  have relabelled : Outline.Twins near rank (fun _ => False) outline outline' := twins.outline.change pair.1 ({ · with label })
  obtain ⟨valid, valid'⟩ := relabelled.exist pair.1
  have size : outline.nodes.size = first.outline.nodes.size := (alike_change ..).size
  have size' : outline'.nodes.size = second.outline.nodes.size := (alike_change ..).size
  have tags : tagsOf { first with outline } definition = tagsOf { second with outline := outline' } definition :=
    @tagsOf_eq _ _ { first with outline } { second with outline := outline' } twins.frames
      (fun _ _ here => congrArg Item.tags (relabelled.item here)) definition
  have obtained : (builder.ascend definition.depth).obtain definition.id label = ({ first with outline }, ref, true) := by
    rw [closed]
    exact obtain_of_child found label
  have obtained' : (builder'.ascend definition.depth).obtain definition.id label =
      ({ second with outline := outline' }, other, true) := by
    rw [closed']
    exact obtain_of_child found' label
  apply Twins.addItem_of_furnished obtained obtained' rfl rfl ?_ pair.1 pair.2
  dsimp only
  rw [tags]
  generalize tagsOf { second with outline := outline' } definition = tags
  obtain ⟨same, confined, -⟩ := furnish_views valid true definition index tags
  obtain ⟨same', -, -⟩ := furnish_views valid' true definition index tags
  have furnished : Outline.Twins near rank (fun _ => False) (furnish outline ref true definition index tags)
      (furnish outline' other true definition index tags) := by
    rw [furnish, furnish]
    refine Outline.Twins.change ?_ pair.1 _
    split
    · exact (relabelled.replace (.some pair.1) .nil).weaken fun _ free => free.1
    · exact relabelled
  refine twins.grown furnished (fun _ _ => id) (fun _ _ => .inl) ((confined_change ..).trans confined) ?_ ?_ ?_
  · intro entry listed
    exact ⟨listed, fun here => (twins.spare entry listed).2 other (here ▸ pair.1)⟩
  · rw [same, same', size, size']
    exact twins.size
  · rw [same', size']

/-- Neither builder finds an item in its place. -/
theorem Twins.addItem_taken (twins : Twins near rank (fun _ => False) first second) {definition : Definition} (index : Nat)
    {builder builder' chosen chosen' : Builder} {isReused isReused' : Bool} (closed : builder.ascend definition.depth = first)
    (closed' : builder'.ascend definition.depth = second)
    (obtained : first.obtain definition.id (labelOf definition.kind definition.label) = (chosen, ref, isReused))
    (obtained' : second.obtain definition.id (labelOf definition.kind definition.label) = (chosen', other, isReused'))
    (taken : Taken first definition.id (labelOf definition.kind definition.label) chosen ref isReused)
    (taken' : Taken second definition.id (labelOf definition.kind definition.label) chosen' other isReused') :
    Twins (fun one two => near one two ∨ one = ref ∧ two = other) rank (fun ref => definition.kind = .method ∧ ref = other)
        (builder.addItem definition index) (builder'.addItem definition index) ∧
      (builder'.addItem definition index).frames.head? =
        some { ref := some other, kind := some definition.kind, depth := definition.depth } := by
  have anew := taken'.anew twins.anew
  obtain ⟨-, new, new'⟩ := twins.apart taken taken'
  have tags : chosen.tagsOf definition = chosen'.tagsOf definition := by
    have frames : List.Forall₂ (Frame.Twins near rank) chosen.frames chosen'.frames := by
      rw [taken.rest, taken'.rest]
      exact twins.frames
    have known := twins.outline.confined taken.confined taken'.confined new new'
    exact tagsOf_eq frames (fun _ _ here => congrArg Item.tags (known.item here)) definition
  obtain ⟨size, confined, item⟩ := furnish_views taken.valid isReused definition index (chosen.tagsOf definition)
  obtain ⟨size', confined', item'⟩ := furnish_views taken'.valid isReused' definition index (chosen'.tagsOf definition)
  obtain ⟨look, looks, -⟩ := taken.looks
  obtain ⟨look', looks', -⟩ := taken'.looks
  have same : (furnish chosen.outline ref isReused definition index (chosen.tagsOf definition)).item ref =
      (furnish chosen'.outline other isReused' definition index (chosen'.tagsOf definition)).item other := by
    rw [item, item', looks, looks', tags, twins.uri]
  obtain ⟨related, deeper⟩ := twins.acquire (fun ref => definition.kind = .method ∧ ref = other) taken taken'
    size size' confined confined' same fun tight => by
      have kind : definition.kind ≠ .method := fun method => tight ⟨method, rfl⟩
      rw [childrenOf_furnish taken.valid _ _ _ _ kind, childrenOf_furnish taken'.valid _ _ _ _ kind, anew,
        taken'.bare (.inl anew)]
      cases isReused with
      | false => exact ⟨taken.bare (.inl rfl), rfl⟩
      | true => exact ⟨rfl, rfl⟩
  apply Twins.addItem_of_furnished (closed ▸ obtained) (closed' ▸ obtained') taken.rest taken'.rest related
    (.inr ⟨rfl, rfl⟩) deeper

/-- Both builders take up an item for a definition. Only a test method may still have something old below it. -/
theorem Twins.addItem (twins : Twins near rank (fun _ => False) first second) {definition : Definition} (index : Nat)
    {builder builder' : Builder} (closed : builder.ascend definition.depth = first)
    (closed' : builder'.ascend definition.depth = second) :
    ∃ wider other, Twins wider rank (fun ref => definition.kind = .method ∧ ref = other)
        (builder.addItem definition index) (builder'.addItem definition index) ∧
      (builder'.addItem definition index).frames.head? =
        some { ref := some other, kind := some definition.kind, depth := definition.depth } := by
  have pair := twins.outline.child? twins.parent (fun _ _ => not_false) definition.id
  cases found : first.outline.child? first.parent definition.id with
  | some ref =>
    cases found' : second.outline.child? second.parent definition.id with
    | none => simp [found, found'] at pair
    | some other =>
      rw [found, found'] at pair
      cases pair with
      | some pair =>
        obtain ⟨added, opened⟩ := twins.addItem_of_child index closed closed' found found' pair
        have outline := added.outline.weaken fun ref (free : False) =>
          (free.elim : definition.kind = .method ∧ ref = other)
        exact ⟨near, other, { added with outline }, opened⟩
  | none =>
    cases found' : second.outline.child? second.parent definition.id with
    | some other => simp [found, found'] at pair
    | none =>
      obtain ⟨chosen, ref, isReused, obtained, taken⟩ :=
        obtain_taken found (fun entry listed => (twins.spare entry listed).1) (labelOf definition.kind definition.label)
      obtain ⟨chosen', other, isReused', obtained', taken'⟩ :=
        obtain_taken found' (by simp [twins.anew]) (labelOf definition.kind definition.label)
      exact ⟨_, other, twins.addItem_taken index closed closed' obtained obtained' taken taken'⟩

theorem addSegment_eq {builder chosen : Builder} {name segment : String} {isReused : Bool}
    (obtained : builder.obtain (spaceMark ++ name) (labelOf .space segment) = (chosen, ref, isReused)) (depth : Nat) :
    builder.addSegment depth name segment = ({ chosen with outline := chosen.outline.change ref ({ · with
      sortText := some (spaceMark ++ name), canResolve := false }) } : Builder).push ref .space depth := by
  simp only [addSegment, obtained]

/-- Both builders take up an item for a segment of a namespace. -/
theorem Twins.addSegment (twins : Twins near rank (fun _ => False) first second) (depth : Nat) (name segment : String) :
    ∃ wider, Twins wider rank (fun _ => False) (first.addSegment depth name segment) (second.addSegment depth name segment) := by
  let label := labelOf .space segment
  let update : Item → Item := ({ · with sortText := some (spaceMark ++ name), canResolve := false })
  have pair := twins.outline.child? twins.parent (fun _ _ => not_false) (spaceMark ++ name)
  cases found : first.outline.child? first.parent (spaceMark ++ name) with
  | some ref =>
    cases found' : second.outline.child? second.parent (spaceMark ++ name) with
    | none => simp [found, found'] at pair
    | some other =>
      rw [found, found'] at pair
      cases pair with
      | some pair =>
        rw [addSegment_eq (obtain_of_child found label), addSegment_eq (obtain_of_child found' label)]
        have changed := (twins.outline.change pair.1 ({ · with label })).change pair.1 update
        have size := (alike_change first.outline ref ({ · with label })).trans (alike_change _ ref update)
        have size' := (alike_change second.outline other ({ · with label })).trans (alike_change _ other update)
        have fewer : ∀ entry ∈ first.previous, entry ∈ first.previous ∧ entry.2 ≠ ref := fun entry listed =>
          ⟨listed, fun here => (twins.spare entry listed).2 other (here ▸ pair.1)⟩
        have kept := twins.grown changed (fun _ _ => id) (fun _ _ => .inl) ((confined_change ..).trans (confined_change ..))
          fewer (by rw [size.size, size'.size]; exact twins.size) (Nat.le_of_eq size'.size.symm)
        exact ⟨near, kept.push pair.1 pair.2 .space depth⟩
  | none =>
    cases found' : second.outline.child? second.parent (spaceMark ++ name) with
    | some other => simp [found, found'] at pair
    | none =>
      have space : spaceMark.toList <+: (spaceMark ++ name).toList := by
        rw [String.toList_append]
        exact List.prefix_append _ _
      obtain ⟨chosen, ref, isReused, obtained, taken⟩ :=
        obtain_taken found (fun entry listed => (twins.spare entry listed).1) label
      obtain ⟨chosen', other, isReused', obtained', taken'⟩ := obtain_taken found' (by simp [twins.anew]) label
      rw [addSegment_eq obtained, addSegment_eq obtained']
      have alike := alike_change chosen.outline ref update
      have alike' := alike_change chosen'.outline other update
      have same : (chosen.outline.change ref update).item ref = (chosen'.outline.change other update).item other := by
        obtain ⟨look, looks, plain⟩ := taken.looks
        obtain ⟨look', looks', plain'⟩ := taken'.looks
        rw [item_change, item_change, if_pos ⟨rfl, taken.valid⟩, if_pos ⟨rfl, taken'.valid⟩, idOf, idOf, looks, looks']
        simp only [update, plain (.inr space), plain' (.inr space), twins.uri]
      obtain ⟨related, deeper⟩ := twins.acquire (fun _ => False) taken taken' alike.size alike'.size
        (confined_change ..) (confined_change ..) same fun _ => by
          rw [alike.children, alike'.children]
          exact ⟨taken.bare (.inr space), taken'.bare (.inr space)⟩
      rw [taken.rest, taken'.rest]
      exact ⟨_, related.push (.inr ⟨rfl, rfl⟩) deeper .space depth⟩

theorem Twins.addSegments (twins : Twins near rank (fun _ => False) first second) (depth : Nat)
    (names : List (String × String)) : ∃ wider, Twins wider rank (fun _ => False)
      (names.foldl (fun builder (name, segment) => builder.addSegment depth name segment) first)
      (names.foldl (fun builder (name, segment) => builder.addSegment depth name segment) second) := by
  induction names generalizing near first second with
  | nil => exact ⟨near, twins⟩
  | cons name rest ih =>
    obtain ⟨wider, further⟩ := twins.addSegment depth name.1 name.2
    exact ih further

/-- Items are loose at most in the innermost frame, which what comes next will close. -/
def Closes (loose : Ref → Prop) (builder : Builder) (next : List Definition) : Prop :=
  ∀ ref, loose ref → ∃ frame ∈ builder.frames.head?, frame.kind = some .method ∧ frame.ref = some ref ∧
    ∀ definition ∈ next.head?, definition.depth ≤ frame.depth

theorem Twins.takeAll {events : List (Definition × Nat)} (twins : Twins near rank loose first second)
    (closes : Closes loose second (events.map (·.1))) {past : List Definition} (order : InOrder past (events.map (·.1))) :
    ∃ wider free, Closes free
        (events.foldl (fun builder (definition, index) => builder.take definition index) second) [] ∧
      Twins wider rank free
        (events.foldl (fun builder (definition, index) => builder.take definition index) first)
        (events.foldl (fun builder (definition, index) => builder.take definition index) second) := by
  induction events generalizing near loose first second past with
  | nil => exact ⟨near, loose, closes, twins⟩
  | cons event rest ih =>
    obtain ⟨definition, index⟩ := event
    have closed : Twins near rank (fun _ => False) (first.ascend definition.depth) (second.ascend definition.depth) := by
      apply twins.ascend
      intro ref free
      obtain ⟨frame, innermost, method, here, deep⟩ := closes ref free
      exact ⟨frame, innermost, method, here, deep definition rfl⟩
    simp only [List.foldl_cons, Builder.take]
    by_cases space : definition.kind = .space
    · rw [if_pos space, if_pos space]
      obtain ⟨wider, opened⟩ := closed.addSegments definition.depth _
      exact ih opened (fun _ => False.elim) order.2
    · rw [if_neg space, if_neg space]
      obtain ⟨wider, other, added, opened⟩ := closed.addItem index rfl rfl
      refine ih added ?_ order.2
      rintro ref ⟨method, rfl⟩
      exact ⟨_, opened, congrArg some method, rfl, order.1.leaf method⟩

end Builder

/-! ## Outlines before and after -/

/-- An item that is at the top or below one that is shown. -/
inductive Shown (outline : Outline) : Ref → Prop where
  | top {ref : Ref} (member : ref ∈ outline.top) : Shown outline ref
  | inside {above ref : Ref} (shown : Shown outline above) (member : ref ∈ outline.childrenOf (some above)) : Shown outline ref

/-- What is shown exists, and nothing that is shown is below itself. -/
structure Grounded (outline : Outline) : Prop where
  valid : ∀ ref, outline.Shown ref → ref < outline.nodes.size
  deeper : ∃ depth : Ref → Nat, ∀ above, outline.Shown above → ∀ ref ∈ outline.childrenOf (some above), depth above < depth ref

/-- New items can have higher ranks than all others. -/
theorem exists_rank (depth : Ref → Nat) (size : Nat) : ∃ rank : Ref → Nat, (∀ ref < size, rank ref = depth ref) ∧
    ∀ above other, size ≤ other → above < other → rank above < rank other := by
  have bounded : ∃ bound, ∀ ref < size, depth ref < bound := by
    induction size with
    | zero => exact ⟨0, nofun⟩
    | succ size ih =>
      obtain ⟨bound, lower⟩ := ih
      refine ⟨max bound (depth size + 1), fun ref valid => ?_⟩
      rcases Nat.lt_succ_iff_lt_or_eq.mp valid with before | rfl
      · exact Nat.lt_of_lt_of_le (lower ref before) (Nat.le_max_left _ _)
      · exact Nat.lt_of_lt_of_le (Nat.lt_succ_self _) (Nat.le_max_right _ _)
  obtain ⟨bound, lower⟩ := bounded
  refine ⟨fun ref => if ref < size then depth ref else bound + ref, fun ref valid => if_pos valid, ?_⟩
  intro above other high less
  simp only [if_neg (Nat.not_lt_of_le high)]
  split
  next valid => exact Nat.lt_of_lt_of_le (lower above valid) (Nat.le_add_right _ _)
  next => exact Nat.add_lt_add_left less bound

/-- Every item that is shown is its own twin. -/
theorem twins_self {outline : Outline} (valid : ∀ ref, outline.Shown ref → ref < outline.nodes.size)
    (deeper : ∀ above, outline.Shown above → ∀ ref ∈ outline.childrenOf (some above), rank above < rank ref) :
    Outline.Twins (fun one two => one = two ∧ outline.Shown one) rank (fun _ => False) outline outline where
  exist := by
    rintro ref _ ⟨rfl, shown⟩
    exact ⟨valid ref shown, valid ref shown⟩
  once := by
    rintro _ _ _ _ ⟨rfl, -⟩ ⟨rfl, -⟩
    exact Iff.rfl
  item := by
    rintro _ _ ⟨rfl, -⟩
    rfl
  children := by
    intro place place' related _
    cases related with
    | none => exact List.forall₂_same.mpr fun ref member => ⟨⟨rfl, .top member⟩, nofun⟩
    | @some above _ here =>
      obtain ⟨rfl, shown⟩ := here
      refine List.forall₂_same.mpr fun ref member => ⟨⟨rfl, .inside shown member⟩, ?_⟩
      intro around same
      cases same
      exact deeper above shown ref member

/-- Whether a builder may take up items that a file had before, or makes all items anew, the outlines are written in
the same way, and so are the items of all definitions. -/
theorem reuse_leaves_no_trace (scout : Discovery.Scout) (source : String) (file : Path) (suite : Option String)
    {outline : Outline} (grounded : outline.Grounded) (uri : Option String) {previous : List (String × Ref)}
    (spare : ∀ entry ∈ previous, Leftover outline uri entry ∧ ¬outline.Shown entry.2) :
    let definitions := (scout.look source file suite).2
    let reused := build outline uri previous definitions
    let anew := build outline uri [] definitions
    reused.1.toJson = anew.1.toJson ∧ List.Forall₂ (fun item other => item.2 = other.2 ∧
      reused.1.itemToJson reused.1.nodes.size item.1 = anew.1.itemToJson anew.1.nodes.size other.1) reused.2 anew.2 := by
  intro definitions reused anew
  obtain ⟨depth, deeper⟩ := grounded.deeper
  obtain ⟨rank, same, fresh⟩ := exists_rank depth outline.nodes.size
  have self : Twins (fun one two => one = two ∧ outline.Shown one) rank _ outline outline := twins_self grounded.valid fun above shown ref member => by
    rw [same above (grounded.valid above shown), same ref (grounded.valid ref (.inside shown member))]
    exact deeper above shown ref member
  have start : Builder.Twins (fun one two => one = two ∧ outline.Shown one) rank (fun _ => False)
      { outline, uri, previous } { outline, uri } := by
    refine ⟨self, .cons ⟨rfl, rfl, .none, .nil⟩ .nil, .nil, ?_, rfl, rfl, Nat.le_refl _, fresh⟩
    intro entry listed
    exact ⟨(spare entry listed).1, fun other pair => (spare entry listed).2 pair.2⟩
  have order : InOrder [] (definitions.zipIdx.map (·.1)) := by
    rw [List.zipIdx_map_fst]
    exact scout.look_inOrder source file suite
  obtain ⟨near, free, closes, taken⟩ := start.takeAll (fun _ => False.elim) order
  have closed := taken.ascend 0 fun ref loose => by
    obtain ⟨frame, innermost, method, here, -⟩ := closes ref loose
    exact ⟨frame, innermost, method, here, Nat.zero_le _⟩
  refine ⟨closed.outline.toJson_eq closed.size, closed.built.imp fun item other pair => ⟨pair.2, ?_⟩⟩
  exact closed.outline.itemToJson_size closed.size pair.1

private def cartScout : Discovery.Scout where
  reader _ :=
    let cart : Code.ClassDecl := { name := "CartTest", body := [.method { name := "testAdd", body := some {} }] }
    some (.program { children := [.space { name := "Shop", children := [.classDecl cart] }] })
  root := ⟨"/p"⟩

/-- A class with tags, its test with a data set, and the namespace are left over, each with an old look. -/
private def cartOutline : Outline where
  nodes := #[
    { item := { id := "Shop\\CartTest", label := "old", tags := ["group:slow"] }, children := [1, 4] },
    { item := { id := "Shop\\CartTest::testAdd", label := "old", canResolve := true }, parent := some 0, children := [2] },
    { item := { id := "Shop\\CartTest::testAdd with data set #0", label := "old" }, parent := some 1 },
    { item := { id := "namespace:Shop", label := "old", sortText := some "old" } },
    { item := { id := "BillTest", label := "bill" } }]
  top := [4]

private def cartPrevious : List (String × Ref) :=
  [("Shop\\CartTest", 0), ("Shop\\CartTest::testAdd", 1), ("namespace:Shop", 3)]

/-- The class and its test are taken up again, and nothing old is left of them. -/
theorem cart_taken_up_without_trace :
    let definitions := (cartScout.look "" ⟨"/p/Cart.php"⟩ none).2
    let reused := build cartOutline none cartPrevious definitions
    let anew := build cartOutline none [] definitions
    reused.2.map (·.1) = [0, 1] ∧ anew.2.map (·.1) = [6, 7] ∧ reused.1.toJson = anew.1.toJson ∧
      List.Forall₂ (fun item other => item.2 = other.2 ∧ reused.1.itemToJson reused.1.nodes.size item.1 =
        anew.1.itemToJson anew.1.nodes.size other.1) reused.2 anew.2 := by
  have only : ∀ ref, cartOutline.Shown ref → ref = 4 := by
    intro ref shown
    induction shown with
    | top member => exact List.mem_singleton.mp member
    | inside _ member above =>
      subst above
      cases member
  have grounded : cartOutline.Grounded := by
    refine ⟨fun ref shown => only ref shown ▸ by decide, id, fun above shown ref member => ?_⟩
    cases only above shown
    cases member
  have spare : ∀ entry ∈ cartPrevious, Leftover cartOutline none entry ∧ ¬cartOutline.Shown entry.2 := by
    refine List.forall_mem_cons.mpr ⟨?_, List.forall_mem_cons.mpr ⟨?_, List.forall_mem_singleton.mpr ?_⟩⟩
    · exact ⟨⟨by decide, rfl, rfl, fun space => absurd space (by decide)⟩, fun shown => nomatch only _ shown⟩
    · exact ⟨⟨by decide, rfl, rfl, fun space => absurd space (by decide)⟩, fun shown => nomatch only _ shown⟩
    · exact ⟨⟨by decide, rfl, rfl, fun _ => ⟨rfl, rfl, rfl⟩⟩, fun shown => nomatch only _ shown⟩
  refine ⟨by decide +kernel, by decide +kernel, ?_⟩
  exact reuse_leaves_no_trace cartScout "" ⟨"/p/Cart.php"⟩ none grounded none spare

end TestScout.Outline
