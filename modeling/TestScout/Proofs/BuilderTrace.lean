import TestScout.Proofs.BuilderFrames

/-! What a builder does to the outline that it shows, one item after the other. Each item is planted in a place:
it is what the place shows under its id, or it is new there. What the place showed under this id
is not shown any longer, and neither is what was below the item, unless the item stands for a namespace. -/

namespace TestScout.Outline
open Test

/-- The items that are shown, each in one place. -/
@[ext]
structure Sight where
  live : Ref → Prop
  shows : Place → Ref → Prop
  alive : ∀ place ref, shows place ref → live ref
  opened : ∀ place ref, shows place ref → Open live place
  single : ∀ place other ref, shows place ref → shows other ref → place = other

structure Planting where
  path : List Ref
  ref : Ref
  clears : Bool

def Planting.place (planting : Planting) : Place := planting.path.getLast?

/-- An item is planted. The item of a namespace is found wherever its place shows it, but at the top only if it was
there in the beginning. -/
structure Grows (ids : Ref → String) (top : List Ref) (before : Sight) (planting : Planting) (after : Sight) : Prop where
  path : Chain before.shows none planting.path
  live : ∀ ref, after.live ref ↔ ref = planting.ref ∨ before.live ref
  known : before.live planting.ref → before.shows planting.place planting.ref
  shows : ∀ place ref, after.shows place ref ↔ place = planting.place ∧ ref = planting.ref ∨
    before.shows place ref ∧ (place = planting.place → ids ref ≠ ids planting.ref) ∧
      (planting.clears = true → place ≠ some planting.ref)
  found : planting.clears = false → ∀ ref, before.shows planting.place ref → ids ref = ids planting.ref →
    (ref = planting.ref ↔ planting.path ≠ [] ∨ ref ∈ top)

def Traced (ids : Ref → String) (top : List Ref) : List Planting → Sight → Sight → Prop
  | [], before, after => before = after
  | planting :: rest, before, after =>
    ∃ middle, Grows ids top before planting middle ∧ Traced ids top rest middle after

variable {ids names : Ref → String} {top : List Ref} {before middle after : Sight} {planting : Planting}
  {plantings : List Planting}

theorem Grows.congr (grows : Grows ids top before planting after) (same : ∀ ref, after.live ref → names ref = ids ref) :
    Grows names top before planting after := by
  have old : ∀ place ref, before.shows place ref → names ref = ids ref := fun place ref shown =>
    same ref ((grows.live ref).mpr (.inr (before.alive place ref shown)))
  have new : names planting.ref = ids planting.ref := same planting.ref ((grows.live _).mpr (.inl rfl))
  refine { grows with shows := fun place ref => ?_, found := fun space ref shown equal => ?_ }
  · rw [grows.shows place ref]
    refine or_congr_right (and_congr_right fun shown => ?_)
    rw [old place ref shown, new]
  · rw [old _ ref shown, new] at equal
    exact grows.found space ref shown equal

theorem Traced.live (traced : Traced ids top plantings before after) (living : before.live ref) : after.live ref := by
  induction plantings generalizing before with
  | nil => exact (show before = after from traced) ▸ living
  | cons planting rest ih =>
    obtain ⟨middle, grows, traced⟩ := traced
    exact ih traced ((grows.live ref).mpr (.inr living))

theorem Traced.congr (traced : Traced ids top plantings before after)
    (same : ∀ ref, after.live ref → names ref = ids ref) : Traced names top plantings before after := by
  induction plantings generalizing before with
  | nil => exact traced
  | cons planting rest ih =>
    obtain ⟨middle, grows, traced⟩ := traced
    exact ⟨middle, grows.congr fun ref living => same ref (traced.live living), ih traced⟩

theorem Traced.append {further : List Planting} (one : Traced ids top plantings before middle)
    (two : Traced ids top further middle after) : Traced ids top (plantings ++ further) before after := by
  induction plantings generalizing before with
  | nil => exact (show before = middle from one) ▸ two
  | cons planting rest ih =>
    obtain ⟨next, grows, traced⟩ := one
    exact ⟨next, grows, ih traced⟩

namespace Builder

variable {builder : Builder} {live alive : Ref → Prop} {frame : Frame} {rest : List Frame}

def Sound.sight (sound : Sound builder live) : Sight :=
  ⟨live, builder.Shows live, fun _ _ => sound.alive_of_shows, fun _ _ => And.left, fun _ _ _ => sound.place_unique⟩

/-- The items of places, the innermost place first, from the top down. -/
def trunk : List Place → List Ref
  | [] => []
  | place :: rest => trunk rest ++ place.toList

theorem Sound.pending_eq (sound : Sound builder live) (member : frame ∈ builder.frames) :
    pending builder.frames frame.ref = frame.children := by
  have apart := sound.apart
  generalize builder.frames = frames at member apart
  induction frames with
  | nil => cases member
  | cons first rest ih =>
    obtain ⟨away, apart⟩ := List.pairwise_cons.mp apart
    rcases List.mem_cons.mp member with rfl | later
    · rw [pending, if_pos rfl]
    · rw [pending, if_neg (away frame later).1]
      exact ih later apart

/-- The items of the open frames lie below each other. -/
theorem Sound.path_trunk (sound : Sound builder live) (opened : builder.frames = frame :: rest) :
    Chain (builder.Shows live) none (trunk (builder.frames.map (·.ref))) ∧
      (trunk (builder.frames.map (·.ref))).getLast? = frame.ref := by
  have inside : ∀ other ∈ frame :: rest, other ∈ builder.frames := fun other member => opened ▸ member
  have linked := sound.linked
  rw [opened] at linked ⊢
  clear opened
  induction rest generalizing frame with
  | nil =>
    have root : frame.ref = none := linked
    simp [trunk, Chain, root]
  | cons outer rest ih =>
    obtain ⟨⟨ref, before, same, children⟩, linked⟩ := linked
    obtain ⟨path, last⟩ := ih (fun other member => inside other (List.mem_cons_of_mem _ member)) linked
    rw [List.map_cons, trunk, same]
    refine ⟨chain_append.mpr ⟨path, ?_, trivial⟩, by simp⟩
    have member := inside outer (by simp)
    rw [last, Option.or_none]
    refine ⟨(sound.reachable outer member).1, .inl ?_⟩
    rw [sound.pending_eq member, children, lastOf_append_singleton]
    exact .inl rfl

/-- Where the open frames are, and how deep. -/
def spots (builder : Builder) : List (Place × Nat) := builder.frames.map fun frame => (frame.ref, frame.depth)

/-- A builder has grown by some items. -/
structure Grown (first : Builder) (live : Ref → Prop) (plantings : List Planting) (second : Builder)
    (alive : Ref → Prop) : Prop where
  sound : Sound first live
  result : Sound second alive
  size : first.outline.nodes.size ≤ second.outline.nodes.size
  ids : ∀ ref < first.outline.nodes.size, second.outline.idOf ref = first.outline.idOf ref
  top : second.outline.top = first.outline.top
  traced : Traced second.outline.idOf first.outline.top plantings sound.sight result.sight

theorem Grown.refl (sound : Sound builder live) : Grown builder live [] builder live :=
  ⟨sound, sound, Nat.le_refl _, fun _ _ => rfl, rfl, rfl⟩

theorem Grown.trans {second third : Builder} {last : Ref → Prop} {further : List Planting}
    (one : Grown builder live plantings second alive) (two : Grown second alive further third last) :
    Grown builder live (plantings ++ further) third last where
  sound := one.sound
  result := two.result
  size := Nat.le_trans one.size two.size
  ids ref valid := (two.ids ref (Nat.lt_of_lt_of_le valid one.size)).trans (one.ids ref valid)
  top := two.top.trans one.top
  traced := by
    have early := one.traced.congr fun ref living => two.ids ref (one.result.forested.valid ref living)
    exact early.append (one.top ▸ two.traced)

theorem Sound.grown_ascend (sound : Sound builder live) {depth : Nat}
    (shallow : ∀ frame ∈ builder.frames, frame.ref = none → frame.depth < depth) :
    Grown builder live [] (builder.ascend depth) live := by
  obtain ⟨result, same, -, top⟩ := sound.ascend depth
  refine ⟨sound, result, Nat.le_of_eq same.size.symm, fun ref _ => same.ids ref, top shallow, ?_⟩
  show sound.sight = result.sight
  refine Sight.ext rfl (funext fun place => funext fun ref => propext ?_)
  exact (same.shows place ref).symm

/-! ## Taking up one item -/

theorem Chosen.extend {second : Builder} {ref : Ref} (chosen : Chosen builder live frame rest ref)
    (extension : Extends builder.outline second.outline) (frames : second.frames = builder.frames)
    (previous : second.previous = builder.previous) : Chosen second live frame rest ref where
  sound := chosen.sound.extend extension frames fun entry member => previous ▸ member
  opened := frames.trans chosen.opened
  valid := Nat.lt_of_lt_of_le chosen.valid extension.size
  spared entry member := chosen.spared entry (previous ▸ member)
  alone other member same := by
    rw [extension.children] at member
    have reachable := (chosen.sound.reachable frame (chosen.opened ▸ List.mem_cons_self)).1
    have living := (chosen.sound.forested.inside frame.ref other reachable member).1
    rw [extension.ids other (chosen.sound.forested.valid other living), extension.ids ref chosen.valid] at same
    exact chosen.alone other member same
  placed living := extension.children frame.ref ▸ chosen.placed living

/-- A builder is ready to take up an item: it has chosen it, and what was below it is not shown any longer if the
item does not keep that. -/
structure Ready (first : Builder) (live : Ref → Prop) (frame : Frame) (rest : List Frame) (ref : Ref) (clears : Bool)
    (builder : Builder) : Prop where
  sound : Sound first live
  opened : first.frames = frame :: rest
  chosen : Chosen builder live frame rest ref
  size : first.outline.nodes.size ≤ builder.outline.nodes.size
  ids : ∀ other < first.outline.nodes.size, builder.outline.idOf other = first.outline.idOf other
  top : builder.outline.top = first.outline.top
  shows : ∀ place other, builder.Shows live place other ↔
    first.Shows live place other ∧ (clears = true → place ≠ some ref)

namespace Ready

variable {first second : Builder} {ref : Ref} {clears : Bool}

theorem extend (ready : Ready first live frame rest ref clears builder)
    (extension : Extends builder.outline second.outline) (frames : second.frames = builder.frames)
    (previous : second.previous = builder.previous) : Ready first live frame rest ref clears second where
  sound := ready.sound
  opened := ready.opened
  chosen := ready.chosen.extend extension frames previous
  size := Nat.le_trans ready.size extension.size
  ids other valid := (extension.ids other (Nat.lt_of_lt_of_le valid ready.size)).trans (ready.ids other valid)
  top := (extension.children none).trans ready.top
  shows place other := (ready.chosen.sound.shows_extend extension frames place other).trans (ready.shows place other)

theorem clear (ready : Ready first live frame rest ref clears builder) :
    Ready first live frame rest ref true { builder with outline := builder.outline.replace (some ref) [] } where
  sound := ready.sound
  opened := ready.opened
  chosen := ready.chosen.clear.1
  size := size_replace_nil.symm ▸ ready.size
  ids other valid := (idOf_replace_nil other).trans (ready.ids other valid)
  top := by
    have inside : builder.outline.Inside (some ref) := fun other same => Option.some_inj.mp same ▸ ready.chosen.valid
    have kept := childrenOf_replace_nil inside none
    rw [if_neg nofun] at kept
    exact kept.trans ready.top
  shows place other := by
    rw [ready.chosen.clear.2.2, ready.shows]
    constructor
    · exact fun ⟨⟨shown, _⟩, below⟩ => ⟨shown, fun _ => below⟩
    · exact fun ⟨shown, below⟩ => ⟨⟨shown, fun _ => below rfl⟩, below rfl⟩

/-- Below an item without children there is nothing to be taken out. -/
theorem bare (ready : Ready first live frame rest ref clears builder)
    (empty : builder.outline.childrenOf (some ref) = []) : Ready first live frame rest ref true builder where
  sound := ready.sound
  opened := ready.opened
  chosen := ready.chosen
  size := ready.size
  ids := ready.ids
  top := ready.top
  shows place other := by
    constructor
    · rintro ⟨reachable, found⟩
      refine ⟨((ready.shows place other).mp ⟨reachable, found⟩).1, ?_⟩
      rintro - rfl
      rw [pending_eq_nil fun other member => ready.chosen.unframed member, empty] at found
      simp [not_lastOf_nil] at found
    · exact fun ⟨shown, below⟩ => (ready.shows place other).mpr ⟨shown, fun _ => below rfl⟩

/-- When the item is taken up the builder has grown by it. -/
theorem grown (ready : Ready first live frame rest ref clears builder)
    (result : Sound second fun other => other = ref ∨ live other) (same : second.outline = builder.outline)
    (shows : ∀ place other, second.Shows (fun other => other = ref ∨ live other) place other ↔
      place = frame.ref ∧ other = ref ∨
        builder.Shows live place other ∧ (place = frame.ref → builder.outline.idOf other ≠ builder.outline.idOf ref))
    (found : clears = false → ∀ other, first.Shows live frame.ref other →
      builder.outline.idOf other = builder.outline.idOf ref → (other = ref ↔ frame.ref ≠ none ∨ other ∈ first.outline.top)) :
    Grown first live [⟨trunk (first.frames.map (·.ref)), ref, clears⟩] second fun other => other = ref ∨ live other := by
  obtain ⟨path, last⟩ := ready.sound.path_trunk ready.opened
  have place : (⟨trunk (first.frames.map (·.ref)), ref, clears⟩ : Planting).place = frame.ref := last
  have reachable := (ready.chosen.sound.reachable frame (ready.chosen.opened ▸ List.mem_cons_self)).1
  refine ⟨ready.sound, result, same ▸ ready.size, same ▸ ready.ids, same ▸ ready.top, result.sight, ?_, rfl⟩
  rw [same]
  refine ⟨path, fun _ => Iff.rfl, fun living => ?_, fun elsewhere other => ?_, fun space other shown equal => ?_⟩
  · rw [place]
    exact ((ready.shows frame.ref ref).mp ⟨reachable, .inr (ready.chosen.placed living)⟩).1
  · rw [place]
    refine (shows elsewhere other).trans (or_congr_right ?_)
    rw [ready.shows, and_assoc]
    exact and_congr_right fun _ => and_comm
  · rw [place] at shown
    have root : trunk (first.frames.map (·.ref)) = [] ↔ frame.ref = none := by
      rw [← last, List.getLast?_eq_none_iff]
    exact (found space other shown equal).trans (or_congr_left (not_congr root.symm))

/-- An item is changed and taken up, with a frame of its own. -/
theorem grown_push (ready : Ready first live frame rest ref clears builder)
    (empty : builder.outline.childrenOf (some ref) = []) {kind : DefinitionKind} (nested : kind ≠ .method) (depth : Nat)
    (update : Item → Item) (built : List (Ref × Definition)) :
    let second := ({ builder with outline := builder.outline.change ref update, built } : Builder).push ref kind depth
    Grown first live [⟨trunk (first.frames.map (·.ref)), ref, true⟩] second (fun other => other = ref ∨ live other) ∧
      second.spots = (some ref, depth) :: first.spots ∧ second.built = built ∧
      second.outline.idOf ref = builder.outline.idOf ref := by
  have alike := alike_change builder.outline ref update
  have bare := (alike.children (some ref)).trans empty
  have changed : Ready first live frame rest ref clears
    { builder with outline := builder.outline.change ref update, built } := ready.extend alike.extends rfl rfl
  obtain ⟨result, shows⟩ := changed.chosen.enter (.inr bare) nested depth
  refine ⟨(changed.bare bare).grown result rfl shows nofun, ?_, rfl, alike.ids ref⟩
  simp only [spots, push, ready.chosen.opened, ready.opened, List.map_cons]

/-- A test method is changed and taken up, and its frame, which has collected nothing, is closed. -/
theorem grown_method (ready : Ready first live frame rest ref clears builder) {depth : Nat} (shallow : frame.depth < depth)
    (update : Item → Item) (built : List (Ref × Definition)) :
    let second := (({ builder with outline := builder.outline.change ref update, built } : Builder).push
      ref .method depth).ascend depth
    Grown first live [⟨trunk (first.frames.map (·.ref)), ref, true⟩] second (fun other => other = ref ∨ live other) ∧
      second.spots = first.spots ∧ second.built = built ∧ second.outline.idOf ref = builder.outline.idOf ref := by
  have alike := alike_change builder.outline ref update
  have changed : Ready first live frame rest ref clears
    { builder with outline := builder.outline.change ref update, built } := ready.extend alike.extends rfl rfl
  obtain ⟨chosen, bare, -⟩ := changed.chosen.clear
  obtain ⟨result, shows⟩ := chosen.take (.inr bare)
  have closed : (({ builder with outline := builder.outline.change ref update, built } : Builder).push
      ref .method depth).ascend depth = { builder with
        outline := (builder.outline.change ref update).replace (some ref) [], built
        frames := { frame with children := frame.children ++ [ref] } :: rest } := by
    simp only [push, ready.chosen.opened]
    rw [ascend_of_le rfl (Nat.le_refl depth)]
    exact ascend_of_lt (show _ = { frame with children := frame.children ++ [ref] } :: rest from rfl) shallow
  rw [closed]
  refine ⟨changed.clear.grown result rfl shows (fun new => Bool.noConfusion new), ?_, rfl, (idOf_replace_nil ref).trans (alike.ids ref)⟩
  simp only [spots, ready.opened, List.map_cons]

end Ready

theorem Sound.ready (sound : Sound builder live) (opened : builder.frames = frame :: rest) (id label : String) :
    let (chosen, ref, isReused) := builder.obtain id label
    Ready builder live frame rest ref false chosen ∧ chosen.built = builder.built ∧ chosen.outline.idOf ref = id ∧
      (isReused = false → chosen.outline.childrenOf (some ref) = []) ∧
      (∀ name, id = spaceMark ++ name → live ref ∨ chosen.outline.childrenOf (some ref) = []) := by
  have spec := sound.obtain opened id label
  generalize builder.obtain id label = obtained at spec
  obtain ⟨chosen, extension, built, same, -, unused, bare⟩ := spec
  refine ⟨⟨sound, opened, chosen, extension.size, extension.ids, extension.children none, fun place other => ?_⟩,
    built, same, unused, bare⟩
  rw [sound.shows_extend extension (chosen.opened.trans opened.symm)]
  simp

/-- A segment of a namespace is taken up by the frame of the segment before it, or by the one at the top. -/
theorem Sound.addSegment (sound : Sound builder live) (opened : builder.frames = frame :: rest)
    (fresh : frame.ref ≠ none → frame.children = []) (depth : Nat) (name segment : String) :
    ∃ ref alive, Grown builder live [⟨trunk (builder.frames.map (·.ref)), ref, false⟩]
        (builder.addSegment depth name segment) alive ∧
      (builder.addSegment depth name segment).frames = { ref := some ref, kind := some .space, depth } ::
        { frame with children := frame.children ++ [ref] } :: rest ∧
      (builder.addSegment depth name segment).built = builder.built ∧
      (builder.addSegment depth name segment).outline.idOf ref = spaceMark ++ name := by
  have spec := sound.ready opened (spaceMark ++ name) (labelOf .space segment)
  dsimp only [Builder.addSegment] at spec ⊢
  revert spec
  generalize builder.obtain (spaceMark ++ name) (labelOf .space segment) = obtained
  obtain ⟨known, ref, isReused⟩ := obtained
  rintro ⟨ready, built, id, -, bare⟩
  dsimp only at ready built id bare ⊢
  have alike := alike_change known.outline ref ({ · with sortText := some (spaceMark ++ name), canResolve := false })
  revert alike
  generalize known.outline.change ref ({ · with sortText := some (spaceMark ++ name), canResolve := false }) = outline
  intro alike
  have changed : Ready builder live frame rest ref false { known with outline } := ready.extend alike.extends rfl rfl
  have empty := (bare name rfl).imp_right fun empty => (alike.children (some ref)).trans empty
  obtain ⟨result, shows⟩ := changed.chosen.enter empty (show DefinitionKind.space ≠ .method by decide) depth
  refine ⟨ref, _, changed.grown result rfl shows fun _ other shown same => ?_, ?_, built, (alike.ids ref).trans id⟩
  · have here : other ∈ outline.childrenOf frame.ref → other = ref := fun member =>
      changed.chosen.alone other member same
    by_cases root : frame.ref = none
    · have top : outline.childrenOf frame.ref = builder.outline.top := root ▸ changed.top
      constructor
      · rintro rfl
        exact .inr (top ▸ changed.chosen.placed (sound.alive_of_shows shown))
      · rintro (below | member)
        · exact absurd root below
        · exact here (top ▸ member)
    · refine iff_of_true ?_ (.inl root)
      obtain ⟨reachable, found⟩ := ((changed.shows frame.ref other).mpr ⟨shown, nofun⟩)
      rcases found with last | member
      · rw [changed.chosen.sound.pending_eq (changed.chosen.opened ▸ List.mem_cons_self), fresh root] at last
        exact absurd last not_lastOf_nil
      · exact here member
  · simp only [push, ready.chosen.opened]

/-- Takes in a definition that is not a namespace. Below a test method there is nothing, so its frame is closed. -/
def plant (builder : Builder) (definition : Definition) (index : Nat) : Builder :=
  let taken := builder.take definition index
  if definition.kind = .method then taken.ascend definition.depth else taken

theorem Sound.plant (sound : Sound builder live) (opened : builder.frames = frame :: rest) {definition : Definition}
    (shallow : frame.depth < definition.depth) (item : definition.kind ≠ .space) (index : Nat) :
    ∃ ref alive, Grown builder live [⟨trunk (builder.frames.map (·.ref)), ref, true⟩] (builder.plant definition index) alive ∧
      (builder.plant definition index).spots =
        (if definition.kind = .method then [] else [(some ref, definition.depth)]) ++ builder.spots ∧
      (builder.plant definition index).built = builder.built ++ [(ref, definition)] ∧
      (builder.plant definition index).outline.idOf ref = definition.id := by
  have spec := sound.ready opened definition.id (labelOf definition.kind definition.label)
  simp only [Builder.plant, Builder.take, if_neg item, Builder.addItem, ascend_of_lt opened shallow]
  revert spec
  generalize builder.obtain definition.id (labelOf definition.kind definition.label) = obtained
  obtain ⟨known, ref, isReused⟩ := obtained
  rintro ⟨ready, built, id, unused, -⟩
  dsimp only at ready built id unused ⊢
  generalize (fun item : Item => ({ item with
    range := some (rangeOf definition)
    canResolve := definition.kind = .classLike
    sortText := some (sortTextOf definition index)
    tags := known.tagsOf definition } : Item)) = update
  by_cases method : definition.kind = .method
  · simp only [method, if_true, ne_eq, not_true, decide_false, Bool.and_false, Bool.false_eq_true, if_false, built]
    obtain ⟨grown, spots, kept, same⟩ := ready.grown_method shallow update (builder.built ++ [(ref, definition)])
    exact ⟨ref, _, grown, spots, kept, same.trans id⟩
  · simp only [method, if_false, ne_eq, not_false_eq_true, decide_true, Bool.and_true, built]
    cases isReused with
    | true =>
      obtain ⟨grown, spots, kept, same⟩ := ready.clear.grown_push ready.chosen.clear.2.1 method definition.depth update
        (builder.built ++ [(ref, definition)])
      exact ⟨ref, _, grown, spots, kept, same.trans ((idOf_replace_nil ref).trans id)⟩
    | false =>
      obtain ⟨grown, spots, kept, same⟩ := ready.grown_push (unused rfl) method definition.depth update
        (builder.built ++ [(ref, definition)])
      exact ⟨ref, _, grown, spots, kept, same.trans id⟩

end Builder
end TestScout.Outline
