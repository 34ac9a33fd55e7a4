import TestScout.Proofs.BuilderReuse
import TestScout.Proofs.BuilderSites

/-! Which item a builder takes up, and all that it does to an outline with that. Nothing is put into a place before the
frame of the place is closed; only what an item had below it goes. -/

namespace TestScout.Outline
open Test

theorem lookup_filter_ne {entries : List (String × Ref)} {id other : String} (differs : other ≠ id) :
    (entries.filter (·.1 != id)).lookup other = entries.lookup other := by
  induction entries with
  | nil => rfl
  | cons entry rest ih =>
    by_cases same : entry.1 = id
    · have other_key : (other == entry.1) = false := by simp [same, differs]
      rw [List.filter_cons_of_neg (by simp [same]), ih, List.lookup_cons, other_key]
    · rw [List.filter_cons_of_pos (by simp [same]), List.lookup_cons, List.lookup_cons, ih]

namespace Builder

variable {builder : Builder}

/-- The item that a builder takes up for an id. -/
def choice (builder : Builder) (id : String) : Ref :=
  ((builder.outline.child? builder.parent id).or (builder.previous.lookup id)).getD builder.outline.nodes.size

/-- The open frames once the innermost one has collected an item. -/
def collect (builder : Builder) (ref : Ref) : List Frame :=
  match builder.frames with
  | [] => []
  | frame :: rest => { frame with children := frame.children ++ [ref] } :: rest

theorem frames_push (builder : Builder) (ref : Ref) (kind : DefinitionKind) (depth : Nat) :
    (builder.push ref kind depth).frames = { ref := some ref, kind := some kind, depth } :: builder.collect ref := rfl

theorem collect_congr {other : Builder} (same : other.frames = builder.frames) (ref : Ref) : other.collect ref = builder.collect ref := by
  simp only [collect, same]

theorem mem_collect {ref : Ref} {frame : Frame} (member : frame ∈ builder.collect ref) :
    frame ∈ builder.frames ∨ ∃ innermost ∈ builder.frames.head?, frame = { innermost with children := innermost.children ++ [ref] } := by
  unfold collect at member
  cases opened : builder.frames with
  | nil =>
    rw [opened] at member
    cases member
  | cons innermost rest =>
    rw [opened] at member
    rcases List.mem_cons.mp member with rfl | outer
    · exact .inr ⟨innermost, rfl, rfl⟩
    · exact .inl (List.mem_cons_of_mem _ outer)

/-- What has changed when the frame of an item has been opened. -/
structure Enters (builder : Builder) (id : String) (kind : DefinitionKind) (depth : Nat) (after : Builder) : Prop where
  tended : after.Tended
  retagged : Retagged (fun _ => True) builder.outline after.outline
  valid : builder.choice id < after.outline.nodes.size
  named : after.outline.idOf (builder.choice id) = id
  frames : after.frames = { ref := some (builder.choice id), kind := some kind, depth } :: builder.collect (builder.choice id)
  children : ∀ place, after.outline.childrenOf place = builder.outline.childrenOf place ∨
    place = some (builder.choice id) ∧ after.outline.childrenOf place = []
  cleared : kind ≠ .space → kind ≠ .method → after.outline.childrenOf (some (builder.choice id)) = []
  parents : ∀ ref, after.outline.parentOf ref = builder.outline.parentOf ref ∨
    builder.outline.parentOf ref = some (builder.choice id) ∧
      after.outline.childrenOf (some (builder.choice id)) = [] ∧ after.outline.parentOf ref = none
  fewer : ∀ entry ∈ after.previous, entry ∈ builder.previous
  previous : ∀ other, other ≠ id → after.previous.lookup other = builder.previous.lookup other

theorem Enters.fewer_children {id : String} {kind : DefinitionKind} {depth : Nat} {after : Builder}
    (enters : Enters builder id kind depth after) {place : Place} {ref : Ref} (member : ref ∈ after.outline.childrenOf place) :
    ref ∈ builder.outline.childrenOf place := by
  rcases enters.children place with same | ⟨-, none⟩
  · rwa [← same]
  · rw [none] at member
    cases member

theorem obtain_choice (builder : Builder) (id label : String) : ∃ chosen isReused,
    builder.obtain id label = (chosen, builder.choice id, isReused) ∧ Extends builder.outline chosen.outline ∧
      chosen.frames = builder.frames ∧
      (chosen.previous = builder.previous ∨ chosen.previous = builder.previous.filter (·.1 != id)) ∧
      (isReused = false → builder.outline.nodes.size ≤ builder.choice id) := by
  simp only [Builder.obtain, choice]
  cases found : builder.outline.child? builder.parent id with
  | some ref => exact ⟨_, _, rfl, (alike_change builder.outline ref ({ · with label })).extends, rfl, .inl rfl, Bool.noConfusion⟩
  | none =>
    cases spare : builder.previous.lookup id with
    | some ref => exact ⟨_, _, rfl, (alike_change builder.outline ref ({ · with label })).extends, rfl, .inr rfl, Bool.noConfusion⟩
    | none => exact ⟨_, _, rfl, extends_create _, rfl, .inl rfl, fun _ => Nat.le_refl _⟩

theorem lookup_of_filtered {first second : List (String × Ref)} {id : String}
    (filtered : second = first ∨ second = first.filter (·.1 != id)) : (∀ entry ∈ second, entry ∈ first) ∧
      ∀ other, other ≠ id → second.lookup other = first.lookup other := by
  rcases filtered with rfl | rfl
  · exact ⟨fun _ member => member, fun _ _ => rfl⟩
  · exact ⟨fun _ member => (List.mem_filter.mp member).1, fun _ => lookup_filter_ne⟩

theorem Tended.enters_segment (tended : builder.Tended) (depth : Nat) (name segment : String) :
    Enters builder (spaceMark ++ name) .space depth (builder.addSegment depth name segment) ∧
      (builder.addSegment depth name segment).built = builder.built := by
  obtain ⟨ref, added, built, opened, named⟩ := tended.addSegment depth name segment
  obtain ⟨chosen, isReused, obtained, grown, frames, filtered, -⟩ := builder.obtain_choice (spaceMark ++ name) (labelOf .space segment)
  rw [addSegment_eq obtained] at added built opened named ⊢
  obtain ⟨fewer, previous⟩ := lookup_of_filtered filtered
  let update : Item → Item := ({ · with sortText := some (spaceMark ++ name), canResolve := false })
  have alike : Alike chosen.outline (chosen.outline.change (builder.choice (spaceMark ++ name)) update) := alike_change ..
  have here : ref = builder.choice (spaceMark ++ name) := by
    rw [frames_push] at opened
    exact (Option.some.inj (congrArg Frame.ref (List.cons.inj opened).1)).symm
  subst here
  refine ⟨⟨added.tended, added.retagged.weaken fun _ => False.elim, ?_, named, ?_, ?_, nofun, ?_, fewer, previous⟩, built⟩
  · exact (added.tended.frames _ List.mem_cons_self).1 _ rfl
  · rw [frames_push]
    exact congrArg _ (collect_congr frames _)
  · exact fun place => .inl ((alike.children place).trans (grown.children place))
  · exact fun ref => .inl ((alike.parents ref).trans (grown.parents ref))

theorem Tended.enters_item (tended : builder.Tended) {definition : Definition} (closed : builder.ascend definition.depth = builder)
    (index : Nat) : Enters builder definition.id definition.kind definition.depth (builder.addItem definition index) ∧
      (builder.addItem definition index).built = builder.built ++ [(builder.choice definition.id, definition)] := by
  obtain ⟨ref, added, built, opened, valid, named, -⟩ := tended.addItem definition index
  obtain ⟨chosen, isReused, obtained, grown, frames, filtered, fresh⟩ :=
    builder.obtain_choice definition.id (labelOf definition.kind definition.label)
  obtain ⟨-, -, -, exist, -⟩ := obtained ▸ tended.obtain definition.id (labelOf definition.kind definition.label)
  have again : (builder.ascend definition.depth).obtain definition.id (labelOf definition.kind definition.label) =
      (chosen, builder.choice definition.id, isReused) := by rw [closed, obtained]
  rw [addItem_eq again] at added built opened valid named ⊢
  obtain ⟨fewer, previous⟩ := lookup_of_filtered filtered
  have here : ref = builder.choice definition.id := by
    rw [frames_push] at opened
    exact (Option.some.inj (congrArg Frame.ref (List.cons.inj opened).1)).symm
  subst here
  let ref := builder.choice definition.id
  have within : chosen.outline.Inside (some ref) := inside_below exist
  let emptied := if isReused && decide (definition.kind ≠ .method) then chosen.outline.replace (some ref) [] else chosen.outline
  have alike : Alike emptied (furnish chosen.outline ref isReused definition index (chosen.tagsOf definition)) := alike_change ..
  have children : ∀ place, emptied.childrenOf place = builder.outline.childrenOf place ∨
      place = some ref ∧ emptied.childrenOf place = [] := by
    intro place
    rw [← grown.children]
    by_cases clears : isReused && decide (definition.kind ≠ .method)
    · simp only [emptied, if_pos clears, childrenOf_replace_nil within]
      split
      next here => exact .inr ⟨here, rfl⟩
      next => exact .inl rfl
    · simp only [emptied, if_neg clears, true_or]
  have parents : ∀ other, emptied.parentOf other = builder.outline.parentOf other ∨
      builder.outline.parentOf other = some ref ∧ emptied.childrenOf (some ref) = [] ∧ emptied.parentOf other = none := by
    intro other
    rw [← grown.parents]
    by_cases clears : isReused && decide (definition.kind ≠ .method)
    · simp only [emptied, if_pos clears, parentOf_replace_nil, childrenOf_replace_nil within]
      split
      next here => exact .inr ⟨here.2, rfl, rfl⟩
      next => exact .inl rfl
    · simp only [emptied, if_neg clears, true_or]
  refine ⟨⟨added.tended, added.retagged.weaken fun _ _ => trivial, valid, named, ?_, ?_, ?_, ?_, fewer, previous⟩, built⟩
  · rw [frames_push]
    exact congrArg _ (collect_congr frames _)
  · exact fun place => (children place).imp ((alike.children place).trans ·) (And.imp_right ((alike.children place).trans ·))
  · intro _ other
    refine (alike.children _).trans ?_
    cases isReused with
    | true => simp [emptied, other, ref, childrenOf_replace_nil within]
    | false => simp [emptied, grown.children, childrenOf_eq_nil (fresh rfl)]
  · intro other
    refine (parents other).imp ((alike.parents other).trans ·) fun ⟨below, empty, free⟩ => ⟨below, ?_, ?_⟩
    · exact (alike.children _).trans empty
    · exact (alike.parents other).trans free

end Builder

end TestScout.Outline
