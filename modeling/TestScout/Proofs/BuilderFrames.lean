import TestScout.Outline.Builder
import TestScout.Proofs.OutlineForest

/-! The frames of a builder. What an open frame has collected counts as shown in its place, as it will be when
the frame is closed. So the outline that is shown does not change when frames are closed, and it changes in one
place when an item is taken up. -/

namespace TestScout.Outline
open Test

/-- The items that a file had before go by their own ids, and none of them is alive. Namespaces among them
have nothing below them. -/
structure Spare (outline : Outline) (previous : List (String × Ref)) (live : Ref → Prop) : Prop where
  keyed : ∀ entry ∈ previous, outline.idOf entry.2 = entry.1
  valid : ∀ entry ∈ previous, entry.2 < outline.nodes.size
  dead : ∀ entry ∈ previous, ¬live entry.2
  bare : ∀ entry ∈ previous, ∀ name, entry.1 = spaceMark ++ name → outline.childrenOf (some entry.2) = []

namespace Builder

/-- Each open frame but the last one belongs to the item that the frame around it has taken up last. -/
def Linked : List Frame → Prop
  | [] => True
  | [frame] => frame.ref = none
  | inner :: outer :: rest =>
    (∃ ref before, inner.ref = some ref ∧ outer.children = before ++ [ref]) ∧ Linked (outer :: rest)

/-- What open frames have collected for a place. -/
def pending : List Frame → Place → List Ref
  | [], _ => []
  | frame :: rest, place => if frame.ref = place then frame.children else pending rest place

/-- An item is shown where it is and where it will be when the open frames are closed. -/
def Shows (builder : Builder) (live : Ref → Prop) (place : Place) (ref : Ref) : Prop :=
  Open live place ∧
    (LastOf builder.outline.idOf (pending builder.frames place) ref ∨ ref ∈ builder.outline.childrenOf place)

structure Sound (builder : Builder) (live : Ref → Prop) : Prop where
  forested : Forested builder.outline live
  spare : Spare builder.outline builder.previous live
  linked : Linked builder.frames
  reachable : ∀ frame ∈ builder.frames, Open live frame.ref ∧ frame.kind ≠ some .method
  apart : builder.frames.Pairwise fun frame other =>
    frame.ref ≠ other.ref ∧ ∀ ref ∈ frame.children, ref ∉ other.children
  /-- What a frame has collected is at most in the place of the frame, where nothing else has its id. -/
  waiting : ∀ frame ∈ builder.frames, ∀ ref ∈ frame.children, live ref ∧
    (∀ place, Open live place → ref ∈ builder.outline.childrenOf place → place = frame.ref) ∧
    ∀ other ∈ builder.outline.childrenOf frame.ref, builder.outline.idOf other = builder.outline.idOf ref → other = ref

/-- Builders that show the same and have the same left. -/
structure Same (live : Ref → Prop) (first second : Builder) : Prop where
  size : second.outline.nodes.size = first.outline.nodes.size
  ids : ∀ ref, second.outline.idOf ref = first.outline.idOf ref
  shows : ∀ place ref, second.Shows live place ref ↔ first.Shows live place ref
  previous : second.previous = first.previous
  built : second.built = first.built

variable {builder : Builder} {live : Ref → Prop} {frame : Frame} {rest : List Frame} {place : Place} {ref : Ref}

theorem pending_eq_nil {frames : List Frame} (closed : ∀ frame ∈ frames, frame.ref ≠ place) : pending frames place = [] := by
  induction frames with
  | nil => rfl
  | cons frame rest ih =>
    rw [pending, if_neg (closed frame List.mem_cons_self)]
    exact ih fun other member => closed other (List.mem_cons_of_mem _ member)

theorem mem_pending {frames : List Frame} (member : ref ∈ pending frames place) :
    ∃ frame ∈ frames, frame.ref = place ∧ ref ∈ frame.children := by
  induction frames with
  | nil => cases member
  | cons frame rest ih =>
    rw [pending] at member
    split at member
    next same => exact ⟨frame, List.mem_cons_self, same, member⟩
    next =>
      obtain ⟨other, inside, found⟩ := ih member
      exact ⟨other, List.mem_cons_of_mem _ inside, found⟩

theorem Linked.tail (linked : Linked (frame :: rest)) : Linked rest := by
  cases rest with
  | nil => trivial
  | cons => exact linked.2

/-- The item of a frame has been collected by a frame around it. -/
theorem Linked.collected {frames : List Frame} (linked : Linked (frame :: frames)) {inner : Frame}
    (member : inner ∈ frame :: frames) (below : inner.ref = some ref) : ∃ outer ∈ frames, ref ∈ outer.children := by
  induction frames generalizing frame with
  | nil =>
    obtain rfl := List.mem_singleton.mp member
    rw [show inner.ref = none from linked] at below
    cases below
  | cons outer rest ih =>
    obtain ⟨⟨last, before, same, children⟩, linked⟩ := linked
    rcases List.mem_cons.mp member with rfl | later
    · obtain rfl := Option.some_inj.mp (same.symm.trans below)
      exact ⟨outer, List.mem_cons_self, by simp [children]⟩
    · obtain ⟨found, inside, collected⟩ := ih linked later
      exact ⟨found, List.mem_cons_of_mem _ inside, collected⟩

theorem ascend_of_nil {depth : Nat} (opened : builder.frames = []) : builder.ascend depth = builder := by
  simp only [Builder.ascend, opened, closeFrames]
  rw [← opened]

theorem ascend_of_lt {depth : Nat} (opened : builder.frames = frame :: rest) (shallow : frame.depth < depth) :
    builder.ascend depth = builder := by
  simp only [Builder.ascend, opened, closeFrames, if_neg (Nat.not_le.mpr shallow)]
  rw [← opened]

theorem ascend_of_le {depth : Nat} (opened : builder.frames = frame :: rest) (deep : depth ≤ frame.depth) :
    builder.ascend depth =
      ({ builder with frames := rest, outline := flush builder.outline frame } : Builder).ascend depth := by
  simp only [Builder.ascend, opened, closeFrames, if_pos deep]

theorem Same.refl (live : Ref → Prop) (builder : Builder) : Same live builder builder :=
  ⟨rfl, fun _ => rfl, fun _ _ => Iff.rfl, rfl, rfl⟩

theorem Same.trans {first second third : Builder} (one : Same live first second) (two : Same live second third) :
    Same live first third where
  size := two.size.trans one.size
  ids ref := (two.ids ref).trans (one.ids ref)
  shows place ref := (two.shows place ref).trans (one.shows place ref)
  previous := two.previous.trans one.previous
  built := two.built.trans one.built

namespace Sound

theorem alive_of_shows (sound : Sound builder live) (shown : builder.Shows live place ref) : live ref := by
  obtain ⟨reachable, last | member⟩ := shown
  · obtain ⟨frame, inside, -, collected⟩ := mem_pending last.mem
    exact (sound.waiting frame inside ref collected).1
  · exact (sound.forested.inside place ref reachable member).1

theorem same_place (sound : Sound builder live) {other : Frame} (inside : frame ∈ builder.frames)
    (listed : other ∈ builder.frames) (collected : ref ∈ frame.children) (twice : ref ∈ other.children) :
    frame.ref = other.ref := by
  have all := List.Pairwise.forall_of_forall_of_flip
    (R := fun frame other : Frame => ∀ ref ∈ frame.children, ref ∈ other.children → frame.ref = other.ref)
    (fun _ _ _ _ _ => rfl) (sound.apart.imp fun apart ref member found => absurd found (apart.2 ref member))
    (sound.apart.imp fun apart ref found member => absurd found (apart.2 ref member))
  exact all inside listed ref collected twice

theorem place_unique (sound : Sound builder live) {other : Place} (shown : builder.Shows live place ref)
    (again : builder.Shows live other ref) : place = other := by
  obtain ⟨reachable, found⟩ := shown
  obtain ⟨open_other, twice⟩ := again
  rcases found with last | member
  · obtain ⟨frame, inside, rfl, collected⟩ := mem_pending last.mem
    rcases twice with later | found
    · obtain ⟨second, listed, rfl, twice⟩ := mem_pending later.mem
      exact sound.same_place inside listed collected twice
    · exact ((sound.waiting frame inside ref collected).2.1 other open_other found).symm
  · rcases twice with later | found
    · obtain ⟨frame, inside, rfl, collected⟩ := mem_pending later.mem
      exact (sound.waiting frame inside ref collected).2.1 place reachable member
    · exact sound.forested.place_unique reachable open_other member found

/-! ## Closing frames -/

theorem close (sound : Sound builder live) (opened : builder.frames = frame :: rest) :
    let closed : Builder := { builder with frames := rest, outline := flush builder.outline frame }
    Sound closed live ∧ Same live builder closed ∧
      ∀ elsewhere, elsewhere ≠ frame.ref → closed.outline.childrenOf elsewhere = builder.outline.childrenOf elsewhere := by
  have inside : frame ∈ builder.frames := opened ▸ List.mem_cons_self
  have waiting := sound.waiting frame inside
  obtain ⟨reachable, plain⟩ := sound.reachable frame inside
  obtain ⟨size, ids, others, members, forested⟩ := sound.forested.addAll reachable fun ref member =>
    ⟨(waiting ref member).1, (waiting ref member).2.1⟩
  have flushed : flush builder.outline frame = frame.children.foldl (·.add frame.ref ·) builder.outline := if_neg plain
  have apart := sound.apart
  have linked := sound.linked
  rw [opened] at apart linked
  obtain ⟨away, apart⟩ := List.pairwise_cons.mp apart
  rw [flushed]
  -- From here on only what the place of the frame shows then matters.
  generalize frame.children.foldl (·.add frame.ref ·) builder.outline = outline at *
  have same : outline.idOf = builder.outline.idOf := funext ids
  have kept : ∀ other ∈ rest, other ∈ builder.frames := fun other member => opened ▸ List.mem_cons_of_mem _ member
  have shown : ∀ ref, ref ∈ outline.childrenOf frame.ref ↔
      LastOf builder.outline.idOf frame.children ref ∨ ref ∈ builder.outline.childrenOf frame.ref := by
    intro ref
    rw [members]
    constructor
    · exact Or.imp_right fun old => old.1
    · rintro (last | member)
      · exact .inl last
      · by_cases covered : ∃ other ∈ frame.children, builder.outline.idOf other = builder.outline.idOf ref
        · obtain ⟨last, placed, equal⟩ := exists_lastOf covered
          exact .inl ((waiting last placed.mem).2.2 ref member equal.symm ▸ placed)
        · exact .inr ⟨member, fun other collected equal => covered ⟨other, collected, equal⟩⟩
  refine ⟨⟨forested, ?_, linked.tail, fun other member => sound.reachable other (kept other member), apart, ?_⟩,
    ⟨size, ids, fun place ref => ?_, rfl, rfl⟩, others⟩
  · refine ⟨fun entry member => (ids _).trans (sound.spare.keyed entry member),
      fun entry member => size ▸ sound.spare.valid entry member, sound.spare.dead, fun entry member name marked => ?_⟩
    rw [others, sound.spare.bare entry member name marked]
    exact fun same => sound.spare.dead entry member (reachable _ same.symm)
  · intro other member ref collected
    obtain ⟨differs, disjoint⟩ := away other member
    obtain ⟨living, only, alone⟩ := sound.waiting other (kept other member) ref collected
    refine ⟨living, fun place open_place found => ?_, ?_⟩
    · by_cases here : place = frame.ref
      · subst here
        rcases (shown ref).mp found with last | old
        · exact absurd collected (disjoint ref last.mem)
        · exact only frame.ref open_place old
      · rw [others place here] at found
        exact only place open_place found
    · rw [others _ (Ne.symm differs), same]
      exact alone
  · refine and_congr_right fun open_place => ?_
    rw [opened, pending, same]
    split
    next here =>
      subst here
      rw [pending_eq_nil fun other member => Ne.symm (away other member).1, shown]
      simp [not_lastOf_nil]
    next elsewhere => rw [others place (Ne.symm elsewhere)]

/-- Nothing moves in what is shown when frames are closed, and nothing at the top as long as its frame is open. -/
theorem ascend (sound : Sound builder live) (depth : Nat) :
    Sound (builder.ascend depth) live ∧ Same live builder (builder.ascend depth) ∧
      (builder.ascend depth).frames = builder.frames.dropWhile (depth ≤ ·.depth) ∧
      ((∀ frame ∈ builder.frames, frame.ref = none → frame.depth < depth) →
        (builder.ascend depth).outline.top = builder.outline.top) := by
  generalize opened : builder.frames = frames
  induction frames generalizing builder with
  | nil =>
    rw [ascend_of_nil opened]
    exact ⟨sound, Same.refl live builder, opened, fun _ => rfl⟩
  | cons frame rest ih =>
    by_cases deep : depth ≤ frame.depth
    · obtain ⟨closed, same, others⟩ := sound.close opened
      obtain ⟨result, still, frames, top⟩ := ih closed rfl
      rw [ascend_of_le opened deep]
      refine ⟨result, same.trans still, by rw [frames, List.dropWhile_cons_of_pos (by simpa using deep)], ?_⟩
      intro shallow
      have below : none ≠ frame.ref := fun root =>
        Nat.lt_irrefl _ (Nat.lt_of_lt_of_le (shallow frame List.mem_cons_self root.symm) deep)
      rw [top fun other member => shallow other (List.mem_cons_of_mem _ member)]
      exact others none below
    · rw [ascend_of_lt opened (Nat.lt_of_not_le deep)]
      refine ⟨sound, Same.refl live builder, ?_, fun _ => rfl⟩
      rw [opened, List.dropWhile_cons_of_neg (by simpa using deep)]

/-! ## Choosing an item -/

theorem extend {second : Builder} (sound : Sound builder live) (extension : Extends builder.outline second.outline)
    (frames : second.frames = builder.frames) (fewer : ∀ entry ∈ second.previous, entry ∈ builder.previous) :
    Sound second live := by
  have ids : ∀ ref, live ref → second.outline.idOf ref = builder.outline.idOf ref := fun ref living =>
    extension.ids ref (sound.forested.valid ref living)
  refine ⟨sound.forested.extend extension, ?_, frames ▸ sound.linked, frames ▸ sound.reachable, frames ▸ sound.apart, ?_⟩
  · refine ⟨fun entry member => ?_, fun entry member => ?_, fun entry member => sound.spare.dead entry (fewer entry member),
      fun entry member name marked => ?_⟩
    · rw [extension.ids _ (sound.spare.valid entry (fewer entry member)), sound.spare.keyed entry (fewer entry member)]
    · exact Nat.lt_of_lt_of_le (sound.spare.valid entry (fewer entry member)) extension.size
    · rw [extension.children, sound.spare.bare entry (fewer entry member) name marked]
  · intro frame member ref collected
    rw [frames] at member
    obtain ⟨living, only, alone⟩ := sound.waiting frame member ref collected
    refine ⟨living, fun place reachable found => ?_, fun other found same => ?_⟩
    · rw [extension.children] at found
      exact only place reachable found
    · rw [extension.children] at found
      have alive := (sound.forested.inside _ other (sound.reachable frame member).1 found).1
      rw [ids other alive, ids ref living] at same
      exact alone other found same

theorem shows_extend {second : Builder} (sound : Sound builder live) (extension : Extends builder.outline second.outline)
    (frames : second.frames = builder.frames) (place : Place) (ref : Ref) :
    second.Shows live place ref ↔ builder.Shows live place ref := by
  refine and_congr_right fun reachable => ?_
  rw [frames, extension.children, lastOf_congr fun ref collected => ?_]
  obtain ⟨frame, inside, -, member⟩ := mem_pending collected
  exact extension.ids ref (sound.forested.valid ref (sound.waiting frame inside ref member).1)

end Sound

/-- An item that is about to be taken up by the innermost frame: it is in the place of the frame, or not alive. -/
structure Chosen (builder : Builder) (live : Ref → Prop) (frame : Frame) (rest : List Frame) (ref : Ref) : Prop where
  sound : Sound builder live
  opened : builder.frames = frame :: rest
  valid : ref < builder.outline.nodes.size
  spared : ∀ entry ∈ builder.previous, entry.2 ≠ ref
  alone : ∀ other ∈ builder.outline.childrenOf frame.ref,
    builder.outline.idOf other = builder.outline.idOf ref → other = ref
  placed : live ref → ref ∈ builder.outline.childrenOf frame.ref

/-- A builder has found or made an item with an id. -/
structure Obtained (builder : Builder) (live : Ref → Prop) (frame : Frame) (rest : List Frame) (id : String)
    (result : Builder × Ref × Bool) : Prop where
  chosen : Chosen result.1 live frame rest result.2.1
  extension : Extends builder.outline result.1.outline
  built : result.1.built = builder.built
  named : result.1.outline.idOf result.2.1 = id
  fewer : ∀ entry ∈ result.1.previous, entry ∈ builder.previous
  bare : result.2.2 = false → result.1.outline.childrenOf (some result.2.1) = []
  spaces : ∀ name, id = spaceMark ++ name → live result.2.1 ∨ result.1.outline.childrenOf (some result.2.1) = []

namespace Sound

section

variable (sound : Sound builder live) (opened : builder.frames = frame :: rest) {id : String} (label : String)
include sound opened

/-- An item that is in the place of the frame already gets the label. -/
theorem obtained_child {known : Ref} (found : builder.outline.child? frame.ref id = some known) :
    Obtained builder live frame rest id
      ({ builder with outline := builder.outline.change known ({ · with label }) }, known, true) := by
  have reachable := (sound.reachable frame (opened ▸ List.mem_cons_self)).1
  obtain ⟨member, same⟩ := mem_of_child? found
  have living := (sound.forested.inside frame.ref known reachable member).1
  have extension := (alike_change builder.outline known ({ · with label })).extends
  have ids := (alike_change builder.outline known ({ · with label })).ids
  refine ⟨⟨sound.extend extension rfl fun _ member => member, opened, ?_, ?_, ?_, ?_⟩, extension, rfl, ?_,
    fun _ member => member, nofun, fun _ _ => .inl living⟩
  · exact Nat.lt_of_lt_of_le (sound.forested.valid known living) extension.size
  · exact fun entry listed equal => sound.spare.dead entry listed (equal ▸ living)
  · intro other listed equal
    rw [extension.children] at listed
    rw [ids, ids] at equal
    exact eq_of_idOf_eq (sound.forested.distinct frame.ref reachable) listed member equal
  · intro _
    rw [extension.children]
    exact member
  · exact (ids known).trans same

variable (absent : ∀ other ∈ builder.outline.childrenOf frame.ref, builder.outline.idOf other ≠ id)
include absent

/-- An item that the file had before is taken from what is left of it. -/
theorem obtained_former {former : Ref} (listed : (id, former) ∈ builder.previous) :
    Obtained builder live frame rest id ({ builder with
      outline := builder.outline.change former ({ · with label })
      previous := builder.previous.filter (·.1 != id) }, former, true) := by
  have same : builder.outline.idOf former = id := sound.spare.keyed _ listed
  have extension := (alike_change builder.outline former ({ · with label })).extends
  have ids := (alike_change builder.outline former ({ · with label })).ids
  have fewer : ∀ entry ∈ builder.previous.filter (·.1 != id), entry ∈ builder.previous :=
    fun entry member => (List.mem_filter.mp member).1
  refine ⟨⟨sound.extend extension rfl fewer, opened, ?_, ?_, ?_, ?_⟩, extension, rfl, ?_, fewer, nofun, ?_⟩
  · exact Nat.lt_of_lt_of_le (sound.spare.valid _ listed) extension.size
  · intro entry member equal
    obtain ⟨old, differs⟩ := List.mem_filter.mp member
    have keyed := sound.spare.keyed entry old
    rw [equal, same] at keyed
    simp [keyed] at differs
  · intro other member equal
    rw [extension.children] at member
    rw [ids, ids, same] at equal
    exact absurd equal (absent other member)
  · exact fun living => absurd living (sound.spare.dead _ listed)
  · exact (ids former).trans same
  · intro name marked
    refine .inr ?_
    rw [extension.children]
    exact sound.spare.bare _ listed name marked

theorem obtained_new : Obtained builder live frame rest id
    ({ builder with outline := (builder.outline.create { id, label, uri := builder.uri }).1 },
      (builder.outline.create { id, label, uri := builder.uri }).2, false) := by
  have extension : Extends builder.outline (builder.outline.create { id, label, uri := builder.uri }).1 := extends_create _
  have own : (builder.outline.create { id, label, uri := builder.uri }).1.idOf builder.outline.nodes.size = id := by
    rw [idOf_create, if_pos rfl]
  have bare : (builder.outline.create { id, label, uri := builder.uri }).1.childrenOf
      (some builder.outline.nodes.size) = [] := by
    rw [childrenOf_create, childrenOf_eq_nil (Nat.le_refl _)]
  have reachable := (sound.reachable frame (opened ▸ List.mem_cons_self)).1
  refine ⟨⟨sound.extend extension rfl fun _ member => member, opened, ?_, ?_, ?_, ?_⟩, extension, rfl, own,
    fun _ member => member, fun _ => bare, fun _ _ => .inr bare⟩
  · show builder.outline.nodes.size < _
    simp [size_create]
  · exact fun entry member => Nat.ne_of_lt (sound.spare.valid entry member)
  · intro other member equal
    rw [extension.children] at member
    have alive := (sound.forested.inside frame.ref other reachable member).1
    rw [extension.ids other (sound.forested.valid other alive)] at equal
    exact absurd (equal.trans own) (absent other member)
  · exact fun living => absurd (sound.forested.valid _ living) (Nat.lt_irrefl _)

end

theorem obtain (sound : Sound builder live) (opened : builder.frames = frame :: rest) (id label : String) :
    Obtained builder live frame rest id (builder.obtain id label) := by
  have place : builder.parent = frame.ref := by simp [Builder.parent, opened]
  unfold Builder.obtain
  rw [place]
  split
  next known found => exact sound.obtained_child opened label found
  next none =>
    have absent := child?_eq_none_iff.mp none
    split
    next former known =>
      have listed : (id, former) ∈ builder.previous := by
        obtain ⟨front, back, split, -⟩ := List.lookup_eq_some_iff.mp known
        simp [split]
      exact sound.obtained_former opened label absent listed
    next => exact sound.obtained_new opened label absent

theorem clear (sound : Sound builder live) (valid : ref < builder.outline.nodes.size) :
    Sound { builder with outline := builder.outline.replace (some ref) [] } live := by
  have inside : builder.outline.Inside (some ref) := fun other same => Option.some_inj.mp same ▸ valid
  have fewer : ∀ place other, other ∈ (builder.outline.replace (some ref) []).childrenOf place →
      other ∈ builder.outline.childrenOf place := by
    intro place other member
    rw [childrenOf_replace_nil inside] at member
    split at member
    · cases member
    · exact member
  refine ⟨sound.forested.clear inside, ?_, sound.linked, sound.reachable, sound.apart, ?_⟩
  · refine ⟨fun entry member => (idOf_replace_nil _).trans (sound.spare.keyed entry member),
      fun entry member => size_replace_nil.symm ▸ sound.spare.valid entry member, sound.spare.dead,
      fun entry member name marked => ?_⟩
    rw [childrenOf_replace_nil inside, sound.spare.bare entry member name marked, ite_self]
  · intro frame member ref collected
    obtain ⟨living, only, alone⟩ := sound.waiting frame member ref collected
    refine ⟨living, fun place reachable found => only place reachable (fewer place ref found), fun other found same => ?_⟩
    rw [idOf_replace_nil, idOf_replace_nil] at same
    exact alone other (fewer _ other found) same

end Sound

namespace Chosen

theorem unframed (chosen : Chosen builder live frame rest ref) {other : Frame} (member : other ∈ builder.frames) :
    other.ref ≠ some ref := by
  intro below
  have living : live ref := (chosen.sound.reachable other member).1 ref below
  have linked := chosen.sound.linked
  have apart := chosen.sound.apart
  rw [chosen.opened] at member linked apart
  obtain ⟨outer, inside, collected⟩ := linked.collected member below
  have listed : outer ∈ builder.frames := chosen.opened ▸ List.mem_cons_of_mem _ inside
  have reachable := (chosen.sound.reachable frame (chosen.opened ▸ List.mem_cons_self)).1
  have same := (chosen.sound.waiting outer listed ref collected).2.1 frame.ref reachable (chosen.placed living)
  exact ((List.pairwise_cons.mp apart).1 outer inside).1 same

theorem clear (chosen : Chosen builder live frame rest ref) :
    let cleared : Builder := { builder with outline := builder.outline.replace (some ref) [] }
    Chosen cleared live frame rest ref ∧ cleared.outline.childrenOf (some ref) = [] ∧
      ∀ place other, cleared.Shows live place other ↔ builder.Shows live place other ∧ place ≠ some ref := by
  have inside : builder.outline.Inside (some ref) := fun other same => Option.some_inj.mp same ▸ chosen.valid
  have elsewhere : frame.ref ≠ some ref := chosen.unframed (chosen.opened ▸ List.mem_cons_self)
  have kept : (builder.outline.replace (some ref) []).childrenOf frame.ref = builder.outline.childrenOf frame.ref := by
    rw [childrenOf_replace_nil inside, if_neg elsewhere]
  have ids : (builder.outline.replace (some ref) []).idOf = builder.outline.idOf := funext idOf_replace_nil
  refine ⟨⟨chosen.sound.clear chosen.valid, chosen.opened, ?_, chosen.spared, ?_, ?_⟩, ?_, fun place other => ?_⟩
  · exact size_replace_nil.symm ▸ chosen.valid
  · show ∀ other ∈ (builder.outline.replace (some ref) []).childrenOf frame.ref, _
    rw [kept, ids]
    exact chosen.alone
  · show live ref → ref ∈ (builder.outline.replace (some ref) []).childrenOf frame.ref
    rw [kept]
    exact chosen.placed
  · rw [childrenOf_replace_nil inside, if_pos rfl]
  · simp only [Shows, ids, childrenOf_replace_nil inside]
    by_cases here : place = some ref
    · rw [pending_eq_nil fun other member => here ▸ chosen.unframed member, if_pos here]
      simp [not_lastOf_nil, here]
    · simp [here]

/-- An item that is alive is in the place of the frame only, and no frame around it has collected it. -/
theorem outside (chosen : Chosen builder live frame rest ref) :
    (∀ place, Open live place → ref ∈ builder.outline.childrenOf place → place = frame.ref) ∧
      ∀ other ∈ rest, ref ∉ other.children := by
  have reachable := (chosen.sound.reachable frame (chosen.opened ▸ List.mem_cons_self)).1
  have apart := chosen.sound.apart
  rw [chosen.opened] at apart
  constructor
  · intro place open_place member
    have living := (chosen.sound.forested.inside place ref open_place member).1
    exact chosen.sound.forested.place_unique open_place reachable member (chosen.placed living)
  · intro other member collected
    obtain ⟨living, only, -⟩ := chosen.sound.waiting other (chosen.opened ▸ List.mem_cons_of_mem _ member) ref collected
    exact ((List.pairwise_cons.mp apart).1 other member).1 (only frame.ref reachable (chosen.placed living))

section

variable (bare : live ref ∨ builder.outline.childrenOf (some ref) = [])
include bare

/-- What is below an item that comes alive now does not matter, for there is nothing. -/
theorem open_taken (wider : Open (fun other => other = ref ∨ live other) place) :
    place = some ref ∧ builder.outline.childrenOf place = [] ∨ Open live place := by
  cases place with
  | none => exact .inr Open.top
  | some other =>
    rcases wider other rfl with rfl | living
    · exact bare.symm.imp (fun bare => ⟨rfl, bare⟩) Open.below
    · exact .inr (Open.below living)

theorem place_taken {item : Ref} {home : Place}
    (only : ∀ place, Open live place → item ∈ builder.outline.childrenOf place → place = home)
    (wider : Open (fun other => other = ref ∨ live other) place) (found : item ∈ builder.outline.childrenOf place) :
    place = home := by
  cases open_taken bare wider with
  | inl new =>
    rw [new.2] at found
    cases found
  | inr old => exact only place old found

variable (chosen : Chosen builder live frame rest ref)
include chosen

theorem forested_taken : Forested builder.outline fun other => other = ref ∨ live other := by
  cases bare with
  | inl living =>
    have same : (fun other => other = ref ∨ live other) = live := by
      funext other
      exact propext ⟨fun either => either.elim (· ▸ living) id, .inr⟩
    rw [same]
    exact chosen.sound.forested
  | inr bare => exact chosen.sound.forested.adopt chosen.valid bare

theorem sound_taken : Sound { builder with frames := { frame with children := frame.children ++ [ref] } :: rest }
    fun other => other = ref ∨ live other := by
  obtain ⟨only, uncollected⟩ := chosen.outside
  have inside : ∀ other, other ∈ frame :: rest → other ∈ builder.frames := fun other member => chosen.opened ▸ member
  have apart := chosen.sound.apart
  have linked := chosen.sound.linked
  rw [chosen.opened] at apart linked
  obtain ⟨away, apart⟩ := List.pairwise_cons.mp apart
  have reachable : ∀ other ∈ frame :: rest, Open (fun item => item = ref ∨ live item) other.ref ∧ other.kind ≠ some .method := by
    intro other member
    obtain ⟨open_place, nested⟩ := chosen.sound.reachable other (inside other member)
    exact ⟨open_place.mono fun _ => .inr, nested⟩
  -- What has been collected before is as available as it was.
  have collected : ∀ other ∈ frame :: rest, ∀ item ∈ other.children, (item = ref ∨ live item) ∧
      (∀ place, Open (fun other => other = ref ∨ live other) place → item ∈ builder.outline.childrenOf place →
        place = other.ref) ∧ ∀ found ∈ builder.outline.childrenOf other.ref,
          builder.outline.idOf found = builder.outline.idOf item → found = item := by
    intro other member item waits
    obtain ⟨living, home, alone⟩ := chosen.sound.waiting other (inside other member) item waits
    exact ⟨.inr living, fun place => place_taken bare home, alone⟩
  have forested := forested_taken bare chosen
  refine ⟨forested, ?_, ?_, ?_, ?_, ?_⟩
  · refine ⟨chosen.sound.spare.keyed, chosen.sound.spare.valid, fun entry member => ?_, chosen.sound.spare.bare⟩
    rintro (same | living)
    · exact chosen.spared entry member same
    · exact chosen.sound.spare.dead entry member living
  · cases rest with
    | nil => exact linked
    | cons outer rest => exact linked
  · intro other member
    rcases List.mem_cons.mp member with rfl | later
    · exact reachable frame List.mem_cons_self
    · exact reachable other (List.mem_cons_of_mem _ later)
  · refine List.pairwise_cons.mpr ⟨fun other member => ⟨(away other member).1, fun item waits => ?_⟩, apart⟩
    rcases List.mem_append.mp waits with old | new
    · exact (away other member).2 item old
    · exact List.mem_singleton.mp new ▸ uncollected other member
  · intro other member item waits
    rcases List.mem_cons.mp member with rfl | later
    · rcases List.mem_append.mp waits with old | new
      · exact collected frame List.mem_cons_self item old
      · obtain rfl := List.mem_singleton.mp new
        exact ⟨.inl rfl, fun place => place_taken bare only, chosen.alone⟩
    · exact collected other (List.mem_cons_of_mem _ later) item waits

theorem shows_taken (place : Place) (other : Ref) :
    Shows { builder with frames := { frame with children := frame.children ++ [ref] } :: rest }
        (fun other => other = ref ∨ live other) place other ↔
      place = frame.ref ∧ other = ref ∨
        builder.Shows live place other ∧ (place = frame.ref → builder.outline.idOf other ≠ builder.outline.idOf ref) := by
  have inside : ∀ other, other ∈ frame :: rest → other ∈ builder.frames := fun other member => chosen.opened ▸ member
  have reachable := (chosen.sound.reachable frame (inside frame List.mem_cons_self)).1
  have more : ∀ other, live other → other = ref ∨ live other := fun _ => .inr
  -- In the place of the frame the item covers what had its id; elsewhere nothing changes.
  simp only [Shows, chosen.opened, pending]
  by_cases here : frame.ref = place
  · subst here
    rw [if_pos rfl, if_pos rfl, lastOf_append_singleton]
    constructor
    · rintro ⟨-, (same | ⟨last, differs⟩) | old⟩
      · exact .inl ⟨rfl, same⟩
      · exact .inr ⟨⟨reachable, .inl last⟩, fun _ => Ne.symm differs⟩
      · by_cases same : builder.outline.idOf other = builder.outline.idOf ref
        · exact .inl ⟨rfl, chosen.alone other old same⟩
        · exact .inr ⟨⟨reachable, .inr old⟩, fun _ => same⟩
    · rintro (⟨-, same⟩ | ⟨⟨-, last | old⟩, differs⟩)
      · exact ⟨reachable.mono more, .inl (.inl same)⟩
      · exact ⟨reachable.mono more, .inl (.inr ⟨last, Ne.symm (differs rfl)⟩)⟩
      · exact ⟨reachable.mono more, .inr old⟩
  · rw [if_neg here, if_neg here]
    constructor
    · rintro ⟨wider, found⟩
      refine .inr ⟨?_, fun same => absurd same.symm here⟩
      rcases open_taken bare wider with ⟨rfl, empty⟩ | open_place
      · rw [empty, pending_eq_nil fun other member => chosen.unframed (inside other (List.mem_cons_of_mem _ member))] at found
        simp [not_lastOf_nil] at found
      · exact ⟨open_place, found⟩
    · rintro (⟨same, -⟩ | ⟨⟨open_place, found⟩, -⟩)
      · exact absurd same.symm here
      · exact ⟨open_place.mono more, found⟩

end

/-- The innermost frame takes the item up, in place of what it shows with this id. -/
theorem take (chosen : Chosen builder live frame rest ref)
    (bare : live ref ∨ builder.outline.childrenOf (some ref) = []) :
    let taken : Builder := { builder with frames := { frame with children := frame.children ++ [ref] } :: rest }
    Sound taken (fun other => other = ref ∨ live other) ∧
      ∀ place other, taken.Shows (fun other => other = ref ∨ live other) place other ↔
        place = frame.ref ∧ other = ref ∨
          builder.Shows live place other ∧ (place = frame.ref → builder.outline.idOf other ≠ builder.outline.idOf ref) :=
  ⟨sound_taken bare chosen, shows_taken bare chosen⟩

theorem enter (chosen : Chosen builder live frame rest ref)
    (bare : live ref ∨ builder.outline.childrenOf (some ref) = []) {kind : DefinitionKind} (nested : kind ≠ .method)
    (depth : Nat) : Sound (builder.push ref kind depth) (fun other => other = ref ∨ live other) ∧
      ∀ place other, (builder.push ref kind depth).Shows (fun other => other = ref ∨ live other) place other ↔
        place = frame.ref ∧ other = ref ∨
          builder.Shows live place other ∧ (place = frame.ref → builder.outline.idOf other ≠ builder.outline.idOf ref) := by
  obtain ⟨taken, shows⟩ := chosen.take bare
  have pushed : builder.push ref kind depth = { builder with
      frames := { ref := some ref, kind := some kind, depth } ::
        { frame with children := frame.children ++ [ref] } :: rest } := by
    simp only [push, chosen.opened]
  rw [pushed]
  generalize outer : ({ frame with children := frame.children ++ [ref] } : Frame) = inner at taken shows ⊢
  have away : ∀ other ∈ inner :: rest, other.ref ≠ some ref := by
    intro other member
    rcases List.mem_cons.mp member with rfl | later
    · subst outer
      show frame.ref ≠ some ref
      exact chosen.unframed (chosen.opened ▸ List.mem_cons_self)
    · exact chosen.unframed (chosen.opened ▸ List.mem_cons_of_mem _ later)
  refine ⟨⟨taken.forested, taken.spare, ⟨⟨ref, frame.children, rfl, outer ▸ rfl⟩, taken.linked⟩, ?_, ?_, ?_⟩, ?_⟩
  · intro other member
    rcases List.mem_cons.mp member with rfl | later
    · exact ⟨Open.below (.inl rfl), fun same => nested (Option.some_inj.mp same)⟩
    · exact taken.reachable other later
  · exact List.pairwise_cons.mpr ⟨fun other member => ⟨Ne.symm (away other member), nofun⟩, taken.apart⟩
  · intro other member item waits
    rcases List.mem_cons.mp member with rfl | later
    · cases waits
    · exact taken.waiting other later item waits
  · intro place other
    rw [← shows place other]
    simp only [Shows]
    refine and_congr_right fun wider => or_congr_left ?_
    rw [pending]
    split
    next here =>
      subst here
      rw [pending_eq_nil away]
    next => exact Iff.rfl

end Chosen
end Builder
end TestScout.Outline
