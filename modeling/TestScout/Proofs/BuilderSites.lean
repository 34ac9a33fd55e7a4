import TestScout.Proofs.BuilderTags
import TestScout.Proofs.DefinitionSites

/-! Where a builder is when it takes in a definition. The frames that are open are the sites that definitions have left
open, so each item comes below the one that its definition belongs to. Whatever every step keeps that a builder takes
where it is, holds when a file has been built. -/

namespace TestScout.Outline
open Test

/-- The site that a frame is open for. -/
def Frame.site (frame : Frame) (outline : Outline) : Site where
  owner := frame.ref.bind fun ref => frame.kind.map (·, outline.idOf ref)
  depth := frame.depth

theorem map_site_bare (frames : List Frame) (outline : Outline) :
    (frames.map Frame.bare).map (·.site outline) = frames.map (·.site outline) := by
  rw [List.map_map]
  rfl

/-- A segment of a namespace is below the one in front of it, if there is one. -/
def Continues (sites : List Site) (name segment : String) : Prop :=
  ownerOf sites = none ∧ name = segment ∨
    ∃ before, ownerOf sites = some (.space, spaceMark ++ before) ∧ name = before ++ "\\" ++ segment

namespace Builder

variable {builder : Builder} {definitions : List Definition} {motive : Builder → Prop}

def sites (builder : Builder) : List Site := builder.frames.map (·.site builder.outline)

theorem Tended.map_site (tended : builder.Tended) {among : String → Prop} {outline : Outline}
    (retagged : Retagged among builder.outline outline) {frames : List Frame} (fewer : ∀ frame ∈ frames, frame ∈ builder.frames) :
    frames.map (·.site outline) = frames.map (·.site builder.outline) := by
  refine List.map_congr_left fun frame member => ?_
  obtain ⟨inside, -⟩ := tended.frames frame (fewer frame member)
  simp only [Frame.site]
  cases place : frame.ref with
  | none => rfl
  | some ref => rw [Option.bind_some, Option.bind_some, retagged.ids ref (inside ref place)]

theorem Tended.sites_ascend (tended : builder.Tended) (depth : Nat) :
    (builder.ascend depth).sites = builder.sites.dropWhile (depth ≤ ·.depth) := by
  obtain ⟨closed, frames⟩ := tended.ascend depth
  have fewer : ∀ frame ∈ (builder.ascend depth).frames, frame ∈ builder.frames := fun frame member =>
    (List.dropWhile_sublist _).subset (frames ▸ member)
  rw [sites, tended.map_site closed.retagged fewer, frames, sites, List.dropWhile_map]
  rfl

theorem Tended.sites_addSegment (tended : builder.Tended) (depth : Nat) (name segment : String) :
    (builder.addSegment depth name segment).sites = ⟨some (.space, spaceMark ++ name), depth⟩ :: builder.sites := by
  obtain ⟨ref, added, -, opened, id⟩ := tended.addSegment depth name segment
  rw [sites, ← map_site_bare, opened, List.map_cons, map_site_bare, tended.map_site added.retagged fun _ member => member]
  simp [Frame.site, id, sites]

theorem Tended.sites_addItem (tended : builder.Tended) (definition : Definition) (index : Nat) :
    (builder.addItem definition index).sites =
      ⟨some (definition.kind, definition.id), definition.depth⟩ :: definition.around builder.sites := by
  obtain ⟨ref, added, -, opened, -, id, -⟩ := tended.addItem definition index
  have fewer : ∀ frame ∈ builder.frames.dropWhile (definition.depth ≤ ·.depth), frame ∈ builder.frames :=
    fun frame member => (List.dropWhile_sublist _).subset member
  rw [sites, ← map_site_bare, opened, List.map_cons, map_bare_dropWhile, map_site_bare, tended.map_site added.retagged fewer,
    Definition.around, sites, List.dropWhile_map]
  simp [Frame.site, Frame.ofItem, id]
  rfl

/-- Whatever frame is not for the top is for an item of some kind. -/
structure Framed (builder : Builder) : Prop extends builder.Tended where
  kinds : ∀ frame ∈ builder.frames, frame.ref.isSome → frame.kind.isSome

theorem Framed.owner (framed : builder.Framed) {frame : Frame} (innermost : builder.frames.head? = some frame) {above : Ref}
    (placed : frame.ref = some above) :
    ∃ kind, frame.kind = some kind ∧ ownerOf builder.sites = some (kind, builder.outline.idOf above) := by
  obtain ⟨kind, known⟩ := Option.isSome_iff_exists.mp
    (framed.kinds frame (List.mem_of_head? innermost) (Option.isSome_of_mem placed))
  refine ⟨kind, known, ?_⟩
  simp [sites, ownerOf, innermost, Frame.site, placed, known]

theorem innermost_of_owner {kind : DefinitionKind} {id : String} (owner : ownerOf builder.sites = some (kind, id)) :
    ∃ frame above, builder.frames.head? = some frame ∧ frame.ref = some above ∧ frame.kind = some kind ∧
      builder.outline.idOf above = id := by
  rw [ownerOf, sites, List.head?_map, Option.bind_map] at owner
  obtain ⟨frame, first, own⟩ := Option.bind_eq_some_iff.mp owner
  obtain ⟨above, placed, same⟩ := Option.bind_eq_some_iff.mp own
  obtain ⟨other, known, equal⟩ := Option.map_eq_some_iff.mp same
  obtain ⟨rfl, rfl⟩ := Prod.mk.inj equal
  exact ⟨frame, above, first, placed, known, rfl⟩

theorem Framed.top_of_owner (framed : builder.Framed) (owner : ownerOf builder.sites = none) :
    ∀ innermost ∈ builder.frames.head?, innermost.ref = none := by
  intro innermost first
  refine Option.eq_none_iff_forall_ne_some.mpr fun above placed => ?_
  obtain ⟨kind, -, inside⟩ := framed.owner first placed
  rw [owner] at inside
  cases inside

/-- A class is at the top or directly below the item of its namespace. -/
theorem Framed.site_of_class (framed : builder.Framed) {definition : Definition} (kind : definition.kind = .classLike)
    (settles : definition.Settles builder.sites) :
    ∃ innermost, builder.frames.head? = some innermost ∧ (innermost.ref = none ∨ ∃ above, innermost.ref = some above ∧
      innermost.kind = some .space ∧ builder.outline.idOf above ∈ spaceIds definition.space) := by
  unfold Definition.Settles at settles
  rw [kind] at settles
  obtain ⟨opened, owner⟩ := settles
  cases last : (spaceIds definition.space).getLast? with
  | none =>
    rw [last] at owner
    have filled : builder.frames ≠ [] := fun none => opened (by rw [sites, none]; rfl)
    obtain ⟨innermost, rest, frames⟩ := List.exists_cons_of_ne_nil filled
    have first : builder.frames.head? = some innermost := by rw [frames]; rfl
    exact ⟨innermost, first, .inl (framed.top_of_owner owner innermost first)⟩
  | some id =>
    rw [last] at owner
    obtain ⟨innermost, above, first, placed, isSpace, rfl⟩ := innermost_of_owner owner
    exact ⟨innermost, first, .inr ⟨above, placed, isSpace, List.mem_of_getLast? last⟩⟩

/-- Frames that are open in the same way or less are framed as well. -/
theorem Framed.fewer (framed : builder.Framed) {after : Builder} (tended : after.Tended)
    (fewer : ∀ frame ∈ after.frames, frame ∈ builder.frames) : after.Framed where
  toTended := tended
  kinds frame member := framed.kinds frame (fewer frame member)

theorem Framed.opened (framed : builder.Framed) {after : Builder} (tended : after.Tended) {first : Frame} (known : first.kind.isSome)
    {others : List Frame} (opened : after.frames.map Frame.bare = first :: others)
    (fewer : ∀ frame ∈ others, frame ∈ builder.frames.map Frame.bare) : after.Framed where
  toTended := tended
  kinds frame member placed := by
    have listed : frame.bare ∈ first :: others := opened ▸ List.mem_map_of_mem member
    rcases List.mem_cons.mp listed with rfl | outer
    · exact known
    · obtain ⟨known, inside, same⟩ := List.mem_map.mp (fewer _ outer)
      have kind : known.bare.kind = frame.bare.kind := congrArg Frame.kind same
      have ref : known.bare.ref = frame.bare.ref := congrArg Frame.ref same
      exact (congrArg Option.isSome kind).symm.trans (framed.kinds known inside ((congrArg Option.isSome ref).trans placed))

theorem Framed.ascend (framed : builder.Framed) (depth : Nat) : (builder.ascend depth).Framed := by
  obtain ⟨closed, frames⟩ := framed.toTended.ascend depth
  exact framed.fewer closed.tended fun frame member => (List.dropWhile_sublist _).subset (frames ▸ member)

theorem Framed.addSegment (framed : builder.Framed) (depth : Nat) (name segment : String) :
    (builder.addSegment depth name segment).Framed := by
  obtain ⟨ref, added, -, opened, -⟩ := framed.toTended.addSegment depth name segment
  exact framed.opened added.tended rfl opened fun _ => id

theorem Framed.addItem (framed : builder.Framed) (definition : Definition) (index : Nat) :
    (builder.addItem definition index).Framed := by
  obtain ⟨ref, added, -, opened, -⟩ := framed.toTended.addItem definition index
  exact framed.opened added.tended rfl opened fun frame member => (List.dropWhile_sublist _).subset member

/-- What every step of a builder keeps while it takes in some definitions. -/
structure Kept (definitions : List Definition) (motive : Builder → Prop) : Prop where
  close : ∀ {builder : Builder} {frame : Frame} {rest : List Frame}, builder.Framed → motive builder →
    builder.frames = frame :: rest → motive { builder with frames := rest, outline := flush builder.outline frame }
  segment : ∀ {builder : Builder} {space : Definition} (depth : Nat) {name : String} (segment : String), builder.Framed →
    motive builder → space ∈ definitions → space.kind = .space → spaceMark ++ name ∈ spaceIds (some space.label) →
    Continues builder.sites name segment → motive (builder.addSegment depth name segment)
  item : ∀ {builder : Builder} {definition : Definition} (index : Nat), builder.Framed → motive builder →
    definition.kind ≠ .space → builder.ascend definition.depth = builder → definition.Settles builder.sites →
    builder.built.map (·.2) ++ [definition] <+: definitions.filter (·.kind ≠ .space) →
    motive (builder.addItem definition index)

theorem Kept.ascend (kept : Kept definitions motive) (framed : builder.Framed) (holds : motive builder) (depth : Nat) :
    motive (builder.ascend depth) := by
  generalize opened : builder.frames = frames
  induction frames generalizing builder with
  | nil => rwa [ascend_of_nil opened]
  | cons frame rest ih =>
    by_cases deep : depth ≤ frame.depth
    · rw [ascend_of_le opened deep]
      refine ih ?_ (kept.close framed holds opened) rfl
      obtain ⟨inside, collected⟩ := framed.frames frame (opened ▸ List.mem_cons_self)
      have moved := moved_flush inside collected
      have flushed := framed.withOutline (moved.valid framed.valid) moved.retagged
      have outer : ∀ other ∈ rest, other ∈ builder.frames := fun other member => opened ▸ List.mem_cons_of_mem _ member
      exact framed.fewer ⟨flushed.valid, fun other member => flushed.frames other (outer other member), flushed.keyed⟩ outer
    · rwa [ascend_of_lt opened (Nat.lt_of_not_le deep)]

/-- The segments of a namespace, each one below those before it. -/
theorem Kept.segments (kept : Kept definitions motive) {space : Definition} (member : space ∈ definitions)
    (kind : space.kind = .space) (depth : Nat) {before : String} {segments : List String} (filled : ∀ segment ∈ segments, segment ≠ "")
    (listed : ∀ named ∈ qualifiedSegments before segments, spaceMark ++ named.1 ∈ spaceIds (some space.label))
    (framed : builder.Framed) (holds : motive builder)
    (owner : before = "" ∧ ownerOf builder.sites = none ∨ before ≠ "" ∧ ownerOf builder.sites = some (.space, spaceMark ++ before)) :
    let after := (qualifiedSegments before segments).foldl (fun builder (name, segment) =>
      builder.addSegment depth name segment) builder
    motive after ∧ after.Framed ∧ after.built = builder.built ∧ after.sites =
      ((qualifiedSegments before segments).map fun named => ⟨some (.space, spaceMark ++ named.1), depth⟩).reverse ++ builder.sites := by
  induction segments generalizing builder before with
  | nil => exact ⟨holds, framed, rfl, rfl⟩
  | cons segment rest ih =>
    let name := if before.isEmpty then segment else before ++ "\\" ++ segment
    have some : name ≠ "" := by
      simp only [name]
      split
      · exact filled segment List.mem_cons_self
      · intro none
        have length := congrArg String.length none
        simp at length
    have continues : Continues builder.sites name segment := by
      rcases owner with ⟨rfl, top⟩ | ⟨nonempty, inside⟩
      · exact .inl ⟨top, rfl⟩
      · exact .inr ⟨before, inside, by simp [name, nonempty]⟩
    obtain ⟨ref, -, built, -⟩ := framed.toTended.addSegment depth name segment
    have sites := framed.sites_addSegment depth name segment
    have next := kept.segment depth segment framed holds member kind (listed _ List.mem_cons_self) continues
    obtain ⟨last, still, same, all⟩ := ih (fun other later => filled other (List.mem_cons_of_mem _ later))
      (fun named later => listed named (List.mem_cons_of_mem _ later)) (framed.addSegment depth name segment) next
      (.inr ⟨some, by rw [sites]; rfl⟩)
    refine ⟨last, still, same.trans built, all.trans ?_⟩
    rw [sites]
    simp only [qualifiedSegments, List.map_cons, List.reverse_cons, List.append_assoc]
    rfl

theorem Kept.take (kept : Kept definitions motive) {definition : Definition} (index : Nat) (framed : builder.Framed)
    (holds : motive builder) (settles : definition.Settles (definition.around builder.sites)) (member : definition ∈ definitions)
    (order : definition.kind ≠ .space →
      builder.built.map (·.2) ++ [definition] <+: definitions.filter (·.kind ≠ .space)) :
    let after := builder.take definition index
    motive after ∧ after.Framed ∧ after.sites = definition.opens ++ definition.around builder.sites ∧
      after.built.map (·.2) = builder.built.map (·.2) ++ if definition.kind = .space then [] else [definition] := by
  have closed := framed.ascend definition.depth
  have holds := kept.ascend framed holds definition.depth
  have around := framed.sites_ascend definition.depth
  by_cases space : definition.kind = .space
  · have top : ownerOf (builder.ascend definition.depth).sites = none := by
      unfold Definition.Settles at settles
      rw [space] at settles
      rw [around]
      exact congrArg ownerOf settles
    have filled : ∀ segment ∈ ((Text.splitAt (· == '\\') definition.label.toList).map String.ofList).filter (!·.isEmpty),
        segment ≠ "" := by
      intro segment listed
      simpa using (List.mem_filter.mp listed).2
    obtain ⟨last, still, built, sites⟩ := kept.segments member space definition.depth filled
      (fun named listed => List.mem_map_of_mem listed) closed holds (.inl ⟨rfl, top⟩)
    simp only [Builder.take, space, if_true, addSpace]
    refine ⟨last, still, sites.trans ?_, ?_⟩
    · rw [around, Definition.opens, if_pos space, spaceIds, List.map_map]
      rfl
    · rw [built, List.append_nil]
      rfl
  · have again : builder.take definition index = (builder.ascend definition.depth).addItem definition index := by
      simp only [Builder.take, space, if_false, addItem, ascend_ascend (Nat.le_refl _)]
    obtain ⟨ref, -, built, -⟩ := closed.toTended.addItem definition index
    rw [again, if_neg space]
    refine ⟨?_, closed.addItem definition index, ?_, ?_⟩
    · exact kept.item index closed holds space (ascend_ascend (Nat.le_refl _)) (around ▸ settles) (order space)
    · rw [closed.sites_addItem, around, Definition.opens, if_neg space, Definition.around,
        dropWhile_shallower (Nat.le_refl _)]
      rfl
    · rw [built, List.map_append]
      rfl

theorem Kept.takeAll (kept : Kept definitions motive) {past : List Definition} {rest : List (Definition × Nat)}
    (framed : builder.Framed) (holds : motive builder) (settled : Settled builder.sites (rest.map (·.1)))
    (split : past ++ rest.map (·.1) = definitions) (built : builder.built.map (·.2) = past.filter (·.kind ≠ .space)) :
    let after := builder.takeAll rest
    motive after ∧ after.Framed ∧ after.built.map (·.2) = definitions.filter (·.kind ≠ .space) := by
  induction rest generalizing builder past with
  | nil =>
    rw [List.map_nil, List.append_nil] at split
    exact ⟨holds, framed, split ▸ built⟩
  | cons entry rest ih =>
    obtain ⟨definition, index⟩ := entry
    obtain ⟨settles, later⟩ := settled
    have member : definition ∈ definitions := split ▸ List.mem_append_right _ List.mem_cons_self
    have further : (past ++ [definition]) ++ rest.map (·.1) = definitions := by
      rw [List.append_assoc]
      exact split
    obtain ⟨next, still, sites, more⟩ := kept.take index framed holds settles member fun item => by
      rw [built, ← further, List.filter_append, List.filter_append]
      have own : [definition].filter (·.kind ≠ .space) = [definition] := List.filter_eq_self.mpr (by simpa using item)
      rw [own]
      exact List.prefix_append _ _
    refine ih still next (sites ▸ later) further ?_
    rw [more, built, List.filter_append]
    by_cases space : definition.kind = .space <;> simp [space]

end Builder

/-- What a builder starts with and each of its steps keeps holds when the last frame has been closed. -/
theorem build_keeps {outline : Outline} {previous : List (String × Ref)} (sound : outline.Valid) (keyed : outline.Keyed previous)
    (uri : Option String) {definitions : List Definition} (settled : Settled [{}] definitions) {motive : Builder → Prop}
    (kept : Builder.Kept definitions motive) (start : motive { outline, uri, previous }) :
    ∃ finished : Builder, motive finished ∧ finished.Framed ∧ finished.frames = [] ∧
      finished.built.map (·.2) = definitions.filter (·.kind ≠ .space) ∧
      build outline uri previous definitions = (finished.outline, finished.built) := by
  let builder : Builder := { outline, uri, previous }
  have framed : builder.Framed := by
    refine ⟨Builder.tended_start sound keyed uri, ?_⟩
    rw [List.forall_mem_singleton]
    nofun
  have events : (definitions.zipIdx).map (·.1) = definitions := List.zipIdx_map_fst 0 _
  obtain ⟨holds, still, built⟩ := @Builder.Kept.takeAll builder definitions motive kept [] definitions.zipIdx framed start (events.symm ▸ settled) events rfl
  obtain ⟨-, frames⟩ := still.toTended.ascend 0
  refine ⟨_, kept.ascend still holds 0, still.ascend 0, ?_, built, rfl⟩
  rw [frames, List.dropWhile_eq_nil_iff]
  exact fun frame _ => decide_eq_true (Nat.zero_le _)

end TestScout.Outline
