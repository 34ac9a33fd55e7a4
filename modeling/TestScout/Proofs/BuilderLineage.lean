import TestScout.Proofs.OutlineLineage

/-! Taking up items again. What a file had before it was taken out is at hand by id while its definitions are taken in.
Nothing that is shown can come in between: wherever an item is looked up, there is nothing else with its id. So each
definition gets the item back that its id had. -/

namespace TestScout.Outline
open Test

namespace Builder

variable {builder after : Builder} {id : String} {kind : DefinitionKind} {depth : Nat} {frame : Frame}

theorem Enters.thinned (enters : Enters builder id kind depth after) : Thinned builder.outline after.outline where
  size := enters.retagged.size
  ids := enters.retagged.ids
  children place := by
    rcases enters.children place with same | ⟨-, none⟩
    · rw [same]
    · rw [none]
      exact List.nil_sublist _
  parents ref above same := by
    rcases enters.parents ref with still | ⟨-, -, none⟩
    · rwa [still] at same
    · rw [none] at same
      cases same
  stays place ref member parent := by
    rcases enters.parents ref with still | ⟨below, empty, -⟩
    · rwa [still]
    · rw [← parent, below, empty] at member
      cases member

/-- The open frames stay, and one of them has collected an item more. -/
theorem exists_mem_collect (member : frame ∈ builder.frames) (ref : Ref) :
    ∃ later ∈ builder.collect ref, frame.children ⊆ later.children := by
  unfold collect
  cases opened : builder.frames with
  | nil =>
    rw [opened] at member
    cases member
  | cons innermost rest =>
    rw [opened] at member
    rcases List.mem_cons.mp member with rfl | outer
    · exact ⟨_, List.mem_cons_self, List.subset_append_left _ _⟩
    · exact ⟨frame, List.mem_cons_of_mem _ outer, List.Subset.refl _⟩

theorem exists_collected (opened : builder.frames ≠ []) (ref : Ref) : ∃ frame ∈ builder.collect ref, ref ∈ frame.children := by
  obtain ⟨innermost, rest, frames⟩ := List.exists_cons_of_ne_nil opened
  have collected : builder.collect ref = { innermost with children := innermost.children ++ [ref] } :: rest := by
    simp only [collect, frames]
  exact ⟨_, collected ▸ List.mem_cons_self, List.mem_append_right _ (List.mem_singleton_self ref)⟩

end Builder

open Builder

/-- What the definitions of a file are taken into. -/
structure Origin (file : Path) (definitions : List Definition) where
  outline : Outline
  /-- The items that have been taken out before, by their ids. -/
  previous : List (String × Ref)
  /-- The items that the file had before, with their definitions. -/
  former : List (Ref × Definition)
  /-- Whether an item is that of a class of another file. -/
  classes : Ref → Prop
  alive : Ref → Prop
  lineage : Lineage outline classes alive
  spare : ∀ entry ∈ previous, alive entry.2
  living : ∀ ref, classes ref → alive ref
  plain : ∀ ref, classes ref → SpaceLike (outline.idOf ref) → '\\' ∉ (outline.idOf ref).toList
  distinct : ((definitions.filter (·.kind ≠ .space)).map (·.id)).Nodup
  novel : ∀ definition ∈ definitions, definition.kind ≠ .space → ∀ ref, classes ref → outline.idOf ref ≠ definition.id
  within : ∀ definition ∈ definitions, definition.kind = .classLike → ∀ id ∈ spaceIds definition.space,
    ¬id.toList <+: definition.id.toList
  apart : Discovery.Apart file definitions
  remembered : ∀ item ∈ former, previous.lookup item.2.id = some item.1
  cleared : ∀ definition ∈ definitions, definition.kind = .classLike → SpaceLike definition.id →
    definition.id ∈ former.map (·.2.id) → ∀ ref ∈ outline.childrenOf none, outline.idOf ref ≠ definition.id

def ClassId (definitions : List Definition) (id : String) : Prop :=
  ∃ definition ∈ definitions, definition.kind = .classLike ∧ definition.id = id

namespace Origin

variable {file : Path} {definitions : List Definition} {origin : Origin file definitions} {builder after : Builder}
  {place : Place} {ref : Ref} {definition other : Definition}

theorem definition_eq (origin : Origin file definitions) (member : definition ∈ definitions) (item : definition.kind ≠ .space)
    (listed : other ∈ definitions) (also : other.kind ≠ .space) (same : definition.id = other.id) : definition = other :=
  List.inj_on_of_nodup_map origin.distinct (List.mem_filter.mpr ⟨member, by simpa using item⟩)
    (List.mem_filter.mpr ⟨listed, by simpa using also⟩) same

/-- A file with an item that goes by an id like that of a namespace has no namespaces. -/
theorem not_space_of_spaceLike (origin : Origin file definitions) (member : definition ∈ definitions)
    (item : definition.kind ≠ .space) (like : SpaceLike definition.id) : ∀ other ∈ definitions, other.kind ≠ .space := by
  rcases origin.apart.items with plain | ⟨name, lone⟩
  · exact absurd like (plain definition member item)
  · exact fun other listed => (lone.items other listed).1

theorem space_eq_none (origin : Origin file definitions) (member : definition ∈ definitions)
    (kind : definition.kind = .classLike) (like : SpaceLike definition.id) : definition.space = none := by
  rcases origin.apart.items with plain | ⟨name, lone⟩
  · exact absurd like (plain definition member (by simp [kind]))
  · exact (lone.items definition member).2.2 kind

def Alive (origin : Origin file definitions) (outline : Outline) (ref : Ref) : Prop :=
  origin.alive ref ∨ origin.outline.nodes.size ≤ ref ∧ ref < outline.nodes.size

/-- Whether an item is that of a class that has been put into a place. -/
def Placed (origin : Origin file definitions) (builder : Builder) (ref : Ref) : Prop :=
  origin.classes ref ∨ (∃ item ∈ builder.built, item.1 = ref ∧ item.2.kind = .classLike) ∧
    ∀ frame ∈ builder.frames, ref ∉ frame.children

structure Pending (origin : Origin file definitions) (builder : Builder) (place : Place) (ref : Ref) : Prop where
  alive : origin.Alive builder.outline ref
  known : ref ∈ builder.built.map (·.1) ∨
    SpaceLike (builder.outline.idOf ref) ∧ ∃ space ∈ definitions, space.kind = .space
  kin : builder.outline.Kin place ref ∨ ClassId definitions (builder.outline.idOf ref)
  spaces : ClassId definitions (builder.outline.idOf ref) ∨ SpaceLike (builder.outline.idOf ref) →
    ∀ above ∈ place, SpaceLike (builder.outline.idOf above)
  alone : origin.classes ref ∨ ClassId definitions (builder.outline.idOf ref) → SpaceLike (builder.outline.idOf ref) →
    place = none

structure Sits (origin : Origin file definitions) (builder : Builder) (frame : Frame) : Prop where
  reachable : Open (origin.Alive builder.outline) frame.ref
  space : frame.kind = some .space → ∀ above ∈ frame.ref, SpaceLike (builder.outline.idOf above)
  item : frame.kind ≠ some .space → ∀ above ∈ frame.ref, above ∈ builder.built.map (·.1)
  /-- A class or a group has nothing below it as long as its frame is open. -/
  empty : frame.kind = some .classLike ∨ frame.kind = some .describe → builder.outline.childrenOf frame.ref = []
  method : frame.kind = some .method → frame.children = []
  placed : frame.ref = none → frame.kind = none
  pending : ∀ ref ∈ frame.children, origin.Pending builder frame.ref ref

/-- A definition has got its item back. -/
structure Regained (origin : Origin file definitions) (outline : Outline) (item : Ref × Definition) : Prop where
  alive : origin.Alive outline item.1
  named : outline.idOf item.1 = item.2.id
  member : item.2 ∈ definitions
  real : item.2.kind ≠ .space
  former : ∀ old ∈ origin.former, old.2.id = item.2.id → item.1 = old.1

structure Resumed (origin : Origin file definitions) (builder : Builder) : Prop where
  lineage : Lineage builder.outline (origin.Placed builder) (origin.Alive builder.outline)
  size : origin.outline.nodes.size ≤ builder.outline.nodes.size
  ids : ∀ ref < origin.outline.nodes.size, builder.outline.idOf ref = origin.outline.idOf ref
  spare : ∀ entry ∈ builder.previous, origin.alive entry.2
  left : ∀ definition ∈ definitions, definition.kind ≠ .space → definition.id ∉ builder.built.map (·.2.id) →
    builder.previous.lookup definition.id = origin.previous.lookup definition.id
  regained : ∀ item ∈ builder.built, origin.Regained builder.outline item
  frames : ∀ frame ∈ builder.frames, origin.Sits builder frame
  /-- Only the items of namespaces are put anywhere twice. -/
  once : (builder.frames.flatMap (·.children)).Pairwise fun first second =>
    first = second → SpaceLike (builder.outline.idOf first)
  nested : builder.frames.Pairwise fun inner outer =>
    outer.kind = some .classLike ∨ outer.kind = some .describe → inner.ref ≠ outer.ref
  /-- There is nothing in the place of a class that was there before and goes by an id like that of a namespace. -/
  clear : ∀ definition ∈ definitions, definition.kind = .classLike → SpaceLike definition.id →
    definition.id ∈ origin.former.map (·.2.id) → definition.id ∉ builder.built.map (·.2.id) →
      ∀ ref ∈ builder.outline.childrenOf none, builder.outline.idOf ref ≠ definition.id

/-! ## Later on -/

/-- Items have kept their ids, and those that have been built are still there. -/
structure Later (first second : Builder) : Prop where
  size : first.outline.nodes.size ≤ second.outline.nodes.size
  ids : ∀ ref < first.outline.nodes.size, second.outline.idOf ref = first.outline.idOf ref
  built : ∀ item ∈ first.built, item ∈ second.built

theorem Alive.later {first second : Outline} (alive : origin.Alive first ref) (size : first.nodes.size ≤ second.nodes.size) :
    origin.Alive second ref := alive.imp_right fun ⟨new, inside⟩ => ⟨new, Nat.lt_of_lt_of_le inside size⟩

variable (exist : ∀ ref, origin.Alive builder.outline ref → ref < builder.outline.nodes.size) (further : Later builder after)
include exist further

theorem Pending.later (pending : origin.Pending builder place ref) (reachable : Open (origin.Alive builder.outline) place) :
    origin.Pending after place ref := by
  have own := further.ids ref (exist ref pending.alive)
  have around : ∀ above ∈ place, after.outline.idOf above = builder.outline.idOf above :=
    fun above same => further.ids above (exist above (reachable above same))
  refine ⟨pending.alive.later further.size, ?_, ?_, ?_, ?_⟩
  · rw [own]
    refine pending.known.imp_left fun known => ?_
    obtain ⟨item, member, same⟩ := List.mem_map.mp known
    exact List.mem_map.mpr ⟨item, further.built item member, same⟩
  · rw [own]
    refine pending.kin.imp_left fun kin => ?_
    cases place with
    | none => rwa [Kin, own]
    | some above => rwa [Kin, own, around above rfl]
  · rw [own]
    exact fun either above same => around above same ▸ pending.spaces either above same
  · rw [own]
    exact pending.alone

theorem Sits.later {frame : Frame} (sits : origin.Sits builder frame)
    (empty : frame.kind = some .classLike ∨ frame.kind = some .describe → after.outline.childrenOf frame.ref = []) :
    origin.Sits after frame where
  reachable := sits.reachable.mono fun _ alive => alive.later further.size
  space kind above same := further.ids above (exist above (sits.reachable above same)) ▸ sits.space kind above same
  item kind above same := by
    obtain ⟨item, member, own⟩ := List.mem_map.mp (sits.item kind above same)
    exact List.mem_map.mpr ⟨item, further.built item member, own⟩
  empty := empty
  method := sits.method
  placed := sits.placed
  pending ref member := (sits.pending ref member).later exist further sits.reachable

omit exist

theorem Regained.later {item : Ref × Definition} (regained : origin.Regained builder.outline item)
    (valid : item.1 < builder.outline.nodes.size) : origin.Regained after.outline item :=
  { regained with
    alive := regained.alive.later further.size
    named := (further.ids item.1 valid).trans regained.named }

omit further

/-! ## Items at hand -/

namespace Resumed

variable (resumed : origin.Resumed builder)
include resumed

theorem valid {item : Ref × Definition} (member : item ∈ builder.built) : item.1 < builder.outline.nodes.size :=
  resumed.lineage.exist item.1 (resumed.regained item member).alive

theorem idOf_of_classes (foreign : origin.classes ref) : builder.outline.idOf ref = origin.outline.idOf ref :=
  resumed.ids ref (origin.lineage.exist ref (origin.living ref foreign))

theorem not_classes {item : Ref × Definition} (member : item ∈ builder.built) : ¬origin.classes item.1 := by
  intro foreign
  have regained := resumed.regained item member
  have id := (resumed.idOf_of_classes foreign).symm.trans regained.named
  exact origin.novel item.2 regained.member regained.real item.1 foreign id

theorem built_of_classId {item : Ref × Definition} (member : item ∈ builder.built)
    (named : ClassId definitions (builder.outline.idOf item.1)) : item.2.kind = .classLike := by
  obtain ⟨definition, listed, kind, same⟩ := named
  have regained := resumed.regained item member
  have plain : definition.kind ≠ .space := by simp [kind]
  rw [origin.definition_eq regained.member regained.real listed plain (regained.named.symm.trans same.symm)]
  exact kind

theorem classId_of_built (own : ∃ item ∈ builder.built, item.1 = ref ∧ item.2.kind = .classLike) :
    ClassId definitions (builder.outline.idOf ref) := by
  obtain ⟨item, member, rfl, kind⟩ := own
  have regained := resumed.regained item member
  exact ⟨item.2, regained.member, kind, regained.named.symm⟩

theorem spaceLike_of_classes (pending : origin.Pending builder place ref) (foreign : origin.classes ref) :
    SpaceLike (builder.outline.idOf ref) := by
  rcases pending.known with own | ⟨like, -⟩
  · obtain ⟨item, member, rfl⟩ := List.mem_map.mp own
    exact absurd foreign (resumed.not_classes member)
  · exact like

end Resumed

/-! ## Closing frames -/

namespace Resumed

variable {frame : Frame} {rest : List Frame} (resumed : origin.Resumed builder) (framed : builder.Framed)
  (opened : builder.frames = frame :: rest)
include resumed framed opened

theorem lineage_close : Lineage (flush builder.outline frame)
    (origin.Placed { builder with frames := rest, outline := flush builder.outline frame }) (origin.Alive builder.outline) := by
  have listed : frame ∈ builder.frames := opened ▸ List.mem_cons_self
  obtain ⟨inside, collected⟩ := framed.frames frame listed
  have sits := resumed.frames frame listed
  let after : Builder := { builder with frames := rest, outline := flush builder.outline frame }
  have more : ∀ ref, origin.Placed builder ref → origin.Placed after ref :=
    fun ref => Or.imp_right (And.imp_right fun free other member => free other (opened ▸ List.mem_cons_of_mem _ member))
  have new : ∀ ref, origin.Placed after ref → origin.Placed builder ref ∨ ref ∈ frame.children := by
    rintro ref (foreign | ⟨own, free⟩)
    · exact .inl (.inl foreign)
    · by_cases here : ref ∈ frame.children
      · exact .inr here
      · exact .inl (.inr ⟨own, opened ▸ List.forall_mem_cons.mpr ⟨here, free⟩⟩)
  by_cases method : frame.kind = some .method
  · -- The frame of a test method has collected nothing, so all that was below the method goes.
    have none := sits.method method
    have flushed : flush builder.outline frame = builder.outline.replace frame.ref [] := by rw [flush, if_pos method, none]
    rw [flushed]
    have moved : Moved builder.outline (builder.outline.replace frame.ref []) := moved_replace inside nofun
    refine resumed.lineage.thinned (thinned_replace_nil inside) (moved.valid framed.valid) (fun _ => id)
      (fun _ => .inl) ?_ fun _ ref _ placed _ => more ref placed
    intro ref placed
    exact (new ref placed).resolve_right (none ▸ List.not_mem_nil)
  · have flushed : flush builder.outline frame = frame.children.foldl (·.add frame.ref ·) builder.outline := by
      rw [flush, if_neg method]
    have put := put_addAll inside (resumed.lineage.distinct frame.ref) collected
    have named : ∀ ref, origin.Placed after ref → origin.classes ref ∨ ClassId definitions (builder.outline.idOf ref) :=
      fun ref => Or.imp_right fun ⟨own, _⟩ => resumed.classId_of_built own
    rw [flushed]
    refine resumed.lineage.put put sits.reachable (fun ref member => (sits.pending ref member).alive) more new ?_ ?_ ?_ ?_
    · intro ref member
      have pending := sits.pending ref member
      rcases pending.kin with kin | isClass
      · exact .inl kin
      by_cases like : SpaceLike (builder.outline.idOf ref)
      · have top := pending.alone (.inr isClass) like
        exact .inl (top ▸ like)
      · -- A class that has been put here waits nowhere else.
        obtain ⟨item, own, rfl⟩ := List.mem_map.mp (pending.known.resolve_right fun space => like space.1)
        refine .inr (.inr ⟨⟨item, own, rfl, resumed.built_of_classId own isClass⟩, fun other outer again => like ?_⟩)
        have once := resumed.once
        rw [opened, List.flatMap_cons, List.pairwise_append] at once
        exact once.2.2 item.1 member item.1 (List.mem_flatMap.mpr ⟨other, outer, again⟩) rfl
    · intro ref member either
      have pending := sits.pending ref member
      rcases either with placed | like
      · rcases named ref placed with foreign | isClass
        · exact pending.spaces (.inr (resumed.spaceLike_of_classes pending foreign))
        · exact pending.spaces (.inl isClass)
      · exact pending.spaces (.inr like)
    · intro ref member placed
      rcases placed with foreign | ⟨-, free⟩
      · exact resumed.spaceLike_of_classes (sits.pending ref member) foreign
      · exact absurd member (free frame listed)
    · exact fun ref member placed like => (sits.pending ref member).alone (named ref placed) like

theorem close : origin.Resumed { builder with frames := rest, outline := flush builder.outline frame } := by
  have listed : frame ∈ builder.frames := opened ▸ List.mem_cons_self
  obtain ⟨inside, collected⟩ := framed.frames frame listed
  have sits := resumed.frames frame listed
  have moved := moved_flush inside collected
  have further : Later builder { builder with frames := rest, outline := flush builder.outline frame } :=
    ⟨moved.size.ge, fun ref _ => moved.idOf ref, fun _ => id⟩
  have alive : origin.Alive (flush builder.outline frame) = origin.Alive builder.outline := by
    funext ref
    simp only [Alive, moved.size]
  have nested := resumed.nested
  have once := resumed.once
  rw [opened] at nested
  rw [opened, List.flatMap_cons, List.pairwise_append] at once
  refine ⟨?_, ?_, ?_, resumed.spare, resumed.left, ?_, ?_, ?_, (List.pairwise_cons.mp nested).2, ?_⟩
  · rw [alive]
    exact resumed.lineage_close framed opened
  · exact moved.size ▸ resumed.size
  · exact fun ref old => (moved.idOf ref).trans (resumed.ids ref old)
  · exact fun item member => (resumed.regained item member).later further (resumed.valid member)
  · intro other outer
    refine (resumed.frames other (opened ▸ List.mem_cons_of_mem _ outer)).later resumed.lineage.exist further fun kind => ?_
    have away := (List.pairwise_cons.mp nested).1 other outer kind
    rw [← (resumed.frames other (opened ▸ List.mem_cons_of_mem _ outer)).empty kind]
    exact childrenOf_flush_ne inside away.symm
  · refine once.2.1.imp fun like same => ?_
    exact (moved.idOf _).symm ▸ like same
  · intro definition member kind like known unbuilt ref held again
    have same : builder.outline.idOf ref = definition.id := (moved.idOf ref).symm.trans again
    rcases mem_of_mem_flush inside held with old | ⟨-, collected⟩
    · exact resumed.clear definition member kind like known unbuilt ref old same
    rcases (sits.pending ref collected).known with own | ⟨-, space, found, isSpace⟩
    · obtain ⟨item, inside, rfl⟩ := List.mem_map.mp own
      exact unbuilt (List.mem_map.mpr ⟨item, inside, (resumed.regained item inside).named.symm.trans same⟩)
    · exact origin.not_space_of_spaceLike member (by simp [kind]) like space found isSpace

end Resumed

/-! ## Opening frames -/

namespace Resumed

variable (resumed : origin.Resumed builder) {id : String} {kind : DefinitionKind} {depth : Nat}
  (enters : Enters builder id kind depth after)
include resumed

theorem reachable_parent : Open (origin.Alive builder.outline) builder.parent := by
  intro above same
  obtain ⟨frame, first, placed⟩ := Option.bind_eq_some_iff.mp same
  exact (resumed.frames frame (List.mem_of_head? first)).reachable above placed

include enters

theorem alive_choice : origin.Alive after.outline (builder.choice id) := by
  have valid := enters.valid
  unfold Builder.choice at valid ⊢
  cases found : builder.outline.child? builder.parent id with
  | some ref =>
    have alive := resumed.lineage.below builder.parent resumed.reachable_parent ref (mem_of_child? found).1
    exact alive.later enters.retagged.size
  | none =>
    rw [found] at valid
    cases spare : builder.previous.lookup id with
    | some ref => exact .inl (resumed.spare _ (Editor.mem_of_lookup spare))
    | none =>
      rw [spare] at valid
      exact .inr ⟨resumed.size, valid⟩

variable (unbuilt : id ∉ builder.built.map (·.2.id))
include unbuilt

omit unbuilt in
/-- The item of a class of another file is taken up under the id that it has. -/
theorem idOf_choice_of_classes (foreign : origin.classes (builder.choice id)) : origin.outline.idOf (builder.choice id) = id := by
  have valid := resumed.lineage.exist _ (.inl (origin.living _ foreign))
  rw [← resumed.idOf_of_classes foreign, ← enters.retagged.ids _ valid, enters.named]

theorem choice_ne {item : Ref × Definition} (member : item ∈ builder.built) : item.1 ≠ builder.choice id := by
  intro same
  have named := (enters.retagged.ids item.1 (resumed.valid member)).trans (resumed.regained item member).named
  rw [same, enters.named] at named
  exact unbuilt (List.mem_map.mpr ⟨item, member, named.symm⟩)

theorem spaceLike_of_waiting {frame : Frame} (listed : frame ∈ builder.frames) (member : builder.choice id ∈ frame.children) :
    SpaceLike (after.outline.idOf (builder.choice id)) := by
  have pending := (resumed.frames frame listed).pending _ member
  rcases pending.known with own | ⟨like, -⟩
  · obtain ⟨item, built, same⟩ := List.mem_map.mp own
    exact absurd same (resumed.choice_ne enters unbuilt built)
  · rwa [enters.retagged.ids _ (resumed.lineage.exist _ pending.alive)]

variable {new : List (Ref × Definition)} (built : after.built = builder.built ++ new)
include built

theorem lineage_enter (fresh : ∀ item ∈ new, item.1 = builder.choice id) (inside : new ≠ [] → builder.frames ≠ []) :
    Lineage after.outline (origin.Placed after) (origin.Alive after.outline) := by
  refine resumed.lineage.thinned enters.thinned enters.tended.valid (fun ref alive => alive.later enters.retagged.size) ?_ ?_ ?_
  · rintro ref (alive | ⟨new, valid⟩)
    · exact .inl (.inl alive)
    · by_cases old : ref < builder.outline.nodes.size
      · exact .inl (.inr ⟨new, old⟩)
      · exact .inr ⟨Nat.le_of_not_lt old, valid⟩
  · rintro ref (foreign | ⟨⟨item, member, rfl, isClass⟩, free⟩)
    · exact .inl foreign
    rw [enters.frames, List.forall_mem_cons] at free
    rw [built] at member
    rcases List.mem_append.mp member with old | last
    · refine .inr ⟨⟨item, old, rfl, isClass⟩, fun frame listed waiting => ?_⟩
      obtain ⟨frame, again, more⟩ := exists_mem_collect listed (builder.choice id)
      exact free.2 frame again (more waiting)
    · obtain ⟨frame, listed, waiting⟩ := exists_collected (inside (List.ne_nil_of_mem last)) (builder.choice id)
      exact absurd (fresh item last ▸ waiting) (free.2 frame listed)
  · rintro place ref - (foreign | ⟨⟨item, member, rfl, isClass⟩, free⟩) -
    · exact .inl foreign
    · refine .inr ⟨⟨item, built ▸ List.mem_append_left _ member, rfl, isClass⟩, ?_⟩
      rw [enters.frames, List.forall_mem_cons]
      refine ⟨List.not_mem_nil, fun frame listed waiting => ?_⟩
      rcases mem_collect listed with old | ⟨innermost, first, rfl⟩
      · exact free frame old waiting
      · rcases List.mem_append.mp waiting with before | last
        · exact free innermost (List.mem_of_head? first) before
        · exact resumed.choice_ne enters unbuilt member (List.mem_singleton.mp last)

omit unbuilt in
theorem frames_enter (sits : origin.Sits after { ref := some (builder.choice id), kind := some kind, depth })
    (pending : ∀ innermost ∈ builder.frames.head?, innermost.kind ≠ some .method ∧
      origin.Pending after innermost.ref (builder.choice id)) : ∀ frame ∈ after.frames, origin.Sits after frame := by
  have further : Later builder after :=
    ⟨enters.retagged.size, enters.retagged.ids, fun _ member => built ▸ List.mem_append_left _ member⟩
  have known : ∀ frame ∈ builder.frames, origin.Sits after frame := by
    intro frame member
    have sits := resumed.frames frame member
    refine sits.later resumed.lineage.exist further fun kind => ?_
    rcases enters.children frame.ref with same | ⟨-, none⟩
    · rw [same, sits.empty kind]
    · exact none
  intro frame member
  rw [enters.frames] at member
  rcases List.mem_cons.mp member with rfl | outer
  · exact sits
  · rcases mem_collect outer with old | ⟨innermost, first, rfl⟩
    · exact known frame old
    · have before := known innermost (List.mem_of_head? first)
      obtain ⟨other, fits⟩ := pending innermost first
      refine { before with method := fun isMethod => absurd isMethod other, pending := fun ref collected => ?_ }
      rcases List.mem_append.mp collected with early | last
      · exact before.pending ref early
      · exact List.mem_singleton.mp last ▸ fits

omit built in
theorem once_enter : (after.frames.flatMap (·.children)).Pairwise fun first second =>
    first = second → SpaceLike (after.outline.idOf first) := by
  have before : (builder.frames.flatMap (·.children)).Pairwise fun first second =>
      first = second → SpaceLike (after.outline.idOf first) := by
    refine resumed.once.imp_of_mem fun {first second} member _ like same => ?_
    obtain ⟨frame, listed, waiting⟩ := List.mem_flatMap.mp member
    have valid := resumed.lineage.exist first ((resumed.frames frame listed).pending first waiting).alive
    exact enters.retagged.ids first valid ▸ like same
  have waiting : ∀ frame ∈ builder.frames, builder.choice id ∈ frame.children →
      SpaceLike (after.outline.idOf (builder.choice id)) := fun _ => resumed.spaceLike_of_waiting enters unbuilt
  rw [enters.frames]
  unfold collect
  cases opened : builder.frames with
  | nil => exact List.Pairwise.nil
  | cons innermost rest =>
    rw [opened] at before waiting
    rw [List.flatMap_cons, List.pairwise_append] at before
    obtain ⟨own, others, across⟩ := before
    rw [List.flatMap_cons, List.flatMap_cons, List.nil_append, List.append_assoc, List.singleton_append,
      List.pairwise_append, List.pairwise_cons]
    refine ⟨own, ⟨fun other later same => ?_, others⟩, fun first member other later same => ?_⟩
    · obtain ⟨frame, listed, inside⟩ := List.mem_flatMap.mp later
      exact waiting frame (List.mem_cons_of_mem _ listed) (same ▸ inside)
    · rcases List.mem_cons.mp later with rfl | outer
      · exact same ▸ waiting innermost List.mem_cons_self (same ▸ member)
      · exact across first member other outer same

omit built in
theorem nested_enter : after.frames.Pairwise fun inner outer =>
    outer.kind = some .classLike ∨ outer.kind = some .describe → inner.ref ≠ outer.ref := by
  -- What is open for a class or a group has been built before.
  have differs : ∀ frame ∈ builder.frames, frame.kind = some .classLike ∨ frame.kind = some .describe →
      some (builder.choice id) ≠ frame.ref := by
    intro frame listed kinds same
    have real : frame.kind ≠ some .space := by rcases kinds with kind | kind <;> simp [kind]
    obtain ⟨item, member, own⟩ := List.mem_map.mp ((resumed.frames frame listed).item real _ same.symm)
    exact resumed.choice_ne enters unbuilt member own
  rw [enters.frames, List.pairwise_cons]
  constructor
  · intro frame member
    rcases mem_collect member with old | ⟨innermost, first, rfl⟩
    · exact differs frame old
    · exact differs innermost (List.mem_of_head? first)
  · have before := resumed.nested
    unfold collect
    cases opened : builder.frames with
    | nil => exact List.Pairwise.nil
    | cons innermost rest =>
      rw [opened, List.pairwise_cons] at before
      exact List.pairwise_cons.mpr before

theorem enter (sits : origin.Sits after { ref := some (builder.choice id), kind := some kind, depth })
    (pending : ∀ innermost ∈ builder.frames.head?, innermost.kind ≠ some .method ∧
      origin.Pending after innermost.ref (builder.choice id))
    (regained : ∀ item ∈ new, item.1 = builder.choice id ∧ origin.Regained after.outline item)
    (inside : new ≠ [] → builder.frames ≠ [])
    (others : ∀ definition ∈ definitions, definition.kind ≠ .space → definition.id ∉ after.built.map (·.2.id) →
      definition.id ≠ id) : origin.Resumed after := by
  have further : Later builder after :=
    ⟨enters.retagged.size, enters.retagged.ids, fun _ member => built ▸ List.mem_append_left _ member⟩
  have earlier : ∀ id, id ∉ after.built.map (·.2.id) → id ∉ builder.built.map (·.2.id) := by
    intro id away member
    rw [built, List.map_append] at away
    exact away (List.mem_append_left _ member)
  refine ⟨resumed.lineage_enter enters unbuilt built (fun item member => (regained item member).1) inside,
    Nat.le_trans resumed.size further.size, ?_, fun entry member => resumed.spare entry (enters.fewer entry member), ?_, ?_,
    resumed.frames_enter enters built sits pending, resumed.once_enter enters unbuilt, resumed.nested_enter enters unbuilt, ?_⟩
  · exact fun ref old => (further.ids ref (Nat.lt_of_lt_of_le old resumed.size)).trans (resumed.ids ref old)
  · intro definition member real away
    rw [enters.previous _ (others definition member real away)]
    exact resumed.left definition member real (earlier _ away)
  · intro item member
    rw [built] at member
    rcases List.mem_append.mp member with old | last
    · exact (resumed.regained item old).later further (resumed.valid old)
    · exact (regained item last).2
  · intro definition member kind like known away ref held
    have before := enters.fewer_children held
    rw [further.ids ref (resumed.lineage.valid.children none ref before)]
    exact resumed.clear definition member kind like known (earlier _ away) ref before

end Resumed

end Origin

end TestScout.Outline
