import TestScout.Proofs.BuilderEntry
import TestScout.Proofs.ReplayCourse
import TestScout.Proofs.SpaceIds

/-! Where the items of data sets are. When files are read, nothing comes below an item that goes by the id of one of its
data sets: what is below a namespace, a class or a group has an id of another kind. Only a run puts data sets below
tests, and makes a new item for each. So no item is below two others like a data set below its test. -/

namespace TestScout.Test

/-- Whether one id is that of a data set of a test with another id. -/
def DataSetOf (above id : String) : Prop := ∃ key, id = above ++ " " ++ (dataSetPhrase ++ key)

variable {above id : String}

theorem DataSetOf.start (named : DataSetOf above id) : (above ++ " w").toList <+: id.toList := by
  obtain ⟨key, rfl⟩ := named
  simp only [String.toList_append, List.append_assoc, List.prefix_append_right_inj]
  exact ⟨"ith data set ".toList ++ key.toList, rfl⟩

theorem not_dataSetOf_of_prefix (apart : ¬above.toList <+: id.toList) : ¬DataSetOf above id := by
  intro named
  have start := named.start
  rw [String.toList_append] at start
  exact apart ((List.prefix_append _ _).trans start)

theorem not_dataSetOf_of_mark {mark : String} (start : (above ++ mark).toList <+: id.toList)
    (other : ¬mark.toList <+: " w".toList) (longer : ¬" w".toList <+: mark.toList) : ¬DataSetOf above id := by
  intro named
  have data := named.start
  rw [String.toList_append] at start data
  rcases List.prefix_or_prefix_of_prefix start data with within | within
  · exact other ((List.prefix_append_right_inj _).mp within)
  · exact longer ((List.prefix_append_right_inj _).mp within)

/-- What a definition is in tells it from a data set of that. -/
theorem Definition.Settles.not_dataSetOf {definition : Definition} {sites : List Site} (settles : definition.Settles sites)
    (item : definition.kind ≠ .space)
    (apart : definition.kind = .classLike → ∀ id ∈ Outline.spaceIds definition.space, ¬id.toList <+: definition.id.toList)
    {kind : DefinitionKind} (owner : ownerOf sites = some (kind, above)) : ¬DataSetOf above definition.id := by
  have member : (∃ kind id, ownerOf sites = some (kind, id) ∧
      (kind = .classLike ∧ (id ++ "::").toList <+: definition.id.toList ∨
        kind = .describe ∧ (id ++ Discovery.descriptionMark).toList <+: definition.id.toList)) →
      ¬DataSetOf above definition.id := by
    rintro ⟨other, id, inside, starts⟩
    obtain ⟨rfl, rfl⟩ := Prod.mk.inj (Option.some.inj (owner.symm.trans inside))
    rcases starts with ⟨-, start⟩ | ⟨-, start⟩
    · exact not_dataSetOf_of_mark start (by decide) (by decide)
    · exact not_dataSetOf_of_mark start (by decide) (by decide)
  unfold Definition.Settles at settles
  cases kind_eq : definition.kind with
  | space => exact absurd kind_eq item
  | classLike =>
    rw [kind_eq] at settles
    have last : some (kind, above) = (Outline.spaceIds definition.space).getLast?.map (.space, ·) := owner.symm.trans settles.2
    obtain ⟨id, inside, same⟩ := Option.map_eq_some_iff.mp last.symm
    obtain ⟨-, rfl⟩ := Prod.mk.inj same
    exact not_dataSetOf_of_prefix (apart kind_eq id (List.mem_of_getLast? inside))
  | describe =>
    rw [kind_eq] at settles
    exact member settles
  | method =>
    rw [kind_eq] at settles
    exact member settles
  | dataSet =>
    rw [kind_eq] at settles
    exact settles.elim

end TestScout.Test

namespace TestScout.Outline
open Test

/-- An item is below another one like a data set below its test. -/
def HoldsDataSet (outline : Outline) (above child : Ref) : Prop :=
  child ∈ outline.childrenOf (some above) ∧ DataSetOf (outline.idOf above) (outline.idOf child)

/-- No item is below two others like a data set below its test. -/
def Homed (outline : Outline) : Prop :=
  ∀ above other child, outline.HoldsDataSet above child → outline.HoldsDataSet other child → above = other

/-- Items keep their ids, and none comes below another one like a data set. -/
structure Tame (first second : Outline) : Prop where
  size : first.nodes.size ≤ second.nodes.size
  ids : ∀ ref < first.nodes.size, second.idOf ref = first.idOf ref
  dataSets : ∀ above child, second.HoldsDataSet above child → first.HoldsDataSet above child

variable {outline first second third : Outline}

theorem Tame.refl (outline : Outline) : Tame outline outline := ⟨Nat.le_refl _, fun _ _ => rfl, fun _ _ => id⟩

theorem Tame.trans (one : Tame first second) (two : Tame second third) : Tame first third where
  size := Nat.le_trans one.size two.size
  ids ref valid := (two.ids ref (Nat.lt_of_lt_of_le valid one.size)).trans (one.ids ref valid)
  dataSets above child held := one.dataSets above child (two.dataSets above child held)

theorem Homed.tame (homed : Homed first) (tame : Tame first second) : Homed second := fun above other child here there =>
  homed above other child (tame.dataSets above child here) (tame.dataSets other child there)

theorem valid_of_child {above child : Ref} (member : child ∈ outline.childrenOf (some above)) : above < outline.nodes.size := by
  by_contra missing
  rw [childrenOf_eq_nil (Nat.le_of_not_lt missing)] at member
  cases member

/-- What is below an item was there before, or it is no data set of the item. -/
theorem Tame.of_children (sound : first.Valid) (size : first.nodes.size ≤ second.nodes.size)
    (ids : ∀ ref < first.nodes.size, second.idOf ref = first.idOf ref)
    (children : ∀ above, ∀ child ∈ second.childrenOf (some above), child ∈ first.childrenOf (some above) ∨
      ¬DataSetOf (second.idOf above) (second.idOf child)) : Tame first second where
  size := size
  ids := ids
  dataSets above child := by
    rintro ⟨member, named⟩
    have old := (children above child member).resolve_right fun other => other named
    rw [ids above (valid_of_child old), ids child (sound.children _ child old)] at named
    exact ⟨old, named⟩

theorem Tame.of_moved (sound : first.Valid) (moved : Moved first second)
    (fewer : ∀ place, ∀ child ∈ second.childrenOf place, child ∈ first.childrenOf place) : Tame first second :=
  .of_children sound (Nat.le_of_eq moved.size.symm) (fun ref _ => moved.idOf ref) fun above child member =>
    .inl (fewer (some above) child member)

theorem mem_of_mem_delete {place other : Place} {id : String} {ref : Ref} (inside : outline.Inside place)
    (member : ref ∈ (outline.delete place id).1.childrenOf other) : ref ∈ outline.childrenOf other := by
  unfold delete at member
  split at member
  · exact member
  · rw [childrenOf_release, childrenOf_setChildren inside] at member
    split at member
    next here => exact here ▸ (List.mem_filter.mp member).1
    next => exact member

theorem mem_of_mem_add {place other : Place} {ref child : Ref} (inside : outline.Inside place)
    (member : child ∈ (outline.add place ref).childrenOf other) : child ∈ outline.childrenOf other ∨ other = place ∧ child = ref := by
  by_cases here : other = place
  · subst here
    cases found : outline.child? other (outline.idOf ref) with
    | none =>
      rw [childrenOf_add_of_none inside found] at member
      exact (List.mem_append.mp member).imp_right fun last => ⟨rfl, List.mem_singleton.mp last⟩
    | some former =>
      rw [childrenOf_add_of_some inside found] at member
      obtain ⟨old, listed, rfl⟩ := List.mem_map.mp member
      split
      · exact .inr ⟨rfl, rfl⟩
      · exact .inl listed
  · rw [childrenOf_add_ne inside here] at member
    exact .inl member

theorem mem_of_mem_addAll {place other : Place} {refs : List Ref} {child : Ref} (inside : outline.Inside place)
    (member : child ∈ (refs.foldl (·.add place ·) outline).childrenOf other) :
    child ∈ outline.childrenOf other ∨ other = place ∧ child ∈ refs := by
  induction refs generalizing outline with
  | nil => exact .inl member
  | cons ref rest ih =>
    have still : (outline.add place ref).Inside place := fun above same => by
      rw [size_add]
      exact inside above same
    rcases ih still member with old | ⟨here, later⟩
    · exact (mem_of_mem_add inside old).imp_right fun ⟨here, same⟩ => ⟨here, same ▸ List.mem_cons_self⟩
    · exact .inr ⟨here, List.mem_cons_of_mem _ later⟩

namespace Builder

theorem mem_of_mem_flush {frame : Frame} {place : Place} {child : Ref} (inside : outline.Inside frame.ref)
    (member : child ∈ (flush outline frame).childrenOf place) :
    child ∈ outline.childrenOf place ∨ place = frame.ref ∧ child ∈ frame.children := by
  unfold flush at member
  split at member
  · obtain ⟨moved, emptied⟩ := emptied_views inside frame.children
    have filled : child ∈ (frame.children.foldl (·.add frame.ref ·) (outline.emptied frame.ref frame.children)).childrenOf place :=
      member
    rcases mem_of_mem_addAll (moved.inside inside) filled with old | new
    · rw [emptied] at old
      split at old
      · cases old
      · exact .inl old
    · exact .inr new
  · exact mem_of_mem_addAll inside member

/-- A builder has put nothing below an item that goes by the id of one of its data sets, nor is it about to. -/
structure Calm (outline : Outline) (builder : Builder) : Prop where
  tame : Tame outline builder.outline
  pending : ∀ frame ∈ builder.frames, ∀ above, frame.ref = some above → ∀ child ∈ frame.children,
    ¬DataSetOf (builder.outline.idOf above) (builder.outline.idOf child)

variable {builder : Builder}

theorem Calm.close (calm : Calm outline builder) (framed : builder.Framed) {frame : Frame} {rest : List Frame}
    (opened : builder.frames = frame :: rest) :
    Calm outline { builder with frames := rest, outline := flush builder.outline frame } := by
  obtain ⟨inside, collected⟩ := framed.frames frame (opened ▸ List.mem_cons_self)
  have moved : Moved builder.outline (flush builder.outline frame) := moved_flush inside collected
  refine ⟨calm.tame.trans (.of_children framed.valid (Nat.le_of_eq moved.size.symm) (fun ref _ => moved.idOf ref) ?_), ?_⟩
  · intro above child member
    refine (mem_of_mem_flush inside member).imp_right fun ⟨here, listed⟩ => ?_
    rw [moved.idOf, moved.idOf]
    exact calm.pending frame (opened ▸ List.mem_cons_self) above here.symm child listed
  · intro other member above placed child listed
    simp only [moved.idOf]
    exact calm.pending other (opened ▸ List.mem_cons_of_mem _ member) above placed child listed

/-- An item that is no data set of the one around it is taken up. -/
theorem Calm.enter (calm : Calm outline builder) (framed : builder.Framed) {id : String} {kind : DefinitionKind} {depth : Nat}
    {after : Builder} (enters : Enters builder id kind depth after)
    (other : ∀ kind above, ownerOf builder.sites = some (kind, above) → ¬DataSetOf above id) : Calm outline after := by
  obtain ⟨size, ids, -⟩ := enters.retagged
  refine ⟨calm.tame.trans (.of_children framed.valid size ids fun above child member => .inl (enters.fewer_children member)), ?_⟩
  have known : ∀ frame ∈ builder.frames, ∀ above, frame.ref = some above → ∀ child ∈ frame.children,
      ¬DataSetOf (after.outline.idOf above) (after.outline.idOf child) := by
    intro frame member above placed child listed
    obtain ⟨inside, collected⟩ := framed.frames frame member
    rw [ids above (inside above placed), ids child (collected child listed)]
    exact calm.pending frame member above placed child listed
  intro frame member above placed child listed
  rw [enters.frames] at member
  rcases List.mem_cons.mp member with rfl | outer
  · cases listed
  · rcases mem_collect outer with old | ⟨innermost, first, rfl⟩
    · exact known frame old above placed child listed
    · rcases List.mem_append.mp listed with before | last
      · exact known innermost (List.mem_of_head? first) above placed child before
      · obtain ⟨kind, -, owner⟩ := framed.owner first placed
        have inside := (framed.frames innermost (List.mem_of_head? first)).1 above placed
        rw [List.mem_singleton.mp last, enters.named, ids above inside]
        exact other kind _ owner

/-- A builder stays calm as long as no class has an id that starts like its namespace's. -/
theorem kept_calm (outline : Outline) {definitions : List Definition} (apart : ∀ definition ∈ definitions,
      definition.kind = .classLike → ∀ id ∈ spaceIds definition.space, ¬id.toList <+: definition.id.toList) :
    Kept definitions (Calm outline) where
  close framed calm opened := calm.close framed opened
  segment {builder _} depth name segment framed calm _ _ _ continues := by
    refine calm.enter framed (framed.enters_segment depth name segment).1 fun kind above owner => ?_
    rcases continues with ⟨top, -⟩ | ⟨before, inside, rfl⟩
    · rw [top] at owner
      cases owner
    · obtain ⟨-, rfl⟩ := Prod.mk.inj (Option.some.inj (owner.symm.trans inside))
      refine @not_dataSetOf_of_mark _ _ "\\" ?_ (by decide) (by decide)
      simp only [String.toList_append, List.append_assoc, List.prefix_append_right_inj]
      exact List.prefix_append _ _
  item {builder definition} index framed calm item closed settles order := by
    have member : definition ∈ definitions :=
      (List.mem_filter.mp (order.subset (List.mem_append_right _ (List.mem_singleton_self _)))).1
    exact calm.enter framed (framed.enters_item closed index).1 fun kind above owner =>
      settles.not_dataSetOf item (apart definition member) owner

end Builder

/-- Reading a file puts no data sets below tests. -/
theorem tame_build (scout : Discovery.Scout) (source : String) (file : Path) (suite : Option String)
    {previous : List (String × Ref)} (sound : outline.Valid) (keyed : outline.Keyed previous) (uri : Option String) :
    Tame outline (build outline uri previous (scout.look source file suite).2).1 := by
  have start : Builder.Calm outline { outline, uri, previous } := by
    refine ⟨Tame.refl outline, fun frame member above placed => ?_⟩
    rw [List.mem_singleton.mp member] at placed
    cases placed
  obtain ⟨finished, calm, -, -, -, result⟩ := build_keeps sound keyed uri (scout.look_settled source file suite)
    (Builder.kept_calm outline fun definition member kind => scout.look_apart member kind) start
  rw [result]
  exact calm.tame

end TestScout.Outline

namespace TestScout.Editor
open Test Outline

variable {editor : Editor}

/-- Taking an item out of the outline puts nothing into any place. -/
theorem mem_of_mem_prune (levels : Nat) (ref : Ref) {outline : Outline} (removed : List (String × Ref)) (sound : outline.Valid)
    {place : Place} {child : Ref} (member : child ∈ (prune levels ref (outline, removed)).1.childrenOf place) :
    child ∈ outline.childrenOf place := by
  induction levels generalizing ref outline removed with
  | zero =>
    have last : prune 0 ref (outline, removed) = ((outline.delete (outline.parentOf ref) (outline.idOf ref)).1, removed) := by
      rw [prune.eq_def]
      cases below : outline.parentOf ref <;> simp only [below]
    rw [last] at member
    exact mem_of_mem_delete (sound.parents ref) member
  | succ levels ih =>
    cases below : outline.parentOf ref with
    | none =>
      rw [prune_top removed below] at member
      exact mem_of_mem_delete (inside_top outline) member
    | some parent =>
      have inside : outline.Inside (some parent) := below ▸ sound.parents ref
      rw [prune_below removed below] at member
      split at member
      · exact mem_of_mem_delete inside (ih parent _ ((moved_delete _ _).valid sound) member)
      · exact mem_of_mem_delete inside member

theorem tame_pruneAll (levels : Nat) (refs : List Ref) {outline : Outline} {removed : List (String × Ref)}
    (sound : outline.Valid) (keyed : outline.Keyed removed) :
    Tame outline (refs.foldl (fun state ref => prune levels ref state) (outline, removed)).1 := by
  induction refs generalizing outline removed with
  | nil => exact Tame.refl outline
  | cons ref rest ih =>
    obtain ⟨moved, known⟩ := moved_prune levels ref sound keyed
    exact (Tame.of_moved sound moved fun _ _ => mem_of_mem_prune levels ref removed sound).trans (ih (moved.valid sound) known)

theorem Sound.tame_takeOut (sound : editor.Sound) (file : Path) : Tame editor.outline (editor.takeOut file).1.outline := by
  unfold Editor.takeOut
  split
  · exact Tame.refl _
  next ids listed =>
    let taken := ids.eraseDups.filterMap fun id => (editor.index.lookup id).map (id, ·)
    have pruned := tame_pruneAll editor.outline.nodes.size
      ((taken.filter (·.2.definition.kind = .classLike)).map (·.2.ref)) sound.valid (sound.keyed_taken ids)
    rw [List.foldl_map] at pruned
    exact pruned

theorem tame_settle (sound : editor.outline.Valid) : Tame editor.outline editor.settle.outline :=
  .of_moved sound (moved_keep editor.known) fun place _ member => (keep_views editor.outline editor.known).2.2.1 place ▸ member

theorem Sound.tame_takeIn (sound : editor.Sound) (source : String) (file : Path) (suite : String) :
    Tame editor.outline (editor.takeIn source file suite).1.outline := by
  obtain ⟨without, keyed⟩ := sound.takeOut file
  have built := tame_build editor.scout source file (some suite) without.valid keyed file.address?
  have entered := (sound.tame_takeOut file).trans built
  obtain ⟨valid, -⟩ := build_stands without.valid keyed file.address? (editor.scout.look source file (some suite)).2
  rw [takeIn_eq]
  refine Tame.trans ?_ (tame_settle ?_)
  · rwa [outline_entered]
  · rwa [outline_entered]

theorem Sound.tame_drop (sound : editor.Sound) (entry : FileEntry) : Tame editor.outline (Tracker.drop editor entry).outline :=
  (sound.tame_takeOut entry.file).trans (tame_settle (sound.takeOut entry.file).1.valid)

/-- An editor is in order, and its data sets are. -/
structure Tidy (editor : Editor) : Prop extends editor.Sound where
  homed : editor.outline.Homed

end TestScout.Editor

namespace TestScout.Collection
open Editor

variable {collection : Collection Editor}

theorem tidy_store (collection : Collection Editor) (file : Path) (source suite : String) (tidy : collection.tracker.Tidy) :
    (collection.store file source suite).tracker.Tidy := by
  have parsed : (collection.tracker.takeIn source file suite).1.Tidy :=
    ⟨tidy.toSound.takeIn source file suite, tidy.homed.tame (tidy.toSound.tame_takeIn source file suite)⟩
  exact store_tracker_keeps parsed fun _ entry _ => ⟨parsed.toSound.drop entry, parsed.homed.tame (parsed.toSound.tame_drop entry)⟩

theorem tidy_released (collection : Collection Editor) (file : Path) (tidy : collection.tracker.Tidy) :
    (collection.released file).tracker.Tidy := by
  have removed : (collection.remove file).1.tracker.Tidy := by
    rcases collection.remove_cases file with ⟨-, same⟩ | ⟨entry, -, -, dropped⟩
    · rwa [same]
    · rw [dropped]
      exact ⟨tidy.toSound.drop entry, tidy.homed.tame (tidy.toSound.tame_drop entry)⟩
  exact ⟨⟨removed.valid, removed.index⟩, removed.homed⟩

theorem tidy_fresh (reader : Surface.Reader) (configuration : Configuration) :
    (fresh reader configuration).tracker.Tidy := by
  refine ⟨sound_fresh reader configuration, ?_⟩
  rw [fresh, ofConfiguration, (seed_setting _).2]
  intro above other child held
  cases held.1

theorem tidy_perform (tidy : collection.tracker.Tidy) (action : Action) : (collection.perform action).tracker.Tidy := by
  let kept := fun collection : Collection Editor => collection.tracker.Tidy
  cases action with
  | update file source => exact update_preserves (motive := kept) tidy tidy_store file source
  | delete file => exact delete_preserves (motive := kept) tidy tidy_store tidy_released file
  | reset =>
    have emptied : collection.emptied.tracker.Tidy := released_all_preserves (motive := kept) tidy tidy_released _
    exact ⟨⟨emptied.valid, emptied.index⟩, emptied.homed⟩
  | configure configuration =>
    rw [perform, configure, (seed_setting _).2]
    exact ⟨⟨tidy.valid, tidy.index⟩, tidy.homed⟩
  | hold refs =>
    have held : ({ collection.tracker with held := refs } : Editor).Sound := ⟨tidy.valid, tidy.index⟩
    exact ⟨held.settle, tidy.homed.tame (tame_settle held.valid)⟩

end TestScout.Collection

namespace TestScout.Runner
open Test Outline Editor

theorem homed_adopt {outline : Outline} (sound : outline.Valid) (homed : outline.Homed) {parent : Ref}
    (exist : parent < outline.nodes.size) {item : Item} (new : outline.child? (some parent) item.id = none) :
    (outline.adopt parent item).Homed := by
  obtain ⟨-, -, ids, children⟩ := adopt_views sound exist new
  -- The new item is below its parent only, and all others are where they were.
  have held : ∀ above child, (outline.adopt parent item).HoldsDataSet above child →
      child = outline.nodes.size ∧ above = parent ∨ child < outline.nodes.size ∧ outline.HoldsDataSet above child := by
    rintro above child ⟨member, named⟩
    rw [children] at member
    rcases List.mem_append.mp member with old | last
    · have valid := sound.children _ child old
      rw [ids, ids, if_neg (Nat.ne_of_lt (valid_of_child old)), if_neg (Nat.ne_of_lt valid)] at named
      exact .inr ⟨valid, old, named⟩
    · split at last
      next here => exact .inl ⟨List.mem_singleton.mp last, Option.some.inj here⟩
      next => cases last
  intro above other child here there
  rcases held above child here with ⟨rfl, rfl⟩ | ⟨valid, first⟩
  · rcases held other _ there with ⟨-, same⟩ | ⟨valid, -⟩
    · exact same.symm
    · exact absurd valid (Nat.lt_irrefl _)
  · rcases held other child there with ⟨rfl, -⟩ | ⟨-, second⟩
    · exact absurd valid (Nat.lt_irrefl _)
    · exact homed above other child first second

namespace Replay

variable {replay : Replay} {editor : Editor} {event : Event} {parent : Ref} {definition : Definition} {key : String}

/-- An editor in which the item of a data set has been made. -/
def grafted (editor : Editor) (parent : Ref) (definition : Definition) (key : String) : Editor :=
  { editor with outline := editor.outline.adopt parent (itemOf (editor.outline.item parent) definition (definition.dataSetChild key)) }

theorem target?_of_child (hears : Hears replay editor event parent definition key) {ref : Ref}
    (found : editor.outline.child? (some parent) (definition.dataSetChild key).id = some ref) :
    replay.target? editor event.result = some (editor, ref) := by
  simp only [target?, hears.queued, hears.defined, Definition.dataSetChild?, hears.named, Option.map_some, Option.bind_eq_bind,
    Option.bind_some, found, Option.pure_def]

theorem target?_of_new (hears : Hears replay editor event parent definition key)
    (new : editor.outline.child? (some parent) (definition.dataSetChild key).id = none) :
    replay.target? editor event.result = some (grafted editor parent definition key, editor.outline.nodes.size) := by
  simp only [target?, hears.queued, hears.defined, Definition.dataSetChild?, hears.named, Option.map_some, Option.bind_eq_bind,
    Option.bind_some, new, Option.pure_def]
  rfl

theorem editor_dispatch (replay : Replay) (editor : Editor) (event : Event) :
    (replay.dispatch editor event).2.1 = ((replay.target? editor event.result).map (·.1)).getD editor := by
  unfold dispatch
  cases replay.target? editor event.result <;> rfl

theorem tidy_dispatch (ready : Ready replay editor) (homed : editor.outline.Homed) (event : Event) :
    (replay.dispatch editor event).2.1.outline.Homed := by
  rw [editor_dispatch]
  by_cases heard : ∃ parent definition key, Hears replay editor event parent definition key
  · obtain ⟨parent, definition, key, hears⟩ := heard
    cases found : editor.outline.child? (some parent) (definition.dataSetChild key).id with
    | some ref =>
      rw [target?_of_child hears found]
      exact homed
    | none =>
      rw [target?_of_new hears found]
      exact homed_adopt ready.sound.valid homed (ready.queue _ (mem_of_lookup hears.queued)) found
  · have unheard : ∀ parent definition key, ¬Hears replay editor event parent definition key :=
      fun parent definition key hears => heard ⟨parent, definition, key, hears⟩
    rw [target?_eq_none unheard]
    exact homed

theorem tidy_play (ready : Ready replay editor) (homed : editor.outline.Homed) (events : List Event) :
    (replay.play editor events).2.1.outline.Homed := by
  induction events generalizing replay editor with
  | nil => exact homed
  | cons event rest ih => exact ih (ready.dispatch event).1 (tidy_dispatch ready homed event)

end Replay

/-- Whatever happens to files and whatever runs report, no item is below two others like a data set below its test. -/
theorem Reached.tidy {collection : Collection Editor} (reached : Reached collection) : collection.tracker.Tidy := by
  induction reached with
  | fresh reader configuration => exact Collection.tidy_fresh reader configuration
  | perform _ action tidy => exact Collection.tidy_perform tidy action
  | play _ refs exist events tidy =>
    have ready := Replay.Ready.start tidy.toSound exist
    exact ⟨(ready.play events).1.sound, Replay.tidy_play ready tidy.homed events⟩

end TestScout.Runner
