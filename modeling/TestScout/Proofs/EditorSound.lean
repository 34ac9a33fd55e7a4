import TestScout.Proofs.EditorGroups

/-! What holds of an editor whatever definitions it is given, also when several of them have one id: all places exist, and
everything in the index is there under its own id. -/

namespace TestScout
open Test Outline

namespace Outline

variable {outline : Outline}

namespace Builder

variable {builder : Builder}

/-- What has been built exists and goes by its own id. -/
structure Stands (builder : Builder) : Prop extends builder.Tended where
  built : ∀ item ∈ builder.built, item.1 < builder.outline.nodes.size ∧ builder.outline.idOf item.1 = item.2.id

theorem Stands.advance {among : String → Prop} {next : Builder} (stands : builder.Stands) (advances : Advances among builder next)
    (same : next.built = builder.built) : next.Stands where
  toTended := advances.tended
  built item member := by
    obtain ⟨valid, id⟩ := stands.built item (same ▸ member)
    exact ⟨Nat.lt_of_lt_of_le valid advances.retagged.size, (advances.retagged.ids item.1 valid).trans id⟩

theorem Stands.take (stands : builder.Stands) (definition : Definition) (index : Nat) :
    (builder.take definition index).Stands ∧ Retagged (fun _ => True) builder.outline (builder.take definition index).outline := by
  unfold Builder.take
  split
  · obtain ⟨closed, -⟩ := stands.toTended.ascend definition.depth
    let segments := ((Text.splitAt (· == '\\') definition.label.toList).map String.ofList).filter (!·.isEmpty)
    obtain ⟨-, opened, built, -⟩ := closed.tended.addSegments definition.depth (qualifiedSegments "" segments)
    have all := closed.trans opened
    exact ⟨stands.advance all (built.trans rfl), all.retagged.weaken nofun⟩
  · obtain ⟨ref, added, built, -, valid, id, -⟩ := stands.toTended.addItem definition index
    refine ⟨⟨added.tended, ?_⟩, added.retagged.weaken fun _ _ => trivial⟩
    intro item member
    rw [built] at member
    rcases List.mem_append.mp member with old | new
    · obtain ⟨exist, same⟩ := stands.built item old
      exact ⟨Nat.lt_of_lt_of_le exist added.retagged.size, (added.retagged.ids item.1 exist).trans same⟩
    · rw [List.mem_singleton.mp new]
      exact ⟨valid, id⟩

end Builder

/-- What is built for any definitions is in order. Items that were there before stay. -/
theorem build_stands {previous : List (String × Ref)} (sound : outline.Valid) (keyed : outline.Keyed previous)
    (uri : Option String) (definitions : List Definition) :
    let built := build outline uri previous definitions
    built.1.Valid ∧ outline.nodes.size ≤ built.1.nodes.size ∧
      (∀ ref < outline.nodes.size, built.1.idOf ref = outline.idOf ref) ∧
      ∀ item ∈ built.2, item.1 < built.1.nodes.size ∧ built.1.idOf item.1 = item.2.id := by
  let start : Builder := { outline, uri, previous }
  have begun : start.Stands := ⟨Builder.tended_start sound keyed uri, List.forall_mem_nil _⟩
  have taken : ∀ (entries : List (Definition × Nat)) (builder : Builder), builder.Stands →
      (builder.takeAll entries).Stands ∧ Retagged (fun _ => True) builder.outline (builder.takeAll entries).outline := by
    intro entries
    induction entries with
    | nil => exact fun builder stands => ⟨stands, (Moved.refl _).retagged.weaken fun _ => False.elim⟩
    | cons entry rest ih =>
      intro builder stands
      obtain ⟨next, here⟩ := stands.take entry.1 entry.2
      obtain ⟨last, later⟩ := ih _ next
      exact ⟨last, here.trans later⟩
  obtain ⟨stands, grown⟩ := taken definitions.zipIdx start begun
  obtain ⟨closed, -⟩ := stands.toTended.ascend 0
  have finished := stands.advance closed rfl
  have all := grown.trans (closed.retagged.weaken fun _ => False.elim)
  exact ⟨finished.valid, all.size, all.ids, finished.built⟩

end Outline

namespace Editor

structure Sound (editor : Editor) : Prop where
  valid : editor.outline.Valid
  index : ∀ entry ∈ editor.index, entry.2.definition.id = entry.1 ∧ entry.2.ref < editor.outline.nodes.size ∧
    editor.outline.idOf entry.2.ref = entry.1

variable {editor : Editor}

theorem Sound.definition?_id (sound : editor.Sound) {id : String} {definition : Definition}
    (found : editor.definition? id = some definition) : definition.id = id ∧ ∃ entry ∈ editor.index, entry.1 = id := by
  obtain ⟨indexed, listed, rfl⟩ := Option.map_eq_some_iff.mp found
  have member := mem_of_lookup listed
  exact ⟨(sound.index _ member).1, _, member, rfl⟩

/-- Nothing but places has changed, and the index has lost entries at most. -/
theorem Sound.moved (sound : editor.Sound) {next : Editor} (moved : Moved editor.outline next.outline)
    (fewer : ∀ entry ∈ next.index, entry ∈ editor.index) : next.Sound where
  valid := moved.valid sound.valid
  index entry member := by
    obtain ⟨own, valid, id⟩ := sound.index entry (fewer entry member)
    exact ⟨own, moved.size ▸ valid, (moved.idOf entry.2.ref).trans id⟩

theorem Sound.settle (sound : editor.Sound) : editor.settle.Sound := sound.moved (moved_keep editor.known) fun _ => id

/-- What is remembered of a file goes by the ids that its items have. -/
theorem Sound.keyed_taken (sound : editor.Sound) (ids : List String) :
    editor.outline.Keyed ((ids.eraseDups.filterMap fun id => (editor.index.lookup id).map (id, ·)).map
      fun (id, indexed) => (id, indexed.ref)) := by
  intro entry member
  obtain ⟨⟨id, indexed⟩, inside, rfl⟩ := List.mem_map.mp member
  obtain ⟨other, -, found⟩ := List.mem_filterMap.mp inside
  obtain ⟨_, held, same⟩ := Option.map_eq_some_iff.mp found
  obtain ⟨rfl, rfl⟩ := Prod.mk.injEq .. ▸ same
  exact (sound.index _ (mem_of_lookup held)).2

theorem Sound.takeOut (sound : editor.Sound) (file : Path) :
    (editor.takeOut file).1.Sound ∧ (editor.takeOut file).1.outline.Keyed (editor.takeOut file).2 := by
  unfold Editor.takeOut
  split
  · exact ⟨sound, List.forall_mem_nil _⟩
  next ids listed =>
    let taken := ids.eraseDups.filterMap fun id => (editor.index.lookup id).map (id, ·)
    have pruned := moved_pruneAll editor.outline.nodes.size
      ((taken.filter (·.2.definition.kind = .classLike)).map (·.2.ref)) sound.valid (sound.keyed_taken ids)
    rw [List.foldl_map] at pruned
    exact ⟨sound.moved pruned.1 fun entry member => (List.mem_filter.mp member).1, pruned.2⟩

/-- Items that exist are added to the index under their own ids. -/
theorem Sound.indexAll (items : List (Ref × Definition)) {editor : Editor} (sound : editor.Sound)
    (exist : ∀ item ∈ items, item.1 < editor.outline.nodes.size ∧ editor.outline.idOf item.1 = item.2.id) :
    (items.foldl (fun editor (ref, definition) => editor.indexItem ref definition) editor).Sound := by
  induction items generalizing editor with
  | nil => exact sound
  | cons item rest ih =>
    refine ih ⟨sound.valid, ?_⟩ fun other later => exist other (List.mem_cons_of_mem _ later)
    intro entry member
    rcases List.mem_append.mp member with old | new
    · exact sound.index entry (List.mem_filter.mp old).1
    · rw [List.mem_singleton.mp new]
      exact ⟨rfl, exist item List.mem_cons_self⟩

theorem Sound.takeIn (sound : editor.Sound) (source : String) (file : Path) (suite : String) :
    (editor.takeIn source file suite).1.Sound := by
  obtain ⟨without, keyed⟩ := sound.takeOut file
  obtain ⟨valid, size, ids, exist⟩ :=
    build_stands without.valid keyed file.address? (editor.scout.look source file (some suite)).2
  rw [takeIn_eq]
  apply Sound.settle
  let outline := (Outline.build (editor.takeOut file).1.outline file.address? (editor.takeOut file).2
    (editor.scout.look source file (some suite)).2).1
  have grown : ({ (editor.takeOut file).1 with
      scout := (editor.scout.look source file (some suite)).1, outline } : Editor).Sound := by
    refine ⟨valid, ?_⟩
    intro entry member
    obtain ⟨own, inside, id⟩ := without.index entry member
    exact ⟨own, Nat.lt_of_lt_of_le inside size, (ids _ inside).trans id⟩
  have indexed := grown.indexAll (editor.builtItems source file suite) exist
  exact ⟨indexed.valid, indexed.index⟩

theorem Sound.drop (sound : editor.Sound) (entry : FileEntry) : (Tracker.drop editor entry).Sound :=
  (sound.takeOut entry.file).1.settle

end Editor

namespace Collection
open Editor

variable {collection : Collection Editor}

theorem sound_store (collection : Collection Editor) (file : Path) (source suite : String) (sound : collection.tracker.Sound) :
    (collection.store file source suite).tracker.Sound :=
  store_tracker_keeps (sound.takeIn source file suite) fun _ entry _ => (sound.takeIn source file suite).drop entry

theorem sound_released (collection : Collection Editor) (file : Path) (sound : collection.tracker.Sound) :
    (collection.released file).tracker.Sound := by
  have removed : (collection.remove file).1.tracker.Sound := by
    rcases collection.remove_cases file with ⟨-, same⟩ | ⟨entry, -, -, dropped⟩
    · rwa [same]
    · rw [dropped]
      exact sound.drop entry
  exact ⟨removed.valid, removed.index⟩

theorem sound_fresh (reader : Surface.Reader) (configuration : Configuration) :
    (fresh reader configuration).tracker.Sound := by
  rw [fresh, ofConfiguration, (seed_setting _).2]
  refine ⟨⟨?_, ?_⟩, nofun⟩
  · intro place ref member
    cases place <;> cases member
  · intro ref above same
    cases same

theorem sound_perform (sound : collection.tracker.Sound) (action : Action) : (collection.perform action).tracker.Sound := by
  let kept := fun collection : Collection Editor => collection.tracker.Sound
  cases action with
  | update file source => exact update_preserves (motive := kept) sound sound_store file source
  | delete file => exact delete_preserves (motive := kept) sound sound_store sound_released file
  | reset =>
    have emptied : collection.emptied.tracker.Sound := released_all_preserves (motive := kept) sound sound_released _
    exact ⟨emptied.valid, emptied.index⟩
  | configure configuration =>
    rw [perform, configure, (seed_setting _).2]
    exact ⟨sound.valid, sound.index⟩
  | hold refs =>
    have held : ({ collection.tracker with held := refs } : Editor).Sound := ⟨sound.valid, sound.index⟩
    exact held.settle

end Collection

end TestScout
