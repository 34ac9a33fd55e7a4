import TestScout.Proofs.BuilderBeds
import TestScout.Proofs.CollectionHistory
import TestScout.Proofs.EditorLedger

/-! Taking in a file. Its items are added to the account of the editor, each below the one it belongs to, and the other
files keep what they have. -/

namespace TestScout.Outline
open Test

variable {ids : Ref → String} {bed : Bed} {beds : List Bed} {above front back : List Ref} {ref : Ref}

/-! ## The items of a file -/

namespace Added

variable {live alive : Ref → Prop} {outline result : Outline} (added : Added live outline beds alive result)
  (shaped : ∀ bed ∈ beds, bed.block.Shaped)
include added

theorem alive_iff : alive ref ↔ live ref ∨ ∃ bed ∈ beds, ref ∈ bed.spaces ∨ ∃ item ∈ bed.items, item.1 = ref := by
  refine (added.living ref).trans (or_congr_right ?_)
  simp only [← Bed.mem_refs, List.mem_flatMap]
  exact ⟨fun ⟨planting, ⟨bed, inside, member⟩, same⟩ => ⟨bed, inside, planting, member, same⟩,
    fun ⟨bed, inside, planting, member, same⟩ => ⟨planting, ⟨bed, inside, member⟩, same⟩⟩

include shaped

/-- Below the last segment of a namespace there are the classes of the block, and below the others the next one. -/
theorem space_filled (inside : bed ∈ beds) (member : ref ∈ bed.spaces) : result.childrenOf (some ref) ≠ [] := by
  obtain ⟨front, back, split⟩ := List.append_of_mem member
  cases back with
  | nil =>
    obtain ⟨first, rest, listed, -⟩ := first_item (shaped bed inside) (added.sown bed inside).items
    have trail : ([], first) ∈ trails (fun item : Ref × Definition => item.2.depth) [] bed.items := by
      rw [listed]
      exact List.mem_cons_self
    obtain ⟨held, -⟩ := added.planted inside (Bed.item_mem_plantings trail)
    have place : (⟨bed.spaces ++ [], first.1, true⟩ : Planting).place = some ref := by simp [Planting.place, split]
    exact List.ne_nil_of_mem (place ▸ held)
  | cons next back =>
    have deeper : bed.spaces = (front ++ [ref]) ++ next :: back := by simp [split]
    obtain ⟨held, -⟩ := added.planted inside (Bed.space_mem_plantings deeper)
    have place : (⟨front ++ [ref], next, false⟩ : Planting).place = some ref := by simp [Planting.place]
    exact List.ne_nil_of_mem (place ▸ held)

theorem class_path (inside : bed ∈ beds) {item : Ref × Definition} (member : item ∈ bed.items)
    (kind : item.2.kind = .classLike) :
    bed.spaces.map result.idOf = spaceIds item.2.space ∧ Chain result.Holds none (bed.spaces ++ [item.1]) := by
  have sown := added.sown bed inside
  obtain ⟨above, trail⟩ : ∃ above, (above, item) ∈ trails (·.2.depth) [] bed.items := exists_trail member
  obtain rfl := class_trail (shaped bed inside) sown.items trail kind
  obtain ⟨-, lies⟩ := added.planted inside (Bed.item_mem_plantings trail)
  rcases item_kind (shaped bed inside) sown.items member with ⟨-, -, space⟩ | ⟨other, -⟩
  · refine ⟨?_, ?_⟩
    · rw [sown.spaces, space]
    · rwa [List.map_nil, List.reverse_nil, List.append_nil] at lies
  · exact absurd kind other

theorem member_parent {above : List (Ref × Definition)} {item : Ref × Definition}
    (trail : (above, item) ∈ trails (·.2.depth) [] (beds.flatMap (·.items))) (kind : item.2.kind ≠ .classLike) :
    ∃ parent ∈ above.head?, result.Holds (some parent.1) item.1 := by
  obtain ⟨bed, inside, inner, outer, rfl, linked⟩ := trails_beds added.sown shaped trail
  have nonempty := member_trail (shaped bed inside) (added.sown bed inside).items linked kind
  obtain ⟨held, -⟩ := added.planted inside (Bed.item_mem_plantings linked)
  cases inner with
  | nil => exact absurd rfl nonempty
  | cons closest inner =>
    refine ⟨closest, rfl, ?_⟩
    have place : (⟨bed.spaces ++ ((closest :: inner).map (·.1)).reverse, item.1, true⟩ : Planting).place =
        some closest.1 := by simp [Planting.place]
    exact place ▸ held

end Added

end TestScout.Outline

namespace TestScout
open Test Outline

/-! ## The account with a new file -/

namespace Editor

variable {editor second : Editor} {ledger : Ledger} {spaces alive : Ref → Prop} {file : Path} {beds : List Bed}

theorem alive_added (file : Path) (added : Added (ledger.Alive spaces) editor.outline beds alive second.outline) : alive =
    (ledger.add file (beds.flatMap (·.items))).Alive fun ref => spaces ref ∨ ∃ bed ∈ beds, ref ∈ bed.spaces := by
  funext ref
  refine propext (added.alive_iff.trans ?_)
  rw [Ledger.Alive, Ledger.Alive, Ledger.items_add]
  simp only [List.mem_append, List.mem_flatMap]
  constructor
  · rintro ((⟨item, member, same⟩ | space) | ⟨bed, inside, space | ⟨item, member, same⟩⟩)
    · exact .inl ⟨item, .inl member, same⟩
    · exact .inr (.inl space)
    · exact .inr (.inr ⟨bed, inside, space⟩)
    · exact .inl ⟨item, .inr ⟨bed, inside, member⟩, same⟩
  · rintro (⟨item, member | ⟨bed, inside, member⟩, same⟩ | space | ⟨bed, inside, space⟩)
    · exact .inl (.inl ⟨item, member, same⟩)
    · exact .inr ⟨bed, inside, .inr ⟨item, member, same⟩⟩
    · exact .inl (.inr space)
    · exact .inr ⟨bed, inside, .inl space⟩

theorem Mirror.add (mirror : Mirror editor ledger spaces) (shaped : ∀ bed ∈ beds, bed.block.Shaped)
    (added : Added (ledger.Alive spaces) editor.outline beds alive second.outline)
    (plain : ∀ item ∈ beds.flatMap (·.items), ∀ name, item.2.id ≠ spaceMark ++ name)
    (register : Register second (ledger.add file (beds.flatMap (·.items)))) :
    Mirror second (ledger.add file (beds.flatMap (·.items))) fun ref => spaces ref ∨ ∃ bed ∈ beds, ref ∈ bed.spaces := by
  have all := ledger.items_add file (beds.flatMap (·.items))
  have in_bed : ∀ item ∈ beds.flatMap (·.items), ∃ bed ∈ beds, item ∈ bed.items := fun _ => List.mem_flatMap.mp
  have living := alive_added file added
  have old_id : ∀ ref, ledger.Alive spaces ref → second.outline.idOf ref = editor.outline.idOf ref := fun ref living =>
    added.ids ref (mirror.forested.valid ref living)
  have path : ∀ {front : List Ref}, Chain editor.outline.Holds none front → Chain second.outline.Holds none front :=
    added.old_path mirror.forested Open.top
  exact {
    toRegister := register
    plain := fun item member => (List.mem_append.mp (all ▸ member)).elim (mirror.plain item) (plain item)
    marked := fun ref space => by
      rcases space with old | ⟨bed, inside, new⟩
      · exact old_id ref (.inr old) ▸ mirror.marked ref old
      · exact marked_of_mem_spaceIds ((added.sown bed inside).spaces ▸ List.mem_map_of_mem new)
    forested := living ▸ added.forested
    rooted := fun ref alive => by
      rw [← living, added.living] at alive
      rcases alive with old | ⟨planting, member, rfl⟩
      · obtain ⟨front, lies⟩ := mirror.rooted ref old
        exact ⟨front, path lies⟩
      · obtain ⟨bed, inside, planted⟩ := List.mem_flatMap.mp member
        exact ⟨planting.path, (added.planted inside planted).2⟩
    upper := fun ref space => by
      rcases space with old | ⟨bed, inside, new⟩
      · obtain ⟨front, within, lies⟩ := mirror.upper ref old
        exact ⟨front, fun above member => .inl (within above member), path lies⟩
      · obtain ⟨front, back, split⟩ := List.append_of_mem new
        exact ⟨front, fun above member => .inr ⟨bed, inside, by simp [split, member]⟩,
          (added.planted inside (Bed.space_mem_plantings split)).2⟩
    filled := fun ref space => by
      rcases space with old | ⟨bed, inside, new⟩
      · obtain ⟨child, member⟩ := List.exists_mem_of_ne_nil _ (mirror.filled ref old)
        exact List.ne_nil_of_mem (added.old (Open.below (.inr old)) member)
      · exact added.space_filled shaped inside new
    classes := fun item member kind => by
      rcases List.mem_append.mp (all ▸ member) with old | new
      · obtain ⟨front, within, segments, lies⟩ := mirror.classes item old kind
        refine ⟨front, fun above member => .inl (within above member), ?_, path lies⟩
        exact (List.map_congr_left fun above member => old_id above (.inr (within above member))).trans segments
      · obtain ⟨bed, inside, listed⟩ := in_bed item new
        obtain ⟨segments, lies⟩ := added.class_path shaped inside listed kind
        exact ⟨bed.spaces, fun above member => .inr ⟨bed, inside, member⟩, segments, lies⟩
    members := fun entry member above item trail kind => by
      rcases Ledger.mem_add.mp member with old | ⟨-, rfl⟩
      · obtain ⟨parent, closest, shown⟩ := mirror.members entry old above item trail kind
        have around := ((mem_of_mem_trails trail).2 parent (List.mem_of_head? closest)).resolve_left nofun
        exact ⟨parent, closest, added.old (Open.below (.inl ⟨parent, Ledger.mem_items.mpr ⟨entry, old, around⟩, rfl⟩)) shown⟩
      · exact added.member_parent shaped trail kind }

/-- The namespaces of blocks are related as the blocks are. -/
theorem pairwise_blocks {blocks : List SpaceBlock} (shaped : ∀ block ∈ blocks, block.Shaped) {near : String → Prop}
    (spread : ((blocks.flatMap SpaceBlock.events).filter (·.kind = .space)).Pairwise fun first second =>
      ∀ id, (spaceIds (some first.label)).head? = some id → (spaceIds (some second.label)).head? = some id → near id) :
    blocks.Pairwise fun block other => ∀ id, (spaceIds (block.space.map (·.label))).head? = some id →
      (spaceIds (other.space.map (·.label))).head? = some id → near id := by
  have spaces : (blocks.flatMap SpaceBlock.events).filter (·.kind = .space) = blocks.flatMap (·.space.toList) := by
    rw [List.filter_flatMap]
    refine List.flatMap_congr fun block member => ?_
    have shaped := shaped block member
    have spaces : block.space.toList.filter (·.kind = .space) = block.space.toList :=
      List.filter_eq_self.mpr fun space found => by simp [(shaped.space space (Option.mem_toList.mp found)).1]
    have classes : block.classes.labels.filter (·.kind = .space) = [] :=
      List.filter_eq_nil_iff.mpr fun definition found => by simpa using shaped.item found
    rw [SpaceBlock.events, List.filter_append, spaces, classes, List.append_nil]
  rw [spaces, List.pairwise_flatMap] at spread
  refine spread.2.imp fun {block other} related id first second => ?_
  cases space : block.space with
  | none => simp [space, spaceIds] at first
  | some here =>
    cases again : other.space with
    | none => simp [again, spaceIds] at second
    | some there =>
      rw [space] at first
      rw [again] at second
      exact related here (by simp [space]) there (by simp [again]) id first second

/-- A file is taken in, and nothing else changes. Its ids have to be new, and namespaces of it that start alike have to
be at the top without the file. -/
theorem Mirror.takeIn (mirror : Mirror editor ledger spaces) (source : String) (file : Path) (suite : String)
    (novel : ∀ definition ∈ (editor.scout.look source file (some suite)).2.filter (·.kind != .space),
      ∀ old ∈ (ledger.without file).items, old.2.id ≠ definition.id)
    (distinct : (((editor.scout.look source file (some suite)).2.filter (·.kind != .space)).map (·.id)).Nodup)
    (plain : ∀ definition ∈ (editor.scout.look source file (some suite)).2.filter (·.kind != .space),
      ∀ name, definition.id ≠ spaceMark ++ name)
    (spread : ((editor.scout.look source file (some suite)).2.filter (·.kind = .space)).Pairwise fun first second =>
      ∀ id, (spaceIds (some first.label)).head? = some id → (spaceIds (some second.label)).head? = some id →
        ∃ ref ∈ (editor.takeOut file).1.outline.top, (editor.takeOut file).1.outline.idOf ref = id) :
    ∃ left, (editor.builtItems source file suite).map (·.2) =
        (editor.scout.look source file (some suite)).2.filter (·.kind != .space) ∧
      Mirror (editor.takeIn source file suite).1 ((ledger.without file).add file (editor.builtItems source file suite)) left ∧
      ∀ item ∈ (ledger.without file).items,
        (editor.takeIn source file suite).1.outline.parentOf item.1 = editor.outline.parentOf item.1 := by
  obtain ⟨left, without, spare, parents⟩ := mirror.takeOut file
  obtain ⟨blocks, shaped, found⟩ := editor.scout.look_blocks source file (some suite)
  have labelled := SpaceBlock.definitions_of_blocks shaped
  rw [← found] at labelled
  rw [labelled] at novel distinct plain ⊢
  obtain ⟨beds, alive, blocks_eq, built, added⟩ := build_adds without.forested spare file.address? shaped (by
    rintro definition member ref (⟨item, listed, rfl⟩ | space) same
    · exact novel definition member item listed ((without.named item listed).symm.trans same)
    · obtain ⟨name, marked⟩ := without.marked ref space
      exact plain definition member name (same.symm.trans marked)) distinct plain (pairwise_blocks shaped (found ▸ spread))
  rw [← found] at built added
  have labels : (beds.flatMap (·.items)).map (·.2) = blocks.flatMap (·.classes.labels) :=
    blocks_eq ▸ items_of_beds added.sown
  rw [← labels] at novel distinct plain
  rw [List.map_map] at distinct
  have items : editor.builtItems source file suite = beds.flatMap (·.items) := built
  have in_blocks : ∀ bed ∈ beds, bed.block.Shaped := fun bed member => shaped bed.block (blocks_eq ▸ List.mem_map_of_mem member)
  have away : ∀ entry ∈ ledger.without file, entry.1.same file = false := fun entry member =>
    (Ledger.mem_without.mp member).2
  let looked := editor.scout.look source file (some suite)
  let result := (Outline.build (editor.takeOut file).1.outline file.address? (editor.takeOut file).2 looked.2).1
  let second := (editor.takeOut file).1.entered looked.1 result file (beds.flatMap (·.items))
  have shown : Added ((ledger.without file).Alive left) (editor.takeOut file).1.outline beds alive second.outline := by
    rw [outline_entered]
    exact added
  have register : Register second ((ledger.without file).add file (beds.flatMap (·.items))) := by
    refine without.toRegister.entered away looked.1 ?_ ?_ distinct ?_
    · intro item member
      exact added.ids item.1 (without.forested.valid item.1 (.inl ⟨item, member, rfl⟩))
    · intro item member
      exact novel item.2 (List.mem_map_of_mem member)
    · intro item member
      obtain ⟨bed, inside, listed⟩ := List.mem_flatMap.mp member
      exact (added.sown bed inside).named item listed
  -- An item has its parent from its path, and no path that was there is lost.
  have next := without.add in_blocks shown (fun item member => plain item.2 (List.mem_map_of_mem member)) register
  rw [takeIn_eq, items]
  refine ⟨_, labels, next.settle, fun item member => ?_⟩
  obtain ⟨front, lies⟩ := without.rooted item.1 (.inl ⟨item, member, rfl⟩)
  have path := shown.old_path without.forested Open.top lies
  have still : (ledger.without file).Alive left item.1 := .inl ⟨item, member, rfl⟩
  rw [← parents item.1 still, (without.forested.parent_of_path lies).2]
  exact (next.settle.forested.parent_of_path (Mirror.holds_settle second ▸ path)).2

end Editor
end TestScout
