import Mathlib.Data.List.Basic
import TestScout.Proofs.BuilderRun
import TestScout.Proofs.DefinitionTrails

/-! Building a file whose definitions have ids of their own takes nothing away from the outline. An item at the top
could only be replaced by that of a namespace that is not at the top yet and that the file
names twice. -/

namespace TestScout.Outline
open Test

/-- Plantings that find no item of their id, except those of namespaces that are there already. -/
structure Additive (ids : Ref → String) (top : List Ref) (before : Sight) (plantings : List Planting) : Prop where
  items : ∀ planting ∈ plantings, planting.clears = true → ∀ ref, before.live ref → ids ref ≠ ids planting.ref
  spaces : ∀ planting ∈ plantings, planting.clears = false → planting.path = [] →
    ∀ ref, before.shows none ref → ids ref = ids planting.ref → ref ∈ top
  kept : ∀ ref ∈ top, before.shows none ref
  apart : plantings.Pairwise fun first second =>
    (second.clears = true → ids first.ref ≠ ids second.ref) ∧
      (second.clears = false → first.path = [] → second.path = [] → ids first.ref = ids second.ref →
        ∃ ref ∈ top, ids ref = ids second.ref)

variable {ids : Ref → String} {top : List Ref} {before after : Sight} {planting : Planting} {plantings : List Planting}

theorem Planting.place_eq_none (planting : Planting) : planting.place = none ↔ planting.path = [] :=
  List.getLast?_eq_none_iff

theorem Additive.step (additive : Additive ids top before (planting :: plantings))
    (grows : Grows ids top before planting after) :
    (∀ place ref, after.shows place ref ↔ before.shows place ref ∨ place = planting.place ∧ ref = planting.ref) ∧
      Additive ids top after plantings := by
  have novel := additive.items planting List.mem_cons_self
  have alone := additive.spaces planting List.mem_cons_self
  obtain ⟨first, apart⟩ := List.pairwise_cons.mp additive.apart
  -- What is shown under the id of a namespace is the item that is found.
  have found : planting.clears = false → ∀ ref, before.shows planting.place ref → ids ref = ids planting.ref →
      ref = planting.ref := by
    intro space ref shown same
    refine (grows.found space ref shown same).mpr ?_
    by_cases root : planting.path = []
    · exact .inr (alone space root ref (planting.place_eq_none.mpr root ▸ shown) same)
    · exact .inl root
  have shows : ∀ place ref, after.shows place ref ↔
      before.shows place ref ∨ place = planting.place ∧ ref = planting.ref := by
    intro place ref
    rw [grows.shows]
    constructor
    · rintro (planted | ⟨shown, -⟩)
      · exact .inr planted
      · exact .inl shown
    · rintro (shown | planted)
      · cases clears : planting.clears with
        | true =>
          refine .inr ⟨shown, fun _ => novel clears ref (before.alive place ref shown), fun _ below => ?_⟩
          exact novel clears planting.ref (before.opened place ref shown _ below) rfl
        | false =>
          by_cases here : place = planting.place ∧ ids ref = ids planting.ref
          · obtain ⟨rfl, same⟩ := here
            exact .inl ⟨rfl, found clears ref shown same⟩
          · exact .inr ⟨shown, fun place same => here ⟨place, same⟩, nofun⟩
      · exact .inl planted
  refine ⟨shows, ⟨?_, ?_, fun ref member => (shows none ref).mpr (.inl (additive.kept ref member)), apart⟩⟩
  · intro later member clears ref living
    rcases (grows.live ref).mp living with rfl | old
    · exact (first later member).1 clears
    · exact additive.items later (List.mem_cons_of_mem _ member) clears ref old
  · intro later member space root ref shown same
    rcases (shows none ref).mp shown with old | ⟨place, rfl⟩
    · exact additive.spaces later (List.mem_cons_of_mem _ member) space root ref old same
    · obtain ⟨known, listed, equal⟩ :=
        (first later member).2 space (planting.place_eq_none.mp place.symm) root same
      have there := additive.kept known listed
      have match_id := equal.trans same.symm
      cases clears : planting.clears with
      | true => exact absurd match_id (novel clears known (before.alive none known there))
      | false => exact found clears known (place ▸ there) match_id ▸ listed

/-- Whatever was shown is still shown, together with what was planted. -/
theorem Traced.added (traced : Traced ids top plantings before after) (additive : Additive ids top before plantings) :
    (∀ place ref, after.shows place ref ↔
        before.shows place ref ∨ ∃ planting ∈ plantings, place = planting.place ∧ ref = planting.ref) ∧
      (∀ ref, after.live ref ↔ before.live ref ∨ ∃ planting ∈ plantings, ref = planting.ref) ∧
      ∀ planting ∈ plantings, Chain after.shows none planting.path := by
  induction plantings generalizing before with
  | nil =>
    obtain rfl : before = after := traced
    simp
  | cons planting rest ih =>
    obtain ⟨middle, grows, traced⟩ := traced
    obtain ⟨step, additive⟩ := additive.step grows
    obtain ⟨shows, live, paths⟩ := ih traced additive
    refine ⟨fun place ref => ?_, fun ref => ?_, List.forall_mem_cons.mpr ⟨?_, paths⟩⟩
    · simp only [shows, step, List.mem_cons, exists_eq_or_imp, or_assoc]
    · simp only [live, grows.live, List.mem_cons, exists_eq_or_imp]
      rw [or_assoc, or_left_comm]
    · exact grows.path.mono fun place ref shown => (shows place ref).mpr (.inl ((step place ref).mpr (.inl shown)))

/-! ## Blocks with ids of their own -/

variable {path spaces : List Ref} {opened items : List (Ref × Definition)} {bed : Bed}

theorem mem_spacePlantings (member : planting ∈ spacePlantings path spaces) :
    planting.clears = false ∧ ∃ front back, spaces = front ++ planting.ref :: back ∧ planting.path = path ++ front := by
  induction spaces generalizing path with
  | nil => cases member
  | cons first rest ih =>
    rcases List.mem_cons.mp member with rfl | later
    · exact ⟨rfl, [], rest, rfl, (List.append_nil path).symm⟩
    · obtain ⟨space, front, back, split, below⟩ := ih later
      exact ⟨space, first :: front, back, by rw [split, List.cons_append], by rw [below]; simp⟩

theorem itemPlantings_eq (path : List Ref) (opened items : List (Ref × Definition)) :
    itemPlantings path opened items = (trails (·.2.depth) opened items).map fun (above, entry) =>
      ⟨path ++ (above.map (·.1)).reverse, entry.1, true⟩ := by
  induction items generalizing opened with
  | nil => rfl
  | cons first rest ih => simp only [itemPlantings, trails, List.map_cons, ih]

theorem mem_itemPlantings (member : planting ∈ itemPlantings path opened items) :
    planting.clears = true ∧ ∃ above entry, (above, entry) ∈ trails (·.2.depth) opened items ∧ entry ∈ items ∧
      planting.ref = entry.1 ∧ planting.path = path ++ (above.map (·.1)).reverse := by
  rw [itemPlantings_eq] at member
  obtain ⟨⟨above, entry⟩, listed, rfl⟩ := List.mem_map.mp member
  have inside : entry ∈ (trails (·.2.depth) opened items).map (·.2) := List.mem_map_of_mem listed
  rw [trails_elements] at inside
  exact ⟨rfl, above, entry, listed, inside, rfl, rfl⟩

theorem head_of_root (sown : bed.Sown ids) (member : planting ∈ bed.plantings) (space : planting.clears = false)
    (root : planting.path = []) : (spaceIds (bed.block.space.map (·.label))).head? = some (ids planting.ref) := by
  rcases List.mem_append.mp member with listed | item
  · obtain ⟨-, front, back, split, below⟩ := mem_spacePlantings listed
    rw [root] at below
    obtain rfl : front = [] := (List.append_eq_nil_iff.mp below.symm).2
    rw [← sown.spaces, split]
    rfl
  · rw [(mem_itemPlantings item).1] at space
    cases space

theorem Bed.planting_cases (sown : bed.Sown ids) (member : planting ∈ bed.plantings) :
    planting.clears = false ∧ (∃ name, ids planting.ref = spaceMark ++ name) ∧ planting.ref ∈ bed.spaces ∨
      planting.clears = true ∧ ∃ entry ∈ bed.items, planting.ref = entry.1 ∧ ids planting.ref = entry.2.id := by
  rcases List.mem_append.mp member with space | item
  · obtain ⟨clears, front, back, split, -⟩ := mem_spacePlantings space
    have inside : planting.ref ∈ bed.spaces := by simp [split]
    exact .inl ⟨clears, marked_of_mem_spaceIds (sown.spaces ▸ List.mem_map_of_mem inside), inside⟩
  · obtain ⟨clears, above, entry, -, inside, same, -⟩ := mem_itemPlantings item
    exact .inr ⟨clears, entry, inside, same, same ▸ sown.named entry inside⟩

theorem items_of_plantings (beds : List Bed) : ((beds.flatMap Bed.plantings).filter (·.clears)).map (·.ref) =
    (beds.flatMap (·.items)).map (·.1) := by
  have spaces : ∀ path spaces, (spacePlantings path spaces).filter (·.clears) = [] := by
    intro path spaces
    refine List.filter_eq_nil_iff.mpr fun planting member => ?_
    simp [(mem_spacePlantings member).1]
  have items : ∀ path items, ((itemPlantings path [] items).filter (·.clears)).map (·.ref) = items.map (·.1) := by
    intro path items
    rw [List.filter_eq_self.mpr fun planting member => (mem_itemPlantings member).1, itemPlantings_eq, List.map_map]
    have elements : (trails (fun entry : Ref × Definition => entry.2.depth) [] items).map (·.2) = items :=
      trails_elements [] items
    conv => rhs; rw [← elements, List.map_map]
    rfl
  induction beds with
  | nil => rfl
  | cons bed rest ih =>
    rw [List.flatMap_cons, List.filter_append, List.map_append, ih, List.flatMap_cons, List.map_append, Bed.plantings,
      List.filter_append, spaces, List.nil_append, items]

section

variable {outline : Outline} {live : Ref → Prop} {beds : List Bed} (sown : ∀ bed ∈ beds, bed.Sown ids)
include sown

theorem planting_kinds (member : planting ∈ beds.flatMap Bed.plantings) :
    planting.clears = false ∧ (∃ name, ids planting.ref = spaceMark ++ name) ∨
      planting.clears = true ∧ ∃ entry ∈ beds.flatMap (·.items), ids planting.ref = entry.2.id := by
  obtain ⟨bed, inside, planted⟩ := List.mem_flatMap.mp member
  rcases Bed.planting_cases (sown bed inside) planted with ⟨clears, marked, -⟩ | ⟨clears, entry, listed, -, same⟩
  · exact .inl ⟨clears, marked⟩
  · exact .inr ⟨clears, entry, List.mem_flatMap.mpr ⟨bed, inside, listed⟩, same⟩

theorem roots_apart (spread : beds.Pairwise fun bed other => ∀ id, (spaceIds (bed.block.space.map (·.label))).head? = some id →
      (spaceIds (other.block.space.map (·.label))).head? = some id → ∃ ref ∈ top, ids ref = id) :
    (beds.flatMap Bed.plantings).Pairwise fun first second =>
      first.clears = false → second.clears = false → first.path = [] → second.path = [] →
        ids first.ref = ids second.ref → ∃ ref ∈ top, ids ref = ids second.ref := by
  refine List.pairwise_flatMap.mpr ⟨fun bed inside => ?_, ?_⟩
  · cases spaces : bed.spaces with
    | nil =>
      refine List.pairwise_of_forall_mem_list fun first _ second member _ space => ?_
      rw [Bed.plantings, spaces] at member
      rw [(mem_itemPlantings member).1] at space
      cases space
    | cons root rest =>
      have deeper : ∀ planting ∈ spacePlantings [root] rest ++ itemPlantings (root :: rest) [] bed.items,
          planting.clears = false → planting.path ≠ [] := by
        intro planting member space
        rcases List.mem_append.mp member with listed | item
        · obtain ⟨-, front, back, -, below⟩ := mem_spacePlantings listed
          simp [below]
        · rw [(mem_itemPlantings item).1] at space
          cases space
      rw [Bed.plantings, spaces]
      refine List.pairwise_cons.mpr ⟨fun second member _ space _ top => absurd top (deeper second member space), ?_⟩
      exact List.pairwise_of_forall_mem_list fun first _ second member _ space _ top =>
        absurd top (deeper second member space)
  · refine spread.imp_of_mem fun {bed other} inside listed spread first here second there => ?_
    intro space again root beginning same
    have head := head_of_root (sown bed inside) here space root
    have second_head := head_of_root (sown other listed) there again beginning
    exact spread _ (same ▸ head) second_head

/-- Items have ids of their own, and namespaces at the top are told apart or are there already. -/
theorem plantings_apart (distinct : ((beds.flatMap (·.items)).map (·.2.id)).Nodup)
    (plain : ∀ entry ∈ beds.flatMap (·.items), ∀ name, entry.2.id ≠ spaceMark ++ name)
    (spread : beds.Pairwise fun bed other => ∀ id, (spaceIds (bed.block.space.map (·.label))).head? = some id →
      (spaceIds (other.block.space.map (·.label))).head? = some id → ∃ ref ∈ top, ids ref = id) :
    (beds.flatMap Bed.plantings).Pairwise fun first second =>
      (second.clears = true → ids first.ref ≠ ids second.ref) ∧
        (second.clears = false → first.path = [] → second.path = [] → ids first.ref = ids second.ref →
          ∃ ref ∈ top, ids ref = ids second.ref) := by
  have different : (beds.flatMap Bed.plantings).Pairwise fun first second =>
      first.clears = true → second.clears = true → ids first.ref ≠ ids second.ref := by
    have ids_eq : ((beds.flatMap Bed.plantings).filter (·.clears)).map (ids ·.ref) =
        (beds.flatMap (·.items)).map (·.2.id) := by
      have refs := congrArg (List.map ids) (items_of_plantings beds)
      rw [List.map_map, List.map_map] at refs
      refine refs.trans (List.map_congr_left fun entry member => ?_)
      obtain ⟨bed, inside, listed⟩ := List.mem_flatMap.mp member
      exact (sown bed inside).named entry listed
    have nodup := ids_eq ▸ distinct
    exact List.pairwise_filter.mp (List.pairwise_map.mp nodup)
  refine (different.and (roots_apart sown spread)).imp_of_mem fun {first second} member found both => ?_
  obtain ⟨different, roots⟩ := both
  rcases planting_kinds sown member with ⟨space, name, marked⟩ | ⟨item, entry, listed, same⟩
  · refine ⟨fun clears equal => ?_, roots space⟩
    rcases planting_kinds sown found with ⟨further, -⟩ | ⟨-, entry, listed, same⟩
    · rw [clears] at further
      cases further
    · exact plain entry listed name (same.symm.trans (equal.symm.trans marked))
  · refine ⟨different item, fun space _ _ equal => ?_⟩
    rcases planting_kinds sown found with ⟨-, name, marked⟩ | ⟨clears, -⟩
    · exact absurd (same.symm.trans (equal.trans marked)) (plain entry listed name)
    · rw [space] at clears
      cases clears

theorem additive_beds (forested : Forested outline live)
    (novel : ∀ entry ∈ beds.flatMap (·.items), ∀ ref, live ref → ids ref ≠ entry.2.id)
    (distinct : ((beds.flatMap (·.items)).map (·.2.id)).Nodup)
    (plain : ∀ entry ∈ beds.flatMap (·.items), ∀ name, entry.2.id ≠ spaceMark ++ name)
    (spread : beds.Pairwise fun bed other => ∀ id, (spaceIds (bed.block.space.map (·.label))).head? = some id →
      (spaceIds (other.block.space.map (·.label))).head? = some id → ∃ ref ∈ outline.top, ids ref = id) :
    Additive ids outline.top forested.sight (beds.flatMap Bed.plantings) where
  items planting member clears ref living := by
    rcases planting_kinds sown member with ⟨space, -⟩ | ⟨-, entry, listed, same⟩
    · rw [clears] at space
      cases space
    · exact same ▸ novel entry listed ref living
  spaces _ _ _ _ _ shown _ := shown.2
  kept _ member := ⟨Open.top, member⟩
  apart := plantings_apart sown distinct plain spread

end

theorem items_of_beds {beds : List Bed} (sown : ∀ bed ∈ beds, bed.Sown ids) :
    (beds.flatMap (·.items)).map (·.2) = (beds.map (·.block)).flatMap (·.classes.labels) := by
  rw [List.map_flatMap, List.flatMap_map]
  exact List.flatMap_congr fun bed member => (sown bed member).items

/-- A file has been added to an outline that stays as it is otherwise. -/
structure Added (live : Ref → Prop) (outline : Outline) (beds : List Bed) (alive : Ref → Prop) (result : Outline) : Prop where
  forested : Forested result alive
  sown : ∀ bed ∈ beds, bed.Sown result.idOf
  ids : ∀ ref < outline.nodes.size, result.idOf ref = outline.idOf ref
  living : ∀ ref, alive ref ↔ live ref ∨ ∃ planting ∈ beds.flatMap Bed.plantings, ref = planting.ref
  holds : ∀ place, Open alive place → ∀ ref, result.Holds place ref ↔ Open live place ∧ outline.Holds place ref ∨
    ∃ planting ∈ beds.flatMap Bed.plantings, place = planting.place ∧ ref = planting.ref
  paths : ∀ planting ∈ beds.flatMap Bed.plantings, Chain result.Holds none planting.path

namespace Added

variable {live alive : Ref → Prop} {outline result : Outline} {beds : List Bed}

theorem old (added : Added live outline beds alive result) {place : Place} {ref : Ref} (reachable : Open live place)
    (held : outline.Holds place ref) : result.Holds place ref :=
  (added.holds place (reachable.mono fun ref living => (added.living ref).mpr (.inl living)) ref).mpr
    (.inl ⟨reachable, held⟩)

theorem old_path (added : Added live outline beds alive result) (forested : Forested outline live) {place : Place}
    {path : List Ref} (reachable : Open live place) (lies : Chain outline.Holds place path) :
    Chain result.Holds place path := by
  induction path generalizing place with
  | nil => trivial
  | cons first rest ih =>
    have living := (forested.inside place first reachable lies.1).1
    exact ⟨added.old reachable lies.1, ih (Open.below living) lies.2⟩

theorem planted (added : Added live outline beds alive result) {bed : Bed} (inside : bed ∈ beds) {planting : Planting}
    (member : planting ∈ bed.plantings) : result.Holds planting.place planting.ref ∧
      Chain result.Holds none (planting.path ++ [planting.ref]) := by
  have listed := List.mem_flatMap.mpr ⟨bed, inside, member⟩
  have path := added.paths planting listed
  have held := (added.holds planting.place (added.forested.open_of_path path) planting.ref).mpr (.inr ⟨planting, listed, rfl, rfl⟩)
  refine ⟨held, chain_append.mpr ⟨path, ?_, trivial⟩⟩
  rwa [Option.or_none]

end Added

/-- A file with definitions of new ids is added to an outline that stays as it is otherwise. Namespaces of the file that
start alike have to be at the top already. -/
theorem build_adds {outline : Outline} {live : Ref → Prop} {previous : List (String × Ref)}
    (forested : Forested outline live) (spare : Spare outline previous live) (uri : Option String)
    {blocks : List SpaceBlock} (shaped : ∀ block ∈ blocks, block.Shaped)
    (novel : ∀ definition ∈ blocks.flatMap (·.classes.labels), ∀ ref, live ref → outline.idOf ref ≠ definition.id)
    (distinct : ((blocks.flatMap (·.classes.labels)).map (·.id)).Nodup)
    (plain : ∀ definition ∈ blocks.flatMap (·.classes.labels), ∀ name, definition.id ≠ spaceMark ++ name)
    (spread : blocks.Pairwise fun block other => ∀ id, (spaceIds (block.space.map (·.label))).head? = some id →
      (spaceIds (other.space.map (·.label))).head? = some id → ∃ ref ∈ outline.top, outline.idOf ref = id) :
    let built := build outline uri previous (blocks.flatMap SpaceBlock.events)
    ∃ (beds : List Bed) (alive : Ref → Prop), beds.map (·.block) = blocks ∧ built.2 = beds.flatMap (·.items) ∧
      Added live outline beds alive built.1 := by
  intro built
  obtain ⟨beds, alive, result, same, items, sown, size, ids, traced⟩ := build_traced forested spare uri shaped
  have labels : (beds.flatMap (·.items)).map (·.2) = blocks.flatMap (·.classes.labels) := same ▸ items_of_beds sown
  have member : ∀ entry ∈ beds.flatMap (·.items), entry.2 ∈ blocks.flatMap (·.classes.labels) := fun entry listed =>
    labels ▸ List.mem_map_of_mem listed
  have old : ∀ ref, live ref → built.1.idOf ref = outline.idOf ref := fun ref living => ids ref (forested.valid ref living)
  have additive : Additive built.1.idOf outline.top forested.sight (beds.flatMap Bed.plantings) := by
    refine additive_beds sown forested ?_ ?_ (fun entry listed => plain entry.2 (member entry listed)) ?_
    · intro entry listed ref living
      rw [old ref living]
      exact novel entry.2 (member entry listed) ref living
    · rw [← labels, List.map_map] at distinct
      exact distinct
    · rw [← same] at spread
      refine (List.pairwise_map.mp spread).imp fun {bed other} spread id first second => ?_
      obtain ⟨ref, inside, equal⟩ := spread id first second
      exact ⟨ref, inside, (old ref (forested.inside none ref Open.top inside).1).trans equal⟩
  obtain ⟨shows, living, paths⟩ := traced.added additive
  refine ⟨beds, alive, same, items, result, sown, ids, living, fun place reachable ref => ?_, fun planting listed => ?_⟩
  · exact Iff.trans ⟨fun found => ⟨reachable, found⟩, And.right⟩ (shows place ref)
  · exact (paths planting listed).mono fun place ref shown => shown.2

end TestScout.Outline
