import Mathlib.Data.List.TakeWhile
import TestScout.Proofs.BuilderTrace
import TestScout.Proofs.DefinitionGrove
import TestScout.Proofs.DefinitionTrails

/-! What a builder plants for a file, block by block: the items of the segments of the namespace, each below the one
before it, and then the items of the definitions, each below the closest one before it that is less deep. -/

namespace TestScout.Outline
open Test

/-- The ids that the items of a namespace have, one for each segment. -/
def spaceIds : Option String → List String
  | none => []
  | some label =>
    (Builder.qualifiedSegments "" (((Text.splitAt (· == '\\') label.toList).map String.ofList).filter (!·.isEmpty))).map
      (spaceMark ++ ·.1)

theorem marked_of_mem_spaceIds {space : Option String} {id : String} (member : id ∈ spaceIds space) :
    ∃ name, id = spaceMark ++ name := by
  cases space with
  | none => cases member
  | some label =>
    obtain ⟨segment, -, same⟩ := List.mem_map.mp member
    exact ⟨segment.1, same.symm⟩

/-- A block with its items: those of its namespace and those of its definitions. -/
structure Bed where
  block : SpaceBlock
  spaces : List Ref
  items : List (Ref × Definition)

/-- The segments of a namespace, each one below those before it. -/
def spacePlantings (path : List Ref) : List Ref → List Planting
  | [] => []
  | ref :: rest => ⟨path, ref, false⟩ :: spacePlantings (path ++ [ref]) rest

/-- Definitions, each one below those of the open ones that are less deep. The innermost open one comes first. -/
def itemPlantings (path : List Ref) (opened : List (Ref × Definition)) : List (Ref × Definition) → List Planting
  | [] => []
  | (ref, definition) :: rest =>
    let above := opened.dropWhile (definition.depth ≤ ·.2.depth)
    ⟨path ++ (above.map (·.1)).reverse, ref, true⟩ :: itemPlantings path ((ref, definition) :: above) rest

def Bed.plantings (bed : Bed) : List Planting := spacePlantings [] bed.spaces ++ itemPlantings bed.spaces [] bed.items

theorem Traced.planted {ids : Ref → String} {top : List Ref} {plantings : List Planting} {before after : Sight}
    (traced : Traced ids top plantings before after) {planting : Planting} (member : planting ∈ plantings) :
    after.live planting.ref := by
  induction plantings generalizing before with
  | nil => cases member
  | cons first rest ih =>
    obtain ⟨middle, grows, traced⟩ := traced
    rcases List.mem_cons.mp member with rfl | later
    · exact traced.live ((grows.live _).mpr (.inl rfl))
    · exact ih traced later

theorem ref_mem_spacePlantings {path spaces : List Ref} {ref : Ref} (member : ref ∈ spaces) :
    ∃ planting ∈ spacePlantings path spaces, planting.ref = ref := by
  induction spaces generalizing path with
  | nil => cases member
  | cons first rest ih =>
    rcases List.mem_cons.mp member with rfl | later
    · exact ⟨_, List.mem_cons_self, rfl⟩
    · obtain ⟨planting, found, same⟩ := ih later
      exact ⟨planting, List.mem_cons_of_mem _ found, same⟩

theorem ref_mem_itemPlantings {path : List Ref} {opened items : List (Ref × Definition)} {entry : Ref × Definition}
    (member : entry ∈ items) : ∃ planting ∈ itemPlantings path opened items, planting.ref = entry.1 := by
  induction items generalizing opened with
  | nil => cases member
  | cons first rest ih =>
    rcases List.mem_cons.mp member with rfl | later
    · exact ⟨_, List.mem_cons_self, rfl⟩
    · obtain ⟨planting, found, same⟩ := ih later
      exact ⟨planting, List.mem_cons_of_mem _ found, same⟩

/-- The items of a block go by the ids that the block gives them. -/
structure Bed.Sown (ids : Ref → String) (bed : Bed) : Prop where
  spaces : bed.spaces.map ids = spaceIds (bed.block.space.map (·.label))
  items : bed.items.map (·.2) = bed.block.classes.labels
  named : ∀ entry ∈ bed.items, ids entry.1 = entry.2.id

theorem Bed.Sown.congr {ids names : Ref → String} {bed : Bed} (sown : bed.Sown ids)
    (same : ∀ planting ∈ bed.plantings, names planting.ref = ids planting.ref) : bed.Sown names where
  spaces := by
    rw [← sown.spaces]
    refine List.map_congr_left fun ref member => ?_
    obtain ⟨planting, inside, rfl⟩ : ∃ planting ∈ spacePlantings [] bed.spaces, planting.ref = ref :=
      ref_mem_spacePlantings member
    exact same planting (List.mem_append_left _ inside)
  items := sown.items
  named entry member := by
    obtain ⟨planting, inside, equal⟩ : ∃ planting ∈ itemPlantings bed.spaces [] bed.items, planting.ref = entry.1 :=
      ref_mem_itemPlantings member
    rw [← equal, same planting (List.mem_append_right _ inside), equal]
    exact sown.named entry member

namespace Builder

variable {builder : Builder} {live alive : Ref → Prop} {frame : Frame} {rest : List Frame}

/-! ## Closing early -/

theorem ascend_ascend {low high : Nat} (lower : low ≤ high) : (builder.ascend high).ascend low = builder.ascend low := by
  generalize opened : builder.frames = frames
  induction frames generalizing builder with
  | nil => rw [ascend_of_nil opened]
  | cons frame rest ih =>
    by_cases deep : high ≤ frame.depth
    · rw [ascend_of_le opened deep, ascend_of_le opened (Nat.le_trans lower deep), ih rfl]
    · rw [ascend_of_lt opened (Nat.lt_of_not_le deep)]

/-- A definition closes the frames that are as deep itself. -/
theorem take_ascend {definition : Definition} {depth : Nat} (lower : definition.depth ≤ depth) (index : Nat) :
    (builder.ascend depth).take definition index = builder.take definition index := by
  simp only [take, addSpace, addItem, ascend_ascend lower]

theorem plant_ascend {definition : Definition} {depth : Nat} (lower : definition.depth ≤ depth) (index : Nat) :
    (builder.ascend depth).plant definition index = builder.plant definition index := by
  simp only [plant, take_ascend lower]

def takeAll (builder : Builder) (definitions : List (Definition × Nat)) : Builder :=
  definitions.foldl (fun builder (definition, index) => builder.take definition index) builder

def plantAll (builder : Builder) (definitions : List (Definition × Nat)) : Builder :=
  definitions.foldl (fun builder (definition, index) => builder.plant definition index) builder

variable {definitions : List (Definition × Nat)} {closing : Nat}

theorem takeAll_ascend {depth : Nat} (start : startDepth closing (definitions.map (·.1)) ≤ depth) :
    ((builder.ascend depth).takeAll definitions).ascend closing = (builder.takeAll definitions).ascend closing := by
  cases definitions with
  | nil => exact ascend_ascend start
  | cons first rest =>
    show (takeAll ((builder.ascend depth).take first.1 first.2) rest).ascend closing = _
    rw [take_ascend start]
    rfl

theorem plantAll_ascend {depth : Nat} (start : startDepth closing (definitions.map (·.1)) ≤ depth) :
    ((builder.ascend depth).plantAll definitions).ascend closing = (builder.plantAll definitions).ascend closing := by
  cases definitions with
  | nil => exact ascend_ascend start
  | cons first rest =>
    show (plantAll ((builder.ascend depth).plant first.1 first.2) rest).ascend closing = _
    rw [plant_ascend start]
    rfl

/-- It makes no difference whether the frame of a test method is closed at once. -/
theorem takeAll_eq_plantAll (flat : Flat closing (definitions.map (·.1))) :
    (builder.takeAll definitions).ascend closing = (builder.plantAll definitions).ascend closing := by
  induction definitions generalizing builder with
  | nil => rfl
  | cons first rest ih =>
    obtain ⟨after, flat⟩ := flat
    show (takeAll (builder.take first.1 first.2) rest).ascend closing =
      (plantAll (builder.plant first.1 first.2) rest).ascend closing
    rw [ih flat, plant]
    split
    next method => rw [plantAll_ascend (after method)]
    next => rfl

/-! ## Blocks -/

theorem map_ref_eq_spots (builder : Builder) : builder.frames.map (·.ref) = builder.spots.map (·.1) := by
  simp [spots]

theorem trunk_append {inner outer : List Place} : trunk (inner ++ outer) = trunk outer ++ trunk inner := by
  induction inner with
  | nil => simp [trunk]
  | cons first rest ih => simp [trunk, ih]

theorem trunk_items (items : List (Ref × Definition)) :
    trunk (items.map fun entry => some entry.1) = (items.map (·.1)).reverse := by
  induction items with
  | nil => rfl
  | cons first rest ih => simp [trunk, ih]

theorem trunk_refs (refs : List Ref) : trunk (refs.map some).reverse = refs := by
  induction refs with
  | nil => rfl
  | cons first rest ih => simp [trunk_append, trunk, ih]

/-- The open frames of a path of namespaces and of the definitions that are open below it. -/
def spotsOf (opened : List (Ref × Definition)) (base : List (Place × Nat)) : List (Place × Nat) :=
  opened.map (fun entry => (some entry.1, entry.2.depth)) ++ base

theorem dropWhile_spotsOf {opened : List (Ref × Definition)} {base : List (Place × Nat)} {depth : Nat}
    (low : ∀ spot ∈ base, spot.2 < depth) : (spotsOf opened base).dropWhile (depth ≤ ·.2) =
      spotsOf (opened.dropWhile (depth ≤ ·.2.depth)) base := by
  have around : ∀ spot ∈ base.head?, spot.2 < depth := fun spot first => low spot (List.mem_of_head? first)
  rw [spotsOf, dropWhile_around around, List.dropWhile_map]
  rfl

theorem spots_ascend (sound : Sound builder live) (depth : Nat) :
    (builder.ascend depth).spots = builder.spots.dropWhile (depth ≤ ·.2) := by
  rw [spots, (sound.ascend depth).2.2.1, spots, List.dropWhile_map]
  rfl

theorem trunk_spotsOf (opened : List (Ref × Definition)) (base : List (Place × Nat)) :
    trunk ((spotsOf opened base).map (·.1)) = trunk (base.map (·.1)) ++ (opened.map (·.1)).reverse := by
  rw [spotsOf, List.map_append, List.map_map, trunk_append]
  exact congrArg _ (trunk_items opened)

/-- What comes next closes the frame that a definition would have. -/
theorem itemPlantings_shed {path : List Ref} {opened items : List (Ref × Definition)} {entry : Ref × Definition}
    (lower : startDepth closing (items.map (·.2)) ≤ entry.2.depth) :
    itemPlantings path (entry :: opened) items = itemPlantings path opened items := by
  cases items with
  | nil => rfl
  | cons first rest =>
    have lower : first.2.depth ≤ entry.2.depth := lower
    simp only [itemPlantings]
    rw [List.dropWhile_cons_of_pos (by simpa using lower)]

/-- One more definition gets its item. The frame of a test method is closed already. -/
theorem Sound.plantItem (sound : Sound builder live) {base : List (Place × Nat)} (some : base ≠ [])
    {opened : List (Ref × Definition)} (spots : builder.spots = spotsOf opened base) {definition : Definition} (index : Nat)
    (below : ∀ spot ∈ base, spot.2 < definition.depth) (item : definition.kind ≠ .space) :
    ∃ ref alive, let after := builder.plant definition index
      let before := opened.dropWhile (definition.depth ≤ ·.2.depth)
      Grown builder live (itemPlantings (trunk (base.map (·.1))) opened [(ref, definition)]) after alive ∧ alive ref ∧
      after.built = builder.built ++ [(ref, definition)] ∧ after.outline.idOf ref = definition.id ∧
      after.spots = spotsOf (if definition.kind = .method then before else (ref, definition) :: before) base := by
  have early : Grown builder live [] (builder.ascend definition.depth) live := by
    refine sound.grown_ascend fun frame member top => ?_
    have listed : (frame.ref, frame.depth) ∈ spotsOf opened base := spots ▸ List.mem_map_of_mem member
    rcases List.mem_append.mp listed with item | spot
    · obtain ⟨entry, -, same⟩ := List.mem_map.mp item
      rw [top] at same
      cases same
    · exact below _ spot
  have above := (spots_ascend sound definition.depth).trans (spots ▸ dropWhile_spotsOf below)
  obtain ⟨frame, others, around⟩ : ∃ frame others, (builder.ascend definition.depth).frames = frame :: others := by
    cases around : (builder.ascend definition.depth).frames with
    | nil => simp [Builder.spots, around, spotsOf, some] at above
    | cons frame others => exact ⟨frame, others, rfl⟩
  have outer : frame.depth < definition.depth := by
    have dropped := List.head?_dropWhile_not (fun frame : Frame => decide (definition.depth ≤ frame.depth)) builder.frames
    rw [← (sound.ascend definition.depth).2.2.1, around] at dropped
    simpa using dropped
  obtain ⟨ref, alive, planted, placed, built, id⟩ := early.result.plant around outer item index
  rw [plant_ascend (Nat.le_refl _), above] at placed
  rw [plant_ascend (Nat.le_refl _)] at built id planted
  rw [map_ref_eq_spots, above, trunk_spotsOf] at planted
  refine ⟨ref, alive, early.trans planted, planted.traced.planted List.mem_cons_self, built, id, ?_⟩
  rw [placed]
  split <;> rfl

theorem Sound.plantAll (sound : Sound builder live) {base : List (Place × Nat)} {bottom : Nat}
    (low : ∀ spot ∈ base, spot.2 < bottom) (some : base ≠ []) {opened : List (Ref × Definition)}
    (spots : builder.spots = spotsOf opened base) (open_deep : ∀ entry ∈ opened, bottom ≤ entry.2.depth)
    (deep : ∀ entry ∈ definitions, bottom ≤ entry.1.depth) (items : ∀ entry ∈ definitions, entry.1.kind ≠ .space)
    (flat : Flat closing (definitions.map (·.1))) :
    ∃ items alive further, Grown builder live (itemPlantings (trunk (base.map (·.1))) opened items)
        (builder.plantAll definitions) alive ∧
      items.map (·.2) = definitions.map (·.1) ∧ (builder.plantAll definitions).built = builder.built ++ items ∧
      (∀ entry ∈ items, (builder.plantAll definitions).outline.idOf entry.1 = entry.2.id) ∧
      (builder.plantAll definitions).spots = spotsOf further base ∧ ∀ entry ∈ further, bottom ≤ entry.2.depth := by
  induction definitions generalizing builder live opened with
  | nil => exact ⟨[], live, opened, Grown.refl sound, rfl, (List.append_nil _).symm, nofun, spots, open_deep⟩
  | cons first rest ih =>
    obtain ⟨definition, index⟩ := first
    have shallow : bottom ≤ definition.depth := deep _ List.mem_cons_self
    have below : ∀ spot ∈ base, spot.2 < definition.depth := fun spot member => Nat.lt_of_lt_of_le (low spot member) shallow
    obtain ⟨ref, alive, planted, living, built, id, placed⟩ := sound.plantItem some spots index below (items _ List.mem_cons_self)
    let before := opened.dropWhile (definition.depth ≤ ·.2.depth)
    have before_deep : ∀ entry ∈ before, bottom ≤ entry.2.depth := fun entry member =>
      open_deep entry ((List.dropWhile_sublist _).subset member)
    -- What follows a test method would close its frame.
    obtain ⟨now, now_spots, now_deep, shed⟩ : ∃ now, (builder.plant definition index).spots = spotsOf now base ∧
        (∀ entry ∈ now, bottom ≤ entry.2.depth) ∧ ∀ items : List (Ref × Definition), items.map (·.2) = rest.map (·.1) →
          itemPlantings (trunk (base.map (·.1))) now items =
            itemPlantings (trunk (base.map (·.1))) ((ref, definition) :: before) items := by
      by_cases method : definition.kind = .method
      · rw [if_pos method] at placed
        refine ⟨before, placed, before_deep, fun items same => ?_⟩
        exact (itemPlantings_shed (same ▸ flat.1 method)).symm
      · rw [if_neg method] at placed
        exact ⟨(ref, definition) :: before, placed, List.forall_mem_cons.mpr ⟨shallow, before_deep⟩, fun _ _ => rfl⟩
    obtain ⟨items, last, further, later, same, more, ids, final, final_deep⟩ := ih planted.result now_spots now_deep
      (fun entry member => deep entry (List.mem_cons_of_mem _ member))
      (fun entry member => items entry (List.mem_cons_of_mem _ member)) flat.2
    refine ⟨(ref, definition) :: items, last, further, ?_, ?_, ?_, ?_, final, final_deep⟩
    · have all := planted.trans later
      rw [shed items same] at all
      exact all
    · rw [List.map_cons, same, List.map_cons]
    · show (Builder.plantAll (builder.plant definition index) rest).built = _
      rw [more, built, List.append_assoc]
      rfl
    · refine List.forall_mem_cons.mpr ⟨?_, ids⟩
      exact (later.ids ref (planted.result.forested.valid ref living)).trans id

theorem Sound.addSegments (sound : Sound builder live) (opened : builder.frames = frame :: rest)
    (fresh : frame.ref ≠ none → frame.children = []) (depth : Nat) (names : List (String × String)) :
    ∃ spaces alive, let after := names.foldl (fun builder (name, segment) => builder.addSegment depth name segment) builder
      Grown builder live (spacePlantings (trunk (builder.spots.map (·.1))) spaces) after alive ∧
        spaces.map after.outline.idOf = names.map (spaceMark ++ ·.1) ∧
        after.spots = (spaces.map fun ref => (some ref, depth)).reverse ++ builder.spots ∧ after.built = builder.built := by
  induction names generalizing builder live frame rest with
  | nil => exact ⟨[], live, Grown.refl sound, rfl, rfl, rfl⟩
  | cons first others ih =>
    obtain ⟨ref, alive, grown, frames, built, id⟩ := sound.addSegment opened fresh depth first.1 first.2
    have spots : (builder.addSegment depth first.1 first.2).spots = (some ref, depth) :: builder.spots := by
      simp [Builder.spots, frames, opened]
    obtain ⟨spaces, last, later, ids, deeper, kept⟩ := ih grown.result frames fun _ => rfl
    have below : trunk ((builder.addSegment depth first.1 first.2).spots.map (·.1)) =
        trunk (builder.spots.map (·.1)) ++ [ref] := by
      rw [spots]
      rfl
    refine ⟨ref :: spaces, last, ?_, ?_, ?_, kept.trans built⟩
    · rw [map_ref_eq_spots] at grown
      rw [below] at later
      exact grown.trans later
    · rw [List.map_cons, List.map_cons, ← ids]
      have living := grown.traced.planted List.mem_cons_self
      exact congrArg (· :: _) ((later.ids ref (grown.result.forested.valid ref living)).trans id)
    · refine deeper.trans ?_
      rw [spots, List.map_cons, List.reverse_cons, List.append_assoc]
      rfl

theorem Sound.enter_block (sound : Sound builder live) (root : builder.spots = [(none, 0)]) {block : SpaceBlock}
    (shaped : block.Shaped) (events : definitions.map (·.1) = block.events) :
    ∃ (spaces : List Ref) (alive : Ref → Prop) (entered : Builder) (inner : List (Definition × Nat)),
      builder.takeAll definitions = entered.takeAll inner ∧ inner.map (·.1) = block.classes.labels ∧
      Grown builder live (spacePlantings [] spaces) entered alive ∧ entered.built = builder.built ∧
      spaces.map entered.outline.idOf = spaceIds (block.space.map (·.label)) ∧
      entered.spots = (spaces.map fun ref => (some ref, 1)).reverse ++ [(none, 0)] ∧
      ∀ spot ∈ entered.spots, spot.2 < block.depth := by
  obtain ⟨space?, classes⟩ := block
  cases space? with
  | none =>
    refine ⟨[], live, builder, definitions, rfl, events, Grown.refl sound, rfl, rfl, root, ?_⟩
    simp [root, SpaceBlock.depth]
  | some space =>
    obtain ⟨kind, depth⟩ := shaped.space space rfl
    obtain ⟨first, inner, rfl, rfl, others⟩ := List.map_eq_cons_iff.mp events
    obtain ⟨frame, opened, same⟩ : ∃ frame, builder.frames = [frame] ∧ (frame.ref, frame.depth) = (none, 0) := by
      obtain ⟨frame, rest, opened, same, none⟩ := List.map_eq_cons_iff.mp root
      rw [List.map_eq_nil_iff.mp none] at opened
      exact ⟨frame, opened, same⟩
    obtain ⟨top, shallow⟩ := Prod.mk.injEq .. ▸ same
    have still : builder.ascend 1 = builder := ascend_of_lt opened (shallow ▸ Nat.zero_lt_one)
    have taken : builder.take first.1 first.2 =
        (qualifiedSegments "" (((Text.splitAt (· == '\\') first.1.label.toList).map String.ofList).filter (!·.isEmpty))).foldl
          (fun builder (name, segment) => builder.addSegment 1 name segment) builder := by
      simp only [take, kind, if_true, addSpace, depth, still]
    obtain ⟨spaces, alive, grown, ids, spots, built⟩ := sound.addSegments opened (fun below => absurd top below) 1
      (qualifiedSegments "" (((Text.splitAt (· == '\\') first.1.label.toList).map String.ofList).filter (!·.isEmpty)))
    rw [← taken] at grown ids spots built
    rw [root] at grown spots
    refine ⟨spaces, alive, builder.take first.1 first.2, inner, rfl, others, grown, built, ids, spots, ?_⟩
    intro spot member
    rw [spots] at member
    simp only [List.mem_append, List.mem_reverse, List.mem_map, List.mem_singleton] at member
    rcases member with ⟨ref, -, rfl⟩ | rfl
    · exact Nat.lt_succ_self 1
    · exact Nat.zero_lt_two

theorem Sound.block (sound : Sound builder live) (root : builder.spots = [(none, 0)]) {block : SpaceBlock}
    (shaped : block.Shaped) (events : definitions.map (·.1) = block.events) :
    ∃ (bed : Bed) (alive : Ref → Prop), let after := (builder.takeAll definitions).ascend 1
      bed.block = block ∧ Grown builder live bed.plantings after alive ∧ after.spots = [(none, 0)] ∧
        after.built = builder.built ++ bed.items ∧ bed.Sown after.outline.idOf := by
  obtain ⟨spaces, alive, entered, inner, taken, labels, first, built, names, spots, low⟩ :=
    sound.enter_block root shaped events
  have members : ∀ entry ∈ inner, entry.1 ∈ block.classes.labels := fun entry member => labels ▸ List.mem_map_of_mem member
  have some : entered.spots ≠ [] := by simp [spots]
  have initial : entered.spots = spotsOf [] entered.spots := rfl
  obtain ⟨items, last, further, grown, same, more, ids, opened, deep⟩ := first.result.plantAll low some initial nofun
    (fun entry member => shaped.deep (members entry member)) (fun entry member => shaped.item (members entry member))
    (labels.symm ▸ shaped.flat)
  have closed : (builder.takeAll definitions).ascend 1 = (entered.plantAll inner).ascend 1 := by
    rw [taken, takeAll_eq_plantAll (labels.symm ▸ shaped.flat)]
  have path : trunk (entered.spots.map (·.1)) = spaces := by
    rw [spots, List.map_append, trunk_append, List.map_reverse, List.map_map]
    exact (List.nil_append _).trans (trunk_refs spaces)
  have root_open : ∀ frame ∈ (entered.plantAll inner).frames, frame.ref = none → frame.depth < 1 := by
    intro frame member top
    have listed : (frame.ref, frame.depth) ∈ (entered.plantAll inner).spots := List.mem_map_of_mem member
    rw [opened, spotsOf, spots, top] at listed
    simp at listed
    exact Nat.lt_one_iff.mpr listed
  have last_grown := grown.result.grown_ascend root_open
  obtain ⟨-, still, -, -⟩ := grown.result.ascend 1
  refine ⟨⟨block, spaces, items⟩, last, rfl, ?_⟩
  rw [closed]
  refine ⟨?_, ?_, ?_, ⟨?_, same.trans labels, fun entry member => (still.ids _).trans (ids entry member)⟩⟩
  · rw [path] at grown
    have all := (first.trans grown).trans last_grown
    rwa [List.append_nil] at all
  · rw [spots_ascend grown.result, opened, spotsOf, spots, ← List.append_assoc, List.dropWhile_append_of_pos]
    · rfl
    · intro spot member
      rcases List.mem_append.mp member with item | space
      · obtain ⟨entry, inside, rfl⟩ := List.mem_map.mp item
        exact decide_eq_true (Nat.le_trans block.depth_pos (deep entry inside))
      · obtain ⟨ref, -, rfl⟩ := List.mem_map.mp (List.mem_reverse.mp space)
        rfl
  · rw [still.built, more, built]
  · refine Eq.trans (List.map_congr_left fun ref member => ?_) names
    obtain ⟨planting, inside, rfl⟩ := ref_mem_spacePlantings member
    have valid := first.result.forested.valid _ (first.traced.planted inside)
    exact (still.ids _).trans (grown.ids _ valid)

theorem Sound.blocks (sound : Sound builder live) (root : builder.spots = [(none, 0)]) {blocks : List SpaceBlock}
    (shaped : ∀ block ∈ blocks, block.Shaped) (events : definitions.map (·.1) = blocks.flatMap SpaceBlock.events) :
    ∃ (beds : List Bed) (alive : Ref → Prop), let after := (builder.takeAll definitions).ascend 1
      beds.map (·.block) = blocks ∧ Grown builder live (beds.flatMap Bed.plantings) after alive ∧
        after.spots = [(none, 0)] ∧ after.built = builder.built ++ beds.flatMap (·.items) ∧
        ∀ bed ∈ beds, bed.Sown after.outline.idOf := by
  induction blocks generalizing builder live definitions with
  | nil =>
    obtain rfl := List.map_eq_nil_iff.mp events
    obtain ⟨frame, rest, opened, same, -⟩ := List.map_eq_cons_iff.mp root
    have still : builder.ascend 1 = builder :=
      ascend_of_lt opened (by rw [show frame.depth = 0 from congrArg Prod.snd same]; exact Nat.zero_lt_one)
    have kept : (builder.takeAll []).ascend 1 = builder := still
    rw [kept]
    exact ⟨[], live, rfl, Grown.refl sound, root, (List.append_nil _).symm, nofun⟩
  | cons block rest ih =>
    rw [List.flatMap_cons] at events
    obtain ⟨front, back, rfl, here, later⟩ := List.map_eq_append_iff.mp events
    obtain ⟨bed, alive, same, grown, spots, built, sown⟩ := sound.block root (shaped block List.mem_cons_self) here
    obtain ⟨beds, last, others, further, final, all, named⟩ :=
      ih grown.result spots (fun other member => shaped other (List.mem_cons_of_mem _ member)) later
    have start : startDepth 1 (back.map (·.1)) ≤ 1 := by
      rw [later]
      cases rest with
      | nil => exact Nat.le_refl 1
      | cons next rest =>
        rw [List.flatMap_cons]
        exact Nat.le_of_eq ((shaped next (by simp)).start _)
    have closed : (builder.takeAll (front ++ back)).ascend 1 =
        (((builder.takeAll front).ascend 1).takeAll back).ascend 1 := by
      rw [takeAll_ascend start, takeAll, List.foldl_append]
      rfl
    refine ⟨bed :: beds, last, ?_⟩
    rw [closed]
    refine ⟨by rw [List.map_cons, same, others], ?_, final, ?_, List.forall_mem_cons.mpr ⟨?_, named⟩⟩
    · exact grown.trans further
    · rw [all, built, List.append_assoc, List.flatMap_cons]
    · exact sown.congr fun planting member =>
        further.ids _ (grown.result.forested.valid _ (grown.traced.planted member))

end Builder

/-! ## Files -/

/-- What an outline shows of the items that are alive. -/
def Forested.sight {outline : Outline} {live : Ref → Prop} (forested : Forested outline live) : Sight where
  live := live
  shows place ref := Open live place ∧ ref ∈ outline.childrenOf place
  alive place ref shown := (forested.inside place ref shown.1 shown.2).1
  opened _ _ := And.left
  single _ _ _ shown again := forested.place_unique shown.1 again.1 shown.2 again.2

/-- What is shown after a file has been built comes from what was shown before and the items of the file, which were
planted one after the other. -/
theorem build_traced {outline : Outline} {live : Ref → Prop} {previous : List (String × Ref)}
    (forested : Forested outline live) (spare : Spare outline previous live) (uri : Option String)
    {blocks : List SpaceBlock} (shaped : ∀ block ∈ blocks, block.Shaped) :
    let built := build outline uri previous (blocks.flatMap SpaceBlock.events)
    ∃ (beds : List Bed) (alive : Ref → Prop) (result : Forested built.1 alive),
      beds.map (·.block) = blocks ∧ built.2 = beds.flatMap (·.items) ∧ (∀ bed ∈ beds, bed.Sown built.1.idOf) ∧
      outline.nodes.size ≤ built.1.nodes.size ∧ (∀ ref < outline.nodes.size, built.1.idOf ref = outline.idOf ref) ∧
      Traced built.1.idOf outline.top (beds.flatMap Bed.plantings) forested.sight result.sight := by
  let start : Builder := { outline, uri, previous }
  have sound : Builder.Sound start live := by
    refine ⟨forested, spare, rfl, ?_, List.pairwise_singleton _ _, ?_⟩
    · intro frame member
      rw [List.mem_singleton.mp member]
      exact ⟨Open.top, nofun⟩
    · intro frame member
      rw [List.mem_singleton.mp member]
      nofun
  have events : ((blocks.flatMap SpaceBlock.events).zipIdx).map (·.1) = blocks.flatMap SpaceBlock.events :=
    List.zipIdx_map_fst 0 _
  obtain ⟨beds, alive, same, grown, root, built, sown⟩ := sound.blocks rfl shaped events
  obtain ⟨result, still, frames, -⟩ := grown.result.ascend 0
  rw [Builder.ascend_ascend (Nat.zero_le 1)] at result still frames
  have closed : ((start.takeAll (blocks.flatMap SpaceBlock.events).zipIdx).ascend 0).frames = [] := by
    rw [frames, List.dropWhile_eq_nil_iff]
    exact fun frame _ => decide_eq_true (Nat.zero_le _)
  have ids : ((start.takeAll (blocks.flatMap SpaceBlock.events).zipIdx).ascend 0).outline.idOf =
      ((start.takeAll (blocks.flatMap SpaceBlock.events).zipIdx).ascend 1).outline.idOf := funext still.ids
  have first : sound.sight = forested.sight := by
    refine Sight.ext rfl (funext fun place => funext fun ref => propext (and_congr_right fun _ => ?_))
    have empty : Builder.pending start.frames place = [] := by
      simp only [start, Builder.pending]
      exact ite_self []
    rw [empty]
    simp [not_lastOf_nil, start]
  have last : grown.result.sight = result.forested.sight := by
    refine Sight.ext rfl (funext fun place => funext fun ref => propext ?_)
    refine (still.shows place ref).symm.trans (and_congr_right fun _ => ?_)
    rw [closed]
    simp [not_lastOf_nil, Builder.pending]
  refine ⟨beds, alive, result.forested, same, still.built.trans built, fun bed member => ?_,
    Nat.le_trans grown.size (Nat.le_of_eq still.size.symm), fun ref valid => (still.ids ref).trans (grown.ids ref valid), ?_⟩
  · exact (sown bed member).congr fun planting _ => still.ids _
  · have traced := grown.traced
    rw [first, last] at traced
    exact traced.congr fun ref _ => still.ids ref

end TestScout.Outline
