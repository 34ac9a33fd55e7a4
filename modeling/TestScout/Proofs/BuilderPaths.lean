import TestScout.Proofs.EditorIntake

/-! Where the items of a file can be found after it has been built. Each item is planted below one that was planted
before it, and nothing that is planted later takes it out of the path to it, as long as definitions have different ids
and namespaces of the file that start alike are at the top already. -/

namespace TestScout.Outline
open Test

variable {ids : Ref → String} {top : List Ref} {before middle after : Sight} {planting : Planting}
  {plantings placed : List Planting} {path : List Ref}

/-- The items on the way to what is planted, and the planted item. -/
def Planting.full (planting : Planting) : List Ref := planting.path ++ [planting.ref]

/-- Each planting is at the top or below an earlier one. -/
def Nested (placed : List Planting) : List Planting → Prop
  | [] => True
  | planting :: rest =>
    (planting.path = [] ∨ ∃ above ∈ placed, planting.path = above.full) ∧ Nested (planting :: placed) rest

theorem Nested.mono (nested : Nested placed plantings) {more : List Planting} (fewer : placed ⊆ more) :
    Nested more plantings := by
  induction plantings generalizing placed more with
  | nil => trivial
  | cons planting rest ih =>
    refine ⟨nested.1.imp_right fun ⟨above, member, same⟩ => ⟨above, fewer member, same⟩, ?_⟩
    exact ih nested.2 (List.cons_subset_cons _ fewer)

theorem nested_append {further : List Planting} : Nested placed (plantings ++ further) ↔
    Nested placed plantings ∧ Nested (plantings.reverse ++ placed) further := by
  induction plantings generalizing placed with
  | nil => simp [Nested]
  | cons planting rest ih => simp [Nested, ih, and_assoc]

/-- A path stays when no item on it has the id of what is planted, unless it is the item of the namespace itself. -/
theorem Grows.keeps (grows : Grows ids top before planting after) (lies : Chain before.shows none path)
    (items : planting.clears = true → ∀ ref ∈ path, ids ref ≠ ids planting.ref)
    (roots : planting.clears = false → planting.path = [] → ∀ ref ∈ path.head?, ids ref = ids planting.ref → ref ∈ top) :
    Chain after.shows none path := by
  have link : ∀ place ref, before.shows place ref → ref ∈ path → (∀ above ∈ place, above ∈ path) →
      (place = none → ref ∈ path.head?) → after.shows place ref := by
    intro place ref shown member above root
    refine (grows.shows place ref).mpr ?_
    cases clears : planting.clears with
    | true =>
      refine .inr ⟨shown, fun _ => items clears ref member, ?_⟩
      intro _ below
      exact items clears planting.ref (above planting.ref below) rfl
    | false =>
      by_cases here : place = planting.place ∧ ids ref = ids planting.ref
      · obtain ⟨rfl, same⟩ := here
        refine .inl ⟨rfl, (grows.found clears ref shown same).mpr ?_⟩
        by_cases bare : planting.path = []
        · exact .inr (roots clears bare ref (root (planting.place_eq_none.mpr bare)) same)
        · exact .inl bare
      · exact .inr ⟨shown, fun place same => here ⟨place, same⟩, nofun⟩
  -- Links stay one by one from the top down, so the part of the path that has been walked is carried along.
  have walk : ∀ front back, path = front ++ back → Chain before.shows front.getLast? back →
      Chain after.shows front.getLast? back := by
    intro front back split lies
    induction back generalizing front with
    | nil => trivial
    | cons ref rest ih =>
      have inside : ∀ above ∈ front.getLast?, above ∈ path := by
        intro above last
        rw [split]
        exact List.mem_append_left _ (List.mem_of_getLast? last)
      have first : front.getLast? = none → ref ∈ path.head? := by
        intro none
        rw [split, List.getLast?_eq_none_iff.mp none]
        rfl
      refine ⟨link _ ref lies.1 (by simp [split]) inside first, ?_⟩
      have deeper := ih (front ++ [ref]) (by simp [split])
      rw [List.getLast?_concat] at deeper
      exact deeper lies.2
  exact walk [] path rfl lies

theorem Traced.known (traced : Traced ids top plantings before after) {ref : Ref} (listed : ref ∈ top)
    (shown : before.shows none ref) (items : ∀ planting ∈ plantings, planting.clears = true → ids ref ≠ ids planting.ref)
    (member : planting ∈ plantings) (space : planting.clears = false) (root : planting.path = [])
    (same : ids ref = ids planting.ref) : ref = planting.ref := by
  induction plantings generalizing before with
  | nil => cases member
  | cons first rest ih =>
    obtain ⟨middle, grows, traced⟩ := traced
    rcases List.mem_cons.mp member with rfl | later
    · exact (grows.found space ref (planting.place_eq_none.mpr root ▸ shown) same).mpr (.inr listed)
    -- Earlier plantings leave the namespace where it is.
    · have lies : Chain middle.shows none [ref] := by
        refine grows.keeps ⟨shown, trivial⟩ ?_ ?_
        · intro clears other found
          rw [List.mem_singleton.mp found]
          exact items first List.mem_cons_self clears
        · intro _ _ other head _
          exact Option.some_inj.mp head ▸ listed
      exact ih traced lies.1 (fun other found => items other (List.mem_cons_of_mem _ found)) later

/-- What is planted can be reached when later items have other ids and later namespaces at the top are there already. -/
theorem Traced.reaches (traced : Traced ids top plantings before after) (nested : Nested placed plantings)
    (apart : plantings.Pairwise fun first second =>
      (second.clears = true → ids first.ref ≠ ids second.ref) ∧
        (second.clears = false → first.path = [] → second.path = [] → ids first.ref = ids second.ref → first.ref ∈ top))
    (lie : ∀ old ∈ placed, Chain before.shows none old.full)
    (items : ∀ old ∈ placed, ∀ new ∈ plantings, new.clears = true → ∀ ref ∈ old.full, ids ref ≠ ids new.ref)
    (roots : ∀ old ∈ placed, ∀ new ∈ plantings, new.clears = false → new.path = [] →
      ∀ ref ∈ old.full.head?, ids ref = ids new.ref → ref ∈ top) :
    ∀ planting ∈ plantings ++ placed, Chain after.shows none planting.full := by
  induction plantings generalizing before placed with
  | nil =>
    obtain rfl : before = after := traced
    exact lie
  | cons planting rest ih =>
    obtain ⟨middle, grows, traced⟩ := traced
    obtain ⟨below, nested⟩ := nested
    obtain ⟨first, apart⟩ := List.pairwise_cons.mp apart
    have own_items : planting.clears = true → ∀ ref ∈ planting.path, ids ref ≠ ids planting.ref := by
      intro clears ref member
      rcases below with root | ⟨above, known, same⟩
      · rw [root] at member
        cases member
      · exact items above known planting List.mem_cons_self clears ref (same ▸ member)
    have own : Chain middle.shows none planting.full := by
      refine chain_append.mpr ⟨grows.keeps grows.path own_items ?_, ?_, trivial⟩
      · intro _ root ref head
        rw [root] at head
        cases head
      · rw [Option.or_none]
        exact (grows.shows _ _).mpr (.inl ⟨rfl, rfl⟩)
    have old : ∀ known ∈ placed, Chain middle.shows none known.full := fun known member =>
      grows.keeps (lie known member) (items known member planting List.mem_cons_self)
        (roots known member planting List.mem_cons_self)
    -- What comes later is told apart from this planting as it is from those before.
    have all := ih traced nested apart (List.forall_mem_cons.mpr ⟨own, old⟩) ?_ ?_
    · intro other member
      refine all other ?_
      rcases List.mem_append.mp member with new | known
      · rcases List.mem_cons.mp new with rfl | later
        · exact List.mem_append_right _ List.mem_cons_self
        · exact List.mem_append_left _ later
      · exact List.mem_append_right _ (List.mem_cons_of_mem _ known)
    · refine List.forall_mem_cons.mpr ⟨?_, fun known member new later => items known member new (List.mem_cons_of_mem _ later)⟩
      intro new later clears ref member
      rcases List.mem_append.mp member with inside | last
      · rcases below with root | ⟨above, known, same⟩
        · rw [root] at inside
          cases inside
        · exact items above known new (List.mem_cons_of_mem _ later) clears ref (same ▸ inside)
      · rw [List.mem_singleton.mp last]
        exact (first new later).1 clears
    · refine List.forall_mem_cons.mpr ⟨?_, fun known member new later => roots known member new (List.mem_cons_of_mem _ later)⟩
      intro new later space root ref head same
      rcases below with bare | ⟨above, known, equal⟩
      · rw [Planting.full, bare] at head
        obtain rfl : planting.ref = ref := Option.some_inj.mp head
        exact (first new later).2 space bare root same
      · refine roots above known new (List.mem_cons_of_mem _ later) space root ref ?_ same
        rw [Planting.full, equal, List.head?_append] at head
        cases path : above.full.head? with
        | none => simp [Planting.full] at path
        | some other =>
          rw [path] at head
          exact head

/-! ## Files -/

theorem nested_spaces {spaces : List Ref} (around : path = [] ∨ ∃ above ∈ placed, path = above.full) :
    Nested placed (spacePlantings path spaces) := by
  induction spaces generalizing path placed with
  | nil => trivial
  | cons first rest ih => exact ⟨around, ih (.inr ⟨⟨path, first, false⟩, List.mem_cons_self, rfl⟩)⟩

theorem nested_items {opened items : List (Ref × Definition)} (base : path = [] ∨ ∃ above ∈ placed, path = above.full)
    (known : ∀ front first back, opened = front ++ first :: back →
      ⟨path ++ (back.map (·.1)).reverse, first.1, true⟩ ∈ placed) : Nested placed (itemPlantings path opened items) := by
  induction items generalizing opened placed with
  | nil => trivial
  | cons item rest ih =>
    obtain ⟨dropped, split⟩ : opened.dropWhile (item.2.depth ≤ ·.2.depth) <:+ opened := List.dropWhile_suffix _
    rw [itemPlantings]
    generalize opened.dropWhile (item.2.depth ≤ ·.2.depth) = above at split ⊢
    refine ⟨?_, ih ?_ ?_⟩
    · cases above with
      | nil => simpa using base
      | cons closest outer =>
        refine .inr ⟨_, known dropped closest outer split.symm, ?_⟩
        simp [Planting.full]
    · refine base.imp_right ?_
      rintro ⟨other, member, same⟩
      exact ⟨other, List.mem_cons_of_mem _ member, same⟩
    · intro front first back equal
      cases front with
      | nil =>
        cases equal
        exact List.mem_cons_self
      | cons other front =>
        obtain ⟨-, inner⟩ := List.cons.inj equal
        refine List.mem_cons_of_mem _ (known (dropped ++ front) first back ?_)
        rw [← split, inner, List.append_assoc]
        rfl

theorem nested_beds (beds : List Bed) : Nested placed (beds.flatMap Bed.plantings) := by
  induction beds generalizing placed with
  | nil => trivial
  | cons bed rest ih =>
    rw [List.flatMap_cons, nested_append]
    refine ⟨?_, ih⟩
    rw [Bed.plantings, nested_append]
    refine ⟨nested_spaces (.inl rfl), nested_items ?_ ?_⟩
    · rcases List.eq_nil_or_concat bed.spaces with none | ⟨front, last, split⟩
      · exact .inl none
      · rw [List.concat_eq_append] at split
        refine .inr ⟨⟨front, last, false⟩, ?_, split⟩
        refine List.mem_append_left _ (List.mem_reverse.mpr ?_)
        rw [split]
        exact mem_spacePlantings_of_split []
    · intro front first back none
      cases front <;> cases none

/-- Whatever there was before, all items of a file can be reached after it has been built. -/
theorem build_reaches {outline : Outline} {live : Ref → Prop} {previous : List (String × Ref)}
    (forested : Forested outline live) (spare : Spare outline previous live) (uri : Option String)
    {blocks : List SpaceBlock} (shaped : ∀ block ∈ blocks, block.Shaped)
    (distinct : ((blocks.flatMap (·.classes.labels)).map (·.id)).Nodup)
    (plain : ∀ definition ∈ blocks.flatMap (·.classes.labels), ∀ name, definition.id ≠ spaceMark ++ name)
    (spread : blocks.Pairwise fun block other => ∀ id, (spaceIds (block.space.map (·.label))).head? = some id →
      (spaceIds (other.space.map (·.label))).head? = some id → ∃ ref ∈ outline.top, outline.idOf ref = id) :
    let built := build outline uri previous (blocks.flatMap SpaceBlock.events)
    ∃ beds : List Bed, beds.map (·.block) = blocks ∧ built.2 = beds.flatMap (·.items) ∧
      (∀ bed ∈ beds, bed.Sown built.1.idOf) ∧
      ∀ planting ∈ beds.flatMap Bed.plantings, Chain built.1.Holds none planting.full := by
  intro built
  obtain ⟨beds, alive, result, same, items, sown, -, ids, traced⟩ := build_traced forested spare uri shaped
  have labels : (beds.flatMap (·.items)).map (·.2) = blocks.flatMap (·.classes.labels) := same ▸ items_of_beds sown
  rw [← labels] at plain distinct
  rw [List.map_map] at distinct
  have plain : ∀ entry ∈ beds.flatMap (·.items), ∀ name, entry.2.id ≠ spaceMark ++ name := fun entry member =>
    plain entry.2 (List.mem_map_of_mem member)
  have starts : beds.Pairwise fun bed other => ∀ id, (spaceIds (bed.block.space.map (·.label))).head? = some id →
      (spaceIds (other.block.space.map (·.label))).head? = some id → ∃ ref ∈ outline.top, built.1.idOf ref = id := by
    rw [← same] at spread
    refine (List.pairwise_map.mp spread).imp fun {bed other} spread id first second => ?_
    obtain ⟨ref, inside, equal⟩ := spread id first second
    have valid := forested.valid ref (forested.inside none ref Open.top inside).1
    exact ⟨ref, inside, (ids ref valid).trans equal⟩
  have apart : (beds.flatMap Bed.plantings).Pairwise fun first second =>
      (second.clears = true → built.1.idOf first.ref ≠ built.1.idOf second.ref) ∧
        (second.clears = false → first.path = [] → second.path = [] →
          built.1.idOf first.ref = built.1.idOf second.ref → first.ref ∈ outline.top) := by
    refine (plantings_apart sown distinct plain starts).imp_of_mem fun {first second} member found apart => ?_
    refine ⟨apart.1, fun space root beginning equal => ?_⟩
    obtain ⟨known, listed, match_id⟩ := apart.2 space root beginning equal
    obtain ⟨name, marked⟩ : ∃ name, built.1.idOf second.ref = spaceMark ++ name := by
      rcases planting_kinds sown found with ⟨-, marked⟩ | ⟨item, -⟩
      · exact marked
      · rw [space] at item
        cases item
    have items : ∀ planting ∈ beds.flatMap Bed.plantings, planting.clears = true →
        built.1.idOf known ≠ built.1.idOf planting.ref := by
      intro planting inside clears same
      rcases planting_kinds sown inside with ⟨other, -⟩ | ⟨-, entry, there, id⟩
      · rw [clears] at other
        cases other
      · exact plain entry there name (id.symm.trans (same.symm.trans (match_id.trans marked)))
    have first_space : first.clears = false := by
      rw [Bool.eq_false_iff]
      exact fun clears => items first member clears (match_id.trans equal.symm)
    have shown : forested.sight.shows none known := ⟨Open.top, listed⟩
    exact traced.known listed shown items member first_space root (match_id.trans equal.symm) ▸ listed
  have nested : Nested [] (beds.flatMap Bed.plantings) := nested_beds beds
  have all := traced.reaches nested apart nofun nofun nofun
  refine ⟨beds, same, items, sown, fun planting member => ?_⟩
  exact (all planting (List.mem_append_left _ member)).mono fun place ref shown => shown.2

end TestScout.Outline

namespace TestScout
open Test Outline

/-- For each definition that is no namespace, the label of the namespace that it lies in. -/
def Test.Definition.spacesAround (opened : Option Definition) : List Definition → List (Option String)
  | [] => []
  | definition :: rest =>
    if definition.kind = .space then spacesAround (some definition) rest
    else
      let around := opened.filter (·.depth < definition.depth)
      around.map (·.label) :: spacesAround around rest

namespace Outline
open Definition

theorem spacesAround_append {opened : Option Definition} {definitions : List Definition} (rest : List Definition)
    (items : ∀ definition ∈ definitions, definition.kind ≠ .space)
    (deep : ∀ definition ∈ definitions, ∀ space ∈ opened, space.depth < definition.depth) :
    spacesAround opened (definitions ++ rest) =
      definitions.map (fun _ => opened.map (·.label)) ++ spacesAround opened rest := by
  induction definitions with
  | nil => rfl
  | cons first others ih =>
    have still : opened.filter (·.depth < first.depth) = opened := by
      cases opened with
      | none => rfl
      | some space => simp [deep first List.mem_cons_self space rfl]
    have later := ih (fun other member => items other (List.mem_cons_of_mem _ member))
      (fun other member => deep other (List.mem_cons_of_mem _ member))
    simp only [List.cons_append, spacesAround, if_neg (items first List.mem_cons_self), still, List.map_cons, later]

theorem spacesAround_blocks {blocks : List SpaceBlock} (shaped : ∀ block ∈ blocks, block.Shaped) {opened : Option Definition}
    (low : ∀ space ∈ opened, space.depth = 1) : spacesAround opened (blocks.flatMap SpaceBlock.events) =
      blocks.flatMap fun block => block.classes.labels.map fun _ => block.space.map (·.label) := by
  induction blocks generalizing opened with
  | nil => rfl
  | cons block rest ih =>
    have first := shaped block List.mem_cons_self
    have ih := fun {opened} => @ih (fun other member => shaped other (List.mem_cons_of_mem _ member)) opened
    have items : ∀ definition ∈ block.classes.labels, definition.kind ≠ .space := fun definition member => first.item member
    rw [List.flatMap_cons, List.flatMap_cons, SpaceBlock.events, List.append_assoc]
    cases space : block.space with
    | some found =>
      obtain ⟨kind, depth⟩ := first.space found space
      have deep : ∀ definition ∈ block.classes.labels, ∀ space ∈ some found, space.depth < definition.depth := by
        intro definition member other same
        obtain rfl : found = other := Option.some_inj.mp same
        have inner : 2 ≤ definition.depth := by simpa [SpaceBlock.depth, space] using first.deep member
        rw [depth]
        exact inner
      simp only [Option.toList_some, List.cons_append, List.nil_append, spacesAround, if_pos kind]
      rw [spacesAround_append _ items deep, ih fun other same => Option.some_inj.mp same ▸ depth]
    | none =>
      obtain ⟨start, others, split, kind, depth⟩ := first.first
      rw [SpaceBlock.depth, space] at depth
      have closed : opened.filter (·.depth < start.depth) = none := by
        cases opened with
        | none => rfl
        | some outer => simp [low outer rfl, show start.depth = 1 from depth]
      have inner : spacesAround none (others ++ rest.flatMap SpaceBlock.events) = _ :=
        spacesAround_append _ (fun other member => items other (split ▸ List.mem_cons_of_mem _ member))
          fun _ _ _ absent => absurd absent (Option.not_mem_none _)
      have class_item : start.kind ≠ .space := items start (split ▸ List.mem_cons_self)
      simp only [Option.toList_none, List.nil_append, split, List.cons_append, spacesAround, if_neg class_item, closed]
      rw [inner, ih fun _ absent => absurd absent (Option.not_mem_none _)]
      rfl

/-- When no block starts deeper than what comes before it, nothing of one block is around anything of another. -/
theorem trails_level {ids : Ref → String} {beds : List Bed} (sown : ∀ bed ∈ beds, bed.Sown ids)
    (shaped : ∀ bed ∈ beds, bed.block.Shaped) {level : Nat} (flat : ∀ bed ∈ beds, bed.block.depth = level)
    {opened : List (Ref × Definition)} (deep : ∀ item ∈ opened, level ≤ item.2.depth) :
    trails (·.2.depth) opened (beds.flatMap (·.items)) = beds.flatMap fun bed => trails (·.2.depth) [] bed.items := by
  induction beds generalizing opened with
  | nil => rfl
  | cons bed rest ih =>
    have here := flat bed List.mem_cons_self
    have sown_first := sown bed List.mem_cons_self
    have shaped_first := shaped bed List.mem_cons_self
    obtain ⟨further, split, before⟩ := @trails_append _ (fun item : Ref × Definition => item.2.depth) opened bed.items
      (rest.flatMap (·.items))
    have lower : ∀ item ∈ further, level ≤ item.2.depth := by
      intro item member
      rcases before item member with old | own
      · exact deep item old
      · exact here ▸ item_lower shaped_first sown_first.items own
    obtain ⟨first, others, listed, depth⟩ := first_item shaped_first sown_first.items
    have closing : trails (·.2.depth) opened bed.items = trails (·.2.depth) [] bed.items := by
      rw [listed]
      refine trails_closing fun item member => ?_
      rw [depth, here]
      exact deep item member
    rw [List.flatMap_cons, split, closing, List.flatMap_cons, ih (fun other member => sown other (List.mem_cons_of_mem _ member))
      (fun other member => shaped other (List.mem_cons_of_mem _ member))
      (fun other member => flat other (List.mem_cons_of_mem _ member)) lower]

/-- The classes of all blocks lie at one depth when those in the list of definitions do. -/
theorem exists_level {blocks : List SpaceBlock} (shaped : ∀ block ∈ blocks, block.Shaped)
    (level : ∀ first ∈ blocks.flatMap SpaceBlock.events, ∀ second ∈ blocks.flatMap SpaceBlock.events,
      first.kind = .classLike → second.kind = .classLike → first.depth = second.depth) :
    ∃ level, ∀ block ∈ blocks, block.depth = level := by
  have start : ∀ block ∈ blocks, ∃ first ∈ blocks.flatMap SpaceBlock.events, first.kind = .classLike ∧
      first.depth = block.depth := by
    intro block member
    obtain ⟨first, rest, split, kind, depth⟩ := (shaped block member).first
    refine ⟨first, List.mem_flatMap.mpr ⟨block, member, List.mem_append_right _ ?_⟩, kind, depth⟩
    rw [split]
    exact List.mem_cons_self
  cases blocks with
  | nil => exact ⟨0, nofun⟩
  | cons root rest =>
    obtain ⟨first, listed, kind, depth⟩ := start root List.mem_cons_self
    refine ⟨root.depth, fun block member => ?_⟩
    obtain ⟨other, found, same, deep⟩ := start block member
    rw [← depth, ← deep]
    exact level other found first listed same kind

/-- What is around a definition in the forest of a file, by positions, is what is around it in the list. -/
theorem ancestors_of_items {items : List (Ref × Definition)} {definitions : List Definition}
    (same : items.map (·.2) = definitions) (flat : ∀ definition ∈ definitions, definition.children = [])
    {position : Nat} {item : Ref × Definition} {above : List (Ref × Definition)}
    (trail : (trails (·.2.depth) [] items)[position]? = some (above, item)) :
    ∃ positions, (ancestorsAll [] 0 (nest definitions))[position]? = some positions ∧
      above.reverse.map some = positions.map (items[·]?) := by
  have numbered : (trails (fun entry : (Ref × Definition) × Nat => entry.1.2.depth) [] items.zipIdx).map
      (fun (around, entry) => (around.map (·.1), entry.1)) = trails (·.2.depth) [] items := by
    have mapped : trails (fun item : Ref × Definition => item.2.depth) [] (items.zipIdx.map (·.1)) = _ :=
      trails_map (·.1) [] items.zipIdx
    rw [List.zipIdx_map_fst] at mapped
    exact mapped.symm
  have all : ancestorsAll [] 0 (nest definitions) =
      (trails (fun entry : (Ref × Definition) × Nat => entry.1.2.depth) [] items.zipIdx).map
        fun (around, _) => (around.map (·.2)).reverse := by
    have split : trails (fun entry : Definition × Nat => entry.1.depth) [] (items.zipIdx.map fun entry => (entry.1.2, entry.2)) =
        _ := trails_map (fun entry : (Ref × Definition) × Nat => (entry.1.2, entry.2)) [] items.zipIdx
    have mapped : definitions.zipIdx 0 = items.zipIdx.map fun entry => (entry.1.2, entry.2) := by
      rw [← same, List.zipIdx_map]
      rfl
    rw [ancestorsAll_nest flat, mapped, split, List.map_map]
    refine List.map_congr_left fun trail _ => ?_
    simp
  rw [← numbered, List.getElem?_map] at trail
  obtain ⟨⟨around, entry⟩, found, equal⟩ := Option.map_eq_some_iff.mp trail
  obtain ⟨rfl, rfl⟩ := Prod.mk.injEq .. ▸ equal
  refine ⟨(around.map (·.2)).reverse, ?_, ?_⟩
  · rw [all, List.getElem?_map, found]
    rfl
  · rw [← List.map_reverse, ← List.map_reverse, List.map_map, List.map_map]
    refine List.map_congr_left fun outer member => ?_
    have listed := (mem_of_mem_trails (List.mem_of_getElem? found)).2 outer (List.mem_reverse.mp member)
    exact (List.mem_zipIdx_iff_getElem?.mp (listed.resolve_left nofun)).symm

/-- An item is below those of the segments of a namespace and then below the built items at some positions. -/
def LiesBelow (outline : Outline) (built : List (Ref × Definition)) (space : Option String) (positions : List Nat)
    (ref : Ref) : Prop :=
  ∃ (segments : List Ref) (around : List (Ref × Definition)), segments.map outline.idOf = spaceIds space ∧
    around.map some = positions.map (built[·]?) ∧ Chain outline.Holds none (segments ++ around.map (·.1) ++ [ref])

/-- Each definition of a file can be reached from the top of the outline: by one item for each segment of its namespace,
and then by those of the definitions that it lies below in the forest of the file. -/
theorem build_reaches_definitions (scout : Discovery.Scout) (source : String) (file : Path) (suite : Option String)
    {outline : Outline} {live : Ref → Prop} {previous : List (String × Ref)} (forested : Forested outline live)
    (spare : Spare outline previous live) (uri : Option String)
    (distinct : (((scout.look source file suite).2.filter (·.kind != .space)).map (·.id)).Nodup)
    (plain : ∀ definition ∈ (scout.look source file suite).2.filter (·.kind != .space), ∀ name, definition.id ≠ spaceMark ++ name)
    (spread : ((scout.look source file suite).2.filter (·.kind = .space)).Pairwise fun first second =>
      ∀ id, (spaceIds (some first.label)).head? = some id → (spaceIds (some second.label)).head? = some id →
        ∃ ref ∈ outline.top, outline.idOf ref = id)
    (level : ∀ first ∈ (scout.look source file suite).2, ∀ second ∈ (scout.look source file suite).2,
      first.kind = .classLike → second.kind = .classLike → first.depth = second.depth) :
    let definitions := (scout.look source file suite).2
    let built := Outline.build outline uri previous definitions
    built.2.map (·.2) = definitions.filter (·.kind != .space) ∧
      ∀ (position : Nat) (item : Ref × Definition), built.2[position]? = some item → built.1.idOf item.1 = item.2.id ∧
        ∃ space positions, (spacesAround none definitions)[position]? = some space ∧
          (ancestorsAll [] 0 (forest definitions))[position]? = some positions ∧
            LiesBelow built.1 built.2 space positions item.1 := by
  obtain ⟨blocks, shaped, same⟩ := scout.look_blocks source file suite
  generalize (scout.look source file suite).2 = definitions at same distinct plain spread level
  subst same
  rw [SpaceBlock.definitions_of_blocks shaped] at distinct plain
  intro definitions built
  obtain ⟨beds, blocks_eq, items, sown, reaches⟩ :=
    build_reaches forested spare uri shaped distinct plain (Editor.pairwise_blocks shaped spread)
  have in_blocks : ∀ bed ∈ beds, bed.block.Shaped := fun bed member => shaped bed.block (blocks_eq ▸ List.mem_map_of_mem member)
  have labels : built.2.map (·.2) = blocks.flatMap (·.classes.labels) := by
    rw [items, ← blocks_eq]
    exact items_of_beds sown
  have tests : built.2.map (·.2) = definitions.filter (·.kind != .space) :=
    labels.trans (SpaceBlock.definitions_of_blocks shaped).symm
  obtain ⟨lowest, flat⟩ := exists_level shaped level
  have trail_list : trails (·.2.depth) [] built.2 = beds.flatMap fun bed => trails (·.2.depth) [] bed.items := by
    rw [items]
    exact trails_level sown in_blocks (fun bed member => flat bed.block (blocks_eq ▸ List.mem_map_of_mem member)) nofun
  let marked := beds.flatMap fun bed => (trails (·.2.depth) [] bed.items).map fun trail => (bed, trail)
  have trails_marked : marked.map (·.2) = trails (·.2.depth) [] built.2 := by
    rw [trail_list, List.map_flatMap]
    refine List.flatMap_congr fun bed _ => ?_
    rw [List.map_map]
    exact List.map_id _
  have spaces_marked : marked.map (·.1.block.space.map (·.label)) = spacesAround none definitions := by
    have spaces := spacesAround_blocks shaped (fun _ (absent : _ ∈ none) => nomatch absent)
    rw [spaces, ← blocks_eq, List.flatMap_map, List.map_flatMap]
    refine List.flatMap_congr fun bed member => ?_
    have elements : (trails (fun item : Ref × Definition => item.2.depth) [] bed.items).map (·.2) = bed.items :=
      trails_elements [] bed.items
    have same := congrArg (List.map fun _ => bed.block.space.map (·.label)) elements
    rw [List.map_map] at same ⊢
    rw [← (sown bed member).items, List.map_map]
    exact same
  have children : ∀ definition ∈ definitions.filter (·.kind != .space), definition.children = [] := by
    intro definition member
    rw [SpaceBlock.definitions_of_blocks shaped] at member
    obtain ⟨block, listed, inside⟩ := List.mem_flatMap.mp member
    exact ((shaped block listed).classes.label inside).1
  refine ⟨tests, fun position item found => ?_⟩
  rw [← trails_elements [] built.2, ← trails_marked, List.map_map, List.getElem?_map] at found
  obtain ⟨⟨bed, above, element⟩, here, rfl⟩ := Option.map_eq_some_iff.mp found
  have trail : (trails (·.2.depth) [] built.2)[position]? = some (above, element) := by
    rw [← trails_marked, List.getElem?_map, here]
    rfl
  obtain ⟨bed, inside, trail_in⟩ := List.mem_flatMap.mp (List.mem_of_getElem? here)
  obtain ⟨trail_pair, in_bed, equal⟩ := List.mem_map.mp trail_in
  cases equal
  obtain ⟨positions, ancestors, around⟩ := ancestors_of_items tests children trail
  refine ⟨(sown bed inside).named element (mem_of_mem_trails in_bed).1, bed.block.space.map (·.label), positions, ?_, ancestors,
    bed.spaces, above.reverse, (sown bed inside).spaces, around, ?_⟩
  · rw [← spaces_marked, List.getElem?_map, here]
    rfl
  · have path := reaches _ (List.mem_flatMap.mpr ⟨bed, inside, Bed.item_mem_plantings in_bed⟩)
    rwa [Planting.full, ← List.map_reverse] at path

/-- A reader of a file with two namespaces, whose names it is told. -/
private def deskReader (second : String) : Surface.Reader := fun _ =>
  let block := fun (name className : String) => Code.Node.space { name, children := [
    .classDecl { name := className, body := [.method { name := "testOpen", body := some {} }] }] }
  some (.program { children := [block "Shop" "CartTest", block second "DeskTest"] })

private def deskFound (second : String) : List Definition :=
  (Discovery.Scout.look { reader := deskReader second, root := ⟨"/p"⟩ } "" ⟨"/p/Desk.php"⟩ none).2

/-- The second test is below the items of the two segments of its namespace and then of its class. -/
theorem desk_test_reached :
    let built := Outline.build {} none [] (deskFound "Till\\Desk")
    ∃ item, built.2[3]? = some item ∧ item.2.id = "Till\\Desk\\DeskTest::testOpen" ∧
      LiesBelow built.1 built.2 (some "Till\\Desk") [2] item.1 := by
  intro built
  have forested : Forested {} fun _ => False := .nothing rfl fun _ => id
  have spare : Spare {} [] fun _ => False := ⟨nofun, nofun, nofun, nofun⟩
  have distinct : (((deskFound "Till\\Desk").filter (·.kind != .space)).map (·.id)).Nodup := by decide +kernel
  have plain : ∀ definition ∈ (deskFound "Till\\Desk").filter (·.kind != .space), ∀ name, definition.id ≠ spaceMark ++ name := by
    have marked : ∀ definition ∈ (deskFound "Till\\Desk").filter (·.kind != .space),
        ¬spaceMark.toList <+: definition.id.toList := by
      decide +kernel
    intro definition member name same
    refine marked definition member ⟨name.toList, ?_⟩
    rw [same, String.toList_append]
  have spread : ((deskFound "Till\\Desk").filter (·.kind = .space)).Pairwise fun first second =>
      ∀ id ∈ (spaceIds (some first.label)).head?, id ∉ (spaceIds (some second.label)).head? := by
    decide +kernel
  have level : ∀ first ∈ deskFound "Till\\Desk", ∀ second ∈ deskFound "Till\\Desk",
      first.kind = .classLike → second.kind = .classLike → first.depth = second.depth := by
    decide +kernel
  obtain ⟨-, reached⟩ := build_reaches_definitions { reader := deskReader "Till\\Desk", root := ⟨"/p"⟩ } "" ⟨"/p/Desk.php"⟩ none
    forested spare none distinct plain (spread.imp fun apart id one two => absurd two (apart id one)) level
  have found : ∃ item, built.2[3]? = some item ∧ item.2.id = "Till\\Desk\\DeskTest::testOpen" := by decide +kernel
  obtain ⟨item, here, id⟩ := found
  obtain ⟨-, space, positions, around, above, lies⟩ := reached 3 item here
  have spaces : (spacesAround none (deskFound "Till\\Desk"))[3]? = some (some "Till\\Desk") := by decide +kernel
  have ancestors : (ancestorsAll [] 0 (forest (deskFound "Till\\Desk")))[3]? = some [2] := by decide +kernel
  obtain rfl : some "Till\\Desk" = space := Option.some_inj.mp (spaces.symm.trans around)
  obtain rfl : [2] = positions := Option.some_inj.mp (ancestors.symm.trans above)
  exact ⟨item, here, id, lies⟩

/-- When both blocks have the same namespace the first class is lost. -/
theorem cart_test_lost :
    let built := Outline.build {} none [] (deskFound "Shop")
    (((deskFound "Shop").filter (·.kind != .space)).map (·.id)).Nodup ∧
      (spacesAround none (deskFound "Shop"))[0]? = some (some "Shop") ∧
      (ancestorsAll [] 0 (forest (deskFound "Shop")))[0]? = some [] ∧
      ∃ item, built.2[0]? = some item ∧ item.2.id = "Shop\\CartTest" ∧ ¬LiesBelow built.1 built.2 (some "Shop") [] item.1 := by
  intro built
  have absent : ∃ item, built.2[0]? = some item ∧ item.2.id = "Shop\\CartTest" ∧
      ∀ space ∈ built.1.top, item.1 ∉ built.1.childrenOf (some space) := by
    decide +kernel
  have one : spaceIds (some "Shop") = ["namespace:Shop"] := by decide +kernel
  obtain ⟨item, here, id, away⟩ := absent
  refine ⟨by decide +kernel, by decide +kernel, by decide +kernel, item, here, id, ?_⟩
  rintro ⟨segments, around, ids, none, path⟩
  rw [one] at ids
  obtain ⟨space, rest, rfl, -, empty⟩ := List.map_eq_cons_iff.mp ids
  rw [List.map_eq_nil_iff] at empty
  rw [List.map_nil, List.map_eq_nil_iff] at none
  subst empty none
  exact away space path.1 path.2.1

end Outline
end TestScout
