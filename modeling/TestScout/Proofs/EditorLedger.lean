import TestScout.Proofs.BuilderAdditions
import TestScout.Proofs.EditorRegister
import TestScout.Proofs.OutlinePruning

/-! The account that an editor keeps of the tracked files: each definition has an item, those of classes lie below
the items of their namespaces and all others below the one they belong to, and there are no other items than these.
Taking out a file takes out exactly its items, with the namespaces that are empty then. -/

namespace TestScout
open Test Outline

/-- The items that are there for definitions or for namespaces. -/
def Ledger.Alive (ledger : Ledger) (spaces : Ref → Prop) (ref : Ref) : Prop := (∃ item ∈ ledger.items, item.1 = ref) ∨ spaces ref

namespace Editor

structure Mirror (editor : Editor) (ledger : Ledger) (spaces : Ref → Prop) : Prop extends Register editor ledger where
  plain : ∀ item ∈ ledger.items, ∀ name, item.2.id ≠ spaceMark ++ name
  marked : ∀ ref, spaces ref → ∃ name, editor.outline.idOf ref = spaceMark ++ name
  forested : Forested editor.outline (ledger.Alive spaces)
  rooted : ∀ ref, ledger.Alive spaces ref → ∃ front, Chain editor.outline.Holds none (front ++ [ref])
  /-- Namespaces lie below namespaces, and there is something in each of them. -/
  upper : ∀ ref, spaces ref → ∃ front, (∀ space ∈ front, spaces space) ∧ Chain editor.outline.Holds none (front ++ [ref])
  filled : ∀ ref, spaces ref → editor.outline.childrenOf (some ref) ≠ []
  classes : ∀ item ∈ ledger.items, item.2.kind = .classLike → ∃ front, (∀ space ∈ front, spaces space) ∧
    front.map editor.outline.idOf = spaceIds item.2.space ∧ Chain editor.outline.Holds none (front ++ [item.1])
  members : ∀ entry ∈ ledger, ∀ above item, (above, item) ∈ trails (·.2.depth) [] entry.2 → item.2.kind ≠ .classLike →
    ∃ parent ∈ above.head?, editor.outline.Holds (some parent.1) item.1

variable {editor : Editor} {ledger : Ledger} {spaces : Ref → Prop} {file : Path}

namespace Mirror

variable {entry other : Path × List (Ref × Definition)} {item : Ref × Definition}

theorem not_space (mirror : Mirror editor ledger spaces) (member : item ∈ ledger.items) : ¬spaces item.1 := by
  intro space
  obtain ⟨name, marked⟩ := mirror.marked item.1 space
  exact mirror.plain item member name ((mirror.named item member).symm.trans marked)

theorem exists_parent (mirror : Mirror editor ledger spaces) (inside : entry ∈ ledger) (member : item ∈ entry.2)
    (kind : item.2.kind ≠ .classLike) : ∃ parent ∈ entry.2, editor.outline.Holds (some parent.1) item.1 := by
  obtain ⟨above, trail⟩ : ∃ above, (above, item) ∈ trails (·.2.depth) [] entry.2 := exists_trail member
  obtain ⟨parent, closest, shown⟩ := mirror.members entry inside above item trail kind
  exact ⟨parent, ((mem_of_mem_trails trail).2 parent (List.mem_of_head? closest)).resolve_left nofun, shown⟩

/-- What is below an item of a definition is the item of a definition in the same file. -/
theorem below_item (mirror : Mirror editor ledger spaces) (inside : entry ∈ ledger) (member : item ∈ entry.2) {child : Ref}
    (held : editor.outline.Holds (some item.1) child) : ∃ below ∈ entry.2, below.1 = child := by
  have listed := Ledger.mem_items.mpr ⟨entry, inside, member⟩
  have reachable : Open (ledger.Alive spaces) (some item.1) := Open.below (.inl ⟨item, listed, rfl⟩)
  obtain ⟨living, place⟩ := mirror.forested.inside (some item.1) child reachable held
  -- Above a namespace or a class there are only namespaces.
  have outside : ∀ front, (∀ space ∈ front, spaces space) → ¬Chain editor.outline.Holds none (front ++ [child]) := by
    intro front within lies
    have last := (mirror.forested.parent_of_path lies).2.symm.trans place
    exact mirror.not_space listed (within item.1 (List.mem_of_getLast? last))
  rcases living with ⟨below, found, rfl⟩ | space
  · obtain ⟨other, belongs, placed⟩ := Ledger.mem_items.mp found
    by_cases kind : below.2.kind = .classLike
    · obtain ⟨front, within, -, lies⟩ := mirror.classes below found kind
      exact absurd lies (outside front within)
    obtain ⟨parent, around, shown⟩ := mirror.exists_parent belongs placed kind
    have known := Ledger.mem_items.mpr ⟨other, belongs, around⟩
    have same := mirror.forested.place_unique (Open.below (.inl ⟨parent, known, rfl⟩)) reachable shown held
    obtain rfl := mirror.item_eq_of_ref known listed (Option.some_inj.mp same)
    exact ⟨below, mirror.entry_eq belongs inside around member ▸ placed, rfl⟩
  · obtain ⟨front, within, lies⟩ := mirror.upper child space
    exact absurd lies (outside front within)

/-! ## Taking out a file -/

section

variable {gone : Ref → Prop} {pruned : Outline × List (String × Ref)} (mirror : Mirror editor ledger spaces)
  (inside : entry ∈ ledger)
  (cleared : Cleared (ledger.Alive spaces) spaces editor.outline (entry.2.map fun item => (item.2.id, item.1))
    ((entry.2.filter (·.2.kind = .classLike)).map (·.1)) gone pruned)

include mirror inside cleared

/-- What is alive without a file is what is not taken out with it. -/
theorem alive_without (own : entry.1.same file = true) (ref : Ref) : (ledger.without file).Alive (fun ref => spaces ref ∧ ¬gone ref) ref ↔
    ledger.Alive spaces ref ∧ ¬(gone ref ∨ ∃ item ∈ entry.2, item.1 = ref) := by
  have known : ∀ item ∈ entry.2, item ∈ ledger.items := fun item member => Ledger.mem_items.mpr ⟨entry, inside, member⟩
  constructor
  · rintro (⟨item, member, rfl⟩ | ⟨space, stays⟩)
    · obtain ⟨listed, outside⟩ := (mirror.mem_items_without inside own).mp member
      have apart : ¬∃ other ∈ entry.2, other.1 = item.1 := by
        rintro ⟨other, placed, same⟩
        exact outside (mirror.item_eq_of_ref listed (known other placed) same.symm ▸ placed)
      refine ⟨.inl ⟨item, listed, rfl⟩, fun either => either.elim (fun taken => ?_) apart⟩
      rcases cleared.only item.1 taken with found | space
      · obtain ⟨other, placed, same⟩ := List.mem_map.mp found
        exact apart ⟨other, (List.mem_filter.mp placed).1, same⟩
      · exact mirror.not_space listed space
    · refine ⟨.inr space, fun either => either.elim stays ?_⟩
      rintro ⟨item, placed, rfl⟩
      exact mirror.not_space (known item placed) space
  · rintro ⟨⟨item, listed, rfl⟩ | space, stays⟩
    · exact .inl ⟨item, (mirror.mem_items_without inside own).mpr
        ⟨listed, fun placed => stays (.inr ⟨item, placed, rfl⟩)⟩, rfl⟩
    · exact .inr ⟨space, fun taken => stays (.inl taken)⟩

theorem path_without {front : List Ref} {ref : Ref} (lies : Chain editor.outline.Holds none (front ++ [ref]))
    (stays : ¬(gone ref ∨ ∃ item ∈ entry.2, item.1 = ref)) :
    Chain pruned.1.Holds none (front ++ [ref]) ∧ ∀ above ∈ front ++ [ref], ¬gone above := by
  have below : ∀ item ∈ entry.2, ∀ child, editor.outline.Holds (some item.1) child →
      gone child ∨ ∃ item ∈ entry.2, item.1 = child := fun item placed child held =>
    .inr (mirror.below_item inside placed held)
  have down : ∀ above ∈ front, (gone above ∨ ∃ item ∈ entry.2, item.1 = above) → ∀ child,
      editor.outline.Holds (some above) child → gone child ∨ ∃ item ∈ entry.2, item.1 = child := by
    rintro above - (taken | ⟨item, placed, rfl⟩) child held
    · rcases cleared.only above taken with found | space
      · obtain ⟨item, placed, rfl⟩ := List.mem_map.mp found
        exact below item (List.mem_filter.mp placed).1 child held
      · exact .inl (cleared.emptied above taken space child held)
    · exact below item placed child held
  have present : ∀ above ∈ front ++ [ref], ¬gone above := fun above member taken =>
    lies.stays down stays above member (.inl taken)
  exact ⟨cleared.pruned.chain Open.top lies mirror.forested present, present⟩

/-- Nothing that is taken out is alive, and namespaces among it are empty. -/
theorem spare_without (own : entry.1.same file = true) :
    Spare pruned.1 pruned.2 ((ledger.without file).Alive fun ref => spaces ref ∧ ¬gone ref) := by
  have listed : ∀ item ∈ entry.2, item ∈ ledger.items := fun item member => Ledger.mem_items.mpr ⟨entry, inside, member⟩
  have taken : ∀ found ∈ pruned.2, (∃ item ∈ entry.2, found = (item.2.id, item.1)) ∨
      ∃ ref, gone ref ∧ spaces ref ∧ found = (editor.outline.idOf ref, ref) := by
    intro found member
    refine ((cleared.remembered found).mp member).imp_left fun old => ?_
    obtain ⟨item, placed, rfl⟩ := List.mem_map.mp old
    exact ⟨item, placed, rfl⟩
  refine ⟨fun found member => ?_, fun found member => ?_, fun found member => ?_, fun found member name marked => ?_⟩
  · rw [cleared.pruned.ids]
    rcases taken found member with ⟨item, placed, rfl⟩ | ⟨ref, -, -, rfl⟩
    · exact mirror.named item (listed item placed)
    · rfl
  · rw [cleared.pruned.size]
    rcases taken found member with ⟨item, placed, rfl⟩ | ⟨ref, -, space, rfl⟩
    · exact mirror.forested.valid item.1 (.inl ⟨item, listed item placed, rfl⟩)
    · exact mirror.forested.valid ref (.inr space)
  · rw [mirror.alive_without inside cleared own found.2]
    rintro ⟨-, stays⟩
    rcases taken found member with ⟨item, placed, rfl⟩ | ⟨ref, away, -, rfl⟩
    · exact stays (.inr ⟨item, placed, rfl⟩)
    · exact stays (.inl away)
  · rcases taken found member with ⟨item, placed, rfl⟩ | ⟨ref, away, space, rfl⟩
    · exact absurd marked (mirror.plain item (listed item placed) name)
    · refine List.eq_nil_iff_forall_not_mem.mpr fun child held => ?_
      obtain ⟨old, stays⟩ := (cleared.pruned.holds (some ref) (Open.below (.inr space)) child).mp held
      exact stays (cleared.emptied ref away space child old)

theorem forested_without (own : entry.1.same file = true) :
    Forested pruned.1 ((ledger.without file).Alive fun ref => spaces ref ∧ ¬gone ref) := by
  have alive : ∀ {ref : Ref}, _ ↔ _ := fun {ref} => mirror.alive_without inside cleared own ref
  refine cleared.pruned.forested.restrict (fun ref living => (alive.mp living).1) fun place ref reachable member => ?_
  have before : Open (ledger.Alive spaces) place := reachable.mono fun ref living => (alive.mp living).1
  obtain ⟨held, stays⟩ := (cleared.pruned.holds place before ref).mp member
  have living := (mirror.forested.inside place ref before held).1
  refine alive.mpr ⟨living, fun either => either.elim stays ?_⟩
  rintro ⟨item, placed, rfl⟩
  -- An item of the file that is no class is below an item of the file.
  by_cases kind : item.2.kind = .classLike
  · exact stays (cleared.all item.1 (List.mem_map_of_mem (List.mem_filter.mpr ⟨placed, decide_eq_true kind⟩)))
  obtain ⟨parent, around, shown⟩ := mirror.exists_parent inside placed kind
  have known := Ledger.mem_items.mpr ⟨entry, inside, around⟩
  have same := mirror.forested.place_unique (Open.below (.inl ⟨parent, known, rfl⟩)) before shown held
  exact (alive.mp (reachable parent.1 same.symm)).2 (.inr ⟨parent, around, rfl⟩)

end

/-- The classes of a file can be taken out one after the other. -/
theorem exists_cleared (mirror : Mirror editor ledger spaces) (inside : entry ∈ ledger) :
    let classes := (entry.2.filter (·.2.kind = .classLike)).map (·.1)
    let items := entry.2.map fun item => (item.2.id, item.1)
    ∃ gone, Cleared (ledger.Alive spaces) spaces editor.outline items classes gone
      (classes.foldl (fun state ref => prune editor.outline.nodes.size ref state) (editor.outline, items)) := by
  intro classes items
  have listed : ∀ item ∈ entry.2, item ∈ ledger.items := fun item member => Ledger.mem_items.mpr ⟨entry, inside, member⟩
  have refs : ∀ ref ∈ classes, ∃ item ∈ entry.2, item.2.kind = .classLike ∧ item.1 = ref := by
    intro ref member
    obtain ⟨item, placed, rfl⟩ := List.mem_map.mp member
    obtain ⟨placed, kind⟩ := List.mem_filter.mp placed
    exact ⟨item, placed, of_decide_eq_true kind, rfl⟩
  have distinct : classes.Nodup := by
    have nodup : (entry.2.map (editor.outline.idOf ·.1)).Nodup := by
      rw [List.map_congr_left fun item member => mirror.named item (listed item member)]
      exact mirror.entry_ids inside
    have refs : (entry.2.map (·.1)).Nodup := List.Nodup.of_map editor.outline.idOf (by rwa [List.map_map])
    exact refs.sublist (List.filter_sublist.map _)
  have plain : ∀ ref ∈ classes, ¬spaces ref := by
    intro ref member
    obtain ⟨item, placed, -, rfl⟩ := refs ref member
    exact mirror.not_space (listed item placed)
  have paths : ∀ ref ∈ classes, ∃ front, (∀ space ∈ front, spaces space) ∧ Chain editor.outline.Holds none (front ++ [ref]) := by
    intro ref member
    obtain ⟨item, placed, kind, rfl⟩ := refs ref member
    obtain ⟨front, within, -, lies⟩ := mirror.classes item (listed item placed) kind
    exact ⟨front, within, lies⟩
  exact prune_cleared mirror.forested (fun ref space => .inr space) distinct plain paths (Nat.le_refl _) items

theorem takeOut_of_mem (mirror : Mirror editor ledger spaces) (inside : entry ∈ ledger) (own : entry.1.same file = true) :
    ∃ left, Mirror (editor.takeOut file).1 (ledger.without file) left ∧
      Spare (editor.takeOut file).1.outline (editor.takeOut file).2 ((ledger.without file).Alive left) ∧
      ∀ ref, (ledger.without file).Alive left ref →
        (editor.takeOut file).1.outline.parentOf ref = editor.outline.parentOf ref := by
  obtain ⟨gone, cleared⟩ := mirror.exists_cleared inside
  obtain ⟨same, -⟩ := mirror.takeOut_eq inside own
  rw [← same] at cleared
  have alive : ∀ {ref : Ref}, _ ↔ _ := fun {ref} => mirror.alive_without inside cleared own ref
  have ids := cleared.pruned.ids
  have without : ∀ item, item ∈ (ledger.without file).items → item ∈ ledger.items := fun _ => Ledger.items_without_subset
  have forested := mirror.forested_without inside cleared own
  refine ⟨fun ref => spaces ref ∧ ¬gone ref, ?_, mirror.spare_without inside cleared own, fun ref living => ?_⟩
  swap
  · obtain ⟨before, stays⟩ := alive.mp living
    obtain ⟨front, lies⟩ := mirror.rooted ref before
    obtain ⟨left, -⟩ := mirror.path_without inside cleared lies stays
    rw [(forested.parent_of_path left).2, (mirror.forested.parent_of_path lies).2]
  -- Every item that is left has its path from before, with nothing on it that was taken out.
  exact {
    toRegister := mirror.without inside own ids
    plain := fun item member => mirror.plain item (without item member)
    marked := fun ref space => ids ref ▸ mirror.marked ref space.1
    forested
    rooted := fun ref living => by
      obtain ⟨before, stays⟩ := alive.mp living
      obtain ⟨front, lies⟩ := mirror.rooted ref before
      exact ⟨front, (mirror.path_without inside cleared lies stays).1⟩
    upper := fun ref space => by
      obtain ⟨front, within, lies⟩ := mirror.upper ref space.1
      obtain ⟨left, present⟩ := mirror.path_without inside cleared lies (alive.mp (.inr space)).2
      exact ⟨front, fun above member => ⟨within above member, present above (List.mem_append_left _ member)⟩, left⟩
    filled := fun ref space => cleared.filled ref (.inr space.1) space.2 (mirror.filled ref space.1)
    classes := fun item member kind => by
      obtain ⟨front, within, segments, lies⟩ := mirror.classes item (without item member) kind
      obtain ⟨left, present⟩ := mirror.path_without inside cleared lies (alive.mp (.inl ⟨item, member, rfl⟩)).2
      exact ⟨front, fun above member => ⟨within above member, present above (List.mem_append_left _ member)⟩,
        (funext ids ▸ segments :), left⟩
    members := fun other member above item trail kind => by
      obtain ⟨listed, differs⟩ := (mirror.mem_without_iff inside own).mp member
      obtain ⟨parent, closest, shown⟩ := mirror.members other listed above item trail kind
      have held : item ∈ other.2 := (mem_of_mem_trails trail).1
      have around := ((mem_of_mem_trails trail).2 parent (List.mem_of_head? closest)).resolve_left nofun
      have stays := (alive.mp (.inl ⟨item, Ledger.mem_items.mpr ⟨other, member, held⟩, rfl⟩)).2
      have known : ledger.Alive spaces parent.1 := .inl ⟨parent, Ledger.mem_items.mpr ⟨other, listed, around⟩, rfl⟩
      exact ⟨parent, closest, (cleared.pruned.holds (some parent.1) (Open.below known) item.1).mpr
        ⟨shown, fun taken => stays (.inl taken)⟩⟩ }

theorem takeOut (mirror : Mirror editor ledger spaces) (file : Path) :
    ∃ left, Mirror (editor.takeOut file).1 (ledger.without file) left ∧
      Spare (editor.takeOut file).1.outline (editor.takeOut file).2 ((ledger.without file).Alive left) ∧
      ∀ ref, (ledger.without file).Alive left ref →
        (editor.takeOut file).1.outline.parentOf ref = editor.outline.parentOf ref := by
  by_cases tracked : ∃ entry ∈ ledger, entry.1.same file = true
  · obtain ⟨entry, inside, own⟩ := tracked
    exact mirror.takeOut_of_mem inside own
  · obtain ⟨same, all⟩ := mirror.takeOut_of_not_mem fun entry member =>
      Bool.eq_false_iff.mpr fun own => tracked ⟨entry, member, own⟩
    rw [same, all]
    exact ⟨spaces, mirror, ⟨nofun, nofun, nofun, nofun⟩, fun _ _ => rfl⟩

theorem holds_settle (editor : Editor) : editor.settle.outline.Holds = editor.outline.Holds := by
  funext place ref
  exact congrArg (ref ∈ ·) ((keep_views editor.outline editor.known).2.2.1 place)

theorem settle (mirror : Mirror editor ledger spaces) : Mirror editor.settle ledger spaces := by
  obtain ⟨-, ids, children, -⟩ := keep_views editor.outline editor.known
  have holds := holds_settle editor
  exact { mirror with
    named := fun item member => (ids item.1).trans (mirror.named item member)
    marked := fun ref space => ids ref ▸ mirror.marked ref space
    forested := mirror.forested.keep mirror.rooted editor.known
    rooted := holds ▸ mirror.rooted
    upper := holds ▸ mirror.upper
    filled := fun ref space => (children (some ref)).symm ▸ mirror.filled ref space
    classes := fun item member kind => by
      rw [holds, show editor.settle.outline.idOf = editor.outline.idOf from funext ids]
      exact mirror.classes item member kind
    members := holds ▸ mirror.members }

theorem parentOf_settle (mirror : Mirror editor ledger spaces) {ref : Ref} (living : ledger.Alive spaces ref) :
    editor.settle.outline.parentOf ref = editor.outline.parentOf ref := by
  obtain ⟨front, lies⟩ := mirror.rooted ref living
  rw [(mirror.forested.parent_of_path lies).2]
  exact (mirror.settle.forested.parent_of_path (holds_settle editor ▸ lies)).2

end Mirror
end Editor
end TestScout
