import TestScout.Proofs.BuilderReturn
import TestScout.Proofs.EditorGroups

/-! The lineage of what an editor shows. It is kept when files are taken in and out as long as no two definitions have one
id, and a file that is taken in again gets the items back that it had. -/

namespace TestScout
open Test Outline

def Ledger.Classes (ledger : Ledger) (ref : Ref) : Prop :=
  ∃ item ∈ ledger.items, item.1 = ref ∧ item.2.kind = .classLike

namespace Editor

/-- The items of an editor are where their definitions belong, or nowhere. -/
structure Descended (editor : Editor) (ledger : Ledger) : Prop extends Grouped editor ledger where
  lineage : ∃ alive, Lineage editor.outline ledger.Classes alive ∧ ∀ item ∈ ledger.items, alive item.1
  lone : ∀ entry ∈ ledger, (∀ item ∈ entry.2, ¬SpaceLike item.2.id) ∨ ∃ name, Discovery.Lone entry.1 name (entry.2.map (·.2))

/-- What is left when a file has been taken out, with what is remembered of it. -/
structure Vacated (ledger : Ledger) (file : Path) (alive : Ref → Prop) (vacated : Editor × List (String × Ref)) : Prop where
  lineage : Lineage vacated.1.outline (ledger.without file).Classes alive
  living : ∀ item ∈ (ledger.without file).items, alive item.1
  spare : ∀ entry ∈ vacated.2, alive entry.2
  remembered : ∀ entry ∈ ledger, entry.1.same file = true → ∀ item ∈ entry.2, vacated.2.lookup item.2.id = some item.1
  cleared : ∀ entry ∈ ledger, entry.1.same file = true → ∀ item ∈ entry.2, item.2.kind = .classLike → SpaceLike item.2.id →
    ∀ ref ∈ vacated.1.outline.childrenOf none, vacated.1.outline.idOf ref ≠ item.2.id

variable {editor : Editor} {ledger : Ledger} {file : Path} {entry : Path × List (Ref × Definition)}

namespace Descended

variable (descended : Descended editor ledger)
include descended

theorem lone_of_spaceLike (inside : entry ∈ ledger) {item : Ref × Definition} (member : item ∈ entry.2)
    (like : SpaceLike item.2.id) : ∃ name, Discovery.Lone entry.1 name (entry.2.map (·.2)) := by
  rcases descended.lone entry inside with plain | lone
  · exact absurd like (plain item member)
  · exact lone

theorem takenOut (inside : entry ∈ ledger) (own : entry.1.same file = true) :
    TakenOut editor.outline (entry.2.map fun item => (item.2.id, item.1)) ((entry.2.filter (·.2.kind = .classLike)).map (·.1))
      ((editor.takeOut file).1.outline, (editor.takeOut file).2) := by
  obtain ⟨alive, lineage, -⟩ := descended.lineage
  rw [(descended.takeOut_eq inside own).1]
  refine takenOut_pruneAll lineage.valid lineage.distinct _ _ ?_ fun other above like => lineage.spaces other above (.inr like)
  intro ref listed above
  obtain ⟨item, chosen, rfl⟩ := List.mem_map.mp listed
  obtain ⟨placed, kind⟩ := List.mem_filter.mp chosen
  exact lineage.spaces item.1 above (.inl ⟨item, Ledger.mem_items.mpr ⟨entry, inside, placed⟩, rfl, by simpa using kind⟩)

/-- Whatever has been emptied on the way is remembered in front, but under ids that no item of the file goes by. -/
theorem lookup_takeOut {alive : Ref → Prop} (lineage : Lineage editor.outline ledger.Classes alive) (inside : entry ∈ ledger)
    (own : entry.1.same file = true) {item : Ref × Definition} (placed : item ∈ entry.2) :
    (editor.takeOut file).2.lookup item.2.id = some item.1 := by
  have taken := descended.takenOut inside own
  have keys : ((entry.2.map fun item => (item.2.id, item.1)).map (·.1)).Nodup := by
    rw [List.map_map]
    exact descended.entry_ids inside
  have found : (entry.2.map fun item => (item.2.id, item.1)).lookup item.2.id = some item.1 :=
    lookup_of_mem keys (List.mem_map.mpr ⟨item, placed, rfl⟩)
  by_cases like : SpaceLike item.2.id
  · -- In a file that goes by such an id itself the class is at the top, where no namespace is emptied.
    obtain ⟨name, lone⟩ := descended.lone_of_spaceLike inside placed like
    have shallow : (editor.takeOut file).2 = entry.2.map fun item => (item.2.id, item.1) := by
      refine taken.shallow fun ref chosen => ?_
      obtain ⟨first, filtered, rfl⟩ := List.mem_map.mp chosen
      obtain ⟨own, kind⟩ := List.mem_filter.mp filtered
      have kind : first.2.kind = .classLike := by simpa using kind
      have listed : first ∈ ledger.items := Ledger.mem_items.mpr ⟨entry, inside, own⟩
      refine lineage.alone first.1 ⟨first, listed, rfl, kind⟩ ?_
      rw [descended.named first listed, (lone.items first.2 (List.mem_map_of_mem own)).2.1.mp kind]
      exact lone.like
    rwa [shallow]
  · obtain ⟨emptied, all, above⟩ := taken.remembered
    have all : (editor.takeOut file).2 = emptied ++ _ := all
    have missing : emptied.lookup item.2.id = none := by
      refine List.lookup_eq_none_iff.mpr fun entry member => bne_iff_ne.mpr fun same => like ?_
      exact same ▸ (above entry member).1
    rwa [all, List.lookup_append, missing, Option.none_or]

theorem vacated_of_mem (inside : entry ∈ ledger) (own : entry.1.same file = true) :
    ∃ alive, Vacated ledger file alive (editor.takeOut file) := by
  obtain ⟨alive, lineage, living⟩ := descended.lineage
  have taken := descended.takenOut inside own
  have listed : ∀ item ∈ entry.2, item ∈ ledger.items := fun item placed => Ledger.mem_items.mpr ⟨entry, inside, placed⟩
  have isClass : ∀ item ∈ entry.2, item.2.kind = .classLike →
      item.1 ∈ (entry.2.filter (·.2.kind = .classLike)).map (·.1) := fun item placed kind =>
    List.mem_map_of_mem (List.mem_filter.mpr ⟨placed, by simpa using kind⟩)
  have only : ∀ other ∈ ledger, other.1.same file = true → other = entry := by
    intro other member same
    by_contra differs
    have left := (Ledger.mem_without.mp ((descended.mem_without_iff inside own).mpr ⟨member, differs⟩)).2
    rw [same] at left
    cases left
  have ids : ∀ ref, (editor.takeOut file).1.outline.idOf ref = editor.outline.idOf ref := taken.moved.idOf
  refine ⟨alive, ?_, fun item member => living item (Ledger.items_without_subset member), ?_, ?_, ?_⟩
  · refine lineage.thinned taken.thinned (taken.moved.valid lineage.valid) (fun _ => id) (fun _ => .inl) ?_ ?_
    · rintro ref ⟨item, member, same, kind⟩
      exact ⟨item, Ledger.items_without_subset member, same, kind⟩
    · rintro place ref held ⟨item, member, rfl, kind⟩ rfl
      refine ⟨item, (descended.mem_items_without inside own).mpr ⟨member, fun placed => ?_⟩, rfl, kind⟩
      exact taken.gone item.1 (isClass item placed kind) held
  · intro found member
    obtain ⟨emptied, all, above⟩ := taken.remembered
    have member : found ∈ emptied ++ _ := all ▸ member
    rcases List.mem_append.mp member with early | late
    · obtain ⟨-, child, same⟩ := above found early
      exact lineage.parents child found.2 same
    · obtain ⟨item, placed, rfl⟩ := List.mem_map.mp late
      exact living item (listed item placed)
  · intro other member same item placed
    obtain rfl := only other member same
    exact descended.lookup_takeOut lineage inside own placed
  · intro other member same item placed kind like ref held
    obtain rfl := only other member same
    have named := descended.named item (listed item placed)
    have nowhere := lineage.alone item.1 ⟨item, listed item placed, rfl, kind⟩ (by rwa [named])
    rw [ids, ← named]
    exact taken.cleared item.1 (isClass item placed kind) nowhere ref held

theorem vacated (file : Path) : ∃ alive, Vacated ledger file alive (editor.takeOut file) := by
  by_cases tracked : ∃ entry ∈ ledger, entry.1.same file = true
  · obtain ⟨entry, inside, own⟩ := tracked
    exact descended.vacated_of_mem inside own
  · have away : ∀ entry ∈ ledger, entry.1.same file = false := fun entry member =>
      Bool.eq_false_iff.mpr fun own => tracked ⟨entry, member, own⟩
    obtain ⟨same, all⟩ := descended.takeOut_of_not_mem away
    obtain ⟨alive, lineage, living⟩ := descended.lineage
    rw [same]
    refine ⟨alive, all.symm ▸ lineage, all.symm ▸ living, nofun, ?_, ?_⟩
    · exact fun entry member own => absurd ⟨entry, member, own⟩ tracked
    · exact fun entry member own => absurd ⟨entry, member, own⟩ tracked

end Descended

/-- What can be found keeps its lineage when all else is forgotten. -/
theorem Register.lineage_settle (register : Register editor.settle ledger) {alive : Ref → Prop}
    (lineage : Lineage editor.outline ledger.Classes alive) (living : ∀ item ∈ ledger.items, alive item.1) :
    ∃ alive, Lineage editor.settle.outline ledger.Classes alive ∧ ∀ item ∈ ledger.items, alive item.1 := by
  refine ⟨_, lineage.keep editor.known, fun item member => ⟨living item member, ?_⟩⟩
  have known : item.1 ∈ editor.known := by
    have indexed := (register.index item.2.id ⟨item.1, item.2⟩).mpr ⟨item, member, rfl, rfl⟩
    exact List.mem_append_left _ (List.mem_append_left _ (List.mem_map.mpr ⟨_, indexed, rfl⟩))
  exact List.mem_flatMap.mpr ⟨item.1, List.mem_append_right _ known, mem_descendants_self _ _⟩

theorem Register.lineage_entered {scout : Discovery.Scout} {outline : Outline} {items : List (Ref × Definition)}
    (register : Register (editor.entered scout outline file items).settle ledger) {alive : Ref → Prop}
    (lineage : Lineage outline ledger.Classes alive) (living : ∀ item ∈ ledger.items, alive item.1) :
    ∃ alive, Lineage (editor.entered scout outline file items).settle.outline ledger.Classes alive ∧
      ∀ item ∈ ledger.items, alive item.1 := by
  refine register.lineage_settle ?_ living
  rwa [outline_entered]

namespace Descended

variable (descended : Descended editor ledger)
include descended

theorem drop (entry : FileEntry) : Descended (Tracker.drop editor entry) (ledger.without entry.file) := by
  obtain ⟨alive, vacated⟩ := descended.vacated entry.file
  have grouped := descended.toGrouped.drop entry
  exact {
    grouped with
    lineage := Register.lineage_settle grouped.toRegister vacated.lineage vacated.living
    lone := fun listed member => descended.lone listed (Ledger.mem_without.mp member).1 }

theorem congr {second : Editor} (outline : second.outline = editor.outline) (index : second.index = editor.index)
    (groups : second.groups = editor.groups) (files : second.files = editor.files) : Descended second ledger where
  toGrouped := descended.toGrouped.congr outline index groups files
  lineage := outline ▸ descended.lineage
  lone := descended.lone

theorem settle : Descended editor.settle ledger where
  toGrouped := descended.toGrouped.settle
  lineage := by
    obtain ⟨alive, lineage, living⟩ := descended.lineage
    exact Register.lineage_settle descended.toGrouped.settle.toRegister lineage living
  lone := descended.lone

/-- A class that goes by its file's own name has been the class of the file before, if the file has had its id. -/
theorem classLike_before (inside : entry ∈ ledger) (own : entry.1.same file = true) {old : Ref × Definition}
    (placed : old ∈ entry.2) {definitions : List Definition} (apart : Discovery.Apart file definitions) {definition : Definition}
    (member : definition ∈ definitions) (kind : definition.kind = .classLike) (like : SpaceLike definition.id)
    (same : old.2.id = definition.id) : old.2.kind = .classLike := by
  obtain ⟨name, lone⟩ := descended.lone_of_spaceLike inside placed (same ▸ like)
  rcases apart.items with plain | ⟨_, next⟩
  · exact absurd like (plain definition member (by simp [kind]))
  · have parts := Path.same_iff.mp own
    have last := next.last
    rw [← parts, lone.last] at last
    obtain rfl := Path.Part.name.inj (Option.some.inj last)
    exact (lone.items old.2 (List.mem_map_of_mem placed)).2.1.mpr (same.trans ((next.items definition member).2.1.mp kind))

/-- What a file that is taken in starts from. -/
theorem exists_origin {alive : Ref → Prop} (vacated : Vacated ledger file alive (editor.takeOut file)) {source suite : String}
    (novel : ∀ definition ∈ (editor.scout.look source file (some suite)).2.filter (·.kind != .space),
      ∀ old ∈ (ledger.without file).items, old.2.id ≠ definition.id)
    (distinct : (((editor.scout.look source file (some suite)).2.filter (·.kind != .space)).map (·.id)).Nodup)
    (lexical : ∀ program, editor.scout.reader source = some (.program program) →
      ∀ scope ∈ Discovery.Scope.ofProgram program, scope.Lexical) :
    ∃ origin : Origin file (editor.scout.look source file (some suite)).2,
      origin.outline = (editor.takeOut file).1.outline ∧ origin.previous = (editor.takeOut file).2 ∧
        origin.classes = (ledger.without file).Classes ∧ origin.alive = alive ∧
        origin.former = (ledger.filter (·.1.same file)).flatMap (·.2) := by
  obtain ⟨grouped, -⟩ := descended.toGrouped.takeOut file
  have real : (editor.scout.look source file (some suite)).2.filter (·.kind ≠ .space) =
      (editor.scout.look source file (some suite)).2.filter (·.kind != .space) :=
    List.filter_congr fun definition _ => by cases definition.kind <;> rfl
  have apart := editor.scout.look_spaceLike source file (some suite) lexical
  refine ⟨{
    outline := (editor.takeOut file).1.outline
    previous := (editor.takeOut file).2
    former := (ledger.filter (·.1.same file)).flatMap (·.2)
    classes := (ledger.without file).Classes
    alive
    lineage := vacated.lineage
    spare := vacated.spare
    living := fun ref ⟨item, member, same, _⟩ => same ▸ vacated.living item member
    plain := ?_
    distinct := real ▸ distinct
    novel := ?_
    within := fun definition member kind => editor.scout.look_apart member kind
    apart
    remembered := ?_
    cleared := ?_ }, rfl, rfl, rfl, rfl, rfl⟩
  · rintro ref ⟨item, member, rfl, kind⟩ like
    rw [grouped.named item member] at like ⊢
    obtain ⟨entry, listed, placed⟩ := Ledger.mem_items.mp member
    obtain ⟨name, lone⟩ := descended.lone_of_spaceLike (Ledger.mem_without.mp listed).1 placed like
    exact (lone.items item.2 (List.mem_map_of_mem placed)).2.1.mp kind ▸ lone.plain
  · rintro definition member other ref ⟨item, listed, rfl, -⟩
    rw [grouped.named item listed]
    exact novel definition (List.mem_filter.mpr ⟨member, by simpa using other⟩) item listed
  · intro item member
    obtain ⟨entry, listed, placed⟩ := List.mem_flatMap.mp member
    obtain ⟨inside, own⟩ := List.mem_filter.mp listed
    exact vacated.remembered entry inside own item placed
  · intro definition member kind like known ref held
    obtain ⟨old, former, same⟩ := List.mem_map.mp known
    obtain ⟨entry, listed, placed⟩ := List.mem_flatMap.mp former
    obtain ⟨inside, own⟩ := List.mem_filter.mp listed
    have again := descended.classLike_before inside own placed apart member kind like same
    exact same ▸ vacated.cleared entry inside own old placed again (same ▸ like) ref held

/-- A file that is taken in gets back the items that it had under the ids that it has again. -/
theorem takeIn {source suite : String}
    (novel : ∀ definition ∈ (editor.scout.look source file (some suite)).2.filter (·.kind != .space),
      ∀ old ∈ (ledger.without file).items, old.2.id ≠ definition.id)
    (distinct : (((editor.scout.look source file (some suite)).2.filter (·.kind != .space)).map (·.id)).Nodup)
    (lexical : ∀ program, editor.scout.reader source = some (.program program) →
      ∀ scope ∈ Discovery.Scope.ofProgram program, scope.Lexical) :
    Descended (editor.takeIn source file suite).1 ((ledger.without file).add file (editor.builtItems source file suite)) ∧
      ∀ entry ∈ ledger, entry.1.same file = true → ∀ old ∈ entry.2, ∀ item ∈ editor.builtItems source file suite,
        old.2.id = item.2.id → item.1 = old.1 := by
  obtain ⟨labels, grouped⟩ := descended.toGrouped.takeIn source suite novel distinct
  obtain ⟨alive, vacated⟩ := descended.vacated file
  obtain ⟨origin, outline, previous, classes, living, former⟩ := descended.exists_origin vacated novel distinct lexical
  have built := origin.regained_build (outline ▸ previous ▸ (descended.toGrouped.takeOut file).2) file.address?
    (editor.scout.look_settled source file (some suite))
  rw [outline, previous, classes] at built
  obtain ⟨lineage, regained⟩ := built
  change ∀ item ∈ editor.builtItems source file suite, _ at regained
  refine ⟨{ grouped with lineage := ?_, lone := ?_ }, ?_⟩
  · have all : (fun ref => (ledger.without file).Classes ref ∨
        ∃ item ∈ editor.builtItems source file suite, item.1 = ref ∧ item.2.kind = .classLike) =
        ((ledger.without file).add file (editor.builtItems source file suite)).Classes := by
      funext ref
      simp only [Ledger.Classes, Ledger.items_add, List.mem_append, or_and_right, exists_or]
    rw [takeIn_eq] at grouped ⊢
    refine grouped.toRegister.lineage_entered (all ▸ lineage) fun item member => ?_
    rw [Ledger.items_add] at member
    rcases List.mem_append.mp member with old | new
    · exact .inl (living ▸ vacated.living item old)
    · exact (regained item new).alive
  · intro listed member
    rcases Ledger.mem_add.mp member with old | ⟨-, rfl⟩
    · exact descended.lone listed (Ledger.mem_without.mp old).1
    have found : ∀ item ∈ (editor.builtItems source file suite).map (·.2),
        item ∈ (editor.scout.look source file (some suite)).2 ∧ item.kind ≠ .space := by
      intro item inside
      rw [labels] at inside
      exact (List.mem_filter.mp inside).imp_right (by simp)
    rcases (editor.scout.look_spaceLike source file (some suite) lexical).items with plain | ⟨name, lone⟩
    · refine .inl fun item inside => ?_
      obtain ⟨there, real⟩ := found item.2 (List.mem_map_of_mem inside)
      exact plain item.2 there real
    · exact .inr ⟨name, { lone with items := fun item inside => lone.items item (found item inside).1 }⟩
  · intro entry inside own old placed item member same
    refine (regained item member).former old ?_ same
    rw [former]
    exact List.mem_flatMap.mpr ⟨entry, List.mem_filter.mpr ⟨inside, own⟩, placed⟩

end Descended

end Editor

end TestScout
