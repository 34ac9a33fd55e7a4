import Mathlib.Data.List.Induction
import Mathlib.Data.List.Perm.Subperm
import TestScout.Proofs.OutlinePlaces

/-! The items that are alive in an outline form a forest: what is in the top or below an item that is
alive is alive, and names this place as its parent. An item that is alive may be in no place at
all. Nothing is asked of items that are not alive, such as those that a file had before; they
may point anywhere. -/

namespace TestScout.Outline

/-- A place that is the top or below an item that is alive. -/
def Open (live : Ref → Prop) (place : Place) : Prop := ∀ ref, place = some ref → live ref

structure Forested (outline : Outline) (live : Ref → Prop) : Prop where
  valid : ∀ ref, live ref → ref < outline.nodes.size
  inside : ∀ place ref, Open live place → ref ∈ outline.childrenOf place → live ref ∧ outline.parentOf ref = place
  distinct : ∀ place, Open live place → ((outline.childrenOf place).map outline.idOf).Nodup

theorem Forested.nothing {outline : Outline} {live : Ref → Prop} (empty : outline.top = []) (dead : ∀ ref, ¬live ref) :
    Forested outline live := by
  refine ⟨fun ref living => absurd living (dead ref), ?_, ?_⟩
  · intro place ref reachable member
    cases place with
    | none =>
      rw [childrenOf, empty] at member
      cases member
    | some above => exact absurd (reachable above rfl) (dead above)
  · intro place reachable
    cases place with
    | none =>
      rw [childrenOf, empty]
      exact List.nodup_nil
    | some above => exact absurd (reachable above rfl) (dead above)

/-- An outline that has the items of another one as they are there, apart from how they look. -/
structure Extends (first second : Outline) : Prop where
  size : first.nodes.size ≤ second.nodes.size
  ids : ∀ ref < first.nodes.size, second.idOf ref = first.idOf ref
  parents : ∀ ref, second.parentOf ref = first.parentOf ref
  children : ∀ place, second.childrenOf place = first.childrenOf place

variable {outline : Outline} {live alive : Ref → Prop} {place : Place} {ref : Ref}

theorem Alike.extends {second : Outline} (alike : Alike outline second) : Extends outline second where
  size := Nat.le_of_eq alike.size.symm
  ids ref _ := alike.ids ref
  parents := alike.parents
  children := alike.children

theorem Extends.trans {second third : Outline} (one : Extends outline second) (two : Extends second third) :
    Extends outline third where
  size := Nat.le_trans one.size two.size
  ids ref valid := (two.ids ref (Nat.lt_of_lt_of_le valid one.size)).trans (one.ids ref valid)
  parents ref := (two.parents ref).trans (one.parents ref)
  children place := (two.children place).trans (one.children place)

theorem extends_create (item : Item) : Extends outline (outline.create item).1 where
  size := by simp [size_create]
  ids ref valid := by rw [idOf_create, if_neg (Nat.ne_of_lt valid)]
  parents := parentOf_create item
  children := childrenOf_create item

theorem Open.top : Open live none := fun _ same => nomatch same

theorem Open.below (living : live ref) : Open live (some ref) := fun _ same => Option.some_inj.mp same ▸ living

theorem Open.mono (reachable : Open live place) (more : ∀ ref, live ref → alive ref) : Open alive place :=
  fun ref same => more ref (reachable ref same)

namespace Forested

theorem within (forested : Forested outline live) (reachable : Open live place) : outline.Inside place :=
  fun ref same => forested.valid ref (reachable ref same)

theorem extend {second : Outline} (forested : Forested outline live) (extension : Extends outline second) :
    Forested second live where
  valid ref living := Nat.lt_of_lt_of_le (forested.valid ref living) extension.size
  inside place ref reachable member := by
    rw [extension.children] at member
    rw [extension.parents]
    exact forested.inside place ref reachable member
  distinct place reachable := by
    rw [extension.children, List.map_congr_left fun ref member => extension.ids ref <|
      forested.valid ref (forested.inside place ref reachable member).1]
    exact forested.distinct place reachable

/-- What is left when some items no longer count as alive. -/
theorem restrict (forested : Forested outline live) (fewer : ∀ ref, alive ref → live ref)
    (closed : ∀ place ref, Open alive place → ref ∈ outline.childrenOf place → alive ref) : Forested outline alive where
  valid ref living := forested.valid ref (fewer ref living)
  inside place ref reachable member :=
    ⟨closed place ref reachable member, (forested.inside place ref (reachable.mono fewer) member).2⟩
  distinct place reachable := forested.distinct place (reachable.mono fewer)

theorem place_unique (forested : Forested outline live) {other : Place} (reachable : Open live place)
    (again : Open live other) (member : ref ∈ outline.childrenOf place) (found : ref ∈ outline.childrenOf other) :
    place = other :=
  (forested.inside place ref reachable member).2.symm.trans (forested.inside other ref again found).2

/-- An item without children may come alive. -/
theorem adopt (forested : Forested outline live) (valid : ref < outline.nodes.size)
    (bare : outline.childrenOf (some ref) = []) : Forested outline fun other => other = ref ∨ live other := by
  have old : ∀ {place : Place}, Open (fun other => other = ref ∨ live other) place →
      place = some ref ∨ Open live place := by
    intro place reachable
    cases place with
    | none => exact .inr Open.top
    | some other => exact (reachable other rfl).imp (congrArg some) Open.below
  refine ⟨?_, ?_, ?_⟩
  · rintro other (rfl | living)
    · exact valid
    · exact forested.valid other living
  · intro place other reachable member
    rcases old reachable with rfl | open_place
    · rw [bare] at member
      cases member
    · obtain ⟨living, parent⟩ := forested.inside place other open_place member
      exact ⟨.inr living, parent⟩
  · intro place reachable
    rcases old reachable with rfl | open_place
    · simp [bare]
    · exact forested.distinct place open_place

/-- An item can be added where it is already, or anywhere when it is in no place. -/
theorem add (forested : Forested outline live) (reachable : Open live place) (living : live ref)
    (available : ∀ elsewhere, Open live elsewhere → ref ∈ outline.childrenOf elsewhere → elsewhere = place) :
    Forested (outline.add place ref) live := by
  have within := forested.within reachable
  have distinct := forested.distinct place reachable
  have valid := forested.valid ref living
  have stays : ∀ other, other ≠ ref → (other ∈ outline.childrenOf place → outline.idOf other ≠ outline.idOf ref) →
      (outline.add place ref).parentOf other = outline.parentOf other := by
    intro other differs kept
    rw [parentOf_add_ne valid differs, if_neg]
    rintro ⟨found, -⟩
    obtain ⟨member, same⟩ := mem_of_child? found
    exact kept member same
  refine ⟨fun other alive => by simpa using forested.valid other alive, ?_, ?_⟩
  · intro elsewhere other open_place member
    by_cases here : elsewhere = place
    · subst here
      rcases (mem_childrenOf_add within distinct other).mp member with rfl | ⟨old, differs⟩
      · exact ⟨living, parentOf_add_self valid⟩
      · obtain ⟨alive, parent⟩ := forested.inside elsewhere other open_place old
        refine ⟨alive, ?_⟩
        rw [stays other (fun same => differs (congrArg _ same)) fun _ => differs, parent]
    · rw [childrenOf_add_ne within here] at member
      obtain ⟨alive, parent⟩ := forested.inside elsewhere other open_place member
      have away : other ∉ outline.childrenOf place := fun found =>
        here (forested.place_unique open_place reachable member found)
      have differs : other ≠ ref := by
        rintro rfl
        exact here (available elsewhere open_place member)
      refine ⟨alive, ?_⟩
      rw [stays other differs fun found => absurd found away, parent]
  · intro elsewhere open_place
    by_cases here : elsewhere = place
    · subst here
      exact nodup_add within distinct
    · rw [childrenOf_add_ne within here, show (outline.add place ref).idOf = outline.idOf from funext idOf_add]
      exact forested.distinct elsewhere open_place

theorem clear (forested : Forested outline live) (inside : outline.Inside place) :
    Forested (outline.replace place []) live where
  valid ref living := by simpa using forested.valid ref living
  inside elsewhere ref reachable member := by
    rw [childrenOf_replace_nil inside] at member
    split at member
    · cases member
    next differs =>
      obtain ⟨living, parent⟩ := forested.inside elsewhere ref reachable member
      refine ⟨living, ?_⟩
      rw [parentOf_replace_nil, if_neg, parent]
      exact fun ⟨_, same⟩ => differs (parent.symm.trans same)
  distinct elsewhere reachable := by
    rw [childrenOf_replace_nil inside, show (outline.replace place []).idOf = outline.idOf from funext idOf_replace_nil]
    split
    · exact List.nodup_nil
    · exact forested.distinct elsewhere reachable

theorem delete (forested : Forested outline live) (reachable : Open live place) (member : ref ∈ outline.childrenOf place) :
    Forested (outline.delete place (outline.idOf ref)).1 live := by
  have within := forested.within reachable
  have distinct := forested.distinct place reachable
  have left := mem_childrenOf_delete within distinct member
  refine ⟨fun other living => (size_delete _).symm ▸ forested.valid other living, ?_, ?_⟩
  · intro elsewhere other open_place found
    obtain ⟨old, kept⟩ := (left elsewhere other).mp found
    obtain ⟨living, parent⟩ := forested.inside elsewhere other open_place old
    refine ⟨living, ?_⟩
    rw [parentOf_delete distinct member, if_neg, parent]
    rintro ⟨same, placed⟩
    exact kept (parent.symm.trans (same ▸ placed)) same
  · intro elsewhere open_place
    rw [show (outline.delete place (outline.idOf ref)).1.idOf = outline.idOf from funext (idOf_delete _),
      delete_of_mem distinct member, childrenOf_release, childrenOf_setChildren within]
    split
    · exact distinct.sublist (List.filter_sublist.map _)
    · exact forested.distinct elsewhere open_place

end Forested

/-! ## Adding several items -/

/-- The last of some items that has its id. -/
def LastOf (ids : Ref → String) (refs : List Ref) (ref : Ref) : Prop :=
  ∃ before after, refs = before ++ ref :: after ∧ ∀ other ∈ after, ids other ≠ ids ref

theorem lastOf_cons {ids : Ref → String} {first : Ref} {rest : List Ref} :
    LastOf ids (first :: rest) ref ↔ LastOf ids rest ref ∨ ref = first ∧ ∀ other ∈ rest, ids other ≠ ids ref := by
  constructor
  · rintro ⟨before, after, split, last⟩
    cases before with
    | nil =>
      cases split
      exact .inr ⟨rfl, last⟩
    | cons other before =>
      cases split
      exact .inl ⟨before, after, rfl, last⟩
  · rintro (⟨before, after, rfl, last⟩ | ⟨rfl, last⟩)
    · exact ⟨first :: before, after, rfl, last⟩
    · exact ⟨[], rest, rfl, last⟩

theorem not_lastOf_nil {ids : Ref → String} : ¬LastOf ids [] ref := by
  rintro ⟨before, after, split, -⟩
  cases before <;> cases split

theorem lastOf_append_singleton {ids : Ref → String} {refs : List Ref} {last : Ref} :
    LastOf ids (refs ++ [last]) ref ↔ ref = last ∨ LastOf ids refs ref ∧ ids last ≠ ids ref := by
  induction refs with
  | nil => simp [lastOf_cons, not_lastOf_nil]
  | cons first rest ih =>
    rw [List.cons_append, lastOf_cons, ih, lastOf_cons]
    simp only [List.mem_append, List.mem_singleton]
    constructor
    · rintro ((same | ⟨old, differs⟩) | ⟨same, apart⟩)
      · exact .inl same
      · exact .inr ⟨.inl old, differs⟩
      · exact .inr ⟨.inr ⟨same, fun other member => apart other (.inl member)⟩, apart last (.inr rfl)⟩
    · rintro (same | ⟨old | ⟨same, apart⟩, differs⟩)
      · exact .inl (.inl same)
      · exact .inl (.inr ⟨old, differs⟩)
      · refine .inr ⟨same, ?_⟩
        rintro other (member | rfl)
        · exact apart other member
        · exact differs

theorem LastOf.mem {ids : Ref → String} {refs : List Ref} (last : LastOf ids refs ref) : ref ∈ refs := by
  obtain ⟨before, after, rfl, -⟩ := last
  exact List.mem_append_right _ List.mem_cons_self

theorem lastOf_congr {ids names : Ref → String} {refs : List Ref} (same : ∀ ref ∈ refs, names ref = ids ref) :
    LastOf names refs ref ↔ LastOf ids refs ref := by
  refine exists_congr fun before => exists_congr fun after => and_congr_right fun split => ?_
  subst split
  have first : names ref = ids ref := same ref (by simp)
  exact forall₂_congr fun other member => by rw [first, same other (by simp [member])]

theorem exists_lastOf {ids : Ref → String} {refs : List Ref} {id : String} (found : ∃ other ∈ refs, ids other = id) :
    ∃ last, LastOf ids refs last ∧ ids last = id := by
  induction refs with
  | nil => simp at found
  | cons first rest ih =>
    by_cases later : ∃ other ∈ rest, ids other = id
    · obtain ⟨last, placed, same⟩ := ih later
      exact ⟨last, lastOf_cons.mpr (.inl placed), same⟩
    · obtain ⟨other, member, same⟩ := found
      rcases List.mem_cons.mp member with rfl | inside
      · exact ⟨other, lastOf_cons.mpr (.inr ⟨rfl, fun next inside equal => later ⟨next, inside, equal.trans same⟩⟩), same⟩
      · exact absurd ⟨other, inside, same⟩ later

/-- Items that are added one after the other, where they are available: of those with one id
the last one stays, in place of what was there with this id. -/
theorem Forested.addAll (forested : Forested outline live) (reachable : Open live place) {refs : List Ref}
    (available : ∀ ref ∈ refs, live ref ∧
      ∀ elsewhere, Open live elsewhere → ref ∈ outline.childrenOf elsewhere → elsewhere = place) :
    let added := refs.foldl (·.add place ·) outline
    added.nodes.size = outline.nodes.size ∧ (∀ other, added.idOf other = outline.idOf other) ∧
      (∀ elsewhere, elsewhere ≠ place → added.childrenOf elsewhere = outline.childrenOf elsewhere) ∧
      (∀ other, other ∈ added.childrenOf place ↔ LastOf outline.idOf refs other ∨
        other ∈ outline.childrenOf place ∧ ∀ ref ∈ refs, outline.idOf ref ≠ outline.idOf other) ∧
      Forested added live := by
  induction refs generalizing outline with
  | nil => exact ⟨rfl, fun _ => rfl, fun _ _ => rfl, fun other => by simp [not_lastOf_nil], forested⟩
  | cons first rest ih =>
    obtain ⟨living, here⟩ := available first List.mem_cons_self
    have within := forested.within reachable
    -- The first item goes again when a later one has its id, so the last one is decided by the rest.
    have placed := @mem_childrenOf_add outline place first within (forested.distinct place reachable)
    obtain ⟨size, ids, others, members, result⟩ := ih (forested.add reachable living here) fun ref member => by
      obtain ⟨alive, only⟩ := available ref (List.mem_cons_of_mem _ member)
      refine ⟨alive, fun elsewhere open_place found => ?_⟩
      by_cases same : elsewhere = place
      · exact same
      · rw [childrenOf_add_ne within same] at found
        exact only elsewhere open_place found
    refine ⟨size.trans size_add, fun other => (ids other).trans (idOf_add other), ?_, ?_, result⟩
    · exact fun elsewhere differs => (others elsewhere differs).trans (childrenOf_add_ne within differs)
    · intro other
      have same : (outline.add place first).idOf = outline.idOf := funext idOf_add
      rw [List.foldl_cons, members, placed, lastOf_cons, same]
      simp only [List.forall_mem_cons]
      constructor
      · rintro (last | ⟨self | ⟨member, differs⟩, apart⟩)
        · exact .inl (.inl last)
        · exact .inl (.inr ⟨self, apart⟩)
        · exact .inr ⟨member, Ne.symm differs, apart⟩
      · rintro ((last | ⟨self, apart⟩) | ⟨member, differs, apart⟩)
        · exact .inl last
        · exact .inr ⟨.inl self, apart⟩
        · exact .inr ⟨.inr ⟨member, Ne.symm differs⟩, apart⟩

/-! ## Paths -/

/-- Items that lie below each other, from a place down. -/
def Chain (shows : Place → Ref → Prop) : Place → List Ref → Prop
  | _, [] => True
  | place, ref :: rest => shows place ref ∧ Chain shows (some ref) rest

def Holds (outline : Outline) (place : Place) (ref : Ref) : Prop := ref ∈ outline.childrenOf place

variable {shows : Place → Ref → Prop} {front : List Ref}

theorem chain_append {front back : List Ref} :
    Chain shows place (front ++ back) ↔ Chain shows place front ∧ Chain shows (front.getLast?.or place) back := by
  induction front generalizing place with
  | nil => simp [Chain]
  | cons first rest ih =>
    rw [List.cons_append, Chain, Chain, ih, and_assoc]
    have last : (first :: rest).getLast?.or place = rest.getLast?.or (some first) := by
      cases rest with
      | nil => rfl
      | cons second rest =>
        rw [List.getLast?_cons_cons, List.getLast?_eq_some_getLast (List.cons_ne_nil second rest)]
        rfl
    rw [last]

theorem Chain.mono {wider : Place → Ref → Prop} (more : ∀ place ref, shows place ref → wider place ref) {refs : List Ref}
    (path : Chain shows place refs) : Chain wider place refs := by
  induction refs generalizing place with
  | nil => trivial
  | cons first rest ih => exact ⟨more place first path.1, ih path.2⟩

/-- If something holds of nothing at the end of a path, and of all children where it holds on the path, then it holds
nowhere on the path. -/
theorem Chain.stays {refs : List Ref} {last : Ref} (path : Chain shows place (refs ++ [last])) {spoiled : Ref → Prop}
    (down : ∀ ref ∈ refs, spoiled ref → ∀ child, shows (some ref) child → spoiled child) (sound : ¬spoiled last) :
    ∀ ref ∈ refs ++ [last], ¬spoiled ref := by
  induction refs generalizing place with
  | nil => exact List.forall_mem_singleton.mpr sound
  | cons first rest ih =>
    have later := ih path.2 fun ref member => down ref (List.mem_cons_of_mem _ member)
    refine List.forall_mem_cons.mpr ⟨fun bad => ?_, later⟩
    have below := down first List.mem_cons_self bad
    cases rest with
    | nil => exact sound (below last path.2.1)
    | cons next rest => exact later next List.mem_cons_self (below next path.2.1)

/-- What is on the way down from a place that is alive is alive, when everything in such places is. -/
theorem alive_of_chain (closed : ∀ place, Open live place → ∀ ref ∈ outline.childrenOf place, live ref)
    (reachable : Open live place) {path : List Ref} (lies : Chain outline.Holds place path) : ∀ ref ∈ path, live ref := by
  induction path generalizing place with
  | nil => exact nofun
  | cons first rest ih =>
    have living := closed place reachable first lies.1
    exact List.forall_mem_cons.mpr ⟨living, ih (Open.below living) lies.2⟩

theorem Forested.alive_of_path (forested : Forested outline live) {path : List Ref} (lies : Chain outline.Holds place path)
    (reachable : Open live place) (member : ref ∈ path) : live ref :=
  alive_of_chain (fun place reachable ref member => (forested.inside place ref reachable member).1) reachable lies ref member

theorem Forested.open_of_path (forested : Forested outline live) (lies : Chain outline.Holds none front) :
    Open live front.getLast? :=
  fun _ last => forested.alive_of_path lies Open.top (List.mem_of_getLast? last)

/-- The place of an item is the end of the path to it. -/
theorem Forested.parent_of_path (forested : Forested outline live) (lies : Chain outline.Holds none (front ++ [ref])) :
    outline.Holds front.getLast? ref ∧ outline.parentOf ref = front.getLast? := by
  obtain ⟨before, last⟩ := chain_append.mp lies
  rw [Option.or_none] at last
  exact ⟨last.1, (forested.inside _ ref (forested.open_of_path before) last.1).2⟩

theorem Forested.path_unique (forested : Forested outline live) {other : List Ref}
    (lies : Chain outline.Holds none (front ++ [ref])) (again : Chain outline.Holds none (other ++ [ref])) : front = other := by
  induction front using List.reverseRecOn generalizing other ref with
  | nil =>
    have last := (forested.parent_of_path lies).2.symm.trans (forested.parent_of_path again).2
    exact (List.getLast?_eq_none_iff.mp last.symm).symm
  | append_singleton front parent ih =>
    have last := (forested.parent_of_path lies).2.symm.trans (forested.parent_of_path again).2
    rw [List.getLast?_concat] at last
    obtain ⟨before, rfl⟩ := List.getLast?_eq_some_iff.mp last.symm
    rw [ih (chain_append.mp lies).1 (chain_append.mp again).1]

theorem Forested.path_nodup (forested : Forested outline live) (lies : Chain outline.Holds none front) : front.Nodup := by
  induction front using List.reverseRecOn with
  | nil => exact List.nodup_nil
  | append_singleton front ref ih =>
    have before := (chain_append.mp lies).1
    refine List.nodup_append.mpr ⟨ih before, by simp, ?_⟩
    intro other member last here same
    obtain rfl := List.mem_singleton.mp here
    obtain ⟨early, late, rfl⟩ := List.append_of_mem (same ▸ member)
    have shorter : Chain outline.Holds none (early ++ [last]) := by
      rw [← List.singleton_append, ← List.append_assoc] at before
      exact (chain_append.mp before).1
    have length := congrArg List.length (forested.path_unique shorter lies)
    simp at length

theorem Forested.path_length (forested : Forested outline live) (lies : Chain outline.Holds none front) :
    front.length ≤ outline.nodes.size := by
  have nodup := forested.path_nodup lies
  have fewer : front ⊆ List.range outline.nodes.size := fun ref member =>
    List.mem_range.mpr (forested.valid ref (forested.alive_of_path lies Open.top member))
  have length := (List.Nodup.subperm nodup fewer).length_le
  rwa [List.length_range] at length

end TestScout.Outline
