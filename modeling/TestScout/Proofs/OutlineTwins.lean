import Mathlib.Data.List.Forall2
import TestScout.Proofs.MethodLikeness
import TestScout.Proofs.BuilderTags
import TestScout.Outline.Json

/-! Outlines that show the same by different items. Some items of one outline have twins in another one that look like
them and have the twins of their children below them. An outline can be changed in both in the same way; and what is
written of an item is what is written of its twin. -/

namespace TestScout.Outline

variable {near : Ref → Ref → Prop} {rank : Ref → Nat} {loose : Ref → Prop} {first second : Outline}
  {place place' : Place} {ref other : Ref}

/-- An item and its twin, which has a higher rank than what it is below. -/
def Beneath (near : Ref → Ref → Prop) (rank : Ref → Nat) (place : Place) (ref other : Ref) : Prop :=
  near ref other ∧ ∀ above ∈ place, rank above < rank other

/-- Each item has at most one twin. The children of twins are twins, apart from those of some loose items. -/
structure Twins (near : Ref → Ref → Prop) (rank : Ref → Nat) (loose : Ref → Prop) (first second : Outline) : Prop where
  exist : ∀ {ref other}, near ref other → ref < first.nodes.size ∧ other < second.nodes.size
  once : ∀ {ref other ref' other'}, near ref other → near ref' other' → (ref = ref' ↔ other = other')
  item : ∀ {ref other}, near ref other → first.item ref = second.item other
  children : ∀ {place place'}, Option.Rel near place place' → (∀ ref ∈ place', ¬loose ref) →
    List.Forall₂ (Beneath near rank place') (first.childrenOf place) (second.childrenOf place')

theorem exists_of_mem_rel {R : Ref → Ref → Prop} {refs others : List Ref} (related : List.Forall₂ R refs others)
    (member : ref ∈ refs) : ∃ other, R ref other := by
  induction related with
  | nil => cases member
  | @cons one two _ _ here _ ih =>
    rcases List.mem_cons.mp member with rfl | later
    · exact ⟨two, here⟩
    · exact ih later

theorem twin_of_place (related : Option.Rel near (some ref) place') : ∃ other, near ref other := by
  cases related with
  | some here => exact ⟨_, here⟩

theorem twin_of_place' (related : Option.Rel near place (some other)) : ∃ ref, near ref other := by
  cases related with
  | some here => exact ⟨_, here⟩

theorem Beneath.mono {wider : Ref → Ref → Prop} (more : ∀ ref other, near ref other → wider ref other)
    {refs others : List Ref} (beneath : List.Forall₂ (Beneath near rank place) refs others) :
    List.Forall₂ (Beneath wider rank place) refs others :=
  beneath.imp fun ref other ⟨here, deeper⟩ => ⟨more ref other here, deeper⟩

/-- What is left of an outline when a place is filled anew. -/
def emptied (outline : Outline) (place : Place) (refs : List Ref) : Outline :=
  (((outline.childrenOf place).filter fun ref => !refs.contains ref).foldl (·.release place ·) outline).setChildren place []

theorem emptied_views {outline : Outline} (inside : outline.Inside place) (refs : List Ref) :
    Moved outline (outline.emptied place refs) ∧ ∀ other, (outline.emptied place refs).childrenOf other =
      if other = place then [] else outline.childrenOf other := by
  let former := (outline.childrenOf place).filter fun ref => !refs.contains ref
  have released : Moved outline (former.foldl (·.release place ·) outline) := by
    apply Moved.foldl
    intro current _ ref _
    exact moved_release place ref
  refine ⟨released.trans (moved_setChildren fun _ => nofun), fun other => ?_⟩
  rw [emptied, childrenOf_setChildren (released.inside inside), (released_views place former outline).2.2.1]

/-- Nothing has changed but how one item looks and what is below it. -/
structure Confined (ref : Ref) (first second : Outline) : Prop where
  size : first.nodes.size ≤ second.nodes.size
  item : ∀ other < first.nodes.size, other ≠ ref → second.item other = first.item other
  children : ∀ place, place ≠ some ref → second.childrenOf place = first.childrenOf place

theorem Confined.trans {third : Outline} (one : Confined ref first second) (two : Confined ref second third) :
    Confined ref first third where
  size := Nat.le_trans one.size two.size
  item other valid differs := (two.item other (Nat.lt_of_lt_of_le valid one.size) differs).trans (one.item other valid differs)
  children place elsewhere := (two.children place elsewhere).trans (one.children place elsewhere)

theorem confined_change (outline : Outline) (ref : Ref) (update : Item → Item) :
    Confined ref outline (outline.change ref update) where
  size := Nat.le_of_eq (alike_change outline ref update).size.symm
  item other _ differs := by rw [item_change, if_neg fun found => differs found.1]
  children place _ := (alike_change outline ref update).children place

theorem confined_create (outline : Outline) (item : Item) : Confined outline.nodes.size outline (outline.create item).1 where
  size := by
    rw [size_create]
    omega
  item other valid _ := by rw [item_create, if_neg (Nat.ne_of_lt valid)]
  children place _ := childrenOf_create item place

theorem confined_clear {outline : Outline} (valid : ref < outline.nodes.size) :
    Confined ref outline (outline.replace (some ref) []) where
  size := Nat.le_of_eq size_replace_nil.symm
  item other _ _ := by
    have moved : Moved outline (outline.replace (some ref) []) := moved_replace (inside_below valid) nofun
    exact moved.item other
  children place elsewhere := by rw [childrenOf_replace_nil (inside_below valid), if_neg elsewhere]

namespace Twins

theorem weaken (twins : Twins near rank loose first second) {wider : Ref → Prop} (more : ∀ ref, loose ref → wider ref) :
    Twins near rank wider first second :=
  ⟨twins.exist, twins.once, twins.item, fun related tight =>
    twins.children related fun ref same free => tight ref same (more ref free)⟩

theorem inside (twins : Twins near rank loose first second) (related : Option.Rel near place place') :
    first.Inside place ∧ second.Inside place' := by
  cases related with
  | none => exact ⟨nofun, nofun⟩
  | some here => exact ⟨inside_below (twins.exist here).1, inside_below (twins.exist here).2⟩

theorem place_eq_iff (twins : Twins near rank loose first second) (related : Option.Rel near place place')
    {further further' : Place} (others : Option.Rel near further further') : further = place ↔ further' = place' := by
  cases related with
  | none =>
    cases others with
    | none => simp
    | some => simp
  | some here =>
    cases others with
    | none => simp
    | some there =>
      rw [Option.some_inj, Option.some_inj]
      exact twins.once there here

theorem idOf (twins : Twins near rank loose first second) (here : near ref other) : first.idOf ref = second.idOf other :=
  congrArg Item.id (twins.item here)

theorem child? (twins : Twins near rank loose first second) (related : Option.Rel near place place')
    (tight : ∀ ref ∈ place', ¬loose ref) (id : String) :
    Option.Rel (Beneath near rank place') (first.child? place id) (second.child? place' id) := by
  apply rel_find? (twins.children related tight)
  intro ref other beneath
  rw [twins.idOf beneath.1]

/-- Twins stay twins while nothing about them changes. -/
theorem congr (twins : Twins near rank loose first second) {first' second' : Outline}
    (size : first.nodes.size ≤ first'.nodes.size) (size' : second.nodes.size ≤ second'.nodes.size)
    (item : ∀ {ref other}, near ref other → first'.item ref = second'.item other)
    (children : ∀ {place place'}, Option.Rel near place place' → (∀ ref ∈ place', ¬loose ref) →
      first'.childrenOf place = first.childrenOf place ∧ second'.childrenOf place' = second.childrenOf place') :
    Twins near rank loose first' second' where
  exist here := ⟨Nat.lt_of_lt_of_le (twins.exist here).1 size, Nat.lt_of_lt_of_le (twins.exist here).2 size'⟩
  once := twins.once
  item := item
  children related tight := by
    obtain ⟨same, same'⟩ := children related tight
    rw [same, same']
    exact twins.children related tight

/-! ## The same change -/

theorem change (twins : Twins near rank loose first second) (here : near ref other) (update : Item → Item) :
    Twins near rank loose (first.change ref update) (second.change other update) := by
  have alike := alike_change first ref update
  have alike' := alike_change second other update
  refine twins.congr (Nat.le_of_eq alike.size.symm) (Nat.le_of_eq alike'.size.symm) ?_ fun _ _ =>
    ⟨alike.children _, alike'.children _⟩
  intro further further' there
  have same := twins.once there here
  rw [item_change, item_change, twins.item there, twins.item here, twins.idOf here]
  simp only [same, (twins.exist here).1, (twins.exist here).2, and_true]

theorem add (twins : Twins near rank loose first second) (related : Option.Rel near place place')
    (tight : ∀ ref ∈ place', ¬loose ref) (beneath : Beneath near rank place' ref other) :
    Twins near rank loose (first.add place ref) (second.add place' other) := by
  obtain ⟨inside, inside'⟩ := twins.inside related
  obtain ⟨valid, valid'⟩ := twins.exist beneath.1
  have moved := moved_add inside valid
  have moved' := moved_add inside' valid'
  refine ⟨fun here => ?_, twins.once, fun here => ?_, ?_⟩
  · rw [moved.size, moved'.size]
    exact twins.exist here
  · rw [moved.item, moved'.item]
    exact twins.item here
  · intro further further' others free
    by_cases same : further = place
    · have same' := (twins.place_eq_iff related others).mp same
      subst same same'
      have children := twins.children related tight
      have found := twins.child? related tight (first.idOf ref)
      have named := twins.idOf beneath.1
      cases former : first.child? further (first.idOf ref) with
      | none =>
        rw [former, named] at found
        cases former' : second.child? further' (second.idOf other) with
        | some => simp [former'] at found
        | none =>
          rw [childrenOf_add_of_none inside former, childrenOf_add_of_none inside' former']
          exact List.rel_append children (.cons beneath .nil)
      | some replaced =>
        rw [former, named] at found
        cases former' : second.child? further' (second.idOf other) with
        | none => simp [former'] at found
        | some replaced' =>
          rw [former'] at found
          cases found with
          | some twin =>
            rw [childrenOf_add_of_some inside former, childrenOf_add_of_some inside' former']
            refine List.rel_map ?_ children
            intro child child' pair
            have same := twins.once pair.1 twin.1
            by_cases here : child = replaced
            · simpa only [if_pos here, if_pos (same.mp here)] using beneath
            · simpa only [if_neg here, if_neg fun found => here (same.mpr found)] using pair
    · have other' : further' ≠ place' := fun found => same ((twins.place_eq_iff related others).mpr found)
      rw [childrenOf_add_ne inside same, childrenOf_add_ne inside' other']
      exact twins.children others free

theorem addAll (twins : Twins near rank loose first second) (related : Option.Rel near place place')
    (tight : ∀ ref ∈ place', ¬loose ref) {refs others : List Ref} (beneath : List.Forall₂ (Beneath near rank place') refs others) :
    Twins near rank loose (refs.foldl (·.add place ·) first) (others.foldl (·.add place' ·) second) := by
  induction beneath generalizing first second with
  | nil => exact twins
  | cons here _ ih => exact ih (twins.add related tight here)

/-- A place that is filled anew is no longer loose. -/
theorem replace (twins : Twins near rank loose first second) (related : Option.Rel near place place')
    {refs others : List Ref} (beneath : List.Forall₂ (Beneath near rank place') refs others) :
    Twins near rank (fun ref => loose ref ∧ some ref ≠ place') (first.replace place refs) (second.replace place' others) := by
  obtain ⟨inside, inside'⟩ := twins.inside related
  have views := emptied_views inside refs
  have views' := emptied_views inside' others
  have emptied : Twins near rank (fun ref => loose ref ∧ some ref ≠ place') (first.emptied place refs)
      (second.emptied place' others) := by
    refine ⟨fun here => ?_, twins.once, fun here => ?_, ?_⟩
    · rw [views.1.size, views'.1.size]
      exact twins.exist here
    · rw [views.1.item, views'.1.item]
      exact twins.item here
    · intro further further' pair free
      rw [views.2, views'.2]
      by_cases same : further = place
      · rw [if_pos same, if_pos ((twins.place_eq_iff related pair).mp same)]
        exact .nil
      · have other' : further' ≠ place' := fun found => same ((twins.place_eq_iff related pair).mpr found)
        rw [if_neg same, if_neg other']
        exact twins.children pair fun ref found loose => free ref found ⟨loose, found ▸ other'⟩
  exact emptied.addAll related (fun ref same free => free.2 same.symm) beneath

/-- Twins stay twins when only other items change. -/
theorem confined (twins : Twins near rank loose first second) {first' second' : Outline} (one : Confined ref first first')
    (two : Confined other second second') (new : ∀ further, ¬near ref further) (new' : ∀ further, ¬near further other) :
    Twins near rank loose first' second' := by
  refine twins.congr one.size two.size ?_ ?_
  · intro known known' here
    obtain ⟨valid, valid'⟩ := twins.exist here
    have differs : known ≠ ref := fun same => new known' (same ▸ here)
    have differs' : known' ≠ other := fun same => new' known (same ▸ here)
    rw [one.item known valid differs, two.item known' valid' differs', twins.item here]
  · intro place place' related _
    refine ⟨one.children place fun same => ?_, two.children place' fun same => ?_⟩
    · obtain ⟨further, here⟩ := twin_of_place (same ▸ related)
      exact new further here
    · obtain ⟨further, here⟩ := twin_of_place' (same ▸ related)
      exact new' further here

/-- Items that look the same and have nothing below them, or are loose, become twins. -/
theorem adopt (twins : Twins near rank loose first second) {wider : Ref → Prop} (more : ∀ ref, loose ref → wider ref)
    (valid : ref < first.nodes.size) (valid' : other < second.nodes.size) (new : ∀ further, ¬near ref further)
    (new' : ∀ further, ¬near further other) (same : first.item ref = second.item other)
    (bare : ¬wider other → first.childrenOf (some ref) = [] ∧ second.childrenOf (some other) = []) :
    Twins (fun one two => near one two ∨ one = ref ∧ two = other) rank wider first second where
  exist := by
    rintro _ _ (here | ⟨rfl, rfl⟩)
    · exact twins.exist here
    · exact ⟨valid, valid'⟩
  once := by
    rintro one two one' two' (here | ⟨rfl, rfl⟩) (there | ⟨rfl, rfl⟩)
    · exact twins.once here there
    · exact iff_of_false (fun found => new two (found ▸ here)) fun found => new' one (found ▸ here)
    · exact iff_of_false (fun found => new two' (found ▸ there)) fun found => new' one' (found ▸ there)
    · simp
  item := by
    rintro _ _ (here | ⟨rfl, rfl⟩)
    · exact twins.item here
    · exact same
  children related tight := by
    have old : ∀ {place place'}, Option.Rel near place place' → (∀ ref ∈ place', ¬wider ref) → _ := fun related tight =>
      (twins.children related fun ref found free => tight ref found (more ref free)).imp fun one two pair =>
        (⟨.inl pair.1, pair.2⟩ : Beneath (fun one two => near one two ∨ one = ref ∧ two = other) rank _ one two)
    cases related with
    | none => exact old .none tight
    | some here =>
      rcases here with here | ⟨rfl, rfl⟩
      · exact old (.some here) tight
      · obtain ⟨nothing, nothing'⟩ := bare (tight _ rfl)
        rw [nothing, nothing']
        exact .nil

/-! ## What is written of twins -/

theorem itemToJson_eq (twins : Twins near rank (fun _ => False) first second) (here : near ref other) (levels : Nat) :
    first.itemToJson levels ref = second.itemToJson levels other := by
  induction levels generalizing ref other with
  | zero => rw [itemToJson, itemToJson, twins.item here]
  | succ levels ih =>
    have children := twins.children (.some here) fun _ _ => not_false
    rw [itemToJson, itemToJson, twins.item here, map_eq_of_rel children fun one two pair => ih pair.1]

/-- A path of different items, none of which has a twin of a higher rank. -/
def Climbs (near : Ref → Ref → Prop) (rank : Ref → Nat) (path : List Ref) (other : Ref) : Prop :=
  path.Nodup ∧ ∀ ref ∈ path, ∃ further, near ref further ∧ rank further ≤ rank other

/-- The rank of a child is higher than all those on the path. -/
theorem climbs_child (twins : Twins near rank (fun _ => False) first second) (here : near ref other) {path : List Ref}
    (climbs : Climbs near rank path other) {child : Ref} (member : child ∈ first.childrenOf (some ref)) :
    ∃ child', near child child' ∧ Climbs near rank (child :: path) child' := by
  obtain ⟨child', twin, deeper⟩ := exists_of_mem_rel (twins.children (.some here) fun _ _ => not_false) member
  have below := deeper other rfl
  refine ⟨child', twin, List.nodup_cons.mpr ⟨fun found => ?_, climbs.1⟩, ?_⟩
  · obtain ⟨further, pair, low⟩ := climbs.2 child found
    rw [(twins.once pair twin).mp rfl] at low
    omega
  · intro ref found
    rcases List.mem_cons.mp found with rfl | earlier
    · exact ⟨child', twin, Nat.le_refl _⟩
    · obtain ⟨further, pair, low⟩ := climbs.2 ref earlier
      exact ⟨further, pair, by omega⟩

theorem length_climbs (twins : Twins near rank loose first second) {path : List Ref} (climbs : Climbs near rank path other) :
    path.length ≤ first.nodes.size := by
  have fewer : path ⊆ List.range first.nodes.size := by
    intro ref found
    obtain ⟨further, pair, -⟩ := climbs.2 ref found
    exact List.mem_range.mpr (twins.exist pair).1
  have length := (List.Nodup.subperm climbs.1 fewer).length_le
  rwa [List.length_range] at length

/-- No path is longer than there are items, so that more levels do not show more. -/
theorem itemToJson_exhausted (twins : Twins near rank (fun _ => False) first second) (here : near ref other)
    {levels : Nat} {path : List Ref} (climbs : Climbs near rank path other)
    (enough : first.nodes.size ≤ levels + path.length) (more : Nat) :
    first.itemToJson (levels + more) ref = first.itemToJson levels ref := by
  induction levels generalizing ref other path with
  | zero =>
    have nothing : first.childrenOf (some ref) = [] := by
      apply List.eq_nil_iff_forall_not_mem.mpr
      intro child member
      obtain ⟨child', -, longer⟩ := twins.climbs_child here climbs member
      have length := twins.length_climbs longer
      rw [List.length_cons] at length
      omega
    cases more with
    | zero => rfl
    | succ more => simp [itemToJson, nothing]
  | succ levels ih =>
    have children : (first.childrenOf (some ref)).map (first.itemToJson (levels + more)) =
        (first.childrenOf (some ref)).map (first.itemToJson levels) := by
      apply List.map_congr_left
      intro child member
      obtain ⟨child', twin, longer⟩ := twins.climbs_child here climbs member
      apply ih twin longer
      rw [List.length_cons]
      omega
    rw [Nat.succ_add_eq_add_succ, Nat.add_succ, itemToJson, itemToJson, children]

/-- What is written of all of an item is what is written of its twin, however many other items there are. -/
theorem itemToJson_size (twins : Twins near rank (fun _ => False) first second)
    (size : first.nodes.size ≤ second.nodes.size) (here : near ref other) :
    first.itemToJson first.nodes.size ref = second.itemToJson second.nodes.size other := by
  obtain ⟨more, same⟩ := Nat.exists_eq_add_of_le size
  have climbs : Climbs near rank [] other := ⟨List.nodup_nil, nofun⟩
  have enough : first.nodes.size ≤ first.nodes.size + ([] : List Ref).length := Nat.le_refl _
  rw [← twins.itemToJson_eq here, same, twins.itemToJson_exhausted here climbs enough]

theorem toJson_eq (twins : Twins near rank (fun _ => False) first second) (size : first.nodes.size ≤ second.nodes.size) :
    first.toJson = second.toJson := by
  have top : List.Forall₂ (Beneath near rank none) first.top second.top := twins.children .none nofun
  rw [Outline.toJson, Outline.toJson, map_eq_of_rel top fun _ _ pair => twins.itemToJson_size size pair.1]

end Twins

end TestScout.Outline
