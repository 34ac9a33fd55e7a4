import Mathlib
import TestScout.Proofs.VisibleMethods

/-! Which declaration of a method can be seen on a class. Of all that is offered, by the class itself, by its traits and by
its ancestors in this order, the first method of a name counts. -/

namespace TestScout
open Code

theorem sameName_iff {first second : String} : sameName first second = true ↔ first.toLower = second.toLower := by
  simp [sameName]

namespace VisibleMethod

variable {members offered first second : List VisibleMethod} {member other : VisibleMethod}

def Distinct (members : List VisibleMethod) : Prop := members.Pairwise fun one other => ¬sameName one.name other.name

def Names (members : List VisibleMethod) (name : String) : Prop := ∃ other ∈ members, sameName other.name name

instance (members : List VisibleMethod) (name : String) : Decidable (Names members name) :=
  inferInstanceAs (Decidable (∃ other ∈ members, sameName other.name name))

/-- A method is the first one of its name in a list. -/
def Leads (members : List VisibleMethod) (member : VisibleMethod) : Prop :=
  ∃ before after, members = before ++ member :: after ∧ ¬Names before member.name

theorem Leads.mem (leads : Leads members member) : member ∈ members := by
  obtain ⟨before, after, rfl, -⟩ := leads
  exact List.mem_append_right _ List.mem_cons_self

theorem names_append {name : String} : Names (first ++ second) name ↔ Names first name ∨ Names second name := by
  simp only [Names, List.mem_append, or_and_right, exists_or]

theorem names_congr {name further : String} (same : sameName name further) : Names members name ↔ Names members further := by
  simp only [Names, sameName_iff, sameName_iff.mp same]

theorem leads_append : Leads (first ++ second) member ↔ Leads first member ∨ ¬Names first member.name ∧ Leads second member := by
  constructor
  · rintro ⟨before, after, split, new⟩
    rcases List.append_eq_append_iff.mp split with ⟨more, rfl, rfl⟩ | ⟨more, rfl, rest⟩
    · rw [names_append, not_or] at new
      exact .inr ⟨new.1, more, after, rfl, new.2⟩
    · cases more with
      | nil => exact .inr ⟨by simpa using new, [], after, rest.symm, nofun⟩
      | cons head tail =>
        obtain ⟨rfl, rfl⟩ := List.cons.inj rest
        exact .inl ⟨before, tail, rfl, new⟩
  · rintro (⟨before, after, rfl, new⟩ | ⟨absent, before, after, rfl, new⟩)
    · exact ⟨before, after ++ second, by simp, new⟩
    · exact ⟨first ++ before, after, by simp, by simp [names_append, absent, new]⟩

theorem leads_singleton : Leads [other] member ↔ member = other := by
  constructor
  · intro leads
    exact List.mem_singleton.mp leads.mem
  · rintro rfl
    exact ⟨[], [], rfl, nofun⟩

theorem leads_cons : Leads (other :: members) member ↔
    member = other ∨ ¬sameName other.name member.name ∧ Leads members member := by
  rw [← List.singleton_append, leads_append, leads_singleton]
  simp [Names]

theorem Distinct.leads_iff (distinct : Distinct members) : Leads members member ↔ member ∈ members := by
  refine ⟨Leads.mem, fun inside => ?_⟩
  obtain ⟨before, after, rfl⟩ := List.append_of_mem inside
  refine ⟨before, after, rfl, fun ⟨other, earlier, same⟩ => ?_⟩
  exact (List.pairwise_append.mp distinct).2.2 other earlier member List.mem_cons_self same

theorem leads_flatMap {α : Type} {keys : List α} {f : α → List VisibleMethod} : Leads (keys.flatMap f) member ↔
    ∃ (i : Nat) (key : α), keys[i]? = some key ∧ Leads (f key) member ∧
      ∀ j < i, ∀ earlier, keys[j]? = some earlier → ¬Names (f earlier) member.name := by
  induction keys with
  | nil => simpa using fun leads => List.not_mem_nil leads.mem
  | cons first rest ih =>
    rw [List.flatMap_cons, leads_append, ih]
    constructor
    · rintro (leads | ⟨absent, i, key, found, leads, earlier⟩)
      · exact ⟨0, first, rfl, leads, fun j below => absurd below (Nat.not_lt_zero j)⟩
      · refine ⟨i + 1, key, found, leads, fun j below other listed => ?_⟩
        cases j with
        | zero => exact Option.some_inj.mp listed ▸ absent
        | succ j => exact earlier j (Nat.lt_of_succ_lt_succ below) other listed
    · rintro ⟨i, key, found, leads, earlier⟩
      cases i with
      | zero => exact .inl (Option.some_inj.mp found ▸ leads)
      | succ i =>
        refine .inr ⟨earlier 0 (Nat.succ_pos i) first rfl, i, key, found, leads, fun j below other listed => ?_⟩
        exact earlier (j + 1) (Nat.succ_lt_succ below) other listed

theorem addTo_eq : addTo members member = if Names members member.name then members else members ++ [member] := by
  have same : (members.any fun other => sameName other.name member.name) = true ↔ Names members member.name := List.any_eq_true
  rw [addTo]
  split
  next known => rw [if_pos (same.mp known)]
  next new => rw [if_neg fun known => new (same.mpr known)]

theorem distinct_addTo (distinct : Distinct members) (member : VisibleMethod) : Distinct (addTo members member) := by
  rw [addTo_eq]
  split
  · exact distinct
  next new =>
    refine List.pairwise_append.mpr ⟨distinct, List.pairwise_singleton .., fun other inside last same => ?_⟩
    rw [List.mem_singleton.mp same]
    exact fun equal => new ⟨other, inside, equal⟩

theorem distinct_foldl (distinct : Distinct members) (offered : List VisibleMethod) : Distinct (offered.foldl addTo members) := by
  induction offered generalizing members with
  | nil => exact distinct
  | cons head rest ih => exact ih (distinct_addTo distinct head)

theorem mem_of_mem_foldl (found : member ∈ offered.foldl addTo members) : member ∈ members ∨ member ∈ offered := by
  induction offered generalizing members with
  | nil => exact .inl found
  | cons head rest ih =>
    rcases ih found with before | later
    · refine (mem_of_mem_addTo before).imp_right ?_
      rintro rfl
      exact List.mem_cons_self
    · exact .inr (List.mem_cons_of_mem _ later)

/-- Putting methods behind others keeps the first one of each name. -/
theorem mem_foldl (distinct : Distinct members) : member ∈ offered.foldl addTo members ↔ Leads (members ++ offered) member := by
  induction offered generalizing members with
  | nil => rw [List.append_nil, distinct.leads_iff, List.foldl_nil]
  | cons head rest ih =>
    rw [List.foldl_cons, ih (distinct_addTo distinct head), addTo_eq]
    split
    next known =>
      obtain ⟨other, inside, same⟩ := known
      rw [leads_append, leads_append, leads_cons]
      refine or_congr_right (and_congr_right fun absent => ?_)
      -- A method that is called like the head is in front of it already.
      have apart : ¬sameName head.name member.name := fun equal =>
        absent ⟨other, inside, sameName_iff.mpr ((sameName_iff.mp same).trans (sameName_iff.mp equal))⟩
      refine ⟨fun leads => .inr ⟨apart, leads⟩, fun leads => (leads.resolve_left ?_).2⟩
      rintro rfl
      exact apart (sameName_iff.mpr rfl)
    next => rw [List.append_assoc, List.singleton_append]

end VisibleMethod

namespace Registry
open VisibleMethod

variable {registry : Registry} {info : ClassInfo} {member : VisibleMethod} {isInherited : Bool}

/-- What a class is offered by something that it uses. -/
def offered (registry : Registry) (levels : Nat) (info : ClassInfo) (name : String) : List VisibleMethod :=
  match registry.find? name with
  | none => []
  | some used => (registry.members levels true used).flatMap (adapted info.adaptations used.name)

theorem members_succ (registry : Registry) (levels : Nat) (isInherited : Bool) (info : ClassInfo) :
    registry.members (levels + 1) isInherited info =
      (info.traits.flatMap (registry.offered levels info)).foldl addTo (ownMethods info isInherited) := by
  rw [members, List.foldl_flatMap]
  refine congrArg (info.traits.foldl · _) (funext fun found => funext fun name => ?_)
  rw [offered]
  cases registry.find? name <;> rfl

/-- The class that so many steps lead up to. -/
def ancestor? (registry : Registry) : (steps : Nat) → ClassInfo → Option ClassInfo
  | 0, info => some info
  | steps + 1, info => (info.parent.bind registry.find?).bind (registry.ancestor? steps)

theorem getElem?_ancestors (count steps : Nat) (info : ClassInfo) :
    (registry.ancestors count info)[steps]? = if steps < count then registry.ancestor? (steps + 1) info else none := by
  induction count generalizing steps info with
  | zero => simp [ancestors]
  | succ count ih =>
    cases extended : info.parent.bind registry.find? with
    | none => simp [ancestors, ancestor?, extended]
    | some parent =>
      cases steps with
      | zero => simp [ancestors, ancestor?, extended]
      | succ steps => simp [ancestors, ancestor?, extended, ih]

/-- What a class hands on to those that extend it. -/
def inheritable (members : List VisibleMethod) : List VisibleMethod :=
  (members.filter (·.method.visibility != .privateAccess)).map ({ · with isInherited := true })

theorem foldl_inherit (members start : List VisibleMethod) : members.foldl inherit start = (inheritable members).foldl addTo start := by
  rw [inheritable, List.foldl_map, List.foldl_filter]
  refine congrArg (members.foldl · start) (funext fun found => funext fun member => ?_)
  by_cases hidden : member.method.visibility = .privateAccess <;> simp [inherit, hidden]

theorem methodsOf_eq {name : String} (found : registry.find? name = some info) : registry.methodsOf name =
    ((registry.ancestors reach info).zipIdx.flatMap fun (ancestor, index) =>
      inheritable (registry.members (reach - index) true ancestor)).foldl addTo (registry.members (reach + 1) false info) := by
  simp only [methodsOf, found, List.foldl_flatMap, foldl_inherit]

/-- What a class has behind so many steps up, before it is inherited. -/
def methodsAt (registry : Registry) (info : ClassInfo) (steps : Nat) : List VisibleMethod :=
  match registry.ancestor? steps info with
  | none => []
  | some ancestor => registry.members (reach + 1 - steps) (steps != 0) ancestor

theorem methodsAt_succ {steps : Nat} {ancestor : ClassInfo} (found : registry.ancestor? (steps + 1) info = some ancestor) :
    registry.methodsAt info (steps + 1) = registry.members (reach - steps) true ancestor := by
  simp [methodsAt, found]

/-- What is seen on a class is what it has itself, and otherwise what the closest ancestor hands on. -/
theorem mem_methodsOf (distinct : Distinct (registry.methodsAt info 0)) {name : String} (found : registry.find? name = some info) :
    member ∈ registry.methodsOf name ↔ member ∈ registry.methodsAt info 0 ∨
      ¬Names (registry.methodsAt info 0) member.name ∧ ∃ steps, 1 ≤ steps ∧ steps ≤ reach ∧
        Leads (inheritable (registry.methodsAt info steps)) member ∧
        ∀ closer, 1 ≤ closer → closer < steps → ¬Names (inheritable (registry.methodsAt info closer)) member.name := by
  have listed (index : Nat) (ancestor : ClassInfo) (place : Nat) :
      (registry.ancestors reach info).zipIdx[index]? = some (ancestor, place) ↔
        index < reach ∧ registry.ancestor? (index + 1) info = some ancestor ∧ place = index := by
    rw [List.getElem?_zipIdx, getElem?_ancestors]
    split
    next within =>
      cases registry.ancestor? (index + 1) info with
      | none => simp
      | some found => simp [within, eq_comm]
    next beyond => simp [beyond]
  have itself : registry.methodsAt info 0 = registry.members (reach + 1) false info := rfl
  rw [itself] at distinct ⊢
  rw [methodsOf_eq found, mem_foldl distinct, leads_append, distinct.leads_iff, leads_flatMap]
  refine or_congr_right (and_congr_right fun _ => ?_)
  constructor
  · intro ⟨index, ⟨ancestor, place⟩, here, leads, earlier⟩
    obtain ⟨within, above, rfl⟩ := (listed index ancestor place).mp here
    refine ⟨place + 1, Nat.succ_pos place, within, (methodsAt_succ above).symm ▸ leads, fun closer first below => ?_⟩
    obtain ⟨closer, rfl⟩ := Nat.exists_eq_add_of_le' first
    cases between : registry.ancestor? (closer + 1) info with
    | none => simp [methodsAt, between, inheritable, Names]
    | some other =>
      have nearer : closer < place := Nat.lt_of_succ_lt_succ below
      rw [methodsAt_succ between]
      exact earlier closer nearer (other, closer) ((listed closer other closer).mpr ⟨Nat.lt_trans nearer within, between, rfl⟩)
  · intro ⟨steps, first, within, leads, earlier⟩
    obtain ⟨index, rfl⟩ := Nat.exists_eq_add_of_le' first
    cases above : registry.ancestor? (index + 1) info with
    | none =>
      have inside := leads.mem
      simp [methodsAt, above, inheritable] at inside
    | some ancestor =>
      rw [methodsAt_succ above] at leads
      refine ⟨index, (ancestor, index), (listed index ancestor index).mpr ⟨within, above, rfl⟩, leads, ?_⟩
      intro closer nearer ⟨other, place⟩ here
      obtain ⟨-, between, rfl⟩ := (listed closer other place).mp here
      have hidden := earlier (place + 1) (Nat.succ_pos place) (Nat.succ_lt_succ nearer)
      rwa [methodsAt_succ between] at hidden

/-! ## What a class has itself -/

theorem distinct_own (apart : info.methods.Pairwise fun one other => ¬sameName one.name other.name) (isInherited : Bool) :
    Distinct (ownMethods info isInherited) :=
  List.pairwise_map.mpr apart

/-- The methods of a class come first, and then those of the traits in the order in which they are used. -/
theorem mem_members (distinct : Distinct (ownMethods info isInherited)) {levels : Nat} :
    member ∈ registry.members (levels + 1) isInherited info ↔ member ∈ ownMethods info isInherited ∨
      ¬Names (ownMethods info isInherited) member.name ∧ ∃ (place : Nat) (name : String), info.traits[place]? = some name ∧
        Leads (registry.offered levels info name) member ∧
        ∀ earlier < place, ∀ other, info.traits[earlier]? = some other →
          ¬Names (registry.offered levels info other) member.name := by
  rw [members_succ, mem_foldl distinct, leads_append, distinct.leads_iff, leads_flatMap]

theorem distinct_members (distinct : Distinct (ownMethods info isInherited)) (levels : Nat) :
    Distinct (registry.members levels isInherited info) := by
  cases levels with
  | zero => exact distinct
  | succ levels =>
    rw [members_succ]
    exact distinct_foldl distinct _

theorem isInherited_of_mem_adapted {adaptations : List Adaptation} {ofTrait : String} {source : VisibleMethod}
    (copied : member ∈ adapted adaptations ofTrait source) : member.isInherited = source.isInherited := by
  simp only [adapted, List.mem_append, List.mem_filterMap, Option.map_eq_some_iff] at copied
  rcases copied with ⟨_, -, _, -, rfl⟩ | kept
  · rfl
  · split at kept
    · cases kept
    · rw [List.mem_singleton.mp kept]

theorem isInherited_of_mem_members {levels : Nat} (found : member ∈ registry.members levels true info) :
    member.isInherited = true := by
  induction levels generalizing info member with
  | zero =>
    obtain ⟨method, -, rfl⟩ := List.mem_map.mp found
    rfl
  | succ levels ih =>
    rw [members_succ] at found
    rcases mem_of_mem_foldl found with own | used
    · obtain ⟨method, -, rfl⟩ := List.mem_map.mp own
      rfl
    · obtain ⟨name, -, offered⟩ := List.mem_flatMap.mp used
      unfold Registry.offered at offered
      split at offered
      · cases offered
      · obtain ⟨source, inside, copied⟩ := List.mem_flatMap.mp offered
        exact (isInherited_of_mem_adapted copied).trans (ih inside)

theorem isInherited_of_mem_offered {levels : Nat} {name : String} (offered : member ∈ registry.offered levels info name) :
    member.isInherited = true := by
  unfold Registry.offered at offered
  split at offered
  · cases offered
  · obtain ⟨source, inside, copied⟩ := List.mem_flatMap.mp offered
    exact (isInherited_of_mem_adapted copied).trans (isInherited_of_mem_members inside)

theorem mem_inheritable {members : List VisibleMethod} : member ∈ inheritable members ↔
    ∃ source ∈ members, source.method.visibility ≠ .privateAccess ∧ member = { source with isInherited := true } := by
  simp only [inheritable, List.mem_map, List.mem_filter, bne_iff_ne, ne_eq, and_assoc]
  exact exists_congr fun source => and_congr_right fun _ => and_congr_right fun _ => eq_comm

theorem names_inheritable {members : List VisibleMethod} {name : String} : Names (inheritable members) name ↔
    ∃ source ∈ members, source.method.visibility ≠ .privateAccess ∧ sameName source.name name := by
  constructor
  · rintro ⟨member, inside, same⟩
    obtain ⟨source, listed, shown, rfl⟩ := mem_inheritable.mp inside
    exact ⟨source, listed, shown, same⟩
  · rintro ⟨source, listed, shown, same⟩
    exact ⟨_, mem_inheritable.mpr ⟨source, listed, shown, rfl⟩, same⟩

theorem distinct_inheritable {members : List VisibleMethod} (distinct : Distinct members) : Distinct (inheritable members) :=
  List.pairwise_map.mpr (distinct.filter _)

/-! ## The order of resolution -/

theorem mem_of_ancestor? {steps : Nat} {ancestor : ClassInfo} (member : info ∈ registry.classes)
    (above : registry.ancestor? steps info = some ancestor) : ancestor ∈ registry.classes := by
  induction steps generalizing info with
  | zero => exact Option.some_inj.mp above ▸ member
  | succ steps ih =>
    obtain ⟨parent, extended, further⟩ := Option.bind_eq_some_iff.mp above
    obtain ⟨name, -, found⟩ := Option.bind_eq_some_iff.mp extended
    exact ih (find?_eq_some_iff.mp found).1 further

/-- No two methods that a class or a trait declares have one name. -/
def Unambiguous (registry : Registry) : Prop :=
  ∀ info ∈ registry.classes, info.methods.Pairwise fun one other => ¬sameName one.name other.name

instance (registry : Registry) : Decidable registry.Unambiguous :=
  inferInstanceAs (Decidable (∀ info ∈ registry.classes, info.methods.Pairwise fun one other => ¬sameName one.name other.name))

theorem Unambiguous.distinct (unambiguous : registry.Unambiguous) (member : info ∈ registry.classes) (steps : Nat) :
    Distinct (registry.methodsAt info steps) := by
  unfold methodsAt
  split
  · exact List.Pairwise.nil
  next above => exact distinct_members (distinct_own (unambiguous _ (mem_of_ancestor? member above)) _) _

section

variable (unambiguous : registry.Unambiguous) (registered : info ∈ registry.classes)
include unambiguous registered

theorem mem_methodsAt {steps : Nat} (within : steps ≤ reach) {ancestor : ClassInfo}
    (above : registry.ancestor? steps info = some ancestor) (entry : VisibleMethod) :
    entry ∈ registry.methodsAt info steps ↔ entry ∈ ownMethods ancestor (steps != 0) ∨
      ¬Names (ownMethods ancestor (steps != 0)) entry.name ∧ ∃ (place : Nat) (name : String),
        ancestor.traits[place]? = some name ∧ Leads (registry.offered (reach - steps) ancestor name) entry ∧
          ∀ earlier < place, ∀ other, ancestor.traits[earlier]? = some other →
            ¬Names (registry.offered (reach - steps) ancestor other) entry.name := by
  have found : registry.methodsAt info steps = registry.members (reach - steps + 1) (steps != 0) ancestor := by
    rw [methodsAt, above, Nat.sub_add_comm within]
  rw [found]
  exact mem_members (distinct_own (unambiguous _ (mem_of_ancestor? registered above)) _)

/-- Nothing but the own methods of a class is not inherited. -/
theorem isInherited_iff {name : String} (found : registry.find? name = some info) {entry : VisibleMethod}
    (shown : entry ∈ registry.methodsOf name) : entry.isInherited = false ↔ entry ∈ ownMethods info false := by
  constructor
  · intro itself
    have isInherited : entry ∉ ownMethods info false → entry.isInherited = true := by
      intro foreign
      rcases (mem_methodsOf (unambiguous.distinct registered 0) found).mp shown with here | ⟨-, steps, -, -, leads, -⟩
      · rcases (mem_methodsAt unambiguous registered (Nat.zero_le reach) rfl entry).mp here with own | ⟨-, _, _, -, leads, -⟩
        · exact absurd own foreign
        · exact isInherited_of_mem_offered leads.mem
      · obtain ⟨source, -, -, rfl⟩ := mem_inheritable.mp leads.mem
        rfl
    by_contra foreign
    rw [isInherited foreign] at itself
    cases itself
  · intro own
    obtain ⟨method, -, rfl⟩ := List.mem_map.mp own
    rfl

/-- A name that a class does not have itself comes from the closest ancestor that hands it on. -/
theorem mem_methodsOf_inherited {name className : String} (found : registry.find? className = some info)
    (absent : ¬Names (registry.methodsAt info 0) name) (entry : VisibleMethod) :
    entry ∈ registry.methodsOf className ∧ sameName entry.name name ↔ ∃ steps, 1 ≤ steps ∧ steps ≤ reach ∧
      (∃ source ∈ registry.methodsAt info steps, source.method.visibility ≠ .privateAccess ∧ sameName source.name name ∧
        entry = { source with isInherited := true }) ∧
      ∀ closer, 1 ≤ closer → closer < steps → ∀ other ∈ registry.methodsAt info closer, sameName other.name name →
        other.method.visibility = .privateAccess := by
  have hidden (same : sameName entry.name name) (closer : Nat) :
      ¬Names (inheritable (registry.methodsAt info closer)) entry.name ↔
        ∀ other ∈ registry.methodsAt info closer, sameName other.name name → other.method.visibility = .privateAccess := by
    rw [names_congr same, names_inheritable]
    constructor
    · intro none other inside spelled
      exact by_contra fun shown => none ⟨other, inside, shown, spelled⟩
    · rintro all ⟨other, inside, shown, spelled⟩
      exact shown (all other inside spelled)
  rw [mem_methodsOf (unambiguous.distinct registered 0) found]
  constructor
  · rintro ⟨shown, same⟩
    rcases shown with here | ⟨-, steps, first, within, leads, nearer⟩
    · exact absurd ⟨entry, here, same⟩ absent
    obtain ⟨source, inside, visible, equal⟩ := mem_inheritable.mp leads.mem
    have spelled : sameName source.name name := by
      rw [equal] at same
      exact same
    refine ⟨steps, first, within, ⟨source, inside, visible, spelled, equal⟩, fun closer positive below => ?_⟩
    exact (hidden same closer).mp (nearer closer positive below)
  · rintro ⟨steps, first, within, ⟨source, inside, visible, spelled, equal⟩, nearer⟩
    have same : sameName entry.name name := by
      rw [equal]
      exact spelled
    have distinct := distinct_inheritable (unambiguous.distinct registered steps)
    refine ⟨.inr ⟨fun here => absent ((names_congr same).mp here), steps, first, within, ?_, ?_⟩, same⟩
    · exact distinct.leads_iff.mpr (mem_inheritable.mpr ⟨source, inside, visible, equal⟩)
    · exact fun closer positive below => (hidden same closer).mpr (nearer closer positive below)

theorem names_methodsOf_inherited {name className : String} (found : registry.find? className = some info)
    (absent : ¬Names (registry.methodsAt info 0) name) :
    Names (registry.methodsOf className) name ↔ ∃ steps, 1 ≤ steps ∧ steps ≤ reach ∧
      ∃ source ∈ registry.methodsAt info steps, source.method.visibility ≠ .privateAccess ∧ sameName source.name name := by
  have inherited := mem_methodsOf_inherited unambiguous registered found absent
  classical
  constructor
  · rintro ⟨entry, shown, same⟩
    obtain ⟨steps, first, within, ⟨source, inside, visible, spelled, -⟩, -⟩ := (inherited entry).mp ⟨shown, same⟩
    exact ⟨steps, first, within, source, inside, visible, spelled⟩
  · intro handed
    -- The closest of the ancestors that have the name and show it.
    obtain ⟨first, within, source, inside, visible, spelled⟩ := Nat.find_spec handed
    have nearest := fun closer => Nat.find_min handed (m := closer)
    generalize Nat.find handed = steps at *
    refine ⟨{ source with isInherited := true }, ((inherited _).mpr ⟨steps, first, within, ?_, ?_⟩).1, spelled⟩
    · exact ⟨source, inside, visible, spelled, rfl⟩
    · intro closer positive below other listed same
      by_contra shown
      exact nearest closer below ⟨positive, Nat.le_trans (Nat.le_of_lt below) within, other, listed, shown, same⟩

end

/-- A class shows each name once. What it has itself comes first, its own methods before those of its traits and earlier
traits before later ones, and of its ancestors the closest one that does not hide the name hands it on. -/
theorem methods_resolved (registry : Registry) (unambiguous : registry.Unambiguous)
    (plain : ∀ info ∈ registry.classes, info.name.toList.head? ≠ some '\\') (info : ClassInfo) (registered : info ∈ registry.classes) :
    let shown := registry.methodsOf info.name
    let above := registry.methodsAt info
    Distinct shown ∧
      (∀ entry ∈ ownMethods info false, entry ∈ shown) ∧
      (∀ entry ∈ above 0, entry ∈ shown) ∧
      (∀ entry ∈ shown, entry.isInherited = false ↔ entry ∈ ownMethods info false) ∧
      (∀ name, ¬Names (above 0) name →
        (Names shown name ↔ ∃ steps, 1 ≤ steps ∧ steps ≤ reach ∧
          ∃ source ∈ above steps, source.method.visibility ≠ .privateAccess ∧ sameName source.name name) ∧
        ∀ entry, entry ∈ shown ∧ sameName entry.name name ↔ ∃ steps, 1 ≤ steps ∧ steps ≤ reach ∧
          (∃ source ∈ above steps, source.method.visibility ≠ .privateAccess ∧ sameName source.name name ∧
            entry = { source with isInherited := true }) ∧
          ∀ closer, 1 ≤ closer → closer < steps → ∀ other ∈ above closer, sameName other.name name →
            other.method.visibility = .privateAccess) ∧
      ∀ steps ≤ reach, ∀ ancestor, registry.ancestor? steps info = some ancestor →
        Distinct (above steps) ∧
        ∀ entry, entry ∈ above steps ↔ entry ∈ ownMethods ancestor (steps != 0) ∨
          ¬Names (ownMethods ancestor (steps != 0)) entry.name ∧ ∃ (place : Nat) (name : String),
            ancestor.traits[place]? = some name ∧ Leads (registry.offered (reach - steps) ancestor name) entry ∧
              ∀ earlier < place, ∀ other, ancestor.traits[earlier]? = some other →
                ¬Names (registry.offered (reach - steps) ancestor other) entry.name := by
  intro shown above
  have itself : relativeName info.name = info.name := by
    rw [relativeName, List.dropWhile_eq_self_iff.mpr, String.ofList_toList]
    intro nonempty start
    apply plain info registered
    rw [List.head?_eq_getElem?, List.getElem?_eq_getElem nonempty]
    exact congrArg some (by simpa using start)
  have found : registry.find? info.name = some info := find?_eq_some_iff.mpr ⟨registered, itself.symm⟩
  have distinct := unambiguous.distinct registered
  have here : ∀ entry ∈ above 0, entry ∈ shown := fun entry inside => (mem_methodsOf (distinct 0) found).mpr (.inl inside)
  refine ⟨?_, fun entry own => ?_, here, fun entry => isInherited_iff unambiguous registered found, fun name absent => ?_, ?_⟩
  · rw [show shown = _ from methodsOf_eq found]
    exact distinct_foldl (distinct 0) _
  · exact here entry ((mem_methodsAt unambiguous registered (Nat.zero_le reach) rfl entry).mpr (.inl own))
  · exact ⟨names_methodsOf_inherited unambiguous registered found absent, mem_methodsOf_inherited unambiguous registered found absent⟩
  · intro steps within ancestor reached
    exact ⟨distinct steps, mem_methodsAt unambiguous registered within reached⟩

private def hallShop : ClassInfo where
  name := "Shop"
  parent := some "\\Hall"
  traits := ["Greets", "Sells"]
  methods := [{ name := "open" }]
  file := ⟨"/p/Shop.php"⟩

/-- A shop and a market extend each other around a hall that hides how it is closed, and two traits help the shop. -/
private def hallClasses : Registry where
  classes :=
    let file := ⟨"/p/Shop.php"⟩
    [hallShop,
      { name := "Hall", parent := some "Market", file
        methods := [{ name := "close", visibility := .privateAccess }, { name := "heat" }] },
      { name := "Market", parent := some "Shop", methods := [{ name := "Close" }, { name := "OPEN" }], file },
      { name := "Greets", kind := .traitDecl, methods := [{ name := "greet" }, { name := "open" }], file },
      { name := "Sells", kind := .traitDecl, methods := [{ name := "Greet" }, { name := "sell" }], file }]
  distinct := by decide

/-- The shop is opened in its own way, greets as the first trait does, and is closed like the market. -/
theorem shop_methods_resolved :
    Distinct (hallClasses.methodsOf hallShop.name) ∧
      (Names (hallClasses.methodsOf hallShop.name) "close" ↔ ∃ steps, 1 ≤ steps ∧ steps ≤ reach ∧
        ∃ source ∈ hallClasses.methodsAt hallShop steps,
          source.method.visibility ≠ .privateAccess ∧ sameName source.name "close") ∧
      (hallClasses.methodsOf hallShop.name).map (fun entry => (entry.name, entry.declaring, entry.isInherited)) =
        [("open", "Shop", false), ("greet", "Greets", true), ("sell", "Sells", true), ("heat", "Hall", true),
          ("Close", "Market", true)] := by
  have resolved := methods_resolved hallClasses (by decide +kernel) (by decide +kernel) hallShop List.mem_cons_self
  have absent : ¬Names (hallClasses.methodsAt hallShop 0) "close" := of_decide_eq_true (by cbv)
  refine ⟨resolved.1, (resolved.2.2.2.2.1 "close" absent).1, ?_⟩
  cbv

end Registry

end TestScout
