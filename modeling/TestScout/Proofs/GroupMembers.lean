import Mathlib.Data.List.Nodup
import Mathlib.Data.String.Basic
import TestScout.Editor.Questions

/-! The members of groups. Each group has one name and some members, each of them once. Items join groups and leave all
of them together, and a group that nobody is left in goes with the last one. -/

namespace TestScout.Editor
open Outline

theorem lookup_of_mem {α : Type} {entries : List (String × α)} (keys : (entries.map (·.1)).Nodup) {key : String} {value : α}
    (listed : (key, value) ∈ entries) : entries.lookup key = some value := by
  obtain ⟨front, back, rfl⟩ := List.append_of_mem listed
  refine List.lookup_eq_some_iff.mpr ⟨front, back, rfl, ?_⟩
  intro entry earlier
  rw [List.map_append, List.map_cons, List.nodup_append] at keys
  have differs := keys.2.2 entry.1 (List.mem_map_of_mem earlier) key List.mem_cons_self
  exact bne_iff_ne.mpr (Ne.symm differs)

theorem mem_of_lookup {α : Type} {entries : List (String × α)} {key : String} {value : α}
    (found : entries.lookup key = some value) : (key, value) ∈ entries := by
  obtain ⟨front, back, rfl, -⟩ := List.lookup_eq_some_iff.mp found
  exact List.mem_append_right _ List.mem_cons_self

abbrev Groups := List (String × List Ref)

namespace Groups

variable {groups : Groups} {name group : String} {ref member : Ref}

/-- Names are different, and so are the members of a group, which has some. -/
structure Proper (groups : Groups) : Prop where
  names : (groups.map (·.1)).Nodup
  some : ∀ entry ∈ groups, entry.2 ≠ []
  once : ∀ entry ∈ groups, entry.2.Nodup

def members (groups : Groups) (name : String) : List Ref := (groups.lookup name).getD []

theorem mem_members (names : (groups.map (·.1)).Nodup) :
    ref ∈ groups.members name ↔ ∃ refs, (name, refs) ∈ groups ∧ ref ∈ refs := by
  unfold members
  constructor
  · intro inside
    cases found : groups.lookup name with
    | none =>
      rw [found] at inside
      cases inside
    | some refs =>
      rw [found] at inside
      exact ⟨refs, mem_of_lookup found, inside⟩
  · intro ⟨refs, listed, inside⟩
    rw [lookup_of_mem names listed]
    exact inside

namespace Proper

theorem nodup_members (proper : groups.Proper) (name : String) : (groups.members name).Nodup := by
  unfold members
  cases found : groups.lookup name with
  | none => exact List.nodup_nil
  | some refs => exact proper.once (name, refs) (mem_of_lookup found)

/-- A group has a name as long as it has members. -/
theorem mem_names (proper : groups.Proper) : name ∈ groups.map (·.1) ↔ groups.members name ≠ [] := by
  constructor
  · intro named
    obtain ⟨⟨name, refs⟩, listed, rfl⟩ := List.mem_map.mp named
    unfold members
    rw [lookup_of_mem proper.names listed]
    exact proper.some (name, refs) listed
  · intro nonempty
    obtain ⟨ref, inside⟩ := List.exists_mem_of_ne_nil _ nonempty
    obtain ⟨refs, listed, -⟩ := (mem_members proper.names).mp inside
    exact List.mem_map_of_mem listed

/-! ## Joining -/

theorem found (proper : groups.Proper) (ref : Ref) (new : group ∉ groups.map (·.1)) :
    Groups.Proper (groups ++ [(group, [ref])]) := by
  refine ⟨?_, List.forall_mem_append.mpr ⟨proper.some, ?_⟩, List.forall_mem_append.mpr ⟨proper.once, ?_⟩⟩
  · rw [List.map_append, List.map_singleton, ← List.concat_eq_append]
    exact proper.names.concat new
  · simp
  · simp

theorem grow (proper : groups.Proper) (absent : ∀ entry ∈ groups, entry.1 = group → ref ∉ entry.2) :
    Groups.Proper (groups.map fun (name, members) => (name, if name = group then members ++ [ref] else members)) := by
  refine ⟨?_, ?_, ?_⟩
  · rw [List.map_map]
    exact proper.names
  · intro entry listed
    obtain ⟨old, member, rfl⟩ := List.mem_map.mp listed
    dsimp only
    split
    · exact List.append_ne_nil_of_right_ne_nil _ (List.cons_ne_nil _ _)
    · exact proper.some old member
  · intro entry listed
    obtain ⟨old, member, rfl⟩ := List.mem_map.mp listed
    dsimp only
    split
    next same =>
      rw [← List.concat_eq_append]
      exact (proper.once old member).concat (absent old member same)
    next => exact proper.once old member

theorem join (proper : groups.Proper) (ref : Ref) (group : String) : Groups.Proper (joinGroup ref group groups) := by
  unfold joinGroup
  split
  next missing =>
    apply proper.found ref
    intro named
    obtain ⟨⟨name, refs⟩, listed, rfl⟩ := List.mem_map.mp named
    rw [lookup_of_mem proper.names listed] at missing
    cases missing
  next refs found =>
    split
    next => exact proper
    next absent =>
      apply proper.grow
      rintro ⟨name, others⟩ member rfl inside
      rw [lookup_of_mem proper.names member] at found
      cases found
      exact absent (List.contains_iff_mem.mpr inside)

end Proper

theorem lookup_map (groups : Groups) (change : String → List Ref → List Ref) (name : String) :
    (groups.map fun (name, refs) => (name, change name refs)).lookup name = (groups.lookup name).map (change name) := by
  induction groups with
  | nil => rfl
  | cons first rest ih =>
    obtain ⟨other, refs⟩ := first
    rw [List.map_cons, List.lookup_cons, List.lookup_cons, ih]
    cases same : name == other with
    | true =>
      rw [beq_iff_eq.mp same]
      rfl
    | false => rfl

theorem members_join : Groups.members (joinGroup ref group groups) name =
    if name = group ∧ ref ∉ groups.members group then groups.members name ++ [ref] else groups.members name := by
  unfold joinGroup members
  cases found : groups.lookup group with
  | none =>
    rw [List.lookup_append]
    by_cases same : name = group
    · subst same
      simp [found]
    · have differs : (name == group) = false := beq_eq_false_iff_ne.mpr same
      simp [same, List.lookup_cons, differs]
  | some refs =>
    by_cases known : ref ∈ refs
    · simp [known]
    · have changed := lookup_map groups (fun name members => if name = group then members ++ [ref] else members) name
      by_cases same : name = group
      · subst same
        simp [known, changed, found]
      · simp [known, changed, same]

theorem mem_join : member ∈ Groups.members (joinGroup ref group groups) name ↔
    member ∈ groups.members name ∨ name = group ∧ member = ref := by
  rw [members_join]
  split
  next here => simp [here.1]
  next other =>
    refine (or_iff_left_of_imp ?_).symm
    intro ⟨same, equal⟩
    subst same equal
    by_contra absent
    exact other ⟨rfl, absent⟩

theorem Proper.joinAll (proper : groups.Proper) (ref : Ref) (names : List String) :
    Groups.Proper (names.foldl (fun groups group => joinGroup ref group groups) groups) := by
  induction names generalizing groups with
  | nil => exact proper
  | cons first rest ih => exact ih (proper.join ref first)

theorem mem_joinAll (names : List String) :
    member ∈ Groups.members (names.foldl (fun groups group => joinGroup ref group groups) groups) name ↔
      member ∈ groups.members name ∨ name ∈ names ∧ member = ref := by
  induction names generalizing groups with
  | nil => simp
  | cons first rest ih =>
    rw [List.foldl_cons, ih, mem_join, List.mem_cons, or_and_right, or_assoc]

/-! ## Leaving -/

variable (stays : Ref → Bool)

/-- Groups without the items that leave. -/
def without (groups : Groups) : Groups :=
  (groups.map fun (name, members) => (name, members.filter stays)).filter (!·.2.isEmpty)

variable {stays}

theorem mem_without {refs : List Ref} :
    (name, refs) ∈ groups.without stays ↔ refs ≠ [] ∧ ∃ old, (name, old) ∈ groups ∧ old.filter stays = refs := by
  simp only [without, List.mem_filter, List.mem_map, Prod.exists, Prod.mk.injEq, Bool.not_eq_true', List.isEmpty_eq_false_iff]
  constructor
  · rintro ⟨⟨other, old, listed, same, left⟩, nonempty⟩
    exact ⟨nonempty, old, same ▸ listed, left⟩
  · rintro ⟨nonempty, old, listed, left⟩
    exact ⟨⟨name, old, listed, rfl, left⟩, nonempty⟩

theorem Proper.without (proper : groups.Proper) (stays : Ref → Bool) : (groups.without stays).Proper := by
  refine ⟨?_, ?_, ?_⟩
  · have names : (groups.map fun (name, members) => (name, members.filter stays)).map (·.1) = groups.map (·.1) := by
      rw [List.map_map]
      rfl
    exact (names ▸ proper.names).sublist (List.filter_sublist.map _)
  · intro entry listed
    exact (mem_without.mp (show (entry.1, entry.2) ∈ groups.without stays from listed)).1
  · intro entry listed
    obtain ⟨-, old, known, left⟩ := mem_without.mp (show (entry.1, entry.2) ∈ groups.without stays from listed)
    rw [← left]
    exact (proper.once _ known).filter stays

theorem mem_members_without (proper : groups.Proper) :
    ref ∈ (groups.without stays).members name ↔ ref ∈ groups.members name ∧ stays ref = true := by
  rw [mem_members (proper.without stays).names, mem_members proper.names]
  constructor
  · intro ⟨refs, listed, inside⟩
    obtain ⟨-, old, known, rfl⟩ := mem_without.mp listed
    obtain ⟨inside, left⟩ := List.mem_filter.mp inside
    exact ⟨⟨old, known, inside⟩, left⟩
  · intro ⟨⟨old, known, inside⟩, left⟩
    have kept := List.mem_filter.mpr ⟨inside, left⟩
    exact ⟨old.filter stays, mem_without.mpr ⟨List.ne_nil_of_mem kept, old, known, rfl⟩, kept⟩

end Groups

end TestScout.Editor
