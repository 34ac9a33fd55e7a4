import Mathlib.Data.List.TakeWhile
import TestScout.Proofs.BuilderRun

/-! Where definitions come to be. While a file is read, namespaces, classes and groups are open, and each definition
belongs to the innermost one that is less deep. What it finds there is what its own id tells of: a class is in the last
segment of its namespace, and a test or a group continues the id of what it is in. -/

namespace TestScout.Test
open Outline

/-- Something that is open: what kind it is of, its id, and how deep it lies. The top has neither kind nor id. -/
structure Site where
  owner : Option (DefinitionKind × String) := none
  depth : Nat := 0

/-- What owns the innermost site. -/
def ownerOf (sites : List Site) : Option (DefinitionKind × String) := sites.head?.bind (·.owner)

namespace Definition

/-- The sites that a definition leaves open. -/
def around (definition : Definition) (sites : List Site) : List Site := sites.dropWhile (definition.depth ≤ ·.depth)

/-- The sites that a definition opens, the innermost one first: one for each segment of a namespace. -/
def opens (definition : Definition) : List Site :=
  if definition.kind = .space then
    ((spaceIds (some definition.label)).map fun id => ⟨some (.space, id), definition.depth⟩).reverse
  else [⟨some (definition.kind, definition.id), definition.depth⟩]

/-- A definition is in its place among the sites around it. -/
def Settles (sites : List Site) (definition : Definition) : Prop :=
  match definition.kind with
  | .space => sites = [{}]
  | .classLike => sites ≠ [] ∧ ownerOf sites = (spaceIds definition.space).getLast?.map (.space, ·)
  | .describe | .method => ∃ kind id, ownerOf sites = some (kind, id) ∧
      (kind = .classLike ∧ (id ++ "::").toList <+: definition.id.toList ∨
        kind = .describe ∧ (id ++ Discovery.descriptionMark).toList <+: definition.id.toList)
  | .dataSet => False

end Definition

/-- Definitions that come one after the other are all in their places. -/
def Settled : List Site → List Definition → Prop
  | _, [] => True
  | sites, definition :: rest =>
    definition.Settles (definition.around sites) ∧ Settled (definition.opens ++ definition.around sites) rest

variable {sites around : List Site} {rest : List Definition} {depth : Nat}

theorem dropWhile_shallower {low high : Nat} (lower : low ≤ high) (sites : List Site) :
    (sites.dropWhile (high ≤ ·.depth)).dropWhile (low ≤ ·.depth) = sites.dropWhile (low ≤ ·.depth) := by
  induction sites with
  | nil => rfl
  | cons site rest ih =>
    by_cases deep : high ≤ site.depth
    · rw [List.dropWhile_cons_of_pos (by simpa using deep), ih,
        List.dropWhile_cons_of_pos (by simpa using Nat.le_trans lower deep)]
    · rw [List.dropWhile_cons_of_neg (by simpa using deep)]

theorem dropWhile_eq_self {bound : Nat} (shallow : ∀ site ∈ sites, site.depth < bound) :
    sites.dropWhile (bound ≤ ·.depth) = sites := by
  cases sites with
  | nil => rfl
  | cons site rest =>
    have low := shallow site List.mem_cons_self
    exact List.dropWhile_cons_of_neg (by simpa using low)

/-! ## Groves -/

namespace Grove

/-- Tests and groups are in their places when what is around them has the id that theirs start with. What follows them
has to be in its place wherever they leave off. -/
theorem Members.settled {grove : Grove Definition} (members : grove.Members depth) {start : String} (under : grove.Under start)
    {kind : DefinitionKind} {id : String} (owner : ownerOf around = some (kind, id))
    (begins : kind = .classLike ∧ start = id ++ "::" ∨ kind = .describe ∧ start = id ++ Discovery.descriptionMark)
    (open_ : around.dropWhile (depth ≤ ·.depth) = around)
    (after : ∀ sites, sites.dropWhile (depth ≤ ·.depth) = around → Settled sites rest)
    (inside : sites.dropWhile (depth ≤ ·.depth) = around) : Settled sites (grove.labels ++ rest) := by
  induction grove generalizing depth start kind id around sites rest with
  | bare => exact after sites inside
  | tree definition below beside left right =>
    obtain ⟨deep, -, inner, besides⟩ := members
    obtain ⟨named, deeper, beyond⟩ := under
    have left_open : definition.around sites = around := by rw [Definition.around, deep, inside]
    have later : ∀ sites, sites.dropWhile (depth ≤ ·.depth) = around → Settled sites (beside.labels ++ rest) :=
      fun _ => right besides beyond owner begins open_ after
    have settles : definition.Settles around := by
      have prefix_ : kind = .classLike ∧ (id ++ "::").toList <+: definition.id.toList ∨
          kind = .describe ∧ (id ++ Discovery.descriptionMark).toList <+: definition.id.toList :=
        begins.imp (fun ⟨same, start⟩ => ⟨same, start ▸ named⟩) fun ⟨same, start⟩ => ⟨same, start ▸ named⟩
      unfold Definition.Settles
      rcases inner with ⟨group, -⟩ | ⟨test, -⟩
      · rw [group]
        exact ⟨kind, id, owner, prefix_⟩
      · rw [test]
        exact ⟨kind, id, owner, prefix_⟩
    have opens : definition.opens = [⟨some (definition.kind, definition.id), depth⟩] := by
      rcases inner with ⟨group, -⟩ | ⟨test, -⟩
      · simp [Definition.opens, group, deep]
      · simp [Definition.opens, test, deep]
    rw [labels, List.cons_append, List.append_assoc, Settled, left_open, opens, List.singleton_append]
    refine ⟨settles, ?_⟩
    have closes : (⟨some (definition.kind, definition.id), depth⟩ :: around : List Site).dropWhile (depth ≤ ·.depth) = around := by
      rw [List.dropWhile_cons_of_pos (by simp), open_]
    rcases inner with ⟨group, further⟩ | ⟨-, rfl⟩
    · refine left further deeper (by rw [group]; rfl) (.inr ⟨rfl, rfl⟩) (List.dropWhile_cons_of_neg (by simp)) ?_
        (List.dropWhile_cons_of_neg (by simp))
      intro sites same
      apply later
      rw [← dropWhile_shallower (Nat.le_succ depth), same, closes]
    · exact later _ closes

theorem Classes.settled {grove : Grove Definition} {space : Option String} (classes : grove.Classes space depth)
    (owned : grove.Owned) (placed : around ≠ []) (owner : ownerOf around = (spaceIds space).getLast?.map (.space, ·))
    (open_ : around.dropWhile (depth ≤ ·.depth) = around)
    (after : ∀ sites, sites.dropWhile (depth ≤ ·.depth) = around → Settled sites rest)
    (inside : sites.dropWhile (depth ≤ ·.depth) = around) : Settled sites (grove.labels ++ rest) := by
  induction grove generalizing sites rest with
  | bare => exact after sites inside
  | tree definition below beside _ right =>
    obtain ⟨deep, -, kind, named, members, besides⟩ := classes
    have later : ∀ sites, sites.dropWhile (depth ≤ ·.depth) = around → Settled sites (beside.labels ++ rest) :=
      fun _ => right besides owned.2 after
    have left_open : definition.around sites = around := by rw [Definition.around, deep, inside]
    have settles : definition.Settles around := by
      unfold Definition.Settles
      rw [kind, named]
      exact ⟨placed, owner⟩
    have opens : definition.opens = [⟨some (.classLike, definition.id), depth⟩] := by simp [Definition.opens, kind, deep]
    rw [labels, List.cons_append, List.append_assoc, Settled, left_open, opens, List.singleton_append]
    refine ⟨settles, ?_⟩
    refine members.settled owned.1 rfl (.inl ⟨rfl, rfl⟩) (List.dropWhile_cons_of_neg (by simp)) ?_
      (List.dropWhile_cons_of_neg (by simp))
    intro sites same
    apply later
    rw [← dropWhile_shallower (Nat.le_succ depth), same, List.dropWhile_cons_of_pos (by simp), open_]

end Grove

/-! ## Blocks -/

theorem SpaceBlock.Shaped.settled {block : SpaceBlock} (shaped : block.Shaped)
    (after : ∀ sites, sites.dropWhile (1 ≤ ·.depth) = [{}] → Settled sites rest)
    (inside : sites.dropWhile (1 ≤ ·.depth) = [{}]) : Settled sites (block.events ++ rest) := by
  have classes := shaped.classes
  rw [events]
  cases space : block.space with
  | none =>
    have top : block.depth = 1 := by simp [SpaceBlock.depth, space]
    rw [top, space] at classes
    exact classes.settled shaped.owned (List.cons_ne_nil _ _) rfl rfl after inside
  | some opener =>
    obtain ⟨isSpace, one⟩ := shaped.space opener space
    have two : block.depth = 2 := by simp [SpaceBlock.depth, space]
    rw [two, space] at classes
    have around : opener.around sites = [{}] := by rw [Definition.around, one, inside]
    have shallow : ∀ site ∈ opener.opens ++ [({} : Site)], site.depth < 2 := by
      simp only [Definition.opens, isSpace, if_true, one, List.mem_append, List.mem_reverse, List.mem_map,
        List.mem_singleton]
      rintro site (⟨id, -, rfl⟩ | rfl)
      · exact Nat.lt_succ_self 1
      · exact Nat.zero_lt_two
    rw [Option.toList_some, List.singleton_append, List.cons_append, Settled, around]
    refine ⟨by simp [Definition.Settles, isSpace], ?_⟩
    apply classes.settled shaped.owned (by simp) _ (dropWhile_eq_self shallow) _ (dropWhile_eq_self shallow)
    · simp only [ownerOf, Definition.opens, isSpace, if_true, List.head?_append, List.head?_reverse,
        List.getLast?_map, Option.map_some]
      generalize (spaceIds _).getLast? = last
      cases last <;> rfl
    · intro sites same
      apply after
      rw [← dropWhile_shallower (Nat.le_succ 1), same, ← around, Definition.around, one]
      have closed : ∀ site ∈ opener.opens, 1 ≤ site.depth := by
        simp only [Definition.opens, isSpace, if_true, one, List.mem_reverse, List.mem_map]
        rintro site ⟨id, -, rfl⟩
        exact Nat.le_refl 1
      rw [List.dropWhile_append_of_pos fun site member => by simpa using closed site member,
        dropWhile_shallower (Nat.le_refl 1)]

theorem settled_blocks {blocks : List SpaceBlock} (shaped : ∀ block ∈ blocks, block.Shaped)
    (inside : sites.dropWhile (1 ≤ ·.depth) = [{}]) : Settled sites (blocks.flatMap SpaceBlock.events) := by
  induction blocks generalizing sites with
  | nil => trivial
  | cons block rest ih =>
    exact (shaped block List.mem_cons_self).settled
      (fun _ => ih fun other member => shaped other (List.mem_cons_of_mem _ member)) inside

end TestScout.Test

namespace TestScout.Discovery
open Test

/-- Whatever a scout finds in a file, all of it is in its place. -/
theorem Scout.look_settled (scout : Scout) (source : String) (file : Path) (suite : Option String) :
    Settled [{}] (scout.look source file suite).2 := by
  obtain ⟨blocks, shaped, same⟩ := scout.look_blocks source file suite
  exact same ▸ settled_blocks shaped rfl

end TestScout.Discovery
