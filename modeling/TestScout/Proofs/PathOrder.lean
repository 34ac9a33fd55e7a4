import TestScout.Path.Basic

/-! Paths are ordered by their parts. The order tells apart exactly the paths that are not
the same, so an ordered list of paths holds each file once. -/

namespace TestScout.Path
open Std

theorem same_iff {first second : Path} : first.same second = true ↔ first.parts = second.parts :=
  beq_iff_eq

@[simp] theorem same_refl (path : Path) : path.same path = true := same_iff.mpr rfl

theorem same_symm {first second : Path} (same : first.same second = true) : second.same first = true :=
  same_iff.mpr (same_iff.mp same).symm

theorem same_comm (first second : Path) : first.same second = second.same first := by
  rw [Bool.eq_iff_iff, same_iff, same_iff, eq_comm]

theorem same_trans {first second third : Path} (left : first.same second = true) (right : second.same third = true) :
    first.same third = true :=
  same_iff.mpr ((same_iff.mp left).trans (same_iff.mp right))

/-- Whoever compares with one of two spellings of a path compares with the other. -/
theorem same_congr_left {first second : Path} (same : first.same second = true) (other : Path) :
    first.same other = second.same other := by
  rw [Bool.eq_iff_iff, same_iff, same_iff, same_iff.mp same]

theorem same_congr_right {first second : Path} (same : first.same second = true) (other : Path) :
    other.same first = other.same second := by
  rw [same_comm, same_congr_left same, same_comm]

theorem Part.compare_name (first second : String) :
    Part.compare (.name first) (.name second) = Ord.compare first second := rfl

instance : OrientedCmp Part.compare where
  eq_swap := by
    intro first second
    cases first <;> cases second
    case name.name first second =>
      rw [Part.compare_name, Part.compare_name, OrientedOrd.eq_swap]
    all_goals rfl

instance : LawfulEqCmp Part.compare where
  compare_self := by
    intro part
    cases part
    case name text => exact (ReflOrd.compare_self : Ord.compare text text = .eq)
    all_goals rfl
  eq_of_compare := by
    intro first second equal
    cases first <;> cases second
    case name.name first second =>
      rw [Part.compare_name] at equal
      rw [LawfulEqOrd.eq_of_compare equal]
    all_goals first | rfl | cases equal

instance : TransCmp Part.compare where
  isLE_trans := by
    intro first second third before after
    cases first <;> cases second <;> cases third
    case name.name.name first second third =>
      rw [Part.compare_name] at before after ⊢
      exact TransOrd.isLE_trans before after
    all_goals first | rfl | (cases before; done) | (cases after; done)

theorem compareParts_eq (first second : List Part) :
    compareParts first second = List.compareLex Part.compare first second := by
  induction first generalizing second with
  | nil => cases second <;> rfl
  | cons part parts ih =>
    cases second with
    | nil => rfl
    | cons other others =>
      simp only [compareParts, List.compareLex, ih]
      cases part.compare other <;> rfl

theorem compare_def (first second : Path) :
    first.compare second = List.compareLex Part.compare first.parts second.parts :=
  compareParts_eq _ _

theorem compare_eq_iff {first second : Path} : first.compare second = .eq ↔ first.same second = true := by
  rw [compare_def, same_iff, LawfulEqCmp.compare_eq_iff_eq]

instance : OrientedCmp Path.compare where
  eq_swap := by
    intro first second
    rw [compare_def, compare_def]
    exact OrientedCmp.eq_swap

instance : TransCmp Path.compare where
  isLE_trans := by
    intro first second third before after
    rw [compare_def] at before after ⊢
    exact TransCmp.isLE_trans before after

theorem not_same_of_lt {first second : Path} (before : first.compare second = .lt) : first.same second = false := by
  rw [Bool.eq_false_iff, Ne, ← compare_eq_iff, before]
  decide

/-! ## Ordered lists of paths -/

/-- A path is there, in one spelling or another, after it has been put in. -/
theorem exists_same_insertInto (path other : Path) (paths : List Path) :
    (∃ found ∈ path.insertInto paths, found.same other = true) ↔
      path.same other = true ∨ ∃ found ∈ paths, found.same other = true := by
  induction paths with
  | nil => simp [insertInto]
  | cons first rest ih =>
    unfold insertInto
    split
    next => simp
    next equal =>
      have same := compare_eq_iff.mp equal
      simp [same_congr_left same other]
    next =>
      simp only [List.mem_cons, exists_eq_or_imp, ih]
      exact or_left_comm

theorem mem_of_mem_insertInto {path other : Path} {paths : List Path} (member : other ∈ path.insertInto paths) :
    other = path ∨ other ∈ paths := by
  induction paths with
  | nil => simpa [insertInto] using member
  | cons first rest ih =>
    unfold insertInto at member
    split at member
    next => simpa using member
    next => exact .inr member
    next =>
      rcases List.mem_cons.mp member with rfl | later
      · exact .inr List.mem_cons_self
      · exact (ih later).imp_right (List.mem_cons_of_mem _)

theorem insertInto_ordered {path : Path} {paths : List Path} (ordered : paths.Pairwise (·.compare · = .lt)) :
    (path.insertInto paths).Pairwise (·.compare · = .lt) := by
  induction paths with
  | nil => exact List.pairwise_singleton _ _
  | cons first rest ih =>
    obtain ⟨first_lt, others⟩ := List.pairwise_cons.mp ordered
    unfold insertInto
    split
    next before =>
      refine List.pairwise_cons.mpr ⟨fun other member => ?_, ordered⟩
      rcases List.mem_cons.mp member with rfl | later
      · exact before
      · exact TransCmp.lt_trans before (first_lt other later)
    next => exact ordered
    next after =>
      refine List.pairwise_cons.mpr ⟨fun other member => ?_, ih others⟩
      rcases mem_of_mem_insertInto member with rfl | later
      · exact OrientedCmp.lt_of_gt after
      · exact first_lt other later

end TestScout.Path
