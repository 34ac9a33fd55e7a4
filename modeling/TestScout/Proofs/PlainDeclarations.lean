import TestScout.Proofs.PlainKeys
import TestScout.Proofs.ScopeLikeness

/-! Plain declarations are read alike, strictly or leniently: the docblocks above them say the
same, and the scopes of the source declare the same classes and traits. -/

namespace TestScout.Surface
open Code Source Test Discovery

variable {index : LineIndex}

/-! ## Docblocks -/

/-- What the first docblock says among comments that are given the last one first. -/
private def latest (comments : List Comment) : Annotations :=
  match comments.find? (·.kind == .doc) with
  | some comment => Annotations.ofDocblock comment.value
  | none => {}

private theorem latest_cons (comment : Comment) (earlier : List Comment) :
    latest (comment :: earlier) =
      if comment.kind == .doc then Annotations.ofDocblock comment.value else latest earlier := by
  rw [latest, List.find?_cons]
  cases comment.kind == .doc <;> rfl

private theorem latest_silent {remarks : List Remark} (silent : remarks.all Remark.isSilent = true) :
    latest (Lenient.Reading.comments index remarks) = {} := by
  induction remarks with
  | nil => rfl
  | cons remark earlier ih =>
    obtain ⟨said, below⟩ := Bool.and_eq_true_iff.mp silent
    rw [Lenient.Reading.comments, List.map_cons, latest_cons]
    split
    next docblock =>
      simp only [Remark.isSilent, Bool.or_eq_true, Bool.not_eq_true'] at said
      rcases said with plain | empty
      · exact absurd docblock (Bool.eq_false_iff.mp plain)
      · exact eq_of_beq empty
    next => exact ih below

private theorem extent_eq (span : Span) : Strict.Reading.extent index span = Lenient.Reading.extent index span := rfl

/-- The comments that stand close enough say what all of them say. -/
private theorem latest_adjacent {row : Nat} {remarks : List Remark} (close : reachesDocblock index row remarks = true) :
    latest (Strict.Reading.adjacent index row remarks) = latest (Lenient.Reading.comments index remarks) := by
  induction remarks generalizing row with
  | nil => rfl
  | cons remark earlier ih =>
    rw [reachesDocblock, extent_eq] at close
    rw [Strict.Reading.adjacent, extent_eq]
    split at close
    next gap =>
      -- The strict reading stops here, and the remarks that the lenient one goes on to say nothing.
      rw [if_pos gap, latest_silent close]
      rfl
    next near =>
      rw [if_neg near, Lenient.Reading.comments, List.map_cons, latest_cons, latest_cons]
      split
      next => rfl
      next other => exact ih ((Bool.or_eq_true_iff.mp close).resolve_left other)

/-- Plainly written comments document the same in both readings. -/
theorem documented_comments {start : Nat} {remarks : List Remark} (plain : documentsPlainly index start remarks = true) :
    Annotations.documented (Strict.Reading.comments index start remarks) =
      Annotations.documented (Lenient.Reading.comments index remarks) := by
  have same := latest_adjacent plain
  rw [Lenient.Reading.comments, List.map_reverse] at same
  rw [Annotations.documented, Strict.Reading.comments, List.reverse_reverse]
  exact same

/-! ## Members -/

theorem traitUse_eq {node : TraitUse} (plain : node.isPlain = true) :
    Strict.Reading.traitUse index node = Lenient.Reading.traitUse index node := by
  simp only [TraitUse.isPlain, Bool.and_eq_true, List.all_eq_true, beq_iff_eq] at plain
  obtain ⟨absolute, written⟩ := plain
  have traits : node.traits.filter (!Strict.Reading.isRelative ·) = node.traits := List.filter_eq_self.mpr absolute
  have adaptations : node.adaptations.filterMap (Adaptation.ofText? ·.text) = node.adaptations.map (·.reading) := by
    rw [← List.filterMap_eq_map]
    exact List.filterMap_congr fun clause member => written clause member
  simp only [Strict.Reading.traitUse, Lenient.Reading.traitUse, traits, adaptations]
  rfl

theorem members_alike {body : List Member} (plain : body.all (Member.isPlain index) = true) :
    AlikeBodies (Strict.Reading.members index body) (Lenient.Reading.members index body) := by
  induction body with
  | nil => exact ⟨.nil, rfl⟩
  | cons member rest ih =>
    obtain ⟨head, below⟩ := Bool.and_eq_true_iff.mp plain
    obtain ⟨methods, traitUses⟩ := ih below
    cases member with
    | other span => exact ⟨methods, traitUses⟩
    | traitUse node =>
      refine ⟨methods, ?_⟩
      rw [Strict.Reading.members, Lenient.Reading.members, traitUse_eq head]
      exact congrArg (_ :: ·) traitUses
    | method node =>
      obtain ⟨name, visibility, isAbstract, isStatic, body, remarks, groups, span⟩ := node
      obtain ⟨documented, keys⟩ := Bool.and_eq_true_iff.mp head
      refine ⟨.cons ⟨rfl, rfl, rfl, rfl, rfl, documented_comments documented, ?_⟩ methods, traitUses⟩
      cases body with
      | none => rfl
      | some body =>
        obtain ⟨items, span⟩ := body
        exact bodyKeys_statements (show items.all Stmt.givesPlainKeys = true from keys)

/-! ## Scopes -/

theorem addAll_append (scope : Scope) (first second : List Node) :
    scope.addAll (first ++ second) = (scope.addAll first).addAll second := by
  induction first generalizing scope with
  | nil => rfl
  | cons node rest ih => rw [List.cons_append, Scope.addAll, Scope.addAll, ih]

mutual

/-- Alike scopes stay alike when each takes in its reading of a plain declaration. -/
theorem statement_alike : (item : Stmt) → item.declaresPlainly index = true → ∀ {scope other : Scope}, scope.Alike other →
    Scope.Alike (scope.addAll (Strict.Reading.statement index item).toList)
      (other.addAll (Lenient.Reading.statement index item).toList)
  | .space ⟨_, _, _, _⟩, _, _, _, alike => alike
  | .classDecl ⟨name, isAbstract, parents, body, remarks, groups, span⟩, plain, scope, other, alike => by
    simp only [Stmt.declaresPlainly, Bool.and_eq_true] at plain
    obtain ⟨⟨absolute, documented⟩, members⟩ := plain
    have parent : parents.find? (!Strict.Reading.isRelative ·) = parents.head? := by
      cases parents with
      | nil => rfl
      | cons first rest => exact List.find?_cons_of_pos absolute
    exact { alike with
      classes := List.rel_append alike.classes
        (.cons ⟨rfl, rfl, parent, members_alike members, documented_comments documented, rfl, rfl⟩ .nil) }
  | .traitDecl ⟨name, body, remarks, groups, span⟩, plain, scope, other, alike =>
    { alike with traits := List.rel_append alike.traits (.cons ⟨rfl, members_alike plain⟩ .nil) }
  | .imports group bounds, _, scope, other, alike =>
    { alike with imports := congrArg (group.items.foldl (Scope.addImport group)) alike.imports }
  | .expression _ _ _, _, _, _, alike => alike
  | .shown _ _ _, _, _, _, alike => alike
  | .returned _ _, _, _, _, alike => alike
  | .block ⟨items, _⟩, plain, scope, other, alike => statements_alike items plain alike
  | .other _, _, _, _, alike => alike

theorem statements_alike : (items : List Stmt) → allDeclarePlainly index items = true → ∀ {scope other : Scope},
    scope.Alike other → Scope.Alike (scope.addAll (Strict.Reading.statements index items))
      (other.addAll (Lenient.Reading.statements index items))
  | [], _, _, _, alike => alike
  | item :: rest, plain, scope, other, alike => by
    obtain ⟨head, below⟩ := Bool.and_eq_true_iff.mp plain
    rw [Strict.Reading.statements_cons, Lenient.Reading.statements_cons, addAll_append, addAll_append]
    exact statements_alike rest below (statement_alike item head alike)

end

end TestScout.Surface
