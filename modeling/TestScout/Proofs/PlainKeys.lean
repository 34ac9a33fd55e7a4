import TestScout.Proofs.MethodLikeness
import TestScout.Proofs.PlainSource

/-! Plain keys of data sets are read alike, strictly or leniently. -/

namespace TestScout.Surface
open Code Source Test

variable {index : LineIndex}

/-! ## Literals -/

/-- A plain expression is the same text in both readings, if it is one. -/
theorem text?_expr : (value : Expr) → value.isPlainText = true →
    (Strict.Reading.expr index value).text? = (Lenient.Reading.expr index value).text?
  | .parenthesized inner _, plain => text?_expr inner plain
  | .quoted raw interpolates _, plain => by
    simp only [Expr.isPlainText, Expr.bare, Bool.and_eq_true, Bool.not_eq_true'] at plain
    simp only [Strict.Reading.expr_quoted, Lenient.Reading.expr_quoted, plain.1, Bool.false_eq_true, ite_false, Node.text?,
      unquote_eq_literalText plain.2]
  | .call node, _ => by
    rw [Lenient.Reading.expr_call]
    split <;> rfl
  | .name _ _, _ | .number _ _, _ | .reference _ _, _ | .array _ _, _ | .closure _ _, _ | .arrow _ _, _
  | .yielded _ _ _, _ | .delegated _ _, _ | .included _ _ _, _ | .other _, _ => rfl

theorem keyText?_expr : (value : Expr) → value.isPlainText = true → (position : Nat) →
    keyText? (some (Strict.Reading.expr index value)) position = keyText? (some (Lenient.Reading.expr index value)) position
  | .parenthesized inner _, plain, position => keyText?_expr inner plain position
  | .quoted raw interpolates _, plain, _ => by
    simp only [Expr.isPlainText, Expr.bare, Bool.and_eq_true, Bool.not_eq_true'] at plain
    simp only [Strict.Reading.expr_quoted, Lenient.Reading.expr_quoted, plain.1, Bool.false_eq_true, ite_false, keyText?,
      unquote_eq_literalText plain.2]
  | .call node, _, _ => by
    rw [Lenient.Reading.expr_call]
    split <;> rfl
  | .name _ _, _, _ | .number _ _, _, _ | .reference _ _, _, _ | .array _ _, _, _ | .closure _ _, _, _ | .arrow _ _, _, _
  | .yielded _ _ _, _, _ | .delegated _ _, _, _ | .included _ _ _, _, _ | .other _, _, _ => rfl

theorem keyText?_expr? {key : Option Expr} (plain : key.all Expr.isPlainText = true) (position : Nat) :
    keyText? (Strict.Reading.expr? index key) position = keyText? (Lenient.Reading.expr? index key) position := by
  cases key with
  | none => rfl
  | some value => exact keyText?_expr value plain position

theorem arrayKeys_entries {items : List Element} (plain : items.all Element.hasPlainKey = true) (extent : Option Extent) :
    arrayKeys ⟨Strict.Reading.entries index items, extent⟩ = arrayKeys ⟨Lenient.Reading.entries index items, extent⟩ := by
  simp only [arrayKeys]
  generalize 0 = start
  induction items generalizing start with
  | nil => rfl
  | cons item rest ih =>
    obtain ⟨key, value, isSpread, span⟩ := item
    simp only [List.all_cons, Bool.and_eq_true, Element.hasPlainKey, Bool.or_eq_true] at plain
    simp only [Strict.Reading.entries, Lenient.Reading.entries, List.zipIdx_cons, List.filterMap_cons,
      ih plain.2 (start + 1)]
    rcases plain.1 with spread | plain
    · simp only [spread, ite_true]
    · rw [keyText?_expr? plain]

/-! ## Bodies -/

/-- The keys of a value that is returned. -/
def returnedKeys (value : Option Node) : List String :=
  match value with
  | some (.array array) => arrayKeys array
  | _ => []

theorem returnedKeys_expr : (value : Expr) → value.hasPlainKeys = true →
    returnedKeys (some (Strict.Reading.expr index value)) = returnedKeys (some (Lenient.Reading.expr index value))
  | .parenthesized inner _, plain => returnedKeys_expr inner plain
  | .array _ _, plain => arrayKeys_entries plain _
  | .quoted _ _ _, _ | .call _, _ => by
    simp only [Lenient.Reading.expr_quoted, Lenient.Reading.expr_call]
    split <;> rfl
  | .name _ _, _ | .number _ _, _ | .reference _ _, _ | .closure _ _, _ | .arrow _ _, _ | .yielded _ _ _, _
  | .delegated _ _, _ | .included _ _ _, _ | .other _, _ => rfl

/-- The yield that an expression is. -/
def site? : Node → Option Yield
  | .yielded site => some site
  | _ => none

/-- Sites that yield under the same keys wherever they stand among others. -/
def AlikeSites (first second : Yield) : Prop := ∀ position, yieldKeys first position = yieldKeys second position

theorem site?_expr : (value : Expr) → value.yieldsPlainly = true →
    Option.Rel AlikeSites (site? (Strict.Reading.expr index value)) (site? (Lenient.Reading.expr index value))
  | .parenthesized inner _, plain => site?_expr inner plain
  | .yielded _ _ _, plain => .some fun position => congrArg Option.toList (keyText?_expr? plain position)
  | .quoted _ _ _, _ | .call _, _ => by
    simp only [Lenient.Reading.expr_quoted, Lenient.Reading.expr_call]
    split <;> exact .none
  | .name _ _, _ | .number _ _, _ | .reference _ _, _ | .array _ _, _ | .closure _ _, _ | .arrow _ _, _
  | .included _ _ _, _ | .other _, _ => .none

theorem site?_eq_none : (value : Expr) → value.yields = false → site? (Strict.Reading.expr index value) = none
  | .parenthesized inner _, silent => site?_eq_none inner silent
  | .name _ _, _ | .quoted _ _ _, _ | .number _ _, _ | .reference _ _, _ | .call _, _ | .array _ _, _ | .closure _ _, _
  | .arrow _ _, _ | .included _ _ _, _ | .other _, _ => rfl

theorem yield?_statement (node : ExpressionStatement) : yield? (.statement node) = site? node.expression := by
  rw [yield?]
  split <;> simp_all [site?]

theorem filterMap_toList {α β : Type} (found : Option α) (find : α → Option β) :
    found.toList.filterMap find = (found.bind find).toList := by
  cases found with
  | none => rfl
  | some value =>
    rw [Option.toList_some, List.filterMap_cons, Option.bind_some]
    cases find value <;> rfl

/-- What a condition on every statement tells about what is found in both readings. -/
theorem rel_readings {α : Type} {R : α → α → Prop} {find : Node → Option α} {items : List Stmt}
    (alike : ∀ item ∈ items, Option.Rel R ((Strict.Reading.statement index item).bind find)
      ((Lenient.Reading.statement index item).bind find)) :
    List.Forall₂ R ((Strict.Reading.statements index items).filterMap find)
      ((Lenient.Reading.statements index items).filterMap find) := by
  induction items with
  | nil => exact .nil
  | cons item rest ih =>
    have below := ih fun other member => alike other (List.mem_cons_of_mem _ member)
    have head := alike item List.mem_cons_self
    rw [Strict.Reading.statements_cons, Lenient.Reading.statements_cons, List.filterMap_append, List.filterMap_append,
      filterMap_toList, filterMap_toList]
    refine List.rel_append ?_ below
    generalize (Strict.Reading.statement index item).bind find = found,
      (Lenient.Reading.statement index item).bind find = also at head ⊢
    cases head with
    | none => exact .nil
    | some same => exact .cons same .nil

theorem yields_statement (index : LineIndex) {item : Stmt} (plain : item.givesPlainKeys = true) :
    Option.Rel AlikeSites ((Strict.Reading.statement index item).bind yield?)
      ((Lenient.Reading.statement index item).bind yield?) := by
  cases item with
  | expression value remarks bounds =>
    rw [Strict.Reading.statement, Lenient.Reading.statement, Option.bind_some, Option.bind_some, yield?_statement,
      yield?_statement]
    exact site?_expr value plain
  | shown value remarks bounds =>
    rw [Strict.Reading.statement, Lenient.Reading.statement, Option.bind_some, yield?_statement,
      site?_eq_none value (by simpa [Stmt.givesPlainKeys] using plain)]
    exact .none
  | space node | classDecl node | traitDecl node =>
    cases node
    exact .none
  | imports _ _ | returned _ _ | block _ | other _ => exact .none

theorem returns_statement (index : LineIndex) {item : Stmt} (plain : item.givesPlainKeys = true) :
    Option.Rel (fun first second => returnedKeys first.value = returnedKeys second.value)
      ((Strict.Reading.statement index item).bind return?) ((Lenient.Reading.statement index item).bind return?) := by
  cases item with
  | returned value bounds =>
    refine .some ?_
    cases value with
    | none => rfl
    | some value => exact returnedKeys_expr value plain
  | space node | classDecl node | traitDecl node =>
    cases node
    exact .none
  | imports _ _ | expression _ _ _ | shown _ _ _ | block _ | other _ => exact .none

def sitesKeys (sites : List Yield) : List String :=
  sites.zipIdx.flatMap fun (site, position) => yieldKeys site position

theorem sitesKeys_congr {sites others : List Yield} (alike : List.Forall₂ AlikeSites sites others) :
    sitesKeys sites = sitesKeys others := by
  refine flatMap_eq_of_rel (rel_zipIdx alike 0) ?_
  rintro ⟨site, position⟩ ⟨other, _⟩ ⟨same, rfl⟩
  exact same position

theorem bodyKeys_eq (statements : List Node) :
    bodyKeys statements =
      match statements.filterMap yield? with
      | [] => returnedKeys ((statements.filterMap return?).head?.bind (·.value))
      | sites => sitesKeys sites := by
  rw [List.head?_filterMap]
  rfl

/-- A body that gives plain keys gives the same ones in both readings. -/
theorem bodyKeys_statements {items : List Stmt} (plain : items.all Stmt.givesPlainKeys = true) :
    bodyKeys (Strict.Reading.statements index items) = bodyKeys (Lenient.Reading.statements index items) := by
  rw [List.all_eq_true] at plain
  have yields := rel_readings fun item member => yields_statement index (plain item member)
  have returns := rel_readings fun item member => returns_statement index (plain item member)
  rw [bodyKeys_eq, bodyKeys_eq]
  generalize (Strict.Reading.statements index items).filterMap yield? = sites,
    (Lenient.Reading.statements index items).filterMap yield? = others at yields ⊢
  cases yields with
  | nil =>
    generalize (Strict.Reading.statements index items).filterMap return? = first,
      (Lenient.Reading.statements index items).filterMap return? = second at returns ⊢
    cases returns with
    | nil => rfl
    | cons same _ => exact same
  | cons same further => exact sitesKeys_congr (.cons same further)

theorem providerKeys_expr : (value : Expr) → value.providesPlainKeys = true →
    providerKeys (Strict.Reading.expr index value) = providerKeys (Lenient.Reading.expr index value)
  | .parenthesized inner _, plain => providerKeys_expr inner plain
  | .closure ⟨items, _⟩ _, plain => bodyKeys_statements (show items.all Stmt.givesPlainKeys = true from plain)
  | .arrow value _, plain => returnedKeys_expr value plain
  | .array _ _, plain => arrayKeys_entries plain _
  | .quoted _ _ _, _ | .call _, _ => by
    simp only [Lenient.Reading.expr_quoted, Lenient.Reading.expr_call]
    split <;> rfl
  | .name _ _, _ | .number _ _, _ | .reference _ _, _ | .yielded _ _ _, _ | .delegated _ _, _ | .included _ _ _, _
  | .other _, _ => rfl

end TestScout.Surface
