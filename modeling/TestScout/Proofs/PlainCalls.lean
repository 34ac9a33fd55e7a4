import TestScout.Proofs.DescribedTests
import TestScout.Proofs.PlainKeys

/-! Plain calls are read alike, strictly or leniently: they describe the same tests. -/

namespace TestScout.Surface
open Code Source Test Discovery

variable {index : LineIndex}

/-! ## Calls that describe nothing -/

mutual

theorem role_called_strict : (value : Expr) → value.describes = false →
    ∀ call, Strict.Reading.called index value = some call → CallRole.ofCall? call.root = none
  | .call node, silent, _, rfl => role_call_strict node silent
  | .parenthesized _ _, _, _, found | .name _ _, _, _, found | .quoted _ _ _, _, _, found | .number _ _, _, _, found
  | .reference _ _, _, _, found | .array _ _, _, _, found | .closure _ _, _, _, found | .arrow _ _, _, _, found
  | .yielded _ _ _, _, _, found | .delegated _ _, _, _, found | .included _ _ _, _, _, found | .other _, _, _, found =>
    nomatch found

theorem role_call_strict : (node : Call) → node.describes = false →
    CallRole.ofCall? (Strict.Reading.call index node).root = none
  | ⟨.function callee, arguments, isPartial, span⟩, silent => Option.not_isSome_iff_eq_none.mp (Bool.eq_false_iff.mp silent)
  | ⟨.method object selector, arguments, isPartial, span⟩, silent => by
    cases chain : Strict.Reading.called index object with
    | none =>
      rw [Strict.Reading.call, chain, root_of_root rfl]
      rfl
    | some inner =>
      rw [Strict.Reading.call, chain, root_of_chain rfl]
      exact role_called_strict object silent inner chain
  | ⟨.static scope selector, arguments, isPartial, span⟩, _ => rfl

end

mutual

theorem role_called_lenient : (value : Expr) → value.describes = false →
    ∀ call, Lenient.Reading.called index value = some call → CallRole.ofCall? call.root = none
  | .call node, silent, call, found => role_call_lenient node silent call found
  | .parenthesized inner _, silent, call, found => role_called_lenient inner silent call found
  | .name _ _, _, _, found | .quoted _ _ _, _, _, found | .number _ _, _, _, found
  | .reference _ _, _, _, found | .array _ _, _, _, found | .closure _ _, _, _, found | .arrow _ _, _, _, found
  | .yielded _ _ _, _, _, found | .delegated _ _, _, _, found | .included _ _ _, _, _, found | .other _, _, _, found =>
    nomatch found

theorem role_call_lenient : (node : Call) → node.describes = false →
    ∀ call, Lenient.Reading.call? index node = some call → CallRole.ofCall? call.root = none
  | ⟨.function callee, arguments, false, span⟩, silent, _, rfl =>
    Option.not_isSome_iff_eq_none.mp (Bool.eq_false_iff.mp silent)
  | ⟨.method object (.plain name), arguments, false, span⟩, silent, _, rfl => by
    cases chain : Lenient.Reading.called index object with
    | none =>
      rw [root_of_root rfl]
      rfl
    | some inner =>
      rw [root_of_chain rfl]
      exact role_called_lenient object silent inner chain
  | ⟨.static scope (.plain name), arguments, false, span⟩, _, _, rfl => rfl
  | ⟨.function _, _, true, _⟩, _, _, found | ⟨.method _ _, _, true, _⟩, _, _, found | ⟨.static _ _, _, true, _⟩, _, _, found
  | ⟨.method _ (.computed _), _, false, _⟩, _, _, found | ⟨.static _ (.computed _), _, false, _⟩, _, _, found =>
    nomatch found

end

/-- A statement whose expression describes nothing describes nothing in either reading. -/
theorem describing?_strict : (value : Expr) → value.describes = false → (comments : List Comment) → (extent : Extent) →
    describing? (.statement ⟨Strict.Reading.expr index value, comments, extent⟩) = none
  | .parenthesized inner _, silent, comments, extent => describing?_strict inner silent comments extent
  | .call node, silent, _, _ => Option.map_eq_none_iff.mpr (role_call_strict node silent)
  | .name _ _, _, _, _ | .quoted _ _ _, _, _, _ | .number _ _, _, _, _ | .reference _ _, _, _, _ | .array _ _, _, _, _
  | .closure _ _, _, _, _ | .arrow _ _, _, _, _ | .yielded _ _ _, _, _, _ | .delegated _ _, _, _, _
  | .included _ _ _, _, _, _ | .other _, _, _, _ => rfl

theorem describing?_lenient : (value : Expr) → value.describes = false → (comments : List Comment) → (extent : Extent) →
    describing? (.statement ⟨Lenient.Reading.expr index value, comments, extent⟩) = none
  | .parenthesized inner _, silent, comments, extent => describing?_lenient inner silent comments extent
  | .call node, silent, _, _ => by
    rw [Lenient.Reading.expr_call]
    split
    next read found => exact Option.map_eq_none_iff.mpr (role_call_lenient node silent read found)
    next => rfl
  | .quoted _ _ _, _, _, _ => by
    rw [Lenient.Reading.expr_quoted]
    split <;> rfl
  | .name _ _, _, _, _ | .number _ _, _, _, _ | .reference _ _, _, _, _ | .array _ _, _, _, _
  | .closure _ _, _, _, _ | .arrow _ _, _, _, _ | .yielded _ _ _, _, _, _ | .delegated _ _, _, _, _
  | .included _ _ _, _, _, _ | .other _, _, _, _ => rfl

/-! ## Arguments -/

theorem argument_strict : (value : Expr) → (Strict.Reading.expr index value).argument = Strict.Reading.expr index value
  | .parenthesized inner _ => argument_strict inner
  | .name _ _ | .quoted _ _ _ | .number _ _ | .reference _ _ | .call _ | .array _ _ | .closure _ _ | .arrow _ _
  | .yielded _ _ _ | .delegated _ _ | .included _ _ _ | .other _ => rfl

theorem argument_lenient : (value : Expr) → (Lenient.Reading.expr index value).argument = Lenient.Reading.expr index value
  | .parenthesized inner _ => argument_lenient inner
  | .quoted _ _ _ | .call _ => by
    simp only [Lenient.Reading.expr_quoted, Lenient.Reading.expr_call]
    split <;> rfl
  | .name _ _ | .number _ _ | .reference _ _ | .array _ _ | .closure _ _ | .arrow _ _
  | .yielded _ _ _ | .delegated _ _ | .included _ _ _ | .other _ => rfl

theorem arguments_strict (index : LineIndex) {argument : Argument} (direct : argument.isDirect = true) (rest : List Argument) :
    ∃ node, Strict.Reading.arguments index (argument :: rest) = node :: Strict.Reading.arguments index rest ∧
      node.argument = Strict.Reading.expr index argument.value := by
  obtain ⟨label, isSpread, value, span⟩ := argument
  simp only [Argument.isDirect, Bool.and_eq_true, Bool.not_eq_true'] at direct
  obtain ⟨rfl, direct⟩ := direct
  cases label with
  | some label =>
    cases value with
    | reference inner span => cases direct
    | _ => exact ⟨_, rfl, rfl⟩
  | none =>
    cases value with
    | reference inner span => cases direct
    | _ => exact ⟨_, rfl, argument_strict _⟩

theorem arguments_lenient (index : LineIndex) (argument : Argument) (rest : List Argument) :
    ∃ node, Lenient.Reading.arguments index (argument :: rest) = node :: Lenient.Reading.arguments index rest ∧
      node.argument = Lenient.Reading.expr index argument.value := by
  obtain ⟨label, isSpread, value, span⟩ := argument
  cases label with
  | some label => exact ⟨_, rfl, rfl⟩
  | none => exact ⟨_, rfl, argument_lenient value⟩

/-- What holds of every argument in both readings holds of the readings of all of them. -/
theorem rel_arguments (R : Node → Node → Prop) {arguments : List Argument}
    (alike : ∀ argument ∈ arguments, argument.isDirect = true ∧
      R (Strict.Reading.expr index argument.value) (Lenient.Reading.expr index argument.value)) :
    List.Forall₂ (fun first second => R first.argument second.argument) (Strict.Reading.arguments index arguments)
      (Lenient.Reading.arguments index arguments) := by
  induction arguments with
  | nil => exact .nil
  | cons argument rest ih =>
    obtain ⟨direct, same⟩ := alike argument List.mem_cons_self
    obtain ⟨node, strict, written⟩ := arguments_strict index direct rest
    obtain ⟨other, lenient, read⟩ := arguments_lenient index argument rest
    rw [strict, lenient]
    exact .cons (by rwa [written, read]) (ih fun other member => alike other (List.mem_cons_of_mem _ member))

theorem texts_arguments {arguments : List Argument} (plain : arguments.all Argument.isPlainText = true) :
    (Strict.Reading.arguments index arguments).filterMap (·.argument.text?) =
      (Lenient.Reading.arguments index arguments).filterMap (·.argument.text?) := by
  rw [List.filterMap_eq_flatMap_toList, List.filterMap_eq_flatMap_toList]
  refine flatMap_eq_of_rel (rel_arguments (fun first second => first.text? = second.text?) fun argument member => ?_)
    fun _ _ same => congrArg Option.toList same
  obtain ⟨direct, plain⟩ := Bool.and_eq_true_iff.mp (List.all_eq_true.mp plain argument member)
  exact ⟨direct, text?_expr argument.value plain⟩

theorem providerKeys_congr {node value : Node} (same : node.argument = value.argument) :
    providerKeys node = providerKeys value := by
  rw [providerKeys, providerKeys, same]

theorem keys_arguments {arguments : List Argument} (plain : arguments.all Argument.providesPlainKeys = true) :
    (Strict.Reading.arguments index arguments).flatMap providerKeys =
      (Lenient.Reading.arguments index arguments).flatMap providerKeys := by
  let alike (first second : Node) : Prop :=
    providerKeys first = providerKeys second ∧ first.argument = first ∧ second.argument = second
  refine flatMap_eq_of_rel (rel_arguments alike fun argument member => ?_) fun first second ⟨same, written, read⟩ => ?_
  · obtain ⟨direct, plain⟩ := Bool.and_eq_true_iff.mp (List.all_eq_true.mp plain argument member)
    exact ⟨direct, providerKeys_expr argument.value plain, argument_strict _, argument_lenient _⟩
  · rw [← providerKeys_congr written, same, providerKeys_congr read]

/-! ## Chains -/

/-- Calls of one name behind others say the same if their arguments are plain. -/
theorem annotate_alike {name : String} {arguments : List Argument} (plain : addsPlainly name arguments = true)
    (annotations : Annotations) {first second : Code.Call} (called : first.name = name) (alsoCalled : second.name = name)
    (strict : first.arguments = Strict.Reading.arguments index arguments)
    (lenient : second.arguments = Lenient.Reading.arguments index arguments) :
    annotate annotations first = annotate annotations second := by
  have texts : arguments.all Argument.isPlainText = true → strings first = strings second := by
    intro plain
    rw [strings, strings, strict, lenient]
    exact texts_arguments plain
  rw [annotate, annotate, called, alsoCalled]
  split
  next => rw [texts plain]
  next => rw [texts plain]
  next => rfl

theorem modifierKeys_alike {name : String} {arguments : List Argument} (plain : addsPlainly name arguments = true)
    {first second : Code.Call} (called : first.name = name) (alsoCalled : second.name = name)
    (strict : first.arguments = Strict.Reading.arguments index arguments)
    (lenient : second.arguments = Lenient.Reading.arguments index arguments) : modifierKeys first = modifierKeys second := by
  rw [modifierKeys, modifierKeys, called, alsoCalled]
  split
  next isWith =>
    obtain rfl := eq_of_beq isWith
    rw [strict, lenient]
    exact keys_arguments plain
  next => rfl

/-- The statements of a closure. -/
def closureBody : Node → List Node
  | .closure node => node.body.children
  | _ => []

/-- The statements of the closure that is the first of some arguments. -/
def firstBody : List Node → List Node
  | [] => []
  | argument :: _ => closureBody argument.argument

theorem bodyOf_eq {call : Code.Call} {label : Node} {rest : List Node} (arguments : call.arguments = label :: rest) :
    bodyOf call = firstBody rest := by
  rw [bodyOf, arguments, List.getElem?_cons_succ]
  cases rest with
  | nil => rfl
  | cons argument rest =>
    rw [List.getElem?_cons_zero, Option.map_some, firstBody]
    cases argument.argument <;> rfl

/-- The description that a plain call starts with is the same in both readings. -/
theorem label_arguments {isGroup : Bool} {arguments : List Argument} (plain : startsPlainly isGroup arguments = true) :
    (Strict.Reading.arguments index arguments).head?.bind (·.argument.text?) =
      (Lenient.Reading.arguments index arguments).head?.bind (·.argument.text?) := by
  cases arguments with
  | nil => rfl
  | cons argument rest =>
    obtain ⟨label, isSpread, value, span⟩ := argument
    obtain ⟨isText, -⟩ := Bool.and_eq_true_iff.mp plain
    obtain ⟨direct, isText⟩ := Bool.and_eq_true_iff.mp isText
    obtain ⟨node, strict, written⟩ := arguments_strict index direct rest
    obtain ⟨other, lenient, read⟩ := arguments_lenient index ⟨label, isSpread, value, span⟩ rest
    rw [strict, lenient, List.head?_cons, List.head?_cons, Option.bind_some, Option.bind_some, written, read]
    exact text?_expr value isText

theorem isDirect_of_isPlainBody {argument : Argument} (kept : (!argument.isSpread) = true)
    (body : argument.value.isPlainBody = true) : argument.isDirect = true := by
  rw [Argument.isDirect, kept, Bool.true_and]
  split
  next referenced => rw [referenced] at body; cases body
  next => rfl

theorem extentOf_start {bounds : Bounds} (starts : bounds.written.start = bounds.span.start) :
    (Strict.Reading.extentOf index bounds).start = (Lenient.Reading.extent index bounds.span).start := by
  rw [Strict.Reading.extentOf]
  split
  · exact congrArg index.point starts
  · rfl

/-- A method called on a chain adds to what the chain says. -/
theorem says_method {name : String} {arguments : List Argument} {first second inner other : Code.Call}
    (plain : addsPlainly name arguments = true) (alike : SaysAlike inner other) (called : first.name = name)
    (alsoCalled : second.name = name) (strict : first.arguments = Strict.Reading.arguments index arguments)
    (lenient : second.arguments = Lenient.Reading.arguments index arguments) (chain : first.chain = some inner)
    (alsoChain : second.chain = some other) : SaysAlike first second where
  role := by rw [root_of_chain chain, root_of_chain alsoChain, alike.role]
  text := by rw [root_of_chain chain, root_of_chain alsoChain, alike.text]
  annotations := by
    rw [callAnnotations_chain chain, callAnnotations_chain alsoChain, alike.annotations]
    exact annotate_alike plain _ called alsoCalled strict lenient
  keys := by
    rw [callKeys_chain chain, callKeys_chain alsoChain, alike.keys]
    exact congrArg _ (modifierKeys_alike plain called alsoCalled strict lenient)
  body := by
    rw [root_of_chain chain, root_of_chain alsoChain]
    exact alike.body

-- The recursion follows the written form: from a statement to the chain of calls in it, down to
-- the first call, and from there through the closure among its arguments to further statements.
mutual

/-- A plain statement describes the same in both readings. -/
theorem tells_statement : (item : Stmt) → item.describesPlainly = true →
    TellsAlike (Strict.Reading.statement index item).toList (Lenient.Reading.statement index item).toList
  | .expression value remarks bounds, plain => by
    rw [Strict.Reading.statement, Lenient.Reading.statement, Option.toList_some, Option.toList_some]
    cases describes : value.describes with
    | false =>
      exact tellsAlike_of_silent (List.forall_mem_singleton.mpr (describing?_strict value describes _ _))
        (List.forall_mem_singleton.mpr (describing?_lenient value describes _ _))
    | true =>
      simp only [Stmt.describesPlainly, describes, Bool.not_true, Bool.false_or, Bool.and_eq_true, beq_iff_eq] at plain
      obtain ⟨starts, chained⟩ := plain
      obtain ⟨first, second, strict, lenient, alike⟩ := says_expr value chained
      rw [strict, lenient]
      exact tellsAlike_of_saysAlike alike (extentOf_start starts)
  | .shown value remarks bounds, plain => by
    rw [Strict.Reading.statement, Lenient.Reading.statement, Option.toList_some, Option.toList_none]
    have silent : value.describes = false := by simpa [Stmt.describesPlainly] using plain
    exact tellsAlike_of_silent (List.forall_mem_singleton.mpr (describing?_strict value silent _ _)) fun _ none => nomatch none
  | .space ⟨_, _, _, _⟩, _ | .classDecl ⟨_, _, _, _, _, _, _⟩, _ | .traitDecl ⟨_, _, _, _, _⟩, _ | .imports _ _, _
  | .returned _ _, _ | .block _, _ =>
    tellsAlike_of_silent (List.forall_mem_singleton.mpr rfl) (List.forall_mem_singleton.mpr rfl)
  | .other _, _ => .nothing

theorem says_expr : (value : Expr) → value.isPlainChain = true →
    ∃ first second, Strict.Reading.expr index value = .call first ∧ Lenient.Reading.expr index value = .call second ∧
      SaysAlike first second
  | .parenthesized inner _, plain => says_expr inner plain
  | .call node, plain => by
    obtain ⟨second, read, alike⟩ := says_call node plain
    exact ⟨_, second, rfl, by rw [Lenient.Reading.expr_call, read], alike⟩
  | .name _ _, plain | .quoted _ _ _, plain | .number _ _, plain | .reference _ _, plain | .array _ _, plain
  | .closure _ _, plain | .arrow _ _, plain | .yielded _ _ _, plain | .delegated _ _, plain | .included _ _ _, plain
  | .other _, plain => nomatch plain

theorem says_call : (node : Call) → node.isPlainChain = true →
    ∃ second, Lenient.Reading.call? index node = some second ∧ SaysAlike (Strict.Reading.call index node) second
  | ⟨.function callee, arguments, false, span⟩, plain => by
    refine ⟨_, rfl, rfl, ?text, ?annotations, ?keys, ?body⟩
    case text => exact label_arguments plain
    case annotations => rw [callAnnotations_root rfl, callAnnotations_root rfl]
    case keys => rw [callKeys_root rfl, callKeys_root rfl]
    case body =>
      intro role
      have isGroup : (roleOf? callee == some .describe) = true := beq_iff_eq.mpr role
      rw [Call.isPlainChain, isGroup] at plain
      exact tells_arguments arguments (Bool.and_eq_true_iff.mp plain).2 rfl rfl
  | ⟨.method (.call inner) (.plain name), arguments, false, span⟩, plain => by
    obtain ⟨adds, chained⟩ := Bool.and_eq_true_iff.mp plain
    obtain ⟨second, read, alike⟩ := says_call inner chained
    exact ⟨_, rfl, says_method adds alike rfl rfl rfl rfl rfl read⟩
  | ⟨.function _, _, true, _⟩, plain | ⟨.method (.call _) (.plain _), _, true, _⟩, plain
  | ⟨.method _ (.computed _), _, _, _⟩, plain | ⟨.static _ _, _, _, _⟩, plain => by
    simp [Call.isPlainChain] at plain

/-- The body of a plain group describes the same in both readings. -/
theorem tells_arguments : (arguments : List Argument) → startsPlainly true arguments = true →
    {first second : Code.Call} → first.arguments = Strict.Reading.arguments index arguments →
    second.arguments = Lenient.Reading.arguments index arguments → TellsAlike (bodyOf first) (bodyOf second)
  | [], _, first, second, strict, lenient => by
    rw [bodyOf, bodyOf, strict, lenient]
    exact .nothing
  | ⟨label, isSpread, value, span⟩ :: rest, plain, first, second, strict, lenient => by
    obtain ⟨isText, grouped⟩ := Bool.and_eq_true_iff.mp plain
    obtain ⟨node, written, -⟩ := arguments_strict index (Bool.and_eq_true_iff.mp isText).1 rest
    obtain ⟨other, read, -⟩ := arguments_lenient index ⟨label, isSpread, value, span⟩ rest
    rw [bodyOf_eq (strict.trans written), bodyOf_eq (lenient.trans read)]
    exact tells_group rest grouped

theorem tells_group : (arguments : List Argument) → groupsPlainly arguments = true →
    TellsAlike (firstBody (Strict.Reading.arguments index arguments)) (firstBody (Lenient.Reading.arguments index arguments))
  | [], _ => .nothing
  | ⟨label, isSpread, value, span⟩ :: rest, plain => by
    obtain ⟨kept, body⟩ := Bool.and_eq_true_iff.mp plain
    have direct : Argument.isDirect ⟨label, isSpread, value, span⟩ = true := isDirect_of_isPlainBody kept body
    obtain ⟨node, strict, written⟩ := arguments_strict index direct rest
    obtain ⟨other, lenient, read⟩ := arguments_lenient index ⟨label, isSpread, value, span⟩ rest
    rw [strict, lenient, firstBody, firstBody, written, read]
    exact tells_body value body

theorem tells_body : (value : Expr) → value.isPlainBody = true →
    TellsAlike (closureBody (Strict.Reading.expr index value)) (closureBody (Lenient.Reading.expr index value))
  | .parenthesized inner _, plain => tells_body inner plain
  | .closure ⟨items, _⟩ _, plain => tells_statements items plain
  | .arrow value _, _ => tellsAlike_of_silent (List.forall_mem_singleton.mpr rfl) (List.forall_mem_singleton.mpr rfl)
  | .quoted _ _ _, _ | .call _, _ => by
    simp only [Lenient.Reading.expr_quoted, Lenient.Reading.expr_call]
    split <;> exact .nothing
  | .name _ _, _ | .number _ _, _ | .reference _ _, _ | .array _ _, _ | .yielded _ _ _, _ | .delegated _ _, _
  | .included _ _ _, _ | .other _, _ => .nothing

theorem tells_statements : (items : List Stmt) → allDescribePlainly items = true →
    TellsAlike (Strict.Reading.statements index items) (Lenient.Reading.statements index items)
  | [], _ => .nothing
  | item :: rest, plain => by
    obtain ⟨head, below⟩ := Bool.and_eq_true_iff.mp plain
    rw [Strict.Reading.statements_cons, Lenient.Reading.statements_cons]
    exact (tells_statement item head).append (tells_statements rest below)

end

end TestScout.Surface
