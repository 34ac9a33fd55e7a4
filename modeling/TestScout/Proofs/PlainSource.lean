import TestScout.Discovery.CallTests
import TestScout.Proofs.QuotedTexts
import TestScout.Surface.Lenient.Reading
import TestScout.Surface.Strict.Reading

/-! Sources that are written plainly. The strict reading and the lenient one differ in what
they make of some ways to write: a blank line below a docblock, escapes and embedded code in
strings, parentheses inside a chain of calls, iterators whose elements are yielded. A source
is plain when none of these stands where discovery looks. -/

namespace TestScout

namespace Source

/-! ## Literals -/

/-- Whether every backslash stands in front of a quote or of another backslash. -/
def Quoted.escapesOnly (quote : Char) : List Char → Bool
  | [] => true
  | '\\' :: c :: rest => (c == quote || c == '\\') && escapesOnly quote rest
  | ['\\'] => false
  | _ :: rest => escapesOnly quote rest

/-- Whether a literal stands in quotes in which nothing but quotes and backslashes is escaped.
Single quotes know no other escapes. -/
def Quoted.isPlain : List Char → Bool
  | quote :: rest =>
    rest.getLast? == some quote && (quote == '\x27' || quote == '"' && escapesOnly quote rest.dropLast)
  | [] => false

theorem Escape.double_eq_bytes {text : List Char} (basic : Quoted.escapesOnly '"' text = true) :
    Escape.double text = Text.bytes (Quoted.unescape '"' text) := by
  fun_induction Quoted.escapesOnly '"' text with
  | case1 => rw [Escape.double, Quoted.unescape]; rfl
  | case2 c rest ih =>
    simp only [Bool.and_eq_true, Bool.or_eq_true, beq_iff_eq] at basic
    obtain ⟨escaped, below⟩ := basic
    rw [Escape.double, Quoted.unescape, ih below]
    rcases escaped with rfl | rfl <;> simp [Escape.control?, Char.isDigit, Text.bytes]
  | case3 => cases basic
  | case4 c rest noEscape notLast ih =>
    have other : c ≠ '\\' := by
      rintro rfl
      cases rest with
      | nil => exact notLast rfl rfl
      | cons d rest => exact noEscape d rest rfl rfl
    rw [Escape.double, Quoted.unescape, ih basic, ← Text.bytes_append]
    · rfl
    · exact fun _ _ same => absurd same other
    · exact fun same => absurd same other
    · exact fun _ _ same => absurd same other

theorem fromUTF8?_bytes (text : List Char) :
    String.fromUTF8? ⟨(Text.bytes text).toArray⟩ = some (String.ofList text) := by
  have encoded : (⟨(Text.bytes text).toArray⟩ : ByteArray) = text.utf8Encode :=
    ByteArray.ext List.data_toByteArray.symm
  rw [String.fromUTF8?, encoded, dif_pos ByteArray.isValidUTF8_utf8Encode]
  rfl

/-- On a plain literal all escapes together come to the same as those of quotes and backslashes. -/
theorem unquote_eq_literalText {raw : String} (plain : Quoted.isPlain raw.toList = true) :
    unquote raw = literalText raw := by
  cases split : raw.toList with
  | nil => simp [split, Quoted.isPlain] at plain
  | cons quote rest =>
    simp only [split, Quoted.isPlain, Bool.and_eq_true, Bool.or_eq_true, beq_iff_eq] at plain
    obtain ⟨closed, kind⟩ := plain
    obtain ⟨inner, rfl⟩ := List.getLast?_eq_some_iff.mp closed
    rw [List.dropLast_concat] at kind
    have isQuote : Quoted.isQuote quote = true := by rcases kind with rfl | ⟨rfl, -⟩ <;> rfl
    rw [Quoted.unquote_enclosed isQuote split, literalText, split]
    rcases kind with rfl | ⟨rfl, basic⟩
    · simp
    · simp [Escape.double_eq_bytes basic, fromUTF8?_bytes]

end Source

namespace Surface
open Code Source Test

/-- An expression without the parentheses around it. -/
def Expr.bare : Expr → Expr
  | .parenthesized inner _ => inner.bare
  | value => value

/-- Whether an expression is no string, or one that has no code in it and is plain. -/
def Expr.isPlainText (value : Expr) : Bool :=
  match value.bare with
  | .quoted raw interpolates _ => !interpolates && Quoted.isPlain raw.toList
  | _ => true

/-! ## Keys of data sets -/

def Element.hasPlainKey (item : Element) : Bool := item.isSpread || item.key.all Expr.isPlainText

def Expr.hasPlainKeys (value : Expr) : Bool :=
  match value.bare with
  | .array items _ => items.all Element.hasPlainKey
  | _ => true

def Expr.yields (value : Expr) : Bool :=
  match value.bare with
  | .yielded _ _ _ | .delegated _ _ => true
  | _ => false

/-- Whether an expression that yields does so itself and under a plain key. -/
def Expr.yieldsPlainly (value : Expr) : Bool :=
  match value.bare with
  | .yielded key _ _ => key.all Expr.isPlainText
  | .delegated _ _ => false
  | _ => true

/-- Whether a statement of a provider yields and returns under plain keys. -/
def Stmt.givesPlainKeys : Stmt → Bool
  | .expression value _ _ => value.yieldsPlainly
  | .shown value _ _ => !value.yields
  | .returned value _ => value.all Expr.hasPlainKeys
  | _ => true

def Block.givesPlainKeys (body : Block) : Bool := body.statements.all Stmt.givesPlainKeys

def Expr.providesPlainKeys (value : Expr) : Bool :=
  match value.bare with
  | .closure body _ => body.givesPlainKeys
  | .arrow value _ => value.hasPlainKeys
  | .array items _ => items.all Element.hasPlainKey
  | _ => true

/-! ## Declarations -/

def Remark.isDocblock (remark : Remark) : Bool := (Comment.ofText remark.text {}).kind == .doc

def Remark.isSilent (remark : Remark) : Bool :=
  !remark.isDocblock || Annotations.ofDocblock (Comment.ofText remark.text {}).value == {}

/-- Whether no blank line stands between the last docblock, of which the remarks are given the
last one first, and what it is about. Above a blank line remarks may only stand that say nothing. -/
def reachesDocblock (index : LineIndex) : (row : Nat) → List Remark → Bool
  | _, [] => true
  | row, remark :: earlier =>
    let place := Strict.Reading.extent index remark.span
    if place.stop.row + 1 < row then (remark :: earlier).all Remark.isSilent
    else remark.isDocblock || reachesDocblock index place.start.row earlier

def documentsPlainly (index : LineIndex) (start : Nat) (remarks : List Remark) : Bool :=
  reachesDocblock index (index.point start).row remarks.reverse

/-- Whether names are not relative to the namespace, and every clause reads as it is written. -/
def TraitUse.isPlain (node : TraitUse) : Bool :=
  node.traits.all (!Strict.Reading.isRelative ·) &&
    node.adaptations.all fun clause => Adaptation.ofText? clause.text == some clause.reading

def Member.isPlain (index : LineIndex) : Member → Bool
  | .method node => documentsPlainly index node.span.start node.remarks && node.body.all Block.givesPlainKeys
  | .traitUse node => node.isPlain
  | .other _ => true

mutual

def Stmt.declaresPlainly (index : LineIndex) : Stmt → Bool
  | .space ⟨_, items, _, _⟩ => allDeclarePlainly index items
  | .classDecl node =>
    node.parents.head?.all (!Strict.Reading.isRelative ·) && documentsPlainly index node.span.start node.remarks &&
      node.body.all (Member.isPlain index)
  | .traitDecl node => node.body.all (Member.isPlain index)
  | .block ⟨items, _⟩ => allDeclarePlainly index items
  | _ => true

def allDeclarePlainly (index : LineIndex) : List Stmt → Bool
  | [] => true
  | item :: rest => item.declaresPlainly index && allDeclarePlainly index rest

end

/-! ## Calls that describe tests -/

/-- What a function describes when it is called. -/
def roleOf? (callee : String) : Option Discovery.CallRole := Discovery.CallRole.ofCall? { name := callee }

mutual

def Expr.describes : Expr → Bool
  | .parenthesized inner _ => inner.describes
  | .call node => node.describes
  | _ => false

def Call.describes : Call → Bool
  | ⟨.function callee, _, _, _⟩ => (roleOf? callee).isSome
  | ⟨.method object _, _, _, _⟩ => object.describes
  | ⟨.static _ _, _, _, _⟩ => false

end

def Argument.isDirect (argument : Argument) : Bool :=
  !argument.isSpread &&
    match argument.value with
    | .reference _ _ => false
    | _ => true

def Argument.isPlainText (argument : Argument) : Bool := argument.isDirect && argument.value.isPlainText

def Argument.providesPlainKeys (argument : Argument) : Bool := argument.isDirect && argument.value.providesPlainKeys

/-- Whether a call behind the first one says plainly what it says. -/
def addsPlainly (name : String) (arguments : List Argument) : Bool :=
  match name with
  | "group" | "depends" => arguments.all Argument.isPlainText
  | "with" => arguments.all Argument.providesPlainKeys
  | _ => true

mutual

/-- Whether what a statement describes is described plainly: by calls that are made in full,
each on the one before it as it stands and by the name of a method. -/
def Stmt.describesPlainly : Stmt → Bool
  | .expression value _ bounds =>
    !value.describes || bounds.written.start == bounds.span.start && value.isPlainChain
  | .shown value _ _ => !value.describes
  | _ => true

def Expr.isPlainChain : Expr → Bool
  | .parenthesized inner _ => inner.isPlainChain
  | .call node => node.isPlainChain
  | _ => false

def Call.isPlainChain : Call → Bool
  | ⟨.function callee, arguments, isPartial, _⟩ =>
    !isPartial && startsPlainly (roleOf? callee == some .describe) arguments
  | ⟨.method (.call inner) (.plain name), arguments, isPartial, _⟩ =>
    !isPartial && addsPlainly name arguments && inner.isPlainChain
  | _ => false

def startsPlainly (isGroup : Bool) : List Argument → Bool
  | [] => true
  | ⟨label, isSpread, value, span⟩ :: rest =>
    Argument.isPlainText ⟨label, isSpread, value, span⟩ && (!isGroup || groupsPlainly rest)

def groupsPlainly : List Argument → Bool
  | [] => true
  | ⟨_, isSpread, value, _⟩ :: _ => !isSpread && value.isPlainBody

def Expr.isPlainBody : Expr → Bool
  | .parenthesized inner _ => inner.isPlainBody
  | .closure ⟨items, _⟩ _ => allDescribePlainly items
  | .reference _ _ => false
  | _ => true

def allDescribePlainly : List Stmt → Bool
  | [] => true
  | item :: rest => item.describesPlainly && allDescribePlainly rest

end

/-- The statements of a source, those in namespaces included. -/
def topItems (items : List Stmt) : List Stmt :=
  items.flatMap fun
    | .space node => node.statements
    | item => [item]

/-- Whether both readings tell the same tests of a source with these statements. -/
def isPlain (index : LineIndex) (items : List Stmt) : Bool :=
  allDeclarePlainly index items && allDescribePlainly (topItems items)

end Surface

end TestScout
