import Mathlib.Data.List.Basic
import TestScout.Proofs.ClassReferences
import TestScout.Proofs.QuotedTexts
import TestScout.Proofs.TopLevelPieces
import TestScout.Source.Attribute

/-! Groups of attributes, read back from how they are written: names with or without a backslash in front, and arguments that
are literals in quotes, with or without a name in front, all with blanks around. Inside quotes anything may stand, also what
separates outside. A name that the language allows is read back if it does not end in a blank and, in front of an argument, if
it has letters, digits and underscores only. -/

namespace TestScout.Source
open Text Nesting Code Surface.Lenient.Lexer

/-- Blanks between the parts of a group. -/
abbrev Gap := { text : List Char // blank text = true }

/-- An argument as it is written. -/
structure WrittenArgument where
  before : Gap
  /-- A name for the argument, and the blanks behind its colon. -/
  label : Option ({ word : List Char // IsWord word } × Gap)
  quote : { c : Char // Quoted.isQuote c = true }
  value : List Char
  behind : Gap

namespace WrittenArgument

def literal (argument : WrittenArgument) : List Char := Quoted.encode argument.quote argument.value

def labelled (argument : WrittenArgument) : List Char :=
  match argument.label with
  | none => argument.literal
  | some (word, gap) => word.val ++ ':' :: (gap.val ++ argument.literal)

def text (argument : WrittenArgument) : List Char := argument.before.val ++ (argument.labelled ++ argument.behind.val)

end WrittenArgument

/-- An attribute as it is written. -/
structure WrittenAttribute where
  before : Gap
  reference : { name : String // IsReference name }
  behindName : Gap
  /-- The arguments between parentheses, if there are any, and the blanks behind the first parenthesis. -/
  list : Option (Gap × List WrittenArgument)
  behind : Gap

namespace WrittenAttribute

def arguments (written : WrittenAttribute) : List WrittenArgument := (written.list.map Prod.snd).getD []

def listText (written : WrittenAttribute) : List Char :=
  match written.list with
  | none => []
  | some (inside, arguments) => '(' :: ((inside.val ++ [','].intercalate (arguments.map WrittenArgument.text)) ++ [')'])

def text (written : WrittenAttribute) : List Char :=
  written.before.val ++ (written.reference.val.toList ++ (written.behindName.val ++ (written.listText ++ written.behind.val)))

/-- What is written: the name without the backslash in front of it, and the texts in quotes. -/
def meaning (written : WrittenAttribute) : Attribute :=
  ⟨relativeName written.reference, written.arguments.map fun argument => String.ofList argument.value⟩

end WrittenAttribute

/-- A group as it is written. -/
def groupText (group : List WrittenAttribute) : String :=
  String.ofList ('#' :: ('[' :: [','].intercalate (group.map WrittenAttribute.text) ++ [']']))

namespace Nesting

variable {separator quote : Char} {nesting : Nesting}

theorem passes_quote {c : Char} (isQuote : Quoted.isQuote c = true) (after : Nesting) (moved : nesting.step c = after) :
    Passes separator nesting [c] after := by
  refine .single ?_ moved
  have nested : nests c = true := by
    simp only [Quoted.isQuote, Bool.or_eq_true] at isQuote
    rcases isQuote with single | double <;> simp [nests, *]
  simp [separates, nested]

/-- Inside quotes the scan is behind an escaped text where it was in front of it. -/
theorem passes_escape (inside : nesting.quote = some quote) (plain : nesting.escaped = false) (value : List Char) :
    Passes separator nesting (Quoted.escape quote value) nesting := by
  have joined : ∀ (state : Nesting) (c : Char), state.quote = some quote → state.separates separator c = false :=
    fun state c same => separates_inner (.inl (same ▸ Option.some_ne_none quote))
  induction value with
  | nil => exact .nil nesting
  | cons c value ih =>
    rw [Quoted.escape]
    split
    next special =>
      have entered : nesting.step '\\' = { nesting with escaped := true } := by simp [step, inside, plain]
      have left : ({ nesting with escaped := true } : Nesting).step c = nesting := by
        obtain ⟨depth, quote, escaped⟩ := nesting
        simp_all [step]
      refine .cons (joined _ _ inside) (.cons (joined _ _ ?_) ?_)
      · rw [entered]
        exact inside
      · rw [entered, left]
        exact ih
    next ordinary =>
      have kept : nesting.step c = nesting := by
        obtain ⟨other, free⟩ := not_or.mp ordinary
        simp [step, inside, plain, other, free]
      refine .cons (joined _ _ inside) ?_
      rw [kept]
      exact ih

/-- Outside quotes the scan is behind a literal where it was in front of it. -/
theorem passes_encode (isQuote : Quoted.isQuote quote = true) (outside : nesting.quote = none) (plain : nesting.escaped = false)
    (value : List Char) : Passes separator nesting (Quoted.encode quote value) nesting := by
  have isQuoted : quote = '\x27' ∨ quote = '"' := by simpa [Quoted.isQuote] using isQuote
  have entered : nesting.step quote = { nesting with quote := some quote } := by simp [step, outside, isQuoted]
  have left : ({ nesting with quote := some quote } : Nesting).step quote = nesting := by
    have other : quote ≠ '\\' := by rcases isQuoted with rfl | rfl <;> decide
    obtain ⟨depth, mark, escaped⟩ := nesting
    simp_all [step]
  have opened : Passes separator nesting [quote] { nesting with quote := some quote } := passes_quote isQuote _ entered
  have inner : Passes separator { nesting with quote := some quote } (Quoted.escape quote value) { nesting with quote := some quote } :=
    passes_escape rfl (show ({ nesting with quote := some quote } : Nesting).escaped = false from plain) value
  exact opened.append (inner.append (passes_quote isQuote _ left))

theorem plain_of_isBlank {c : Char} (blank : isBlank c = true) : nests c = false ∧ c ≠ ',' := by
  constructor
  · by_contra nested
    simp only [nests, Bool.not_eq_false, Bool.or_eq_true, beq_iff_eq] at nested
    rcases nested with ((((((rfl | rfl) | rfl) | rfl) | rfl) | rfl) | rfl) | rfl <;> cases blank
  · rintro rfl
    cases blank

theorem passes_gap (outside : nesting.quote = none) (gap : Gap) : Passes ',' nesting gap.val nesting :=
  passes_plain outside fun c member => plain_of_isBlank (List.all_eq_true.mp gap.property c member)

end Nesting

/-! ## Arguments -/

/-- What may stand in the name of an argument that is told from its value. -/
def isLabelPart (c : Char) : Bool := isAlphanumeric c || c == '_'

theorem isLabelPart_eq (c : Char) :
    isLabelPart c = (alphanumericRanges.toList.any (fun range => range.1 ≤ c.toNat && c.toNat ≤ range.2) || c == '_') := by
  rw [Array.any_toList]
  rfl

theorem isLabelPart_colon : isLabelPart ':' = false := by
  rw [isLabelPart_eq]
  decide +kernel

theorem isLabelPart_quote {c : Char} (isQuote : Quoted.isQuote c = true) : isLabelPart c = false := by
  simp only [Quoted.isQuote, Bool.or_eq_true, beq_iff_eq] at isQuote
  rw [isLabelPart_eq]
  rcases isQuote with rfl | rfl <;> decide +kernel

theorem dropArgumentName_labelled {name value : List Char} (filled : name ≠ []) (parts : ∀ c ∈ name, isLabelPart c = true)
    (single : value.head? ≠ some ':') : Attribute.dropArgumentName (name ++ ':' :: value) = trimStart value := by
  have taken : (name ++ ':' :: value).takeWhile isLabelPart = name := by
    rw [List.takeWhile_append_of_pos parts, List.takeWhile_cons_of_neg (Bool.eq_false_iff.mp isLabelPart_colon), List.append_nil]
  have dropped : (name ++ ':' :: value).dropWhile isLabelPart = ':' :: value := by
    rw [List.dropWhile_append_of_pos parts, List.dropWhile_cons_of_neg (Bool.eq_false_iff.mp isLabelPart_colon)]
  obtain ⟨c, rest, rfl⟩ := List.exists_cons_of_ne_nil filled
  unfold Attribute.dropArgumentName
  simp only [show (fun c => isAlphanumeric c || c == '_') = isLabelPart from rfl, taken, dropped]
  split
  next same => cases same; exact absurd rfl single
  next same => cases same; rfl
  next other => exact absurd rfl (other c rest value rfl)

theorem dropArgumentName_bare {argument : List Char}
    (bare : argument.takeWhile isLabelPart = [] ∨ (argument.dropWhile isLabelPart).head? ≠ some ':') :
    Attribute.dropArgumentName argument = argument := by
  unfold Attribute.dropArgumentName
  simp only [show (fun c => isAlphanumeric c || c == '_') = isLabelPart from rfl]
  split
  next => rfl
  next named marked =>
    rcases bare with empty | other
    · rw [empty] at named
      cases named
    · rw [marked] at other
      exact absurd rfl other
  next => rfl

namespace WrittenArgument

variable (argument : WrittenArgument)

/-- Whether the name in front of the value, if there is one, has letters, digits and underscores only. Blanks in front of it are
taken for blanks around the argument. -/
def IsPlain : Prop :=
  ∀ label ∈ argument.label, trimStart label.1.val ≠ [] ∧ ∀ c ∈ trimStart label.1.val, isLabelPart c = true

/-- What is read for the argument. -/
def reading : List Char := Quoted.decode (Attribute.dropArgumentName (trim argument.text))

theorem trim_text : trim argument.text = trim argument.labelled := by
  rw [text, trim_blank_append argument.before.property, trim_append_blank argument.behind.property]

theorem trim_literal : trim argument.literal = argument.literal := by
  have solid := Quoted.solid_of_isQuote argument.quote.property
  exact trim_enclosed _ solid solid

theorem decode_literal : Quoted.decode argument.literal = argument.value :=
  Quoted.decode_encode argument.quote.property argument.value

theorem trimStart_literal (gap : Gap) : trimStart (gap.val ++ argument.literal) = argument.literal := by
  have solid := Quoted.solid_of_isQuote argument.quote.property
  rw [trimStart, List.dropWhile_append_of_pos (List.all_eq_true.mp gap.property)]
  exact List.dropWhile_cons_of_neg (Bool.eq_false_iff.mp solid)

theorem reading_bare (bare : argument.label = none) : argument.reading = argument.value := by
  have unnamed : argument.literal.takeWhile isLabelPart = [] :=
    List.takeWhile_cons_of_neg (Bool.eq_false_iff.mp (isLabelPart_quote argument.quote.property))
  rw [reading, trim_text, labelled, bare, trim_literal, dropArgumentName_bare (.inl unnamed), decode_literal]

variable {word : { word : List Char // IsWord word }} {gap : Gap}

theorem trim_labelled (named : argument.label = some (word, gap)) :
    trim argument.text = trimStart word.val ++ ':' :: (gap.val ++ argument.literal) := by
  have solid := Quoted.solid_of_isQuote argument.quote.property
  have whole := trim_append_enclosed (show isBlank ':' = false by decide) solid word.val
    (gap.val ++ argument.quote.val :: Quoted.escape argument.quote argument.value)
  rw [trim_text, labelled, named, literal, Quoted.encode_eq]
  simpa using whole

theorem reading_plain (named : argument.label = some (word, gap)) (filled : trimStart word.val ≠ [])
    (parts : ∀ c ∈ trimStart word.val, isLabelPart c = true) : argument.reading = argument.value := by
  have single : (gap.val ++ argument.literal).head? ≠ some ':' := by
    intro marked
    have member : ':' ∈ gap.val ∨ argument.quote.val = ':' := by
      cases same : gap.val with
      | nil =>
        rw [same] at marked
        exact .inr (Option.some.inj marked)
      | cons c rest =>
        rw [same] at marked
        exact .inl (Option.some.inj marked ▸ List.mem_cons_self)
    rcases member with inside | quoted
    · exact absurd (List.all_eq_true.mp gap.property ':' inside) (by decide)
    · exact absurd (quoted ▸ argument.quote.property) (by decide)
  rw [reading, argument.trim_labelled named, dropArgumentName_labelled filled parts single, trimStart_literal, decode_literal]

/-- A name with anything else in it stays with the value, and the quotes stay, too. -/
theorem reading_strange (named : argument.label = some (word, gap))
    (strange : trimStart word.val = [] ∨ ∃ c ∈ trimStart word.val, isLabelPart c = false) :
    argument.reading = trimStart word.val ++ ':' :: (gap.val ++ argument.literal) := by
  have inside : ∀ c ∈ trimStart word.val, isNamePart c = true := fun c member =>
    isNamePart_of_mem word.property ((List.dropWhile_suffix _).mem member)
  have whole := argument.trim_labelled named
  have kept : Attribute.dropArgumentName (trim argument.text) = trim argument.text := by
    refine dropArgumentName_bare ?_
    rw [whole]
    rcases strange with empty | ⟨c, member, foreign⟩
    · rw [empty]
      exact .inl (List.takeWhile_cons_of_neg (Bool.eq_false_iff.mp isLabelPart_colon))
    · have some : (trimStart word.val).dropWhile isLabelPart ≠ [] := by
        rw [Ne, List.dropWhile_eq_nil_iff]
        exact fun all => Bool.false_ne_true (foreign.symm.trans (all c member))
      obtain ⟨first, rest, split⟩ := List.exists_cons_of_ne_nil some
      have apart : first ≠ ':' :=
        ne_of_isNamePart (inside first ((List.dropWhile_suffix _).mem (split ▸ List.mem_cons_self))) (by decide)
      rw [List.dropWhile_append, if_neg (by simp [split]), split]
      exact .inr fun same => apart (Option.some.inj same)
  -- what starts with the name or the colon has no quote in front and is not decoded
  have bare : ∃ c rest, trim argument.text = c :: rest ∧ Quoted.isQuote c = false := by
    rw [whole]
    cases same : trimStart word.val with
    | nil => exact ⟨':', _, rfl, by decide⟩
    | cons c rest =>
      refine ⟨c, _, rfl, ?_⟩
      have part := inside c (same ▸ List.mem_cons_self)
      simp only [Quoted.isQuote, Bool.or_eq_false_iff, beq_eq_false_iff_ne]
      exact ⟨ne_of_isNamePart part (by decide), ne_of_isNamePart part (by decide)⟩
  obtain ⟨c, rest, same, other⟩ := bare
  rw [reading, kept, ← whole, same]
  exact Quoted.decode_bare other (by rw [← same, trim_trim])

theorem reading_ne (named : argument.label = some (word, gap))
    (strange : trimStart word.val = [] ∨ ∃ c ∈ trimStart word.val, isLabelPart c = false) : argument.reading ≠ argument.value := by
  intro same
  have longer := Quoted.length_le_encode argument.quote argument.value
  have lengths := congrArg List.length (same.symm.trans (argument.reading_strange named strange))
  simp only [List.length_append, List.length_cons, literal] at lengths
  omega

theorem reading_eq_iff : argument.reading = argument.value ↔ argument.IsPlain := by
  cases named : argument.label with
  | none => exact iff_of_true (argument.reading_bare named) (by simp [IsPlain, named])
  | some label =>
    obtain ⟨word, gap⟩ := label
    simp only [IsPlain, named, Option.mem_some_iff, forall_eq']
    constructor
    · intro same
      by_contra strange
      refine argument.reading_ne named ?_ same
      rcases not_and_or.mp strange with empty | foreign
      · exact .inl (not_not.mp empty)
      · push Not at foreign
        obtain ⟨c, member, other⟩ := foreign
        exact .inr ⟨c, member, Bool.eq_false_iff.mpr other⟩
    · exact fun ⟨filled, parts⟩ => argument.reading_plain named filled parts

end WrittenArgument

/-! ## Lists of arguments -/

namespace Nesting

variable {separator : Char} {nesting : Nesting}

/-- Between brackets a separator is passed over, too. -/
theorem passes_intercalate (outside : nesting.quote = none) (deep : nesting.depth ≠ 0) (plain : nests separator = false)
    {texts : List (List Char)} (passed : ∀ text ∈ texts, Passes separator nesting text nesting) :
    Passes separator nesting ([separator].intercalate texts) nesting := by
  induction texts with
  | nil => exact .nil nesting
  | cons first rest ih =>
    obtain ⟨here, later⟩ := List.forall_mem_cons.mp passed
    by_cases alone : rest = []
    · rwa [alone, List.intercalate_singleton]
    · have between : Passes separator nesting [separator] nesting :=
        .single (separates_inner (.inr deep)) (step_plain outside plain)
      rw [List.intercalate_cons_of_ne_nil alone]
      exact (here.append between).append (ih later)

theorem plain_of_isNamePart {c : Char} (part : isNamePart c = true) : nests c = false ∧ c ≠ ',' := by
  have apart : ∀ other, isNamePart other = false → c ≠ other := fun other => ne_of_isNamePart part
  refine ⟨?_, apart ',' rfl⟩
  simp only [nests, Bool.or_eq_false_iff, beq_eq_false_iff_ne]
  exact ⟨⟨⟨⟨⟨⟨⟨apart _ rfl, apart _ rfl⟩, apart _ rfl⟩, apart _ rfl⟩, apart _ rfl⟩, apart _ rfl⟩, apart _ rfl⟩, apart _ rfl⟩

end Nesting

namespace WrittenArgument

variable {nesting : Nesting}

theorem passes_text (argument : WrittenArgument) (outside : nesting.quote = none) (plain : nesting.escaped = false) :
    Passes ',' nesting argument.text nesting := by
  have literal : Passes ',' nesting argument.literal nesting := passes_encode argument.quote.property outside plain argument.value
  have labelled : Passes ',' nesting argument.labelled nesting := by
    rw [WrittenArgument.labelled]
    split
    next => exact literal
    next word gap _ =>
      have name : Passes ',' nesting word.val nesting :=
        passes_plain outside fun c member => plain_of_isNamePart (isNamePart_of_mem word.property member)
      have colon : Passes ',' nesting [':'] nesting := passes_plain outside (List.forall_mem_singleton.mpr (by decide))
      exact name.append (colon.append ((passes_gap outside gap).append literal))
  exact (passes_gap outside argument.before).append (labelled.append (passes_gap outside argument.behind))

theorem blank_text (argument : WrittenArgument) : blank argument.text = false := by
  have quoted : argument.quote.val ∈ argument.literal := by
    rw [literal, Quoted.encode_eq]
    exact List.mem_cons_self
  have inside : argument.quote.val ∈ argument.labelled := by
    rw [labelled]
    split
    next => exact quoted
    next => exact List.mem_append_right _ (List.mem_cons_of_mem _ (List.mem_append_right _ quoted))
  rw [Bool.eq_false_iff]
  intro blank
  have solid := Quoted.solid_of_isQuote argument.quote.property
  have same := List.all_eq_true.mp blank _ (List.mem_append_right _ (List.mem_append_left _ inside))
  exact Bool.false_ne_true (solid.symm.trans same)

/-- Each argument of a list is read for itself. -/
theorem argumentsOf_text (inside : Gap) (arguments : List WrittenArgument) :
    Attribute.argumentsOf (inside.val ++ [','].intercalate (arguments.map text)) =
      arguments.map fun argument => String.ofList argument.reading := by
  have opening : Passes ',' top inside.val top := passes_gap rfl inside
  cases arguments with
  | nil =>
    have cut : splitTopLevel inside.val ',' = [] := by
      rw [splitTopLevel, opening.pieces_eq, List.filter_singleton, inside.property]
      rfl
    rw [List.map_nil, List.intercalate_nil, List.append_nil, Attribute.argumentsOf, cut]
    rfl
  | cons first rest =>
    have split : top.pieces ',' ([','].intercalate ((first :: rest).map text)) = (first :: rest).map text := by
      refine pieces_intercalate (by decide) (List.cons_ne_nil _ _) ?_
      exact List.forall_mem_map.mpr fun argument _ => argument.passes_text rfl rfl
    have pieces : top.pieces ',' (inside.val ++ [','].intercalate ((first :: rest).map text)) =
        (inside.val ++ first.text) :: rest.map text := by
      rw [opening.pieces_append, split, List.map_cons, List.modifyHead_cons]
    have solid : ∀ piece ∈ (inside.val ++ first.text) :: rest.map text, (!blank piece) = true := by
      refine List.forall_mem_cons.mpr ⟨?_, List.forall_mem_map.mpr fun argument _ => by rw [argument.blank_text]; rfl⟩
      rw [blank, List.all_append]
      have own := first.blank_text
      rw [blank] at own
      rw [own, Bool.and_false]
      rfl
    rw [Attribute.argumentsOf, splitTopLevel, pieces, List.filter_eq_self.mpr solid, List.map_cons, List.map_map, List.map_cons,
      trim_blank_append inside.property]
    rfl

end WrittenArgument

/-! ## Attributes -/

namespace Attribute

/-- An attribute by what stands in front of its arguments, as long as there is anything in it. -/
def named? (front : List Char) (arguments : List String) : Option Attribute :=
  let name := (trim front).dropWhile (· == '\\')
  if name.isEmpty then none else some ⟨String.ofList name, arguments⟩

variable {front : List Char}

theorem ofText?_trim (text : List Char) : ofText? (trim text) = ofText? text := by
  rw [ofText?, trim_trim, ofText?]

theorem ofText?_bare (unopened : ∀ c ∈ front, c ≠ '(') : ofText? front = named? front [] := by
  have name : ∀ c ∈ trim front, (c != '(') = true := fun c member => bne_iff_ne.mpr (unopened c ((trim_sublist _).mem member))
  have taken : (trim front).takeWhile (· != '(') = trim front := List.takeWhile_eq_self_iff.mpr name
  have dropped : (trim front).dropWhile (· != '(') = [] := List.dropWhile_eq_nil_iff.mpr name
  simp only [ofText?, taken, dropped, trim_trim]
  rfl

/-- The first parenthesis ends the name, and the last one the arguments. -/
theorem ofText?_listed (unopened : ∀ c ∈ front, c ≠ '(') (inner : List Char) :
    ofText? (front ++ '(' :: (inner ++ [')'])) = named? front (argumentsOf inner) := by
  have trimmed := trim_append_enclosed (show isBlank '(' = false by decide) (show isBlank ')' = false by decide) front inner
  have name : ∀ c ∈ trimStart front, (c != '(') = true := fun c member =>
    bne_iff_ne.mpr (unopened c ((List.dropWhile_suffix _).mem member))
  have taken : (trimStart front ++ '(' :: (inner ++ [')'])).takeWhile (· != '(') = trimStart front := by
    rw [List.takeWhile_append_of_pos name, List.takeWhile_cons_of_neg (by decide), List.append_nil]
  have dropped : (trimStart front ++ '(' :: (inner ++ [')'])).dropWhile (· != '(') = '(' :: (inner ++ [')']) := by
    rw [List.dropWhile_append_of_pos name, List.dropWhile_cons_of_neg (by decide)]
  simp only [ofText?, trimmed, taken, dropped, trim_trimStart, before?_append]
  rfl

theorem named?_eq_some_iff {name : String} {arguments values : List String} (filled : name ≠ "") :
    named? front arguments = some ⟨name, values⟩ ↔ (trim front).dropWhile (· == '\\') = name.toList ∧ arguments = values := by
  rw [named?]
  constructor
  · intro same
    obtain ⟨-, read⟩ := Option.ite_none_left_eq_some.mp same
    obtain ⟨rfl, rfl⟩ := (Attribute.mk.injEq ..).mp (Option.some.inj read)
    exact ⟨String.toList_ofList.symm, rfl⟩
  · rintro ⟨same, rfl⟩
    have some : name.toList ≠ [] := mt String.toList_eq_nil_iff.mp filled
    simp only [same, List.isEmpty_eq_false_iff.mpr some, String.ofList_toList]
    rfl

end Attribute

theorem plain_reference {reference : String} (written : IsReference reference) :
    ∀ c ∈ reference.toList, nests c = false ∧ c ≠ ',' := by
  intro c member
  rcases written.mark_or_part member with rfl | part
  · decide
  · exact plain_of_isNamePart part

/-- A reference loses nothing but the backslash in front when there are no blanks at its ends. -/
theorem dropWhile_trim_iff {reference : String} (written : IsReference reference) :
    (trim reference.toList).dropWhile (· == '\\') = (relativeName reference).toList ↔ trim reference.toList = reference.toList := by
  constructor
  · intro same
    -- trimming takes characters off, so that it is enough to count them
    refine (trim_sublist _).eq_of_length_le ?_
    have shorter : ((trim reference.toList).dropWhile (· == '\\')).length ≤ _ := (List.dropWhile_suffix _).length_le
    obtain ⟨-, -, -, -, plain | marked⟩ := written.relative
    · rw [same, ← plain] at shorter
      exact shorter
    · have cut : trim reference.toList = '\\' :: trimEnd (relativeName reference).toList := by
        rw [marked, trim, trimStart, List.dropWhile_cons_of_neg (by decide), trimEnd_cons (by decide)]
      have kept : ((trimEnd (relativeName reference).toList).dropWhile (· == '\\')).length ≤ _ := (List.dropWhile_suffix _).length_le
      rw [cut, List.dropWhile_cons_of_pos rfl] at same
      rw [same] at kept
      rw [cut, marked, List.length_cons, List.length_cons]
      omega
  · intro same
    rw [same, relativeName, String.toList_ofList]

namespace WrittenAttribute

variable (written : WrittenAttribute)

/-- Whether the name has no blanks at its ends, and the arguments have plain names. -/
def IsPlain : Prop :=
  trim written.reference.val.toList = written.reference.val.toList ∧ ∀ argument ∈ written.arguments, argument.IsPlain

theorem passes_listText : Passes ',' top written.listText top := by
  rw [listText]
  split
  next => exact .nil top
  next inside arguments _ =>
    have opening : top.separates ',' '(' = false := by decide
    have closing : (top.step '(').separates ',' ')' = false := by decide
    have listed : Passes ',' (top.step '(') ([','].intercalate (arguments.map WrittenArgument.text)) (top.step '(') := by
      refine passes_intercalate (by decide) (by decide) (by decide) ?_
      exact List.forall_mem_map.mpr fun argument _ => argument.passes_text (by decide) (by decide)
    have gap : Passes ',' (top.step '(') inside.val (top.step '(') := passes_gap (by decide) inside
    exact .cons opening ((gap.append listed).append (.single closing (by decide)))

theorem passes_text : Passes ',' top written.text top := by
  have name : Passes ',' top written.reference.val.toList top := passes_plain rfl (plain_reference written.reference.property)
  have gap : ∀ gap : Gap, Passes ',' top gap.val top := passes_gap rfl
  exact (gap _).append (name.append ((gap _).append (written.passes_listText.append (gap _))))

/-- The name is read from what stands in front of the arguments, and each argument for itself. -/
theorem ofText?_text : Attribute.ofText? written.text =
    Attribute.named? written.reference.val.toList (written.arguments.map fun argument => String.ofList argument.reading) := by
  have unopened : ∀ c ∈ written.before.val ++ (written.reference.val.toList ++ written.behindName.val), c ≠ '(' := by
    have gap : ∀ gap : Gap, '(' ∉ gap.val := fun gap member => absurd (List.all_eq_true.mp gap.property _ member) (by decide)
    have name : '(' ∉ written.reference.val.toList := fun member => written.reference.property.ne_of_mem member rfl (by decide) rfl
    rintro c member rfl
    simp only [List.mem_append, gap, name, or_self] at member
  have front : ∀ arguments, Attribute.named? (written.before.val ++ (written.reference.val.toList ++ written.behindName.val)) arguments =
      Attribute.named? written.reference.val.toList arguments := by
    intro arguments
    rw [Attribute.named?, trim_blank_append written.before.property, trim_append_blank written.behindName.property]
    rfl
  have text : written.text =
      written.before.val ++ (written.reference.val.toList ++ written.behindName.val) ++ written.listText ++ written.behind.val := by
    simp only [WrittenAttribute.text, List.append_assoc]
  rw [← Attribute.ofText?_trim, text, trim_append_blank written.behind.property, Attribute.ofText?_trim, ← front, listText, arguments]
  cases written.list with
  | none => rw [List.append_nil, Attribute.ofText?_bare unopened]; rfl
  | some listed =>
    rw [Attribute.ofText?_listed unopened, WrittenArgument.argumentsOf_text]
    rfl

end WrittenAttribute

/-! ## Groups -/

theorem AttributeGroup.ofText_enclosed (inner : List Char) (extent : Option Extent) :
    AttributeGroup.ofText (String.ofList ('#' :: ('[' :: inner ++ [']']))) extent =
      ⟨(splitTopLevel inner ',').filterMap Attribute.ofText?, extent⟩ := by
  have trimmed : trim ('#' :: ('[' :: inner ++ [']'])) = '#' :: ('[' :: inner ++ [']']) := trim_enclosed _ (by decide) (by decide)
  have inside : (after? ['#', '['] ('#' :: ('[' :: inner ++ [']']))).bind (before? [']']) = some inner := before?_append _ _
  simp only [AttributeGroup.ofText, String.toList_ofList, trimmed, inside, Option.getD_some]

theorem filterMap_splitTopLevel (group : List WrittenAttribute) :
    (splitTopLevel ([','].intercalate (group.map WrittenAttribute.text)) ',').filterMap Attribute.ofText? =
      group.filterMap fun written => Attribute.ofText? written.text := by
  have shown : ∀ text, (if (!blank text) = true then Attribute.ofText? text else none) = Attribute.ofText? text := by
    intro text
    split
    next => rfl
    next blank =>
      rw [← Attribute.ofText?_trim, trim_eq_nil (by simpa using blank)]
      rfl
  rw [splitTopLevel, List.filterMap_filter, funext shown]
  by_cases empty : group = []
  · rw [empty]
    rfl
  · have passed : ∀ text ∈ group.map WrittenAttribute.text, Passes ',' top text top :=
      List.forall_mem_map.mpr fun written _ => written.passes_text
    rw [pieces_intercalate (by decide) (mt List.map_eq_nil_iff.mp empty) passed, List.filterMap_map]
    rfl

theorem filterMap_eq_map_iff {α β : Type} {items : List α} {read : α → Option β} {meaning : α → β} :
    items.filterMap read = items.map meaning ↔ ∀ item ∈ items, read item = some (meaning item) := by
  induction items with
  | nil => exact iff_of_true rfl nofun
  | cons first rest ih =>
    rw [List.forall_mem_cons, ← ih, List.map_cons]
    cases found : read first with
    | none =>
      refine iff_of_false (fun same => ?_) (by simp)
      have lengths := congrArg List.length same
      have shorter := List.length_filterMap_le read rest
      rw [List.filterMap_cons_none found, List.length_cons, List.length_map] at lengths
      omega
    | some value => rw [List.filterMap_cons_some found, List.cons.injEq, Option.some_inj]

/-! ## Names in ASCII -/

/-- In ASCII, a name has nothing but letters, digits and underscores. -/
theorem ascii_part {c : Char} (part : isNamePart c = true) (ascii : c.toNat < 128) : isLabelPart c = true ∧ isBlank c = false := by
  have ranges : (48 ≤ c.toNat ∧ c.toNat ≤ 57) ∨ (65 ≤ c.toNat ∧ c.toNat ≤ 90) ∨ (97 ≤ c.toNat ∧ c.toNat ≤ 122) ∨ c.toNat = 95 := by
    have upper (letter : c.isUpper = true) : 65 ≤ c.toNat ∧ c.toNat ≤ 90 := of_decide_eq_true letter
    have lower (letter : c.isLower = true) : 97 ≤ c.toNat ∧ c.toNat ≤ 122 :=
      (Bool.and_eq_true_iff.mp letter).imp of_decide_eq_true of_decide_eq_true
    have digit (figure : c.isDigit = true) : 48 ≤ c.toNat ∧ c.toNat ≤ 57 :=
      (Bool.and_eq_true_iff.mp figure).imp of_decide_eq_true of_decide_eq_true
    simp only [isNamePart, isNameStart, Bool.or_eq_true, beq_iff_eq, decide_eq_true_eq] at part
    rcases part with ((letter | rfl) | high) | figure
    · exact .inr ((Bool.or_eq_true_iff.mp letter).imp upper fun letter => .inl (lower letter))
    · exact .inr (.inr (.inr rfl))
    · omega
    · exact .inl (digit figure)
  constructor
  · have lettered : ∀ range ∈ alphanumericRanges.toList, range.1 ≤ c.toNat → c.toNat ≤ range.2 → isLabelPart c = true := by
      intro range member least most
      rw [isLabelPart_eq, Bool.or_eq_true]
      exact .inl (List.any_eq_true.mpr ⟨range, member, by simp [least, most]⟩)
    rcases ranges with digit | upper | lower | line
    · exact lettered (48, 57) (by decide +kernel) digit.1 digit.2
    · exact lettered (65, 90) (by decide +kernel) upper.1 upper.2
    · exact lettered (97, 122) (by decide +kernel) lower.1 lower.2
    · obtain rfl : c = '_' := Char.ext (UInt32.toNat_inj.mp line)
      rw [isLabelPart_eq]
      decide +kernel
  · simp only [isBlank, Bool.or_eq_false_iff, Bool.and_eq_false_iff, decide_eq_false_iff_not, beq_eq_false_iff_ne]
    omega

/-- Whether all names are written in ASCII. -/
def WrittenAttribute.IsAscii (written : WrittenAttribute) : Prop :=
  (∀ c ∈ written.reference.val.toList, c.toNat < 128) ∧
    ∀ argument ∈ written.arguments, ∀ label ∈ argument.label, ∀ c ∈ label.1.val, c.toNat < 128

theorem WrittenAttribute.isPlain_of_isAscii (written : WrittenAttribute) (ascii : written.IsAscii) : written.IsPlain := by
  obtain ⟨name, labels⟩ := ascii
  constructor
  · have unbroken : ∀ c ∈ written.reference.val.toList, isBlank c = false := by
      intro c member
      rcases written.reference.property.mark_or_part member with rfl | part
      · decide
      · exact (ascii_part part (name c member)).2
    have own : trim ([] ++ written.reference.val.toList) = _ := (written.reference.property.solid unbroken).trim nofun
    exact own
  · intro argument member label named
    have parts := fun c inside => ascii_part (isNamePart_of_mem label.1.property inside) (labels argument member label named c inside)
    have solid : trimStart label.1.val = label.1.val := by
      have own := (label.1.property.solid fun c inside => (parts c inside).2).trimStart []
      rwa [List.append_nil] at own
    rw [solid]
    obtain ⟨first, rest, same, -⟩ := label.1.property
    exact ⟨same ▸ List.cons_ne_nil first rest, fun c inside => (parts c inside).1⟩

/-- What is read of a group. -/
theorem ofText_groupText (group : List WrittenAttribute) (extent : Option Extent) :
    AttributeGroup.ofText (groupText group) extent = ⟨group.filterMap fun written =>
      Attribute.named? written.reference.val.toList (written.arguments.map fun argument => String.ofList argument.reading), extent⟩ := by
  rw [groupText, AttributeGroup.ofText_enclosed, filterMap_splitTopLevel, funext WrittenAttribute.ofText?_text]

/-- **Groups are read back.** A group is read as what is written, whatever the texts in quotes are, just when all names in it are
plain: those of the attributes have no blanks at their ends, and those of the arguments are told from their values. Names in ASCII
are plain. -/
theorem groups_read_back (group : List WrittenAttribute) (extent : Option Extent) :
    (AttributeGroup.ofText (groupText group) extent = ⟨group.map WrittenAttribute.meaning, extent⟩ ↔
      ∀ written ∈ group, written.IsPlain) ∧
    ∀ written ∈ group, written.IsAscii → written.IsPlain := by
  constructor
  · rw [ofText_groupText, AttributeGroup.mk.injEq, and_iff_left rfl, filterMap_eq_map_iff]
    refine forall₂_congr fun written _ => ?_
    have filled := written.reference.property.relativeName_ne
    rw [WrittenAttribute.meaning, Attribute.named?_eq_some_iff filled, dropWhile_trim_iff written.reference.property,
      List.map_inj_left, WrittenAttribute.IsPlain]
    exact and_congr_right' (forall₂_congr fun argument _ => String.ofList_inj.trans argument.reading_eq_iff)
  · exact fun written _ => written.isPlain_of_isAscii

private def noGap : Gap := ⟨[], rfl⟩

private def slow (label : Option ({ word : List Char // IsWord word } × Gap)) : WrittenArgument :=
  ⟨noGap, label, ⟨'\x27', rfl⟩, "slow".toList, noGap⟩

private def snowLabel : { word : List Char // IsWord word } := ⟨"\u2603".toList, by decide +kernel⟩

private def snowGroup : WrittenAttribute where
  before := noGap
  reference := ⟨"Group", ["Group".toList], List.cons_ne_nil _ _, by decide +kernel, .inl (by decide +kernel)⟩
  behindName := noGap
  list := some (noGap, [slow (some (snowLabel, ⟨[' '], rfl⟩))])
  behind := noGap

private def wideGroup : WrittenAttribute where
  before := noGap
  reference := ⟨"Group\u3000", ["Group\u3000".toList], List.cons_ne_nil _ _, by decide +kernel, .inl (by decide +kernel)⟩
  behindName := noGap
  list := some (noGap, [slow none])
  behind := noGap

/-- A name in front of a value stays there when a character of it is no letter, and a name loses a blank at its end that is no
blank for the language. -/
theorem strange_names_misread :
    (groupText [snowGroup] = "#[Group(\u2603: 'slow')]" ∧ snowGroup.meaning = ⟨"Group", ["slow"]⟩ ∧
      AttributeGroup.ofText "#[Group(\u2603: 'slow')]" none = ⟨[⟨"Group", ["\u2603: 'slow'"]⟩], none⟩) ∧
    groupText [wideGroup] = "#[Group\u3000('slow')]" ∧ wideGroup.meaning = ⟨"Group\u3000", ["slow"]⟩ ∧
      AttributeGroup.ofText "#[Group\u3000('slow')]" none = ⟨[⟨"Group", ["slow"]⟩], none⟩ := by
  have snow : groupText [snowGroup] = "#[Group(\u2603: 'slow')]" := by decide +kernel
  have wide : groupText [wideGroup] = "#[Group\u3000('slow')]" := by decide +kernel
  have foreign : isLabelPart '\u2603' = false := by
    rw [isLabelPart_eq]
    decide +kernel
  have named := (slow (some (snowLabel, ⟨[' '], rfl⟩))).reading_strange rfl (.inr ⟨'\u2603', by decide +kernel, foreign⟩)
  have kept : snowGroup.arguments.map (fun argument => String.ofList argument.reading) = ["\u2603: 'slow'"] :=
    congrArg (fun reading => [String.ofList reading]) (named.trans (by decide +kernel))
  have bare : wideGroup.arguments.map (fun argument => String.ofList argument.reading) = ["slow"] :=
    congrArg (fun reading => [String.ofList reading]) ((slow none).reading_bare rfl)
  refine ⟨⟨snow, by decide +kernel, ?_⟩, wide, by decide +kernel, ?_⟩
  · rw [← snow, ofText_groupText]
    simp only [List.filterMap_cons, List.filterMap_nil, kept]
    decide +kernel
  · rw [← wide, ofText_groupText]
    simp only [List.filterMap_cons, List.filterMap_nil, bare]
    decide +kernel

end TestScout.Source
