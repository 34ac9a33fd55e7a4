import Mathlib.Data.List.Basic
import TestScout.Proofs.TextWords
import TestScout.Test.Annotations

/-! Docblocks, read back from how they are written. A line has blanks and stars in front of what it tells, and any line break
behind it. What the lines tell is gathered: names once each in the order in which they come up first, descriptions as often as
they are given. -/

namespace TestScout.Test
open Text

/-! ## What lines tell -/

/-- Whether a word in front of the text ends there. -/
def StartsBlank (text : List Char) : Prop := ∀ c ∈ text.head?, isBlank c = true

section

variable {gap text : List Char}

theorem startsBlank_of_blank (empty : blank gap = true) : StartsBlank gap :=
  fun c first => List.all_eq_true.mp empty c (List.mem_of_mem_head? first)

theorem startsBlank_append (spaced : gap ≠ []) (empty : blank gap = true) : StartsBlank (gap ++ text) := by
  intro c first
  rw [List.head?_append_of_ne_nil _ spaced] at first
  exact startsBlank_of_blank empty c first

theorem StartsBlank.trimEnd (starts : StartsBlank text) : StartsBlank (trimEnd text) := by
  intro c first
  obtain ⟨ending, -, split⟩ := exists_trimEnd_append text
  refine starts c ?_
  rw [split, List.head?_append, Option.mem_def.mp first]
  rfl

end

/-- The tags in front of a name, with the marks that they make of it. -/
def namingTags : List (String × (String → Mark)) := [("group", .group), ("depends", .depends), ("dataProvider", .dataProvider)]

/-- The tags in front of a description. -/
def describingTags : List String := ["testdox", "testDox"]

/-- The tags that need a text behind them. -/
def leadingTags : List String := namingTags.map Prod.fst ++ describingTags

/-- What the content of a line tells. -/
inductive Conveys : List Char → Option Mark → Prop
  | nothing {text : List Char} (empty : blank text = true) : Conveys text none
  | prose {c : Char} {rest : List Char} (solid : isBlank c = false) (untagged : c ≠ '@') (unstarred : c ≠ '*') :
      Conveys (c :: rest) none
  | other {tag further : List Char} (unbroken : ∀ c ∈ tag, isBlank c = false) (apart : StartsBlank further)
      (unknown : String.ofList tag ∉ "test" :: leadingTags) : Conveys ('@' :: (tag ++ further)) none
  | incomplete {tag : String} {gap : List Char} (known : tag ∈ leadingTags) (empty : blank gap = true) :
      Conveys ('@' :: (tag.toList ++ gap)) none
  | test {further : List Char} (apart : StartsBlank further) : Conveys ('@' :: ("test".toList ++ further)) (some .test)
  | naming {tag : String} {kind : String → Mark} {gap name further : List Char} (known : (tag, kind) ∈ namingTags)
      (spaced : gap ≠ []) (empty : blank gap = true) (filled : name ≠ []) (unbroken : ∀ c ∈ name, isBlank c = false)
      (apart : StartsBlank further) : Conveys ('@' :: (tag.toList ++ (gap ++ (name ++ further)))) (some (kind (String.ofList name)))
  | describing {tag : String} {gap text behind : List Char} (known : tag ∈ describingTags) (spaced : gap ≠ [])
      (empty : blank gap = true) (filled : text ≠ []) (trimmed : trim text = text) (ended : blank behind = true) :
      Conveys ('@' :: (tag.toList ++ (gap ++ (text ++ behind)))) (some (.testdox (String.ofList text)))

namespace Mark

/-- The mark that a tag makes of the text behind it. -/
def ofTag? (tag : String) (text : List Char) : Option Mark :=
  let word := (words text).head?.map String.ofList
  match tag with
  | "test" => some .test
  | "group" => word.map .group
  | "depends" => word.map .depends
  | "dataProvider" => word.map .dataProvider
  | "testdox" | "testDox" => if text.isEmpty then none else some (.testdox (String.ofList text))
  | _ => none

variable {tag : String}

theorem ofTag?_naming {kind : String → Mark} (known : (tag, kind) ∈ namingTags) (text : List Char) :
    ofTag? tag text = (words text).head?.map fun word => kind (String.ofList word) := by
  simp only [namingTags, List.mem_cons, Prod.mk.injEq, List.not_mem_nil, or_false] at known
  rcases known with ⟨rfl, rfl⟩ | ⟨rfl, rfl⟩ | ⟨rfl, rfl⟩ <;> exact Option.map_map ..

theorem ofTag?_describing (known : tag ∈ describingTags) (text : List Char) :
    ofTag? tag text = if text.isEmpty then none else some (.testdox (String.ofList text)) := by
  simp only [describingTags, List.mem_cons, List.not_mem_nil, or_false] at known
  rcases known with rfl | rfl <;> rfl

theorem ofTag?_other (unknown : tag ∉ "test" :: leadingTags) (text : List Char) : ofTag? tag text = none := by
  unfold ofTag?
  split
  all_goals first | rfl | exact absurd (by decide) unknown

theorem ofTag?_incomplete (known : tag ∈ leadingTags) : ofTag? tag [] = none := by
  rcases List.mem_append.mp known with naming | describing
  · obtain ⟨⟨_, kind⟩, member, rfl⟩ := List.mem_map.mp naming
    exact ofTag?_naming member []
  · exact ofTag?_describing describing []

/-- Up to the first blank, the text behind the sign is the tag. -/
theorem ofLine?_tag {tag further : List Char} (unbroken : ∀ c ∈ tag, isBlank c = false) (apart : StartsBlank further) :
    ofLine? ('@' :: (tag ++ further)) = ofTag? (String.ofList tag) (trim further) := by
  have core : trim ((trim ('@' :: (tag ++ further))).dropWhile (· == '*')) = '@' :: (tag ++ trimEnd further) := by
    rw [trim_cons (by decide), List.dropWhile_cons_of_neg (by decide), ← trim_cons (by decide), trim_trim, trim_cons (by decide),
      trimEnd_append_of_unbroken unbroken]
  have inside : ∀ c ∈ tag, (!isBlank c) = true := fun c member => by rw [unbroken c member]; rfl
  have stopped : (trimEnd further).takeWhile (!isBlank ·) = [] ∧ (trimEnd further).dropWhile (!isBlank ·) = trimEnd further := by
    have starts := apart.trimEnd
    cases same : trimEnd further with
    | nil => exact ⟨rfl, rfl⟩
    | cons c rest =>
      have blank : isBlank c = true := starts c (by rw [same]; rfl)
      exact ⟨List.takeWhile_cons_of_neg (by simp [blank]), List.dropWhile_cons_of_neg (by simp [blank])⟩
  rw [ofLine?, core]
  simp only [List.takeWhile_append_of_pos inside, List.dropWhile_append_of_pos inside, stopped, List.append_nil, trim_trimEnd]
  rfl

end Mark

namespace Conveys

variable {content : List Char} {mark : Option Mark}

/-- Nothing is told behind a further star. -/
theorem unstarred (told : Conveys content mark) : (trim content).head? ≠ some '*' := by
  have tagged (text : List Char) : (trim ('@' :: text)).head? ≠ some '*' := by
    rw [trim_cons (by decide)]
    exact fun same => absurd (Option.some.inj same) (by decide)
  cases told with
  | nothing empty => rw [trim_eq_nil empty]; exact nofun
  | prose solid untagged unstarred =>
    rw [trim_cons solid]
    exact fun same => unstarred (Option.some.inj same)
  | other | incomplete | test | naming | describing => exact tagged _

theorem unbroken_of_known {tag : String} (known : tag ∈ "test" :: leadingTags) : ∀ c ∈ tag.toList, isBlank c = false := by
  have plain : ∀ tag ∈ "test" :: leadingTags, tag.toList.any isBlank = false := by decide
  exact fun c member => Bool.eq_false_iff.mpr (List.any_eq_false.mp (plain tag known) c member)

theorem unbroken_of_leading {tag : String} (known : tag ∈ leadingTags) : ∀ c ∈ tag.toList, isBlank c = false :=
  unbroken_of_known (List.mem_cons_of_mem _ known)

theorem ofLine?_eq (told : Conveys content mark) : Mark.ofLine? content = mark := by
  cases told with
  | nothing empty => rw [Mark.ofLine?, trim_eq_nil empty]; rfl
  | @prose c rest solid untagged unstarred =>
    rw [Mark.ofLine?, trim_cons solid, List.dropWhile_cons_of_neg (by simpa using unstarred), ← trim_cons solid, trim_trim,
      trim_cons solid]
    split
    next same => exact absurd (List.cons.inj same).1 untagged
    next => rfl
  | other unbroken apart unknown => rw [Mark.ofLine?_tag unbroken apart, Mark.ofTag?_other unknown]
  | incomplete known empty =>
    rw [Mark.ofLine?_tag (unbroken_of_leading known) (startsBlank_of_blank empty), trim_eq_nil empty, String.ofList_toList,
      Mark.ofTag?_incomplete known]
  | test apart =>
    rw [Mark.ofLine?_tag (unbroken_of_known List.mem_cons_self) apart]
    rfl
  | @naming tag kind gap name further known spaced empty filled unbroken apart =>
    have leading : tag ∈ leadingTags := List.mem_append_left _ (List.mem_map_of_mem known)
    have cut : trim (gap ++ (name ++ further)) = name ++ trimEnd further := by
      obtain ⟨first, rest, rfl⟩ := List.exists_cons_of_ne_nil filled
      rw [trim_blank_append empty, List.cons_append, trim_cons (unbroken first List.mem_cons_self), ← trimEnd_append_of_unbroken unbroken]
      exact (trimEnd_cons (unbroken first List.mem_cons_self) _).symm
    rw [Mark.ofLine?_tag (unbroken_of_leading leading) (startsBlank_append spaced empty), String.ofList_toList,
      Mark.ofTag?_naming known, cut, words_append filled unbroken apart.trimEnd]
    rfl
  | describing known spaced empty filled trimmed ended =>
    rw [Mark.ofLine?_tag (unbroken_of_leading (List.mem_append_right _ known)) (startsBlank_append spaced empty),
      String.ofList_toList, Mark.ofTag?_describing known, trim_blank_append empty, trim_append_blank ended, trimmed,
      if_neg (by simpa using filled)]

end Conveys

/-! ## Decoration -/

theorem dropWhile_star_eq_self {text : List Char} (unstarred : text.head? ≠ some '*') : text.dropWhile (· == '*') = text := by
  cases text with
  | nil => rfl
  | cons c rest => exact List.dropWhile_cons_of_neg fun same => unstarred (congrArg some (eq_of_beq same))

/-- Stars are taken off as long as nothing else stands in front of them. -/
theorem trim_dropWhile_stars {text : List Char} (unstarred : (trim text).head? ≠ some '*') (stars : Nat) :
    trim ((trim (List.replicate stars '*' ++ text)).dropWhile (· == '*')) = trim text := by
  cases stars with
  | zero => rw [List.replicate_zero, List.nil_append, dropWhile_star_eq_self unstarred, trim_trim]
  | succ stars =>
    -- behind a star the blanks in front of the text stay, so that only its end is trimmed
    have ended : trim ((trimEnd (List.replicate stars '*' ++ text)).dropWhile (· == '*')) = trim text := by
      induction stars with
      | zero =>
        have bare : (trimEnd text).head? ≠ some '*' := by
          intro starred
          obtain ⟨rest, same⟩ := List.head?_eq_some_iff.mp starred
          rw [← trim_trimEnd, same, trim_cons (by decide)] at unstarred
          exact unstarred rfl
        rw [List.replicate_zero, List.nil_append, dropWhile_star_eq_self bare, trim_trimEnd]
      | succ stars ih =>
        rw [List.replicate_succ, List.cons_append, trimEnd_cons (by decide), List.dropWhile_cons_of_pos rfl, ih]
    rw [List.replicate_succ, List.cons_append, trim_cons (by decide), List.dropWhile_cons_of_pos rfl, ended]

/-- Blanks within a line. -/
abbrev Spacing := { text : List Char // blank text = true ∧ '\n' ∉ text }

/-- A line break. -/
inductive LineBreak where
  | feed
  | returnFeed

namespace LineBreak

/-- What a line break has in front of its line feed. -/
def before : LineBreak → List Char
  | .feed => []
  | .returnFeed => ['\r']

theorem blank_before (lineBreak : LineBreak) : blank lineBreak.before = true := by
  cases lineBreak <;> rfl

theorem newline_not_mem_before (lineBreak : LineBreak) : '\n' ∉ lineBreak.before := by
  cases lineBreak <;> decide

end LineBreak

theorem unmarked_of_newline_not_mem {text : List Char} (absent : '\n' ∉ text) : ∀ c ∈ text, (c == '\n') = false :=
  fun _ member => beq_eq_false_iff_ne.mpr fun same => absent (same ▸ member)

/-- A line of a docblock as it is written, up to the line break. -/
structure DocblockLine where
  indentation : Spacing
  stars : Nat
  behindStars : Spacing
  content : List Char
  unbroken : '\n' ∉ content
  mark : Option Mark
  told : Conveys content mark
  lineBreak : LineBreak

namespace DocblockLine

variable (line : DocblockLine)

def text : List Char :=
  line.indentation.val ++ (List.replicate line.stars '*' ++ (line.behindStars.val ++ line.content)) ++ line.lineBreak.before

theorem newline_not_mem : '\n' ∉ line.text := by
  have starred : '\n' ∉ List.replicate line.stars '*' := fun member => absurd (List.eq_of_mem_replicate member) (by decide)
  simp [text, line.indentation.property.2, starred, line.behindStars.property.2, line.unbroken,
    line.lineBreak.newline_not_mem_before]

/-- However a line is decorated, it is read for what it tells. -/
theorem ofLine?_text : Mark.ofLine? line.text = line.mark := by
  have content := trim_blank_append line.behindStars.property.1 line.content
  have core : trim ((trim line.text).dropWhile (· == '*')) = trim ((trim line.content).dropWhile (· == '*')) := by
    rw [text, trim_append_blank line.lineBreak.blank_before, trim_blank_append line.indentation.property.1,
      trim_dropWhile_stars (content ▸ line.told.unstarred), content, dropWhile_star_eq_self line.told.unstarred, trim_trim]
  rw [← line.told.ofLine?_eq, Mark.ofLine?, core, Mark.ofLine?]

end DocblockLine

/-! ## Gathering -/

/-- The name or description that a mark gives, if it is of the kind. -/
def Mark.given? (kind : String → Mark) (mark : Mark) : Option String :=
  match mark with
  | .test => none
  | .group text | .depends text | .dataProvider text | .testdox text => if mark = kind text then some text else none

namespace Annotations

/-- What marks tell altogether: each name once, in the order in which the names come up first, and all descriptions. -/
def gathered (marks : List Mark) : Annotations where
  group := (marks.filterMap (Mark.given? .group)).eraseDups
  depends := (marks.filterMap (Mark.given? .depends)).eraseDups
  dataProvider := (marks.filterMap (Mark.given? .dataProvider)).eraseDups
  testdox := marks.filterMap (Mark.given? .testdox)
  isTest := decide (.test ∈ marks)

theorem appendNew_eraseDups (values : List String) (value : String) :
    appendNew values.eraseDups [value] = (values ++ [value]).eraseDups := by
  rw [List.eraseDups_append, appendNew, List.foldl_cons, List.foldl_nil]
  split
  next known =>
    have known : value ∈ values := by simpa using known
    simp [List.removeAll, known]
  next new =>
    have new : value ∉ values := by simpa using new
    simp [List.removeAll, new, List.eraseDups_cons]

theorem gathered_add (marks : List Mark) (mark : Mark) : (gathered marks).add mark = gathered (marks ++ [mark]) := by
  cases mark <;> simp [gathered, add, Mark.given?, appendNew_eraseDups, List.filterMap_append, List.filterMap_cons]

theorem ofMarks_eq_gathered (marks : List Mark) : ofMarks marks = gathered marks := by
  suffices run : ∀ told, marks.foldl add (gathered told) = gathered (told ++ marks) from run []
  intro told
  induction marks generalizing told with
  | nil => rw [List.foldl_nil, List.append_nil]
  | cons mark rest ih => rw [List.foldl_cons, gathered_add, ih, List.append_assoc, List.singleton_append]

end Annotations

/-! ## Docblocks -/

/-- A docblock as it is written, with blanks around it and its delimiters on lines of their own. -/
structure Docblock where
  before : { text : List Char // blank text = true }
  behindOpening : Spacing
  lineBreak : LineBreak
  lines : List DocblockLine
  indentation : Spacing
  after : { text : List Char // blank text = true }

namespace Docblock

variable (block : Docblock)

/-- What stands between the delimiters. -/
def inner : List Char :=
  block.behindOpening.val ++ block.lineBreak.before ++ '\n' :: (block.lines.flatMap (·.text ++ ['\n']) ++ block.indentation.val)

def text : String := String.ofList (block.before.val ++ ("/**".toList ++ (block.inner ++ "*/".toList)) ++ block.after.val)

theorem docblockText_text : Annotations.docblockText block.text.toList = block.inner := by
  have enclosed : "/**".toList ++ (block.inner ++ "*/".toList) = '/' :: (("**".toList ++ (block.inner ++ ['*'])) ++ ['/']) := by simp
  have trimmed : trim block.text.toList = "/**".toList ++ (block.inner ++ "*/".toList) := by
    rw [text, String.toList_ofList, trim_append_blank block.after.property, trim_blank_append block.before.property, enclosed]
    exact trim_enclosed _ (by decide) (by decide)
  rw [Annotations.docblockText, trimmed, after?_append, Option.getD_some, before?_append, Option.getD_some]

theorem filterMap_splitAt {rest : List Char} (lines : List DocblockLine) :
    (splitAt (· == '\n') (lines.flatMap (·.text ++ ['\n']) ++ rest)).filterMap Mark.ofLine? =
      lines.filterMap (·.mark) ++ (splitAt (· == '\n') rest).filterMap Mark.ofLine? := by
  induction lines with
  | nil => rfl
  | cons line lines ih =>
    rw [List.flatMap_cons, List.append_assoc, List.append_assoc, List.singleton_append,
      splitAt_append (unmarked_of_newline_not_mem line.newline_not_mem) rfl, List.filterMap_cons, line.ofLine?_text, ih, List.filterMap_cons]
    cases line.mark <;> rfl

theorem filterMap_lines : (Text.lines block.inner).filterMap Mark.ofLine? = block.lines.filterMap (·.mark) := by
  have returned (line : List Char) : Mark.ofLine? (line ++ ['\r']) = Mark.ofLine? line := by
    rw [Mark.ofLine?, trim_append_blank rfl, Mark.ofLine?]
  have opening : '\n' ∉ block.behindOpening.val ++ block.lineBreak.before := fun member =>
    (List.mem_append.mp member).elim block.behindOpening.property.2 block.lineBreak.newline_not_mem_before
  have opened : Mark.ofLine? (block.behindOpening.val ++ block.lineBreak.before) = none := by
    rw [Mark.ofLine?, trim_append_blank block.lineBreak.blank_before, trim_eq_nil block.behindOpening.property.1]
    rfl
  have closed : Mark.ofLine? block.indentation.val = none := (Conveys.nothing block.indentation.property.1).ofLine?_eq
  rw [Text.filterMap_lines returned rfl, inner, splitAt_append (unmarked_of_newline_not_mem opening) rfl,
    List.filterMap_cons_none opened, filterMap_splitAt, splitAt_eq_singleton (unmarked_of_newline_not_mem block.indentation.property.2),
    List.filterMap_cons_none closed, List.filterMap_nil, List.append_nil]

end Docblock

/-- **What docblocks tell.** However the lines of a docblock are decorated and broken, what they tell is gathered, and nothing else. -/
theorem tags_read_back (block : Docblock) :
    Annotations.ofDocblock block.text = Annotations.gathered (block.lines.filterMap (·.mark)) := by
  rw [Annotations.ofDocblock, block.docblockText_text, block.filterMap_lines, Annotations.ofMarks_eq_gathered]

example : Annotations.ofDocblock "/** \r\n\t** @group slow *tests\n@group\tfast\r\n\n  * Groups of @test\n * @group slow\n */" =
    { group := ["slow", "fast"] } := by
  decide +kernel

/-- The tag in front of a description is known in a second spelling. -/
theorem second_spelling_taken : "testDox" ∉ ["test", "group", "depends", "dataProvider", "testdox"] ∧
    Annotations.ofDocblock "/**\n * @testDox Adds\n */" = { testdox := ["Adds"] } ∧
    Annotations.ofDocblock "/**\n * @testDox Adds\n */" ≠ {} := by
  decide +kernel

end TestScout.Test
