import Mathlib.Data.List.DropRight
import Mathlib.Data.List.Infix
import TestScout.Text.Blank
import TestScout.Text.Piece

/-! Texts that are put together from words, and cut apart again. What is cut at marks has no mark in it, and what is cut at
blanks are the words that were written, as long as nothing in them is blank. Changing the case of letters changes no mark. -/

namespace TestScout.Text

/-! ## Letters -/

/-- The lower case of a letter in upper case, by the numbers of the characters. -/
theorem toNat_toLower {c : Char} (upper : 65 ≤ c.val.toNat ∧ c.val.toNat ≤ 90) : c.toLower.val.toNat = c.val.toNat + 32 := by
  have moved : c.toLower.val = c.val + 32 := congrArg Char.val (dif_pos upper)
  rw [moved, UInt32.toNat_add]
  show (c.val.toNat + 32) % 2 ^ 32 = _
  omega

/-- Only a letter is the lower case of another character. -/
theorem toLower_eq_iff {c mark : Char} (unlettered : mark.isAlpha = false) : c.toLower = mark ↔ c = mark := by
  by_cases upper : 65 ≤ c.val.toNat ∧ c.val.toNat ≤ 90
  · have lettered : ∀ d : Char, 65 ≤ d.val.toNat ∧ d.val.toNat ≤ 90 ∨ 97 ≤ d.val.toNat ∧ d.val.toNat ≤ 122 → d ≠ mark := by
      rintro d letter rfl
      have upper (inside : 65 ≤ d.val.toNat ∧ d.val.toNat ≤ 90) : d.isUpper = true := decide_eq_true inside
      have lower (inside : 97 ≤ d.val.toNat ∧ d.val.toNat ≤ 122) : d.isLower = true :=
        Bool.and_eq_true_iff.mpr (inside.imp (fun least => decide_eq_true least) fun most => decide_eq_true most)
      have alpha : d.isAlpha = true := Bool.or_eq_true_iff.mpr (letter.imp upper lower)
      exact absurd alpha (Bool.eq_false_iff.mp unlettered)
    have moved := toNat_toLower upper
    exact iff_of_false (lettered _ (.inr (by omega))) (lettered _ (.inl upper))
  · rw [show c.toLower = c from dif_neg upper]

/-- A text with its ASCII letters in lower case. -/
def lower (text : List Char) : List Char := text.map Char.toLower

@[simp] theorem lower_append (first second : List Char) : lower (first ++ second) = lower first ++ lower second := List.map_append

/-- Only a text without letters is lower case in one way. -/
theorem lower_eq_iff {text written : List Char} (unlettered : text.any Char.isAlpha = false) : lower written = text ↔ written = text := by
  induction text generalizing written with
  | nil => exact List.map_eq_nil_iff
  | cons c text ih =>
    obtain ⟨here, later⟩ := Bool.or_eq_false_iff.mp (List.any_cons.symm.trans unlettered)
    cases written with
    | nil => exact iff_of_false nofun nofun
    | cons d written =>
      rw [List.cons_eq_cons, ← ih later, ← toLower_eq_iff here]
      exact List.cons_eq_cons

theorem count_lower {mark : Char} (unlettered : mark.isAlpha = false) (text : List Char) : (lower text).count mark = text.count mark := by
  have same : (· == mark) ∘ Char.toLower = (· == mark) := by
    funext c
    rw [Function.comp_apply, Bool.eq_iff_iff, beq_iff_eq, beq_iff_eq, toLower_eq_iff unlettered]
  rw [List.count_eq_countP, List.count_eq_countP, lower, List.countP_map, same]

theorem sameName_iff_lower {first second : String} : sameName first second = true ↔ lower first.toList = lower second.toList := by
  have mapped (text : String) : text.toLower.toList = lower text.toList := String.toList_map
  rw [sameName, beq_iff_eq, ← mapped, ← mapped, String.toList_inj]

/-! ## Pieces between marks -/

variable {front word text : List Char}

/-- A piece between marks has no mark in it. -/
theorem of_mem_splitAt {mark : Char → Bool} {text piece : List Char} (member : piece ∈ splitAt mark text) :
    piece ⊆ text ∧ ∀ c ∈ piece, mark c = false := by
  induction text generalizing piece with
  | nil =>
    rw [List.mem_singleton.mp member]
    exact ⟨List.nil_subset _, nofun⟩
  | cons c rest ih =>
    rw [splitAt] at member
    split at member
    next =>
      rcases List.mem_cons.mp member with rfl | later
      · exact ⟨List.nil_subset _, nofun⟩
      · exact (ih later).imp (List.subset_cons_of_subset _) id
    next plain =>
      have own : mark c = false := by simpa using plain
      split at member
      next =>
        rw [List.mem_singleton.mp member]
        exact ⟨by simp, by simpa using own⟩
      next first others split =>
        rcases List.mem_cons.mp member with rfl | later
        · obtain ⟨inside, unmarked⟩ := ih (split ▸ List.mem_cons_self)
          exact ⟨List.cons_subset_cons _ inside, List.forall_mem_cons.mpr ⟨own, unmarked⟩⟩
        · exact (ih (split ▸ List.mem_cons_of_mem _ later)).imp (List.subset_cons_of_subset _) id

theorem splitAt_eq_singleton {mark : Char → Bool} {text : List Char} (plain : ∀ c ∈ text, mark c = false) :
    splitAt mark text = [text] := by
  induction text with
  | nil => rfl
  | cons c rest ih =>
    obtain ⟨first, others⟩ := List.forall_mem_cons.mp plain
    rw [splitAt, ih others]
    simp [first]

theorem splitAt_append {mark : Char → Bool} {c : Char} (plain : ∀ c ∈ front, mark c = false) (marked : mark c = true) :
    splitAt mark (front ++ c :: text) = front :: splitAt mark text := by
  induction front with
  | nil => simp [splitAt, marked]
  | cons first rest ih =>
    obtain ⟨here, later⟩ := List.forall_mem_cons.mp plain
    rw [List.cons_append, splitAt, ih later]
    simp [here]

theorem splitOnce_append {c : Char} {marker : List Char} (absent : c ∉ front) :
    splitOnce (c :: marker) (front ++ (c :: marker ++ text)) = some (front, text) := by
  induction front with
  | nil =>
    rw [List.nil_append, List.cons_append, splitOnce, ← List.cons_append, after?_append]
  | cons first rest ih =>
    obtain ⟨here, later⟩ := not_or.mp (mt List.mem_cons.mpr absent)
    rw [List.cons_append, splitOnce, after?, if_neg here, ih later]
    rfl

theorem splitOnce_eq_none {c : Char} (absent : c ∉ text) (marker : List Char) : splitOnce (c :: marker) text = none := by
  induction text with
  | nil => rfl
  | cons first rest ih =>
    obtain ⟨here, later⟩ := not_or.mp (mt List.mem_cons.mpr absent)
    rw [splitOnce, after?, if_neg here, ih later]
    rfl

theorem before?_append (text ending : List Char) : before? ending (text ++ ending) = some text := by
  rw [before?, List.reverse_append, after?_append, Option.map_some, List.reverse_reverse]

/-- Without the mark in it, the end of a text is the end of what follows the last mark. -/
theorem suffix_lastPiece_iff {mark : Char} {ending : List Char} (unmarked : mark ∉ ending) : ending <:+ lastPiece mark text ↔ ending <:+ text := by
  have last : lastPiece mark text <:+ text := by
    rw [lastPiece, ← List.reverse_prefix, List.reverse_reverse]
    exact List.takeWhile_prefix _
  refine ⟨fun inside => inside.trans last, ?_⟩
  rintro ⟨before, rfl⟩
  rw [lastPiece, List.reverse_append, List.takeWhile_append_of_pos, List.reverse_append, List.reverse_reverse]
  · exact List.suffix_append _ _
  · exact fun c member => bne_iff_ne.mpr fun same => unmarked (same ▸ List.mem_reverse.mp member)

/-- Behind a mark stands all that follows the last mark. -/
theorem lastPiece_append (mark : Char) (front text : List Char) : lastPiece mark (front ++ mark :: text) = lastPiece mark text := by
  rw [lastPiece, lastPiece, List.reverse_append, List.reverse_cons, List.append_assoc, List.takeWhile_append, List.singleton_append,
    List.takeWhile_cons_of_neg (by simp), List.append_nil]
  split
  next whole => rw [(List.takeWhile_prefix _).eq_of_length whole]
  next => rfl

theorem lastPiece_eq_self {mark : Char} (absent : mark ∉ text) : lastPiece mark text = text := by
  have passed : ∀ c ∈ text.reverse, (c != mark) = true := fun c member =>
    bne_iff_ne.mpr fun same => absent (same ▸ List.mem_reverse.mp member)
  rw [lastPiece, List.takeWhile_eq_self_iff.mpr passed, List.reverse_reverse]

theorem lower_lastPiece {mark : Char} (unlettered : mark.isAlpha = false) (text : List Char) :
    lower (lastPiece mark text) = lastPiece mark (lower text) := by
  have same : (· != mark) ∘ Char.toLower = (· != mark) := by
    funext c
    rw [Function.comp_apply, bne, bne, Bool.not_inj_iff, Bool.eq_iff_iff, beq_iff_eq, beq_iff_eq, toLower_eq_iff unlettered]
  rw [lower, lower, lastPiece, lastPiece, ← List.map_reverse, List.takeWhile_map, same, List.map_reverse]

theorem mem_intercalate {segments : List (List Char)} {c mark : Char} (member : c ∈ [mark].intercalate segments) :
    c = mark ∨ ∃ segment ∈ segments, c ∈ segment := by
  induction segments with
  | nil => cases member
  | cons first rest ih =>
    cases rest with
    | nil =>
      rw [List.intercalate_singleton] at member
      exact .inr ⟨first, List.mem_cons_self, member⟩
    | cons second rest =>
      rw [List.intercalate_cons_cons, List.append_assoc, List.mem_append, List.singleton_append, List.mem_cons] at member
      rcases member with here | rfl | later
      · exact .inr ⟨first, List.mem_cons_self, here⟩
      · exact .inl rfl
      · exact (ih later).imp_right fun ⟨segment, inside, found⟩ => ⟨segment, List.mem_cons_of_mem _ inside, found⟩

/-- Names that are put together end in the last of them. -/
theorem exists_suffix_intercalate {names : List (List Char)} (filled : names ≠ []) (separator : List Char) :
    ∃ name ∈ names, name <:+ separator.intercalate names := by
  induction names with
  | nil => exact absurd rfl filled
  | cons first rest ih =>
    cases rest with
    | nil => exact ⟨first, List.mem_cons_self, by rw [List.intercalate_singleton]⟩
    | cons second rest =>
      obtain ⟨name, member, ends⟩ := ih (List.cons_ne_nil _ _)
      refine ⟨name, List.mem_cons_of_mem _ member, ?_⟩
      rw [List.intercalate_cons_cons]
      exact ends.trans (List.suffix_append _ _)

/-- Each of several names that are put together stands between two marks. -/
theorem infix_intercalate {mark : Char} {name : List Char} {names : List (List Char)} (member : name ∈ names) :
    mark :: name ++ [mark] <:+: mark :: [mark].intercalate names ++ [mark] := by
  induction names with
  | nil => cases member
  | cons first rest ih =>
    cases rest with
    | nil => rw [List.mem_singleton.mp member, List.intercalate_singleton]
    | cons second rest =>
      rw [List.intercalate_cons_cons]
      rcases List.mem_cons.mp member with rfl | later
      · exact ⟨[], [mark].intercalate (second :: rest) ++ [mark], by simp⟩
      · exact (ih later).trans ⟨mark :: first, [], by simp⟩

/-- What is read from the lines of a text is read from what stands between the line feeds, if the carriage returns at the ends
make no difference. -/
theorem filterMap_lines {α : Type} {read : List Char → Option α} (returned : ∀ line, read (line ++ ['\r']) = read line)
    (empty : read [] = none) (text : List Char) : (lines text).filterMap read = (splitAt (· == '\n') text).filterMap read := by
  have closed (line : List Char) : read ((before? ['\r'] line).getD line) = read line := by
    cases found : before? ['\r'] line with
    | none => rfl
    | some rest =>
      obtain ⟨reversed, ends, rfl⟩ := Option.map_eq_some_iff.mp found
      have whole : line = reversed.reverse ++ ['\r'] := by
        rw [← List.reverse_reverse line, eq_append_of_after? ends, List.reverse_append]
        rfl
      rw [whole, returned, Option.getD_some]
  have filled : splitAt (· == '\n') text ≠ [] := by
    cases text with
    | nil => exact List.cons_ne_nil _ _
    | cons c rest =>
      rw [splitAt]
      split
      · exact List.cons_ne_nil _ _
      · split <;> exact List.cons_ne_nil _ _
  obtain ⟨others, last, split⟩ := (List.eq_nil_or_concat _).resolve_left filled
  rw [lines, split, List.concat_eq_append, List.dropLast_concat, List.getLast?_concat]
  have front : (others.map fun line => (before? ['\r'] line).getD line).filterMap read = others.filterMap read := by
    rw [List.filterMap_map]
    exact List.filterMap_congr fun line _ => closed line
  cases last with
  | nil => simp only [List.filterMap_append, front, List.filterMap_cons_none empty, List.filterMap_nil, List.append_nil]
  | cons c rest => simp only [List.filterMap_append, front]

/-! ## The ends of a text -/

theorem dropEndWhile_append_of_pos {condition : Char → Bool} {ending : List Char} (dropped : ∀ c ∈ ending, condition c = true) :
    dropEndWhile condition (text ++ ending) = dropEndWhile condition text := by
  rw [dropEndWhile, List.reverse_append, List.dropWhile_append_of_pos fun c member => dropped c (List.mem_reverse.mp member)]
  rfl

theorem dropEndWhile_append {condition : Char → Bool} (filled : word ≠ []) (kept : ∀ c ∈ word, condition c = false) :
    dropEndWhile condition (front ++ word) = front ++ word := by
  obtain ⟨before, last, rfl⟩ := List.eq_nil_or_concat word |>.resolve_left filled
  rw [dropEndWhile, List.concat_eq_append, ← List.append_assoc, List.reverse_append, List.reverse_singleton,
    List.singleton_append, List.dropWhile_cons_of_neg (by simp [kept last]), List.reverse_cons, List.reverse_reverse]

theorem trim_eq_nil (blank : blank text = true) : trim text = [] := by
  rw [trim, trimStart, List.dropWhile_eq_nil_iff.mpr (List.all_eq_true.mp blank)]
  rfl

theorem trim_blank_append (blank : blank front = true) (text : List Char) : trim (front ++ text) = trim text := by
  rw [trim, trimStart, List.dropWhile_append_of_pos (List.all_eq_true.mp blank)]
  rfl

theorem trim_append_blank {ending : List Char} (blank : blank ending = true) (text : List Char) : trim (text ++ ending) = trim text := by
  have dropped := List.all_eq_true.mp blank
  rw [trim, trimStart, List.dropWhile_append]
  split
  next empty =>
    rw [List.dropWhile_eq_nil_iff.mpr dropped, trim, trimStart, List.isEmpty_iff.mp empty]
  next => exact dropEndWhile_append_of_pos dropped

/-- What is not blank ends the blanks in front. -/
theorem trimStart_append_cons {c : Char} (solid : isBlank c = false) (front text : List Char) :
    trimStart (front ++ c :: text) = trimStart front ++ c :: text := by
  rw [trimStart, List.dropWhile_append]
  split
  next empty => rw [List.dropWhile_cons_of_neg (by simp [solid]), trimStart, List.isEmpty_iff.mp empty, List.nil_append]
  next => rfl

/-- What is not blank ends the blanks at the end. -/
theorem trimEnd_cons {c : Char} (solid : isBlank c = false) (text : List Char) : trimEnd (c :: text) = c :: trimEnd text := by
  rw [trimEnd, dropEndWhile, List.reverse_cons, List.dropWhile_append]
  split
  next empty =>
    rw [List.dropWhile_cons_of_neg (Bool.eq_false_iff.mp solid), trimEnd, dropEndWhile, List.isEmpty_iff.mp empty]
    rfl
  next => rw [List.reverse_append]; rfl

/-- Behind a word, the end of a text is trimmed for itself. -/
theorem trimEnd_append_of_unbroken {word : List Char} (unbroken : ∀ c ∈ word, isBlank c = false) (text : List Char) :
    trimEnd (word ++ text) = word ++ trimEnd text := by
  induction word with
  | nil => rfl
  | cons c word ih =>
    obtain ⟨here, later⟩ := List.forall_mem_cons.mp unbroken
    rw [List.cons_append, trimEnd_cons here, ih later, List.cons_append]

theorem trim_cons {c : Char} (solid : isBlank c = false) (text : List Char) : trim (c :: text) = c :: trimEnd text := by
  rw [trim, trimStart, List.dropWhile_cons_of_neg (Bool.eq_false_iff.mp solid), trimEnd_cons solid]

theorem exists_trimEnd_append (text : List Char) : ∃ ending, blank ending = true ∧ text = trimEnd text ++ ending := by
  refine ⟨(text.reverse.takeWhile isBlank).reverse, ?_, ?_⟩
  · rw [blank, List.all_reverse]
    exact List.all_takeWhile
  · rw [trimEnd, dropEndWhile, ← List.reverse_append, List.takeWhile_append_dropWhile, List.reverse_reverse]

@[simp] theorem trim_trimEnd (text : List Char) : trim (trimEnd text) = trim text := by
  obtain ⟨ending, blank, split⟩ := exists_trimEnd_append text
  conv_rhs => rw [split]
  exact (trim_append_blank blank _).symm

@[simp] theorem trim_trimStart (text : List Char) : trim (trimStart text) = trim text := by
  rw [trim, trimStart, trimStart, List.dropWhile_idempotent, trim, trimStart]

theorem trim_sublist (text : List Char) : List.Sublist (trim text) text :=
  (List.rdropWhile_prefix _ _).sublist.trans (List.dropWhile_suffix _).sublist

@[simp] theorem trim_trim (text : List Char) : trim (trim text) = trim text := by
  have started : trimStart (trim text) = trim text := by
    obtain ⟨ending, split⟩ : trim text <+: trimStart text := List.rdropWhile_prefix _ _
    cases same : trim text with
    | nil => rfl
    | cons c rest =>
      have solid := List.head?_dropWhile_not isBlank text
      rw [← trimStart, ← split, same] at solid
      exact List.dropWhile_cons_of_neg (Bool.eq_false_iff.mp solid)
  rw [trim, started]
  exact List.rdropWhile_idempotent _ _

/-- Blanks end in front of a text that starts and ends with something that is not blank. -/
theorem trim_append_enclosed {first last : Char} (start : isBlank first = false) (finish : isBlank last = false)
    (front inner : List Char) : trim (front ++ first :: (inner ++ [last])) = trimStart front ++ first :: (inner ++ [last]) := by
  rw [trim, trimStart_append_cons start, ← List.cons_append, ← List.append_assoc]
  exact dropEndWhile_append (List.cons_ne_nil last []) fun c member => List.mem_singleton.mp member ▸ finish

/-- Nothing is taken off a text that starts and ends with something that is not blank. -/
theorem trim_enclosed {first last : Char} (inner : List Char) (start : isBlank first = false) (finish : isBlank last = false) :
    trim (first :: (inner ++ [last])) = first :: (inner ++ [last]) := trim_append_enclosed start finish [] inner

theorem isBlank_of_trim {c : Char} {text : List Char} (trimmed : trim (c :: text) = c :: text) : isBlank c = false := by
  by_contra blank
  have shorter : (trim (c :: text)).length ≤ text.length := by
    rw [trim, trimStart, List.dropWhile_cons_of_pos (by simpa using blank)]
    exact (List.rdropWhile_prefix _ _).length_le.trans (List.dropWhile_suffix _).length_le
  rw [trimmed, List.length_cons] at shorter
  omega

/-! ## Words between blanks -/

/-- A word that a text can be cut into: there is something in it, but no blank and no semicolon. -/
def Solid (word : List Char) : Prop := word ≠ [] ∧ ∀ c ∈ word, isBlank c = false ∧ c ≠ ';'

theorem Solid.unbroken (solid : Solid word) : ∀ c ∈ word, isBlank c = false := fun c member => (solid.2 c member).1

theorem Solid.append {more : List Char} (solid : Solid word) (inside : ∀ c ∈ more, isBlank c = false ∧ c ≠ ';') :
    Solid (word ++ more) := by
  refine ⟨List.append_ne_nil_of_left_ne_nil solid.1 more, fun c member => ?_⟩
  rcases List.mem_append.mp member with own | further
  · exact solid.2 c own
  · exact inside c further

theorem Solid.trimStart (solid : Solid word) (text : List Char) : trimStart (word ++ text) = word ++ text := by
  obtain ⟨filled, unbroken⟩ := solid
  cases word with
  | nil => exact absurd rfl filled
  | cons first rest => exact List.dropWhile_cons_of_neg (by simp [unbroken first])

/-- What is blank around a word is cut off. -/
theorem Solid.trim (solid : Solid word) (blank : ∀ c ∈ front, isBlank c = true) : trim (front ++ word) = word := by
  have cut : Text.trimStart (front ++ word) = word := by
    have own := solid.trimStart []
    rw [List.append_nil] at own
    rw [Text.trimStart, List.dropWhile_append_of_pos blank]
    exact own
  have kept : dropEndWhile isBlank ([] ++ word) = [] ++ word := dropEndWhile_append solid.1 fun c member => (solid.2 c member).1
  rw [Text.trim, cut]
  exact kept

section

variable {c next : Char}

theorem words_blank (blank : isBlank c = true) (text : List Char) : words (c :: text) = words text := by
  show (if isBlank c = true then words text else _) = words text
  rw [if_pos blank]

theorem words_singleton (here : isBlank c = false) : words [c] = [[c]] := by
  show (if isBlank c = true then [] else [[c]]) = [[c]]
  rw [here, if_neg Bool.false_ne_true]

/-- A word ends in front of a blank. -/
theorem words_cut (here : isBlank c = false) (blank : isBlank next = true) (text : List Char) :
    words (c :: next :: text) = [c] :: words (next :: text) := by
  show (if isBlank c = true then _ else if isBlank next = true then [c] :: words (next :: text) else _) = _
  rw [here, if_neg Bool.false_ne_true, if_pos blank]

/-- A word goes on in front of anything else. -/
theorem words_join (here : isBlank c = false) (unbroken : isBlank next = false) {others : List (List Char)}
    (further : words (next :: text) = word :: others) : words (c :: next :: text) = (c :: word) :: others := by
  show (if isBlank c = true then _ else if isBlank next = true then _ else _) = _
  rw [here, unbroken, if_neg Bool.false_ne_true, if_neg Bool.false_ne_true, further]

end

/-- A word is cut off where the text goes on with a blank, and where it ends. -/
theorem words_append (filled : word ≠ []) (unbroken : ∀ c ∈ word, isBlank c = false) (cut : ∀ c ∈ text.head?, isBlank c = true) :
    words (word ++ text) = word :: words text := by
  induction word with
  | nil => exact absurd rfl filled
  | cons first rest ih =>
    obtain ⟨here, later⟩ := List.forall_mem_cons.mp unbroken
    cases rest with
    | nil =>
      cases text with
      | nil => exact words_singleton here
      | cons next text => exact words_cut here (cut next rfl) text
    | cons second rest => exact words_join here (later second List.mem_cons_self) (ih (List.cons_ne_nil _ _) later)

theorem words_intercalate {tokens : List (List Char)} (solid : ∀ token ∈ tokens, Solid token) :
    words ([' '].intercalate tokens) = tokens := by
  induction tokens with
  | nil => rfl
  | cons first rest ih =>
    obtain ⟨here, later⟩ := List.forall_mem_cons.mp solid
    cases rest with
    | nil =>
      have alone : words (first ++ []) = first :: words [] := words_append here.1 here.unbroken nofun
      rw [List.append_nil] at alone
      rw [List.intercalate_singleton]
      exact alone
    | cons second rest =>
      have cut : ∀ c ∈ (' ' :: [' '].intercalate (second :: rest)).head?, isBlank c = true := by
        rintro c ⟨⟩
        rfl
      rw [List.intercalate_cons_cons, List.append_assoc, List.singleton_append, words_append here.1 here.unbroken cut,
        words_blank rfl, ih later]

/-- Nothing is cut off a text that starts and ends with a word. -/
theorem trim_intercalate {tokens : List (List Char)} (filled : tokens ≠ []) (solid : ∀ token ∈ tokens, Solid token) :
    trim (dropEndWhile (· == ';') (trim ([' '].intercalate tokens))) = [' '].intercalate tokens := by
  obtain ⟨last, inside, front, same⟩ := exists_suffix_intercalate filled [' ']
  have ending := solid last inside
  have started : trimStart ([' '].intercalate tokens) = [' '].intercalate tokens := by
    cases tokens with
    | nil => exact absurd rfl filled
    | cons first rest =>
      have here := solid first List.mem_cons_self
      cases rest with
      | nil => simpa using here.trimStart []
      | cons second rest =>
        rw [List.intercalate_cons_cons, List.append_assoc]
        exact here.trimStart _
  have trimmed : trim ([' '].intercalate tokens) = [' '].intercalate tokens := by
    rw [trim, started, ← same]
    exact dropEndWhile_append ending.1 fun c member => (ending.2 c member).1
  have closed : dropEndWhile (· == ';') ([' '].intercalate tokens) = [' '].intercalate tokens := by
    rw [← same]
    exact dropEndWhile_append ending.1 fun c member => by simpa using (ending.2 c member).2
  rw [trimmed, closed, trimmed]

/-- The pieces between commas, each with a blank behind it, are the words that were written. -/
theorem map_trim_splitAt {names : List (List Char)} (filled : names ≠ [])
    (solid : ∀ name ∈ names, Solid name ∧ ',' ∉ name) (blank : ∀ c ∈ front, c = ' ') :
    (splitAt (· == ',') (front ++ [',', ' '].intercalate names)).map trim = names := by
  induction names generalizing front with
  | nil => exact absurd rfl filled
  | cons first rest ih =>
    obtain ⟨⟨here, plain⟩, later⟩ := List.forall_mem_cons.mp solid
    have own : trim (front ++ first) = first := here.trim fun c member => by rw [blank c member]; rfl
    have unmarked : ∀ c ∈ front ++ first, (c == ',') = false := by
      intro c member
      rcases List.mem_append.mp member with before | inside
      · rw [blank c before]
        rfl
      · exact beq_eq_false_iff_ne.mpr fun same => plain (same ▸ inside)
    cases rest with
    | nil => rw [List.intercalate_singleton, splitAt_eq_singleton unmarked, List.map_singleton, own]
    | cons second rest =>
      have further := ih (List.cons_ne_nil _ _) later (List.forall_mem_singleton.mpr rfl : ∀ c ∈ [' '], c = ' ')
      rw [List.intercalate_cons_cons, List.append_assoc, ← List.append_assoc, List.cons_append, splitAt_append unmarked rfl,
        List.map_cons, own, further]

/-- Words that are listed with commas can be cut at the blanks, where each comma stays with the word in front of it. -/
theorem exists_tokens {names : List (List Char)} (filled : names ≠ []) (solid : ∀ name ∈ names, Solid name) :
    ∃ tokens, tokens ≠ [] ∧ (∀ token ∈ tokens, Solid token) ∧ [' '].intercalate tokens = [',', ' '].intercalate names := by
  induction names with
  | nil => exact absurd rfl filled
  | cons first rest ih =>
    obtain ⟨here, later⟩ := List.forall_mem_cons.mp solid
    cases rest with
    | nil => exact ⟨[first], List.cons_ne_nil _ _, solid, rfl⟩
    | cons second rest =>
      obtain ⟨tokens, some, further, same⟩ := ih (List.cons_ne_nil _ _) later
      have comma : Solid (first ++ [',']) := here.append (List.forall_mem_singleton.mpr ⟨rfl, by decide⟩)
      obtain ⟨token, others, rfl⟩ := List.exists_cons_of_ne_nil some
      refine ⟨(first ++ [',']) :: token :: others, List.cons_ne_nil _ _, List.forall_mem_cons.mpr ⟨comma, further⟩, ?_⟩
      rw [List.intercalate_cons_cons, List.intercalate_cons_cons, same, List.append_assoc first]
      rfl

end TestScout.Text
