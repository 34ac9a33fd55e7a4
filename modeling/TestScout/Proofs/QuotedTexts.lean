import Mathlib.Data.List.Basic
import TestScout.Proofs.TextWords
import TestScout.Source.Quoted

/-! Literals in quotes and the texts they stand for. The backslashes in front of a character pair up from the left, and one that
is left over escapes the character. A reading that always takes two characters together comes to the same pairs, for only a
backslash opens one. -/

namespace TestScout.Source.Quoted
open Text

variable {quote c : Char} {body value text : List Char}

/-! ## Enclosed texts -/

theorem solid_of_isQuote (isQuote : isQuote quote = true) : isBlank quote = false := by
  simp only [Quoted.isQuote, Bool.or_eq_true, beq_iff_eq] at isQuote
  rcases isQuote with rfl | rfl <;> decide

theorem decode_enclosed (isQuote : isQuote quote = true) (body : List Char) :
    decode (quote :: (body ++ [quote])) = unescape quote body := by
  have solid := solid_of_isQuote isQuote
  rw [decode, trim_enclosed _ solid solid]
  simp [isQuote]

theorem encode_eq (quote : Char) (value : List Char) : encode quote value = quote :: (escape quote value ++ [quote]) := rfl

theorem decode_encode (isQuote : isQuote quote = true) (value : List Char) : decode (encode quote value) = value := by
  rw [encode_eq, decode_enclosed isQuote, unescape_escape]

/-- What does not start with a quote stands for itself. -/
theorem decode_bare (bare : isQuote c = false) (trimmed : trim (c :: text) = c :: text) : decode (c :: text) = c :: text := by
  rw [decode, trimmed]
  simp [bare]

theorem length_le_encode (quote : Char) (value : List Char) : value.length < (encode quote value).length := by
  suffices longer : value.length ≤ (escape quote value).length by
    rw [encode_eq, List.length_cons, List.length_append]
    omega
  induction value with
  | nil => exact Nat.le_refl 0
  | cons c value ih =>
    rw [escape]
    split <;> simp only [List.length_cons] <;> omega

/-! ## Escaped characters -/

/-- How many backslashes stand at the end of a text. -/
def backslashes (text : List Char) : Nat := (text.reverse.takeWhile (· == '\\')).length

/-- Behind a text a character is escaped when the backslashes at the end of the text do not all pair up. -/
def Escapes (front : List Char) : Prop := backslashes front % 2 = 1

instance : DecidablePred Escapes := fun _ => inferInstanceAs (Decidable (_ = _))

theorem backslashes_append_cons (other : c ≠ '\\') (front text : List Char) :
    backslashes (front ++ c :: text) = backslashes text := by
  have stops : (c :: front.reverse).takeWhile (· == '\\') = [] := List.takeWhile_cons_of_neg (by simpa using other)
  rw [backslashes, List.reverse_append, List.reverse_cons, List.append_assoc, List.singleton_append, List.takeWhile_append, stops]
  split
  next whole => rw [List.append_nil, List.length_reverse, ← List.length_reverse, ← whole, backslashes]
  next => rfl

theorem escapes_cons (other : c ≠ '\\') : Escapes (c :: text) ↔ Escapes text := by
  rw [Escapes, Escapes, show c :: text = [] ++ c :: text from rfl, backslashes_append_cons other]

/-- Two characters of which the first is a backslash leave the text behind them as it is. -/
theorem escapes_pair (c : Char) (text : List Char) : Escapes ('\\' :: c :: text) ↔ Escapes text := by
  by_cases other : c = '\\'
  · subst other
    have two : ('\\' :: '\\' :: text).reverse = text.reverse ++ ['\\', '\\'] := by simp
    rw [Escapes, Escapes, backslashes, two, List.takeWhile_append]
    split
    next whole => rw [List.length_append, ← whole, backslashes]; simp
    next => rw [backslashes]
  · rw [Escapes, Escapes, show '\\' :: c :: text = ['\\'] ++ c :: text from rfl, backslashes_append_cons other]

/-- The inside of a literal: every quote in it is escaped, and the closing one behind it is not. -/
structure IsInside (quote : Char) (body : List Char) : Prop where
  escaped : ∀ front, front ++ [quote] <+: body → Escapes front
  closed : ¬Escapes body

theorem isInside_iff_inits :
    IsInside quote body ↔ (∀ front ∈ body.inits, front ++ [quote] <+: body → Escapes front) ∧ ¬Escapes body := by
  refine ⟨fun inside => ⟨fun front _ => inside.escaped front, inside.closed⟩, fun inside => ⟨fun front starts => ?_, inside.2⟩⟩
  exact inside.1 front ((List.mem_inits front body).mpr ((List.prefix_append front [quote]).trans starts)) starts

instance : DecidablePred (IsInside quote) := fun _ => decidable_of_iff' _ isInside_iff_inits

theorem isInside_nil (quote : Char) : IsInside quote [] where
  escaped front starts := by simpa using List.prefix_nil.mp starts
  closed := by decide

theorem isInside_cons (other : c ≠ '\\') : IsInside quote (c :: body) ↔ c ≠ quote ∧ IsInside quote body := by
  constructor
  · rintro ⟨escaped, closed⟩
    refine ⟨?_, fun front starts => ?_, (escapes_cons other).not.mp closed⟩
    · rintro rfl
      exact absurd (escaped [] (List.prefix_append [c] body)) (by decide)
    · exact (escapes_cons other).mp (escaped (c :: front) (List.cons_prefix_cons.mpr ⟨rfl, starts⟩))
  · rintro ⟨unlike, escaped, closed⟩
    refine ⟨fun front starts => ?_, (escapes_cons other).not.mpr closed⟩
    cases front with
    | nil => exact absurd (List.cons_prefix_cons.mp starts).1.symm unlike
    | cons d front =>
      obtain ⟨rfl, later⟩ := List.cons_prefix_cons.mp starts
      exact (escapes_cons other).mpr (escaped front later)

theorem isInside_pair (unlike : quote ≠ '\\') (c : Char) (body : List Char) :
    IsInside quote ('\\' :: c :: body) ↔ IsInside quote body := by
  constructor
  · rintro ⟨escaped, closed⟩
    refine ⟨fun front starts => ?_, (escapes_pair c body).not.mp closed⟩
    refine (escapes_pair c front).mp (escaped ('\\' :: c :: front) ?_)
    exact List.cons_prefix_cons.mpr ⟨rfl, List.cons_prefix_cons.mpr ⟨rfl, starts⟩⟩
  · rintro ⟨escaped, closed⟩
    refine ⟨fun front starts => ?_, (escapes_pair c body).not.mpr closed⟩
    match front with
    | [] => exact absurd (List.cons_prefix_cons.mp starts).1 unlike
    | [d] =>
      obtain ⟨rfl, -⟩ := List.cons_prefix_cons.mp starts
      decide
    | d :: e :: front =>
      obtain ⟨rfl, further⟩ := List.cons_prefix_cons.mp starts
      obtain ⟨rfl, later⟩ := List.cons_prefix_cons.mp further
      exact (escapes_pair e front).mpr (escaped front later)

/-! ## Values -/

/-- The text that the inside of a literal stands for. An escaped quote and a doubled backslash are replaced, and every other
backslash stands for itself. -/
inductive Denotes (quote : Char) : (body value : List Char) → Prop where
  | nil : Denotes quote [] []
  | escaped {c : Char} {body value : List Char} (special : c = quote ∨ c = '\\') (further : Denotes quote body value) :
      Denotes quote ('\\' :: c :: body) (c :: value)
  | kept {c : Char} {body value : List Char} (plain : ¬(c = quote ∨ c = '\\')) (further : Denotes quote body value) :
      Denotes quote ('\\' :: c :: body) ('\\' :: c :: value)
  | plain {c : Char} {body value : List Char} (plain : ¬(c = quote ∨ c = '\\')) (further : Denotes quote body value) :
      Denotes quote (c :: body) (c :: value)

/-- What quoting writes stands for what was quoted. -/
theorem denotes_escape (quote : Char) (text : List Char) : Denotes quote (escape quote text) text := by
  induction text with
  | nil => exact .nil
  | cons c text ih =>
    rw [escape]
    split
    next special => exact .escaped special ih
    next plain => exact .plain plain ih

theorem unescape_cons (other : c ≠ '\\') (text : List Char) : unescape quote (c :: text) = c :: unescape quote text := by
  rw [unescape]
  exact fun _ _ same => absurd same other

/-- The reading comes to what a literal stands for. -/
theorem Denotes.unescape_eq (denotes : Denotes quote body value) : unescape quote body = value := by
  induction denotes with
  | nil => rfl
  | escaped special _ ih => rw [unescape, if_pos special, ih]
  | kept plain _ ih => rw [unescape, if_neg plain, unescape_cons (not_or.mp plain).2, ih]
  | plain plain _ ih => rw [unescape_cons (not_or.mp plain).2, ih]

theorem Denotes.isInside (unlike : quote ≠ '\\') (denotes : Denotes quote body value) : IsInside quote body := by
  induction denotes with
  | nil => exact isInside_nil quote
  | escaped _ _ ih | kept _ _ ih => exact (isInside_pair unlike _ _).mpr ih
  | plain plain _ ih =>
    obtain ⟨apart, other⟩ := not_or.mp plain
    exact (isInside_cons other).mpr ⟨apart, ih⟩

/-- Whatever can be the inside of a literal stands for a text. -/
theorem IsInside.denotes (unlike : quote ≠ '\\') (inside : IsInside quote body) : Denotes quote body (unescape quote body) := by
  fun_induction unescape quote body with
  | case1 => exact .nil
  | case2 c rest special ih => exact .escaped special (ih ((isInside_pair unlike c rest).mp inside))
  | case3 c rest plain ih =>
    obtain ⟨apart, other⟩ := not_or.mp plain
    have below := (isInside_pair unlike c rest).mp inside
    -- the reading goes on at the character behind the backslash, which opens no pair of its own
    have further := ih ((isInside_cons other).mpr ⟨apart, below⟩)
    rw [unescape_cons other] at further ⊢
    generalize unescape quote rest = value at further ⊢
    cases further with
    | plain _ further => exact .kept plain further
    | escaped _ _ | kept _ _ => exact absurd rfl other
  | case4 c rest unpaired ih =>
    have other : c ≠ '\\' := by
      rintro rfl
      cases rest with
      | nil => exact inside.closed (by decide)
      | cons d rest => exact unpaired d rest rfl rfl
    obtain ⟨apart, below⟩ := (isInside_cons other).mp inside
    exact .plain (not_or.mpr ⟨apart, other⟩) (ih below)

/-- A text is what a literal stands for if it is what the reading comes to and the literal is closed. -/
theorem denotes_iff (unlike : quote ≠ '\\') : Denotes quote body value ↔ IsInside quote body ∧ unescape quote body = value := by
  constructor
  · exact fun denotes => ⟨denotes.isInside unlike, denotes.unescape_eq⟩
  · rintro ⟨inside, rfl⟩
    exact inside.denotes unlike

/-! ## Reading back -/

theorem unquote_enclosed (isQuote : isQuote quote = true) {raw : String} (enclosed : raw.toList = quote :: (body ++ [quote])) :
    unquote raw = String.ofList (unescape quote body) := by
  rw [unquote, enclosed, decode_enclosed isQuote]

/-- **Unquoting undoes quoting.** A text that is written in quotes of either kind is read back, and what any literal in single
quotes stands for is what is read. -/
theorem unquote_denoted :
    (∀ quote : Char, isQuote quote = true → ∀ text : String,
      Denotes quote (escape quote text.toList) text.toList ∧ unquote (String.ofList (encode quote text.toList)) = text) ∧
    ∀ body : String, IsInside '\x27' body.toList → ∀ value : String,
      Denotes '\x27' body.toList value.toList ↔ unquote ("'" ++ body ++ "'") = value := by
  constructor
  · intro quote isQuote text
    have denotes := denotes_escape quote text.toList
    have enclosed : (String.ofList (encode quote text.toList)).toList = quote :: (escape quote text.toList ++ [quote]) := by
      rw [String.toList_ofList, encode_eq]
    refine ⟨denotes, ?_⟩
    rw [unquote_enclosed isQuote enclosed, denotes.unescape_eq, String.ofList_toList]
  · intro body inside value
    have enclosed : ("'" ++ body ++ "'").toList = '\x27' :: (body.toList ++ ['\x27']) := by
      rw [String.toList_append, String.toList_append]
      rfl
    rw [denotes_iff (by decide), unquote_enclosed rfl enclosed, ← String.toList_inj, String.toList_ofList]
    exact and_iff_right inside

private def windowsPath : String := "it\\'s C:\\\\new\\dir\\\\\\' \\\\"

/-- Backslashes in a row are paired in front of quotes, in front of other characters and at the end. -/
theorem paired_backslashes_unquoted :
    isQuote '"' = true ∧ unquote "\"\\\\\\\"\\\\n'\\\\\"" = "\\\"\\n'\\" ∧
      IsInside '\x27' windowsPath.toList ∧ Denotes '\x27' windowsPath.toList "it's C:\\new\\dir\\' \\".toList ∧
      unquote ("'" ++ windowsPath ++ "'") = "it's C:\\new\\dir\\' \\" := by
  obtain ⟨quoted, single⟩ := unquote_denoted
  have written : String.ofList (encode '"' "\\\"\\n'\\".toList) = "\"\\\\\\\"\\\\n'\\\\\"" := by decide +kernel
  have inside : IsInside '\x27' windowsPath.toList := by decide +kernel
  have denotes : Denotes '\x27' windowsPath.toList "it's C:\\new\\dir\\' \\".toList :=
    (denotes_iff (by decide)).mpr ⟨inside, by decide +kernel⟩
  exact ⟨rfl, written ▸ (quoted '"' rfl _).2, inside, denotes, (single _ inside _).mp denotes⟩

end TestScout.Source.Quoted
