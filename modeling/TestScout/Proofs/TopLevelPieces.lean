import Mathlib.Data.List.Basic
import TestScout.Proofs.TextWords
import TestScout.Source.Nesting

/-! Texts that are put together with separators, and cut apart again at top level. A text in which every quote and every bracket
is closed leaves the scan as it found it, so that nothing in front of a separator matters behind it. -/

namespace TestScout.Source.Nesting

variable {separator c : Char} {nesting middle after : Nesting} {text front more : List Char}

/-! ## Scanning -/

theorem step_plain (outside : nesting.quote = none) (plain : nests c = false) : nesting.step c = nesting := by
  simp only [nests, Bool.or_eq_false_iff, beq_eq_false_iff_ne] at plain
  simp [step, outside, plain]

/-- Outside quotes nothing is escaped. -/
theorem foldl_escaped (settled : nesting.quote = none → nesting.escaped = false) (text : List Char) :
    (text.foldl step nesting).quote = none → (text.foldl step nesting).escaped = false := by
  induction text generalizing nesting with
  | nil => exact settled
  | cons c text ih =>
    refine ih ?_
    obtain ⟨depth, quote, escaped⟩ := nesting
    cases quote <;> simp only [step] <;> grind

/-- A text that ends outside quotes, with as many brackets opened as closed. -/
def Closed (text : List Char) : Prop := (text.foldl step top).quote = none ∧ (text.foldl step top).depth = 0

instance : DecidablePred Closed := fun _ => inferInstanceAs (Decidable (_ ∧ _))

/-- Behind a closed text the scan is where it started. -/
theorem closed_iff : Closed text ↔ text.foldl step top = top := by
  constructor
  · rintro ⟨outside, level⟩
    have plain := foldl_escaped (fun _ => rfl : top.quote = none → top.escaped = false) text outside
    rw [show text.foldl step top = ⟨_, _, _⟩ from rfl, outside, level, plain]
    rfl
  · intro same
    rw [Closed, same]
    exact ⟨rfl, rfl⟩

/-- A text without a separator outside quotes and brackets. -/
def Whole (separator : Char) (text : List Char) : Prop := ∀ front, front ++ [separator] <+: text → ¬Closed front

theorem whole_iff_inits : Whole separator text ↔ ∀ front ∈ text.inits, front ++ [separator] <+: text → ¬Closed front := by
  refine ⟨fun whole front _ => whole front, fun whole front starts => whole front ?_ starts⟩
  exact (List.mem_inits front text).mpr ((List.prefix_append front [separator]).trans starts)

instance : DecidablePred (Whole separator) := fun _ => decidable_of_iff' _ whole_iff_inits

/-! ## Passing over a text -/

/-- A scan comes from one state to another over a text in which nothing separates. -/
inductive Passes (separator : Char) : Nesting → List Char → Nesting → Prop where
  | nil (nesting : Nesting) : Passes separator nesting [] nesting
  | cons {nesting after : Nesting} {c : Char} {text : List Char} (joined : nesting.separates separator c = false)
      (further : Passes separator (nesting.step c) text after) : Passes separator nesting (c :: text) after

theorem Passes.append (first : Passes separator nesting text middle) (second : Passes separator middle more after) :
    Passes separator nesting (text ++ more) after := by
  induction first with
  | nil => exact second
  | cons joined _ ih => exact .cons joined (ih second)

theorem Passes.single (joined : nesting.separates separator c = false) (moved : nesting.step c = after) :
    Passes separator nesting [c] after := .cons joined (moved ▸ .nil _)

theorem Passes.foldl_eq (passes : Passes separator nesting text after) : text.foldl step nesting = after := by
  induction passes with
  | nil => rfl
  | cons _ _ ih => exact ih

/-- What neither nests nor separates changes nothing. -/
theorem passes_plain (outside : nesting.quote = none) (plain : ∀ c ∈ text, nests c = false ∧ c ≠ separator) :
    Passes separator nesting text nesting := by
  induction text with
  | nil => exact .nil nesting
  | cons c text ih =>
    obtain ⟨⟨here, apart⟩, later⟩ := List.forall_mem_cons.mp plain
    refine .cons ?_ ?_
    · rw [separates, beq_eq_false_iff_ne.mpr apart, Bool.and_false, Bool.false_and]
    · rw [step_plain outside here]
      exact ih later

/-- Where brackets are open nothing separates, nor does anything within quotes. -/
theorem separates_inner (inner : nesting.quote ≠ none ∨ nesting.depth ≠ 0) : nesting.separates separator c = false := by
  rcases inner with inside | deep
  · rw [separates, Option.isNone_eq_false_iff.mpr (Option.isSome_iff_ne_none.mpr inside)]
    rfl
  · rw [separates, beq_eq_false_iff_ne.mpr deep, Bool.and_false]
    rfl

theorem passes_of_joined
    (joined : ∀ front c rest, text = front ++ c :: rest → (front.foldl step nesting).separates separator c = false) :
    Passes separator nesting text (text.foldl step nesting) := by
  induction text generalizing nesting with
  | nil => exact .nil nesting
  | cons c text ih =>
    refine .cons (joined [] c text rfl) (ih fun front d rest split => ?_)
    exact joined (c :: front) d rest (by rw [split]; rfl)

/-- A whole text is passed over from top level. -/
theorem Whole.passes (whole : Whole separator text) : Passes separator top text (text.foldl step top) := by
  refine passes_of_joined fun front c rest split => ?_
  by_cases marked : c = separator
  · have starts : front ++ [separator] <+: text := ⟨rest, by rw [split, ← marked, List.append_assoc]; rfl⟩
    exact separates_inner (not_and_or.mp (whole front starts))
  · rw [separates, beq_eq_false_iff_ne.mpr marked, Bool.and_false, Bool.false_and]

/-! ## Cutting -/

theorem pieces_ne_nil : nesting.pieces separator text ≠ [] := by
  cases text with
  | nil => exact List.cons_ne_nil _ _
  | cons c text =>
    rw [pieces]
    split
    · exact List.cons_ne_nil _ _
    · split <;> exact List.cons_ne_nil _ _

theorem pieces_cut (cut : nesting.separates separator c = true) :
    nesting.pieces separator (c :: text) = [] :: nesting.pieces separator text := by
  rw [pieces, if_pos cut]

theorem pieces_joined (joined : nesting.separates separator c = false) :
    nesting.pieces separator (c :: text) = ((nesting.step c).pieces separator text).modifyHead (c :: ·) := by
  rw [pieces, joined, if_neg Bool.false_ne_true]
  split
  next empty => exact absurd empty pieces_ne_nil
  next split => rw [split]; rfl

/-- What is passed over goes to the first piece. -/
theorem Passes.pieces_append (passes : Passes separator nesting text after) (more : List Char) :
    nesting.pieces separator (text ++ more) = (after.pieces separator more).modifyHead (text ++ ·) := by
  induction passes with
  | nil => exact (congrFun List.modifyHead_id _).symm
  | cons joined _ ih =>
    rw [List.cons_append, pieces_joined joined, ih, List.modifyHead_modifyHead]
    rfl

theorem Passes.pieces_eq (passes : Passes separator nesting text after) : nesting.pieces separator text = [text] := by
  have alone := passes.pieces_append []
  rw [List.append_nil] at alone
  rw [alone, pieces, List.modifyHead_cons, List.append_nil]

theorem separates_separator (plain : nests separator = false) : top.separates separator separator = true := by
  simp [separates, plain, top]

/-- Texts that are passed over at top level are the pieces of what they make. -/
theorem pieces_intercalate {texts : List (List Char)} (plain : nests separator = false) (filled : texts ≠ [])
    (passed : ∀ text ∈ texts, Passes separator top text top) : top.pieces separator ([separator].intercalate texts) = texts := by
  induction texts with
  | nil => exact absurd rfl filled
  | cons first rest ih =>
    obtain ⟨here, later⟩ := List.forall_mem_cons.mp passed
    cases rest with
    | nil => rw [List.intercalate_singleton, here.pieces_eq]
    | cons second rest =>
      rw [List.intercalate_cons_cons, List.append_assoc, here.pieces_append, List.singleton_append,
        pieces_cut (separates_separator plain), ih (List.cons_ne_nil _ _) later, List.modifyHead_cons, List.append_nil]

theorem Closed.append (first : Closed text) (second : Closed more) : Closed (text ++ more) := by
  rw [closed_iff, List.foldl_append, closed_iff.mp first, closed_iff.mp second]

theorem closed_separator (plain : nests separator = false) : Closed [separator] :=
  closed_iff.mpr (step_plain (rfl : top.quote = none) plain)

/-- What is passed over has no separator at top level. -/
theorem Passes.whole (passes : Passes separator top text after) (plain : nests separator = false) : Whole separator text := by
  rintro front ⟨rest, rfl⟩ closed
  rw [List.append_assoc, List.singleton_append] at passes
  -- behind the front the scan is at top level, where it cannot pass over the separator
  suffices further : ∀ nesting, front.foldl step nesting = top → ¬Passes separator nesting (front ++ separator :: rest) after from
    further top (closed_iff.mp closed) passes
  clear passes closed
  intro nesting reached passes
  induction front generalizing nesting with
  | nil =>
    obtain rfl : nesting = top := reached
    cases passes with
    | cons joined _ => rw [separates_separator plain] at joined; cases joined
  | cons c front ih =>
    cases passes with
    | cons _ later => exact ih (nesting.step c) reached later

/-! ## What is cut apart -/

/-- A text can be passed over, or there is a first separator at top level. -/
theorem passes_or_cut (settled : nesting.quote = none → nesting.escaped = false) (text : List Char) :
    (∃ after, Passes separator nesting text after) ∨
      nests separator = false ∧ ∃ first rest, text = first ++ separator :: rest ∧ Passes separator nesting first top := by
  induction text generalizing nesting with
  | nil => exact .inl ⟨nesting, .nil nesting⟩
  | cons c text ih =>
    by_cases cut : nesting.separates separator c = true
    · obtain ⟨⟨⟨outside, level⟩, rfl⟩, plain⟩ : ((nesting.quote = none ∧ nesting.depth = 0) ∧ c = separator) ∧ nests c = false := by
        simpa [separates] using cut
      have here : nesting = top := by
        rw [show nesting = ⟨_, _, _⟩ from rfl, outside, level, settled outside]
        rfl
      exact .inr ⟨plain, [], text, rfl, here ▸ .nil nesting⟩
    · have joined := Bool.eq_false_iff.mpr cut
      have next := foldl_escaped settled [c]
      rcases ih next with ⟨after, further⟩ | ⟨plain, first, rest, rfl, further⟩
      · exact .inl ⟨after, .cons joined further⟩
      · exact .inr ⟨plain, c :: first, rest, rfl, .cons joined further⟩

/-- The pieces of a text between separators, each of which stands at top level. -/
structure IsCut (separator : Char) (text : List Char) (pieces : List (List Char)) : Prop where
  joined : [separator].intercalate pieces = text
  top : ∀ front back, front ++ back = pieces → front ≠ [] → back ≠ [] → Closed ([separator].intercalate front)

theorem IsCut.single (text : List Char) : IsCut separator text [text] where
  joined := List.intercalate_singleton
  top front back split filled further := by
    have length := congrArg List.length split
    have some := List.length_pos_iff.mpr filled
    have more := List.length_pos_iff.mpr further
    rw [List.length_append, List.length_singleton] at length
    omega

/-- One more piece stands in front of a separator. -/
theorem IsCut.cons {first rest : List Char} {pieces : List (List Char)} (plain : nests separator = false) (closed : Closed first)
    (filled : pieces ≠ []) (cut : IsCut separator rest pieces) : IsCut separator (first ++ separator :: rest) (first :: pieces) where
  joined := by
    rw [List.intercalate_cons_of_ne_nil filled, cut.joined, List.append_assoc]
    rfl
  top front back split some further := by
    obtain ⟨piece, front, rfl⟩ := List.exists_cons_of_ne_nil some
    obtain ⟨rfl, later⟩ := List.cons.inj split
    by_cases alone : front = []
    · rwa [alone, List.intercalate_singleton]
    · have inner := cut.top front back later alone further
      rw [List.intercalate_cons_of_ne_nil alone]
      exact (closed.append (closed_separator plain)).append inner

/-- The pieces of a text are what stands between the separators at top level. -/
theorem isCut_pieces (separator : Char) (text : List Char) : IsCut separator text (top.pieces separator text) ∧
    (nests separator = false → ∀ piece ∈ top.pieces separator text, Whole separator piece) := by
  induction length : text.length using Nat.strong_induction_on generalizing text with
  | _ size ih =>
    rcases @passes_or_cut separator top (fun _ => rfl) text with ⟨after, passes⟩ | ⟨plain, first, rest, rfl, passes⟩
    · rw [passes.pieces_eq]
      exact ⟨.single text, fun plain => List.forall_mem_singleton.mpr (passes.whole plain)⟩
    · have shorter : rest.length < size := by
        rw [← length, List.length_append, List.length_cons]
        omega
      obtain ⟨cut, whole⟩ := ih rest.length shorter rest rfl
      have split : top.pieces separator (first ++ separator :: rest) = first :: top.pieces separator rest := by
        rw [passes.pieces_append, pieces_cut (separates_separator plain), List.modifyHead_cons, List.append_nil]
      rw [split]
      exact ⟨cut.cons plain (closed_iff.mpr passes.foldl_eq) pieces_ne_nil,
        fun _ => List.forall_mem_cons.mpr ⟨passes.whole plain, whole plain⟩⟩

/-- **Splitting undoes joining.** Texts that are closed and whole are read back from what they make with a separator between them.
Of any text the parts are the pieces that are not blank, cut apart at all separators at top level. -/
theorem splitTopLevel_intercalate (separator : Char) :
    (nests separator = false → ∀ texts : List (List Char), texts ≠ [] →
      (∀ text ∈ texts, Text.blank text = false ∧ Closed text ∧ Whole separator text) →
      splitTopLevel ([separator].intercalate texts) separator = texts) ∧
    ∀ text, ∃ pieces, IsCut separator text pieces ∧ (nests separator = false → ∀ piece ∈ pieces, Whole separator piece) ∧
      splitTopLevel text separator = pieces.filter (!Text.blank ·) := by
  constructor
  · intro plain texts filled written
    have passed : ∀ text ∈ texts, Passes separator top text top := by
      intro text member
      obtain ⟨-, closed, whole⟩ := written text member
      have passes := whole.passes
      rwa [closed_iff.mp closed] at passes
    rw [splitTopLevel, pieces_intercalate plain filled passed, List.filter_eq_self]
    exact fun text member => by rw [(written text member).1]; rfl
  · intro text
    obtain ⟨cut, whole⟩ := isCut_pieces separator text
    exact ⟨_, cut, whole, rfl⟩

/-- Separators in quotes and brackets are a part of what they stand in, of any number of bytes and behind any escapes. -/
theorem nested_texts_split :
    let texts := ["f(a→b, [1→2])".toList, "'x→\\\\\\'→(' . \\".toList, "\"→\\\"\\\\\" ) (".toList]
    nests '→' = false ∧ (∀ text ∈ texts, Text.blank text = false ∧ Closed text ∧ Whole '→' text) ∧
      splitTopLevel ("f(a→b, [1→2])→'x→\\\\\\'→(' . \\→\"→\\\"\\\\\" ) (".toList) '→' = texts := by
  intro texts
  have written : ∀ text ∈ texts, Text.blank text = false ∧ Closed text ∧ Whole '→' text := by decide +kernel
  have whole : ['→'].intercalate texts = "f(a→b, [1→2])→'x→\\\\\\'→(' . \\→\"→\\\"\\\\\" ) (".toList := by decide +kernel
  have split := (splitTopLevel_intercalate '→').1 (by decide) texts (List.cons_ne_nil _ _) written
  exact ⟨by decide, written, whole ▸ split⟩

end TestScout.Source.Nesting
