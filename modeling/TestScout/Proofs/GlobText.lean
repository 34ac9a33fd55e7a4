import Mathlib.Data.List.Basic
import TestScout.Proofs.TextBytes
import TestScout.Proofs.TextWords
import TestScout.Suite.Matcher

/-! Globs that stand for one text. A text in which the marks of globs are put in brackets is read as a glob that matches this
text and no other, but for the case of ASCII letters. With two stars and a star behind a slash it matches what is below, and
with a plain text behind the stars what is below and ends like this text. Globs match bytes, and what is said of bytes holds
of characters because no character starts like another one in UTF-8, or like the inside of another one. -/

namespace TestScout.Glob
open Text

/-! ## Bytes without case -/

/-- A byte with an ASCII letter in lower case. -/
def lowerByte (byte : UInt8) : UInt8 := if 65 ≤ byte && byte ≤ 90 then byte + 32 else byte

theorem alike_iff {byte first : UInt8} : first ∈ Casing.ignored.alike byte ↔ lowerByte first = lowerByte byte := by
  simp only [Casing.alike, otherCase, lowerByte, List.mem_cons, List.not_mem_nil, or_false, Bool.and_eq_true, decide_eq_true_eq,
    UInt8.le_iff_toNat_le, ← UInt8.toNat_inj]
  have small := first.toNat_lt
  have bound := byte.toNat_lt
  repeat' split
  all_goals simp only [UInt8.toNat_add, UInt8.toNat_sub, UInt8.reduceToNat] at *
  all_goals omega

/-- Only letters of ASCII have a byte that is one, for all other characters are written with bytes above ASCII. -/
theorem utf8EncodeChar_toLower (c : Char) : String.utf8EncodeChar c.toLower = (String.utf8EncodeChar c).map lowerByte := by
  by_cases upper : 65 ≤ c.val.toNat ∧ c.val.toNat ≤ 90
  · have lowered := toNat_toLower upper
    rw [utf8EncodeChar_ascii (by omega), utf8EncodeChar_ascii (by omega), lowered, List.map_singleton, List.singleton_inj,
      ← UInt8.toNat_inj, lowerByte]
    simp only [UInt8.le_iff_toNat_le, UInt8.toNat_ofNat', UInt8.reduceToNat, Bool.and_eq_true, decide_eq_true_eq]
    rw [if_pos (by omega)]
    simp only [UInt8.toNat_add, UInt8.toNat_ofNat', UInt8.reduceToNat]
    omega
  · have same : c.toLower = c := dif_neg upper
    have others : ∀ byte ∈ String.utf8EncodeChar c, lowerByte byte = byte := by
      intro byte member
      refine if_neg ?_
      simp only [Bool.and_eq_true, decide_eq_true_eq, UInt8.le_iff_toNat_le, UInt8.reduceToNat]
      intro letter
      have own := toNat_of_mem_utf8EncodeChar member (by omega)
      omega
    rw [same, List.map_congr_left others, List.map_id']

theorem bytes_lower (text : List Char) : bytes (lower text) = (bytes text).map lowerByte := by
  rw [bytes, bytes, lower, List.flatMap_map, List.map_flatMap]
  exact congrArg (List.flatMap · text) (funext utf8EncodeChar_toLower)

theorem afterBytes?_append (casing : Casing) (first second text : List UInt8) :
    afterBytes? casing (first ++ second) text = (afterBytes? casing first text).bind (afterBytes? casing second) := by
  induction first generalizing text with
  | nil => cases text <;> rfl
  | cons byte first ih =>
    cases text with
    | nil => rfl
    | cons other text =>
      rw [List.cons_append, afterBytes?, afterBytes?]
      split
      · exact ih text
      · rfl

theorem afterBytes?_eq_some {front text rest : List UInt8} : afterBytes? .ignored front text = some rest ↔
    ∃ taken, text = taken ++ rest ∧ taken.map lowerByte = front.map lowerByte := by
  induction front generalizing text with
  | nil =>
    have whole : afterBytes? .ignored [] text = some text := by cases text <;> rfl
    rw [whole, Option.some_inj]
    constructor
    · exact fun same => ⟨[], same, rfl⟩
    · rintro ⟨taken, rfl, empty⟩
      rw [List.map_eq_nil_iff.mp empty, List.nil_append]
  | cons first front ih =>
    cases text with
    | nil => simp [afterBytes?]
    | cons byte text =>
      rw [afterBytes?]
      split
      next alike =>
        have same := alike_iff.mp (List.contains_iff_mem.mp alike)
        rw [ih]
        constructor
        · rintro ⟨taken, rfl, front⟩
          exact ⟨byte :: taken, rfl, by rw [List.map_cons, List.map_cons, same, front]⟩
        · rintro ⟨_ | ⟨other, taken⟩, split, front⟩
          · cases front
          · obtain ⟨rfl, rest⟩ := List.cons.inj split
            exact ⟨taken, rest, (List.cons.inj front).2⟩
      next differs =>
        refine iff_of_false nofun ?_
        rintro ⟨_ | ⟨other, taken⟩, split, front⟩
        · cases front
        · obtain ⟨rfl, -⟩ := List.cons.inj split
          exact differs (List.contains_iff_mem.mpr (alike_iff.mpr (List.cons.inj front).1.symm))

/-! ## Matching -/

/-- What a mark in brackets is read as, and any other character as it is. -/
def tokenOf (c : Char) : Token := if Suite.globMarks.contains c then .oneOf false [(c, c)] else .literal c

theorem inClass_singleton {c : Char} (ascii : c.val.toNat ≤ 127) (byte : UInt8) :
    inClass .ignored [(c, c)] byte = (Casing.ignored.alike byte).contains (UInt8.ofNat c.val.toNat) := by
  have alone : byteRanges c c = [(UInt8.ofNat c.val.toNat, UInt8.ofNat c.val.toNat)] := by
    simp only [byteRanges, if_true, utf8EncodeChar_ascii ascii, List.map_singleton]
  rw [inClass, List.any_cons, List.any_nil, Bool.or_false]
  simp only [alone, List.any_cons, List.any_nil, Bool.or_false, List.contains_eq_any_beq]
  congr 1
  funext other
  rw [Bool.eq_iff_iff, Bool.and_eq_true, decide_eq_true_eq, decide_eq_true_eq, beq_iff_eq]
  exact ⟨fun ⟨below, above⟩ => UInt8.le_antisymm below above, fun same => same ▸ ⟨UInt8.le_refl _, UInt8.le_refl _⟩⟩

theorem pass_tokenOf (c : Char) (next : List UInt8 → Bool) (text : List UInt8) :
    (tokenOf c).pass .ignored next text = (afterBytes? .ignored (String.utf8EncodeChar c) text).any next := by
  unfold tokenOf
  split
  next mark =>
    have ascii : c.val.toNat ≤ 127 := by
      simp only [Suite.globMarks, List.contains_iff_mem, List.mem_cons, List.not_mem_nil, or_false] at mark
      rcases mark with rfl | rfl | rfl | rfl | rfl | rfl <;> decide
    cases text with
    | nil => rw [utf8EncodeChar_ascii ascii]; rfl
    | cons byte rest =>
      rw [Token.pass, inClass_singleton ascii, utf8EncodeChar_ascii ascii, afterBytes?]
      cases (Casing.ignored.alike byte).contains (UInt8.ofNat c.val.toNat) <;> rfl
  next => rw [Token.pass]

theorem passTokens_text (text : List Char) (more : List Token) (next : List UInt8 → Bool) (bytes : List UInt8) :
    passTokens .ignored next bytes (text.map tokenOf ++ more) =
      (afterBytes? .ignored (Text.bytes text) bytes).any fun left => passTokens .ignored next left more := by
  induction text generalizing bytes with
  | nil => cases bytes <;> rfl
  | cons c text ih =>
    have split : Text.bytes (c :: text) = String.utf8EncodeChar c ++ Text.bytes text := List.flatMap_cons
    rw [List.map_cons, List.cons_append, passTokens, pass_tokenOf, split, afterBytes?_append]
    cases afterBytes? .ignored (String.utf8EncodeChar c) bytes with
    | none => rfl
    | some left => exact ih left

theorem pass_text {text : List Char} {bytes : List UInt8} : passTokens .ignored List.isEmpty bytes (text.map tokenOf) = true ↔
    bytes.map lowerByte = (Text.bytes text).map lowerByte := by
  have tokens : text.map tokenOf = text.map tokenOf ++ [] := (List.append_nil _).symm
  rw [tokens, passTokens_text]
  constructor
  · intro passed
    obtain ⟨left, after, ends⟩ := (Option.any_eq_true _ _).mp passed
    obtain ⟨taken, split, same⟩ := afterBytes?_eq_some.mp after
    rw [split, List.isEmpty_iff.mp ends, List.append_nil, same]
  · intro same
    exact (Option.any_eq_true _ _).mpr ⟨[], afterBytes?_eq_some.mpr ⟨_, (List.append_nil _).symm, same⟩, rfl⟩

section

variable {next : List UInt8 → Bool} {text : List UInt8}

theorem passRun_iff : passRun next text = true ↔ ∃ run left, text = run ++ left ∧ slash ∉ run ∧ next left = true := by
  induction text with
  | nil =>
    rw [passRun]
    constructor
    · exact fun passed => ⟨[], [], rfl, List.not_mem_nil, passed⟩
    · rintro ⟨run, left, empty, -, passed⟩
      rwa [(List.append_eq_nil_iff.mp empty.symm).2] at passed
  | cons byte rest ih =>
    rw [passRun, Bool.or_eq_true, Bool.and_eq_true, bne_iff_ne, ih]
    constructor
    · rintro (passed | ⟨apart, run, left, rfl, plain, passed⟩)
      · exact ⟨[], _, rfl, List.not_mem_nil, passed⟩
      · exact ⟨byte :: run, left, rfl, List.not_mem_cons_of_ne_of_not_mem apart.symm plain, passed⟩
    · rintro ⟨_ | ⟨first, run⟩, left, split, plain, passed⟩
      · exact .inl (split ▸ passed)
      · obtain ⟨rfl, rfl⟩ := List.cons.inj split
        obtain ⟨apart, plain⟩ := not_or.mp (List.mem_cons.not.mp plain)
        exact .inr ⟨Ne.symm apart, run, left, rfl, plain, passed⟩

theorem passOneSlash_iff : passOneSlash next text = true ↔ ∃ rest, text = slash :: rest ∧ next rest = true := by
  cases text with
  | nil => exact iff_of_false nofun nofun
  | cons byte rest =>
    rw [passOneSlash, Bool.and_eq_true, beq_iff_eq]
    constructor
    · rintro ⟨rfl, passed⟩
      exact ⟨rest, rfl, passed⟩
    · rintro ⟨rest, same, passed⟩
      obtain ⟨rfl, rfl⟩ := List.cons.inj same
      exact ⟨rfl, passed⟩

theorem passSlash_iff : passSlash next text = true ↔ ∃ front rest, text = front ++ slash :: rest ∧ next rest = true := by
  induction text with
  | nil => exact iff_of_false nofun fun ⟨_, _, same, _⟩ => List.append_ne_nil_of_right_ne_nil _ (List.cons_ne_nil _ _) same.symm
  | cons byte text ih =>
    rw [passSlash, Bool.or_eq_true, Bool.and_eq_true, beq_iff_eq, ih]
    constructor
    · rintro (⟨rfl, passed⟩ | ⟨front, rest, rfl, passed⟩)
      · exact ⟨[], text, rfl, passed⟩
      · exact ⟨byte :: front, rest, rfl, passed⟩
    · rintro ⟨_ | ⟨first, front⟩, rest, split, passed⟩
      · obtain ⟨rfl, rfl⟩ := List.cons.inj split
        exact .inl ⟨rfl, passed⟩
      · obtain ⟨rfl, rfl⟩ := List.cons.inj split
        exact .inr ⟨front, rest, rfl, passed⟩

end

/-- Two stars between slashes and a star behind them pass over anything that starts with a slash. -/
theorem pass_ending (ending : List Char) (text : List UInt8) :
    passTokens .ignored List.isEmpty text (.between :: .run :: ending.map tokenOf) = true ↔
      ∃ front left, text = slash :: (front ++ left) ∧ left.map lowerByte = (bytes ending).map lowerByte := by
  have name : ∀ rest, passTokens .ignored List.isEmpty rest (.run :: ending.map tokenOf) = true ↔
      ∃ run left, rest = run ++ left ∧ slash ∉ run ∧ left.map lowerByte = (bytes ending).map lowerByte := by
    intro rest
    rw [passTokens, Token.pass, passRun_iff]
    simp only [pass_text]
  rw [passTokens, Token.pass, Bool.or_eq_true, passOneSlash_iff, passOneSlash_iff]
  constructor
  · rintro (⟨rest, rfl, passed⟩ | ⟨rest, rfl, passed⟩)
    · obtain ⟨run, left, rfl, -, same⟩ := (name rest).mp passed
      exact ⟨run, left, rfl, same⟩
    · obtain ⟨front, further, rfl, later⟩ := passSlash_iff.mp passed
      obtain ⟨run, left, rfl, -, same⟩ := (name further).mp later
      exact ⟨front ++ slash :: run, left, by rw [List.append_assoc, List.cons_append], same⟩
  · rintro ⟨front, left, rfl, same⟩
    by_cases crossed : slash ∈ front
    · -- The star takes what is behind the last slash.
      obtain ⟨run, before, split, plain⟩ := List.eq_append_cons_of_mem (List.mem_reverse.mpr crossed)
      have front_eq : front = before.reverse ++ slash :: run.reverse := by
        rw [← List.reverse_reverse front, split]
        simp
      refine .inr ⟨_, rfl, passSlash_iff.mpr ⟨before.reverse, run.reverse ++ left, ?_, (name _).mpr ⟨_, left, rfl, ?_, same⟩⟩⟩
      · rw [front_eq, List.append_assoc, List.cons_append]
      · rwa [List.mem_reverse]
    · exact .inl ⟨_, rfl, (name _).mpr ⟨front, left, rfl, crossed, same⟩⟩

theorem isMatch_eq {glob : Glob} (bounded : glob.tokens ≠ [.leading]) (casing : Casing) (text : String) :
    glob.isMatch casing text = passTokens casing List.isEmpty (bytes text.toList) glob.tokens := by
  unfold Glob.isMatch
  split
  next leading => exact absurd leading bounded
  next => rfl

theorem tokenOf_ne_leading (c : Char) : tokenOf c ≠ .leading := by
  unfold tokenOf
  split <;> nofun

theorem isMatch_text {text : List Char} {path : String} :
    (⟨text.map tokenOf⟩ : Glob).isMatch .ignored path = true ↔ lower path.toList = lower text := by
  have bounded : text.map tokenOf ≠ [.leading] := by
    intro same
    obtain ⟨c, -, first⟩ := List.map_eq_singleton_iff.mp same
    exact tokenOf_ne_leading c first
  rw [isMatch_eq bounded, pass_text, ← bytes_inj, bytes_lower, bytes_lower]

theorem eq_slash_of_lowerByte {byte : UInt8} (lowered : lowerByte byte = slash) : byte = slash := by
  rw [lowerByte, slash, ← UInt8.toNat_inj] at *
  simp only [UInt8.le_iff_toNat_le, UInt8.reduceToNat, Bool.and_eq_true, decide_eq_true_eq] at *
  split at lowered
  · simp only [UInt8.toNat_add, UInt8.reduceToNat] at lowered
    omega
  · exact lowered

theorem isMatch_ending {text ending : List Char} {path : String} :
    (⟨text.map tokenOf ++ .between :: .run :: ending.map tokenOf⟩ : Glob).isMatch .ignored path = true ↔
      ∃ below, lower path.toList = lower text ++ '/' :: below ∧ lower ending <:+ below := by
  have bounded : text.map tokenOf ++ .between :: .run :: ending.map tokenOf ≠ [.leading] := by
    intro same
    have length := congrArg List.length same
    simp only [List.length_append, List.length_map, List.length_cons, List.length_nil] at length
    omega
  have front : bytes (lower text ++ ['/']) = (bytes text).map lowerByte ++ [slash] := by
    rw [bytes_append, bytes_lower]
    rfl
  rw [isMatch_eq bounded, passTokens_text]
  constructor
  · intro passed
    obtain ⟨left, after, behind⟩ := (Option.any_eq_true _ _).mp passed
    obtain ⟨taken, split, same⟩ := afterBytes?_eq_some.mp after
    obtain ⟨further, last, rfl, ends⟩ := (pass_ending ending left).mp behind
    have whole : bytes (lower path.toList) = bytes (lower text ++ ['/']) ++ (further ++ last).map lowerByte := by
      rw [front, bytes_lower, split, List.map_append, same, List.map_cons, List.append_assoc]
      rfl
    obtain ⟨below, placed⟩ := prefix_of_bytes ⟨_, whole.symm⟩
    have rest : bytes below = (further ++ last).map lowerByte := by
      rw [← placed, bytes_append] at whole
      exact List.append_cancel_left whole
    refine ⟨below, by rw [← placed, List.append_assoc]; rfl, suffix_of_bytes ⟨further.map lowerByte, ?_⟩⟩
    rw [rest, bytes_lower, List.map_append, ends]
  · rintro ⟨below, whole, more, rfl⟩
    have split := congrArg bytes whole
    rw [List.append_cons, bytes_append, front, bytes_lower, bytes_append, bytes_lower, List.append_assoc,
      List.map_eq_append_iff] at split
    obtain ⟨taken, left, parts, same, behind⟩ := split
    obtain ⟨byte, rest, rfl, first, later⟩ := List.map_eq_cons_iff.mp behind
    obtain rfl := eq_slash_of_lowerByte first
    have later : rest.map lowerByte = bytes more ++ (bytes ending).map lowerByte := later
    obtain ⟨further, last, rfl, -, ends⟩ := List.map_eq_append_iff.mp later
    exact (Option.any_eq_true _ _).mpr
      ⟨_, afterBytes?_eq_some.mpr ⟨taken, parts, same⟩, (pass_ending ending _).mpr ⟨further, last, rfl, ends⟩⟩

theorem isMatch_below {text : List Char} {path : String} :
    (⟨text.map tokenOf ++ [.between, .run]⟩ : Glob).isMatch .ignored path = true ↔ lower (text ++ ['/']) <+: lower path.toList := by
  refine (@isMatch_ending text [] path).trans ?_
  rw [lower_append]
  constructor
  · rintro ⟨below, whole, -⟩
    exact ⟨below, by rw [whole, List.append_assoc]; rfl⟩
  · rintro ⟨below, whole⟩
    exact ⟨below, by rw [← whole, List.append_assoc]; rfl, List.nil_suffix⟩

/-! ## Reading -/

theorem classToken_mark {c : Char} (mark : c ∈ Suite.globMarks) (rest : List Char) :
    classToken (c :: ']' :: rest) = .ok (.oneOf false [(c, c)], rest) := by
  simp only [Suite.globMarks, List.mem_cons, List.not_mem_nil, or_false] at mark
  rcases mark with rfl | rfl | rfl | rfl | rfl | rfl <;> rfl

theorem read?_literal {draft : Draft} {c : Char} (unmarked : c ∉ Suite.globMarks) (other : c ∉ ['\\', ',']) (rest : List Char) :
    draft.read? false (c :: rest) = (draft.push [.literal c] c).read? false rest := by
  simp only [Suite.globMarks, List.mem_cons, List.not_mem_nil, or_false, not_or] at unmarked other
  obtain ⟨single, run, opening, -, group, closing⟩ := unmarked
  obtain ⟨plain, separate⟩ := other
  exact Draft.read?.eq_11 _ _ _ _ single (fun _ same _ => run same) run opening group closing separate
    (fun same _ => plain same) (fun _ _ same _ => plain same)

/-- Outside of groups a character that is no mark stands for itself, and so does a mark in brackets. -/
theorem read?_escape_singleton {c : Char} (plain : c ≠ '\\') {draft : Draft} (outside : draft.groups = []) (rest : List Char) :
    ∃ last, draft.read? false (Suite.escape [c] ++ rest) = (draft.push [tokenOf c] last).read? false rest := by
  unfold Suite.escape tokenOf
  rw [List.flatMap_singleton]
  split
  next mark =>
    refine ⟨']', ?_⟩
    have found := classToken_mark (List.contains_iff_mem.mp mark) rest
    rw [List.cons_append, List.cons_append, List.cons_append, List.nil_append, Draft.read?]
    split
    next token left read =>
      obtain ⟨rfl, rfl⟩ := Prod.mk.inj (Except.ok.inj (read.symm.trans found))
      rfl
    next read => cases read.symm.trans found
    next read => cases read.symm.trans found
  next unmarked =>
    refine ⟨c, ?_⟩
    by_cases comma : c = ','
    · subst comma
      rw [List.cons_append, List.nil_append, Draft.read?, Draft.comma, outside]
    · exact read?_literal (List.contains_iff_mem.not.mp unmarked) (by simp [plain, comma]) rest

theorem escape_append (first second : List Char) : Suite.escape (first ++ second) = Suite.escape first ++ Suite.escape second :=
  List.flatMap_append

theorem read?_escape {text : List Char} (plain : '\\' ∉ text) (rest : List Char) (draft : Draft) (outside : draft.groups = []) :
    ∃ last, draft.read? false (Suite.escape text ++ rest) =
      ({ draft with current := draft.current ++ text.map tokenOf, previous := last } : Draft).read? false rest := by
  induction text generalizing draft with
  | nil => exact ⟨draft.previous, by rw [List.map_nil, List.append_nil]; rfl⟩
  | cons c text ih =>
    obtain ⟨here, behind⟩ := not_or.mp (List.mem_cons.not.mp plain)
    obtain ⟨last, first⟩ := read?_escape_singleton (Ne.symm here) outside (Suite.escape text ++ rest)
    obtain ⟨final, others⟩ := ih behind (draft.push [tokenOf c] last) outside
    refine ⟨final, ?_⟩
    rw [← List.singleton_append, escape_append, List.append_assoc, first, others, Draft.push, List.append_assoc]
    rfl

theorem escape_plain {text : List Char} (plain : ∀ c ∈ text, c ∉ Suite.globMarks) : Suite.escape text = text := by
  have same : ∀ c ∈ text, (if Suite.globMarks.contains c then ['[', c, ']'] else [c]) = [c] := fun c member =>
    if_neg (List.contains_iff_mem.not.mpr (plain c member))
  rw [Suite.escape, List.flatMap_congr same, List.flatMap_singleton']

theorem ofText?_escape {text : List Char} (plain : '\\' ∉ text) :
    Glob.ofText? (String.ofList (Suite.escape text)) = some ⟨text.map tokenOf⟩ := by
  obtain ⟨last, read⟩ := read?_escape plain [] {} rfl
  rw [Glob.ofText?, String.toList_ofList, ← List.append_nil (Suite.escape text), read, Draft.read?]
  rfl

/-- Two stars behind a slash take its place. -/
theorem stars_behind (front : List Token) (rest : List Char) :
    ({ current := front ++ [.literal '/'], previous := some '/' } : Draft).stars ('/' :: rest) =
      ({ current := front ++ [.between], previous := some '/' }, rest) := by
  have begun : (front ++ [Token.literal '/']).isEmpty = false :=
    List.isEmpty_eq_false_iff.mpr (List.append_ne_nil_of_right_ne_nil _ nofun)
  have crosses : ({ current := front ++ [.literal '/'], previous := some '/' } : Draft).mayCross = true := rfl
  unfold Draft.stars
  simp only [begun, crosses, Bool.false_eq_true, if_false, if_true]
  simp only [Draft.cross, List.getLast?_concat, List.dropLast_concat]

theorem ofText?_ending {text ending : List Char} (plain : '\\' ∉ text) (literal : ∀ c ∈ ending, c ∉ Suite.globMarks ∧ c ≠ '\\') :
    Glob.ofText? (String.ofList (Suite.escape text) ++ "/**/*" ++ String.ofList ending) =
      some ⟨text.map tokenOf ++ .between :: .run :: ending.map tokenOf⟩ := by
  obtain ⟨last, read⟩ := read?_escape plain ("/**/*".toList ++ ending) {} rfl
  have whole : (String.ofList (Suite.escape text) ++ "/**/*" ++ String.ofList ending).toList =
      Suite.escape text ++ ("/**/*".toList ++ ending) := by simp
  rw [Glob.ofText?, whole, read, List.nil_append]
  have slashed : ({ current := text.map tokenOf, previous := last } : Draft).read? false ("/**/*".toList ++ ending) =
      ({ current := text.map tokenOf ++ [.literal '/'], previous := some '/' } : Draft).read? false ('*' :: '*' :: '/' :: '*' :: ending) :=
    read?_literal (by decide) (by decide) _
  have unmarked : ∀ rest, ending = '*' :: rest → False := by
    rintro rest rfl
    exact (literal '*' List.mem_cons_self).1 (by decide)
  rw [slashed, Draft.read?, stars_behind, Draft.read?]
  · obtain ⟨final, others⟩ := read?_escape (fun member => (literal _ member).2 rfl) []
      ({ current := text.map tokenOf ++ [.between, .run], previous := some '*' } : Draft) rfl
    rw [escape_plain fun c member => (literal c member).1, List.append_nil] at others
    simp only [Draft.push, List.append_assoc, List.cons_append, List.nil_append] at others ⊢
    rw [others, Draft.read?]
    rfl
  · exact unmarked

theorem ofText?_below {text : List Char} (plain : '\\' ∉ text) :
    Glob.ofText? (String.ofList (Suite.escape text) ++ "/**/*") = some ⟨text.map tokenOf ++ [.between, .run]⟩ := by
  have read := ofText?_ending plain (List.forall_mem_nil _)
  rwa [String.ofList_nil, String.append_empty] at read

end TestScout.Glob
