import TestScout.Glob.Basic

/-! Reading globs. Braces hold alternatives, brackets hold classes, a backslash takes the
meaning from the next character, and two stars have a meaning of their own only where
slashes or ends are around them. -/

namespace TestScout.Glob

/-- The ranges of a class with the last one first. -/
abbrev Ranges := List (Char × Char)

/-- Why brackets hold no class. -/
inductive ClassFault where
  /-- The closing bracket is missing. -/
  | unclosed
  /-- A range runs backwards. -/
  | reversed
deriving Repr, DecidableEq

/-- Ends the last range at a character, which must not come before its start. -/
def Ranges.close? (ranges : Ranges) (last : Char) : Option Ranges :=
  match ranges with
  | [] => none
  | (first, _) :: others => if last < first then none else some ((first, last) :: others)

/-- The ranges of a class behind its opening, and the text behind the closing bracket. A
bracket that comes first is a member, and so is a hyphen at either end. -/
def classRanges (isFirst inRange : Bool) (ranges : Ranges) : (text : List Char) → Except ClassFault (Ranges × List Char)
  | [] => .error .unclosed
  | c :: rest =>
    if c = ']' ∧ !isFirst then
      .ok ((if inRange then ('-', '-') :: ranges else ranges).reverse, rest)
    else if c = '-' ∧ !isFirst ∧ !inRange then classRanges false true ranges rest
    else if inRange then
      match ranges.close? c with
      | some ranges => classRanges false false ranges rest
      | none => .error .reversed
    else classRanges false false ((c, c) :: ranges) rest

theorem length_classRanges_lt {isFirst inRange : Bool} {ranges found : Ranges} {text rest : List Char}
    (read : classRanges isFirst inRange ranges text = .ok (found, rest)) : rest.length < text.length := by
  induction text generalizing isFirst inRange ranges with
  | nil => simp [classRanges] at read
  | cons c text ih =>
    unfold classRanges at read
    simp only [List.length_cons]
    split at read
    · cases read
      omega
    · split at read
      · have := ih read
        omega
      · split at read
        · split at read
          · have := ih read
            omega
          · contradiction
        · have := ih read
          omega

/-- A class behind its opening bracket. -/
def classToken (text : List Char) : Except ClassFault (Token × List Char) :=
  match text with
  | '!' :: rest | '^' :: rest => (classRanges true false [] rest).map fun (ranges, rest) => (.oneOf true ranges, rest)
  | _ => (classRanges true false [] text).map fun (ranges, rest) => (.oneOf false ranges, rest)

theorem length_classToken_lt {text rest : List Char} {token : Token}
    (read : classToken text = .ok (token, rest)) : rest.length < text.length := by
  have within {isNegated : Bool} {text : List Char}
      (read : (classRanges true false [] text).map (fun (ranges, rest) => (Token.oneOf isNegated ranges, rest))
        = .ok (token, rest)) : rest.length < text.length := by
    match found : classRanges true false [] text with
    | .error _ => simp [found, Except.map] at read
    | .ok (ranges, left) =>
      simp only [found, Except.map, Except.ok.injEq, Prod.mk.injEq] at read
      exact read.2 ▸ length_classRanges_lt found
  unfold classToken at read
  split at read
  · exact Nat.lt_succ_of_lt (within read)
  · exact Nat.lt_succ_of_lt (within read)
  · exact within read

/-- A group of alternatives that is open: the tokens in front of it, and the alternatives
that are complete. -/
structure Group where
  before : List Token
  branches : List (List Token) := []
deriving Inhabited

/-- What a pattern has been read as so far. -/
structure Draft where
  /-- The open groups, the innermost one first. -/
  groups : List Group := []
  /-- The tokens of the alternative that is being read. -/
  current : List Token := []
  /-- The character that was read last. -/
  previous : Option Char := none
deriving Inhabited

namespace Draft

def push (draft : Draft) (tokens : List Token) (last : Char) : Draft :=
  { draft with current := draft.current ++ tokens, previous := some last }

def openGroup (draft : Draft) : Draft :=
  { groups := ⟨draft.current, []⟩ :: draft.groups, current := [], previous := some '\x7b' }

/-- A comma starts the next alternative of a group. Outside of groups it stands for itself. -/
def comma (draft : Draft) : Draft :=
  match draft.groups with
  | [] => draft.push [.literal ','] ','
  | group :: others =>
    { groups := { group with branches := group.branches ++ [draft.current] } :: others
      current := []
      previous := some ',' }

def closeGroup? (draft : Draft) : Option Draft :=
  match draft.groups with
  | [] => none
  | group :: others =>
    some {
      groups := others
      current := group.before ++ [.choice (group.branches ++ [draft.current])]
      previous := some '\x7d' }

/-- Puts two stars that cross directories in the place of the last token, which is the slash
in front of them, unless that crosses directories at an end itself. -/
def cross (draft : Draft) (token : Token) (last : Char) : Draft :=
  let token := match draft.current.getLast? with
    | some .leading => .leading
    | some .trailing => .trailing
    | _ => token
  { draft with current := draft.current.dropLast ++ [token], previous := some last }

/-- Whether two stars behind what has been read may cross directories. -/
def mayCross (draft : Draft) : Bool :=
  draft.previous == some '/' ||
    (!draft.groups.isEmpty && (draft.previous == some ',' || draft.previous == some '\x7b'))

/-- Two stars, with the text behind them: what they are read as, and what is left. -/
def stars (draft : Draft) (text : List Char) : Draft × List Char :=
  if draft.current.isEmpty then
    match text with
    | [] => (draft.push [.leading] '*', [])
    | '/' :: rest => (draft.push [.leading] '/', rest)
    | _ => (draft.push [.run, .run] '*', text)
  else if draft.mayCross then
    match text with
    | [] => (draft.cross .trailing '*', [])
    | '/' :: rest => (draft.cross .between '/', rest)
    | c :: _ =>
      if !draft.groups.isEmpty && (c == ',' || c == '\x7d') then (draft.cross .trailing '*', text)
      else (draft.push [.run, .run] '*', text)
  else (draft.push [.run, .run] '*', text)

theorem length_stars_le (draft : Draft) (text : List Char) : (draft.stars text).2.length ≤ text.length := by
  unfold stars
  repeat' split
  all_goals simp

/-- Reads the rest of a pattern. Where it is forgiven, a bracket that is not closed stands for itself. -/
def read? (forgives : Bool) (draft : Draft) (text : List Char) : Option (List Token) :=
  match text with
  | [] => if draft.groups.isEmpty then some draft.current else none
  | '?' :: rest => (draft.push [.single] '?').read? forgives rest
  | '*' :: '*' :: rest => (draft.stars rest).1.read? forgives (draft.stars rest).2
  | '*' :: rest => (draft.push [.run] '*').read? forgives rest
  | '[' :: rest =>
    match _ : classToken rest with
    | .ok (token, rest) => (draft.push [token] ']').read? forgives rest
    | .error .unclosed => if forgives then (draft.push [.literal '['] '[').read? forgives rest else none
    | .error .reversed => none
  | '\x7b' :: rest => draft.openGroup.read? forgives rest
  | '\x7d' :: rest => draft.closeGroup?.bind (·.read? forgives rest)
  | ',' :: rest => draft.comma.read? forgives rest
  | ['\\'] => none
  | '\\' :: c :: rest => (draft.push [.literal c] c).read? forgives rest
  | c :: rest => (draft.push [.literal c] c).read? forgives rest
termination_by text.length
decreasing_by
  all_goals simp only [List.length_cons]
  · omega
  · have := draft.length_stars_le rest
    omega
  · omega
  · have := length_classToken_lt ‹_›
    omega
  all_goals omega

end Draft

end TestScout.Glob

namespace TestScout

/-- The glob that a text writes. Braces have to be closed, and ranges must not run backwards.
Brackets have to be closed as well, unless that is forgiven. -/
def Glob.ofText? (text : String) (forgives : Bool := false) : Option Glob :=
  (({} : Glob.Draft).read? forgives text.toList).map (⟨·⟩)

end TestScout
