import Mathlib.Data.List.Basic
import TestScout.Source.Escape
import TestScout.Test.Provider

/-! What is told of the keys that a provider writes out. In an array a text is the same key as the number that it writes in
decimals, and a number may be written in four bases and with its digits in groups. Nothing is told of what would have to be
computed, so the keys that are told are those of the places where a provider gives data sets, in their order and with gaps. -/

namespace TestScout.Test
open Code Source.Escape

/-! ## Keys and their literals -/

/-- Whether a number fits into 64 bits with its sign. -/
def IsLong (value : Int) : Prop := -9223372036854775808 ≤ value ∧ value ≤ 9223372036854775807

instance : DecidablePred IsLong := fun _ => inferInstanceAs (Decidable (_ ∧ _))

/-- The key of an entry in an array. -/
inductive ArrayKey where
  | number (value : Int)
  | name (text : String)
deriving Repr, DecidableEq

/-- A data set goes by its number, or by its name in quotes. -/
def ArrayKey.text : ArrayKey → String
  | .number value => "#" ++ toString value
  | .name text => "\"" ++ text ++ "\""

/-- Whether a character is a digit of a base. -/
def IsDigitOf (base : Nat) (c : Char) : Prop := isHex c = true ∧ hexValue c < base

instance {base : Nat} : DecidablePred (IsDigitOf base) := fun _ => inferInstanceAs (Decidable (_ ∧ _))

/-- The number that digits of a base write. An underscore may stand between two of them. -/
inductive Numeral (base : Nat) : List Char → Nat → Prop
  | first {c : Char} (digit : IsDigitOf base c) : Numeral base [c] (hexValue c)
  | next {text : List Char} {value : Nat} {c : Char} (front : Numeral base text value) (digit : IsDigitOf base c) :
    Numeral base (text ++ [c]) (base * value + hexValue c)
  | apart {text : List Char} {value : Nat} {c : Char} (front : Numeral base text value) (digit : IsDigitOf base c) :
    Numeral base (text ++ ['_', c]) (base * value + hexValue c)

/-- The letters that name a base behind a zero. -/
def baseMarks : List (Char × Nat) := [('x', 16), ('X', 16), ('o', 8), ('O', 8), ('b', 2), ('B', 2)]

/-- The number that a literal stands for. Behind a zero without a letter the digits are octal ones. -/
inductive IntegerLiteral : List Char → Nat → Prop
  | decimal {text : List Char} {value : Nat} (numeral : Numeral 10 text value) (first : text.head? ≠ some '0') :
    IntegerLiteral text value
  | octal {digits : List Char} {value : Nat} (numeral : Numeral 8 ('0' :: digits) value) : IntegerLiteral ('0' :: digits) value
  | marked {mark : Char} {base : Nat} {text : List Char} {value : Nat} (known : (mark, base) ∈ baseMarks)
    (numeral : Numeral base text value) : IntegerLiteral ('0' :: mark :: text) value

/-- The key that a literal is in an array. -/
inductive KeyOf : Node → ArrayKey → Prop
  | number {node : Number} {value : Nat} (literal : IntegerLiteral node.raw.toList value) (fits : IsLong value) :
    KeyOf (.number node) (.number value)
  | numeric {node : StringLiteral} {value : Int} (canonical : node.value = toString value) (fits : IsLong value) :
    KeyOf (.string node) (.number value)
  | name {node : StringLiteral} (other : ∀ value : Int, IsLong value → node.value ≠ toString value) :
    KeyOf (.string node) (.name node.value)

/-- How a literal is told when it is not told as its key: a number in octal digits by the same digits in decimals, and a text
that is the same key as a number in quotes. -/
inductive Misread : Node → String → Prop
  | octal {node : Number} {digits : List Char} (written : node.raw.toList = '0' :: digits) (more : digits ≠ []) :
    Misread (.number node) (ArrayKey.number (valueOf 10 digits)).text
  | numeric {node : StringLiteral} {value : Int} (canonical : node.value = toString value) (fits : IsLong value) :
    Misread (.string node) (ArrayKey.name node.value).text

/-- Whether a key cannot go untold: there is none, it is a text, or it is a number in plain decimals. -/
def IsPlainKey : Option Node → Prop
  | none | some (.string _) => True
  | some (.number node) =>
    node.raw.toList ≠ [] ∧ (∀ c ∈ node.raw.toList, c.isDigit = true) ∧ IsLong (valueOf 10 node.raw.toList)
  | some _ => False

/-! ## Where a provider gives data sets -/

def arraySites (array : ArrayLiteral) : List (Option Node) := (array.entries.filter (!·.isSpread)).map (·.key)

/-- Only arrays that are written out are looked into. -/
def valueSites : Option Node → List (Option Node)
  | some (.array array) => arraySites array
  | _ => []

def yieldSites (site : Yield) : List (Option Node) := if site.delegates then valueSites site.value else [site.key]

/-- A generator gives what it yields, and any other body what it returns. -/
def bodySites (statements : List Node) : List (Option Node) :=
  match statements.filterMap yield? with
  | [] => valueSites ((statements.findSome? return?).bind (·.value))
  | sites => sites.flatMap yieldSites

/-- The keys as they are written at the places where a provider gives data sets, in source order. -/
def keySites (provider : Node) : List (Option Node) :=
  match provider.argument with
  | .method node => (node.body.map fun body => bodySites body.children).getD []
  | .closure node => bodySites node.body.children
  | .array array => arraySites array
  | _ => []

/-- Whether keys are told of places in their order, none of a plain key's place left out and every literal told as its key
unless it is misread. -/
inductive Tells : List (Option Node) → List String → Prop
  | done : Tells [] []
  | silent {site : Option Node} {sites : List (Option Node)} {keys : List String} (computed : ¬IsPlainKey site)
    (rest : Tells sites keys) : Tells (site :: sites) keys
  | told {site : Option Node} {text : String} {sites : List (Option Node)} {keys : List String}
    (right : ∀ node ∈ site, ∀ key, KeyOf node key → text = key.text ∨ Misread node text) (rest : Tells sites keys) :
    Tells (site :: sites) (text :: keys)

theorem Tells.append {first second : List (Option Node)} {keys more : List String} (front : Tells first keys)
    (behind : Tells second more) : Tells (first ++ second) (keys ++ more) := by
  induction front with
  | done => exact behind
  | silent computed _ ih => exact .silent computed ih
  | told right _ ih => exact .told right ih

/-! ## Numbers -/

section

variable {base value : Nat} {text : List Char} {c : Char}

theorem valueOf_append (base : Nat) (text : List Char) (c : Char) :
    valueOf base (text ++ [c]) = base * valueOf base text + hexValue c := List.foldl_append

theorem Numeral.value_eq (numeral : Numeral base text value) (whole : '_' ∉ text) : value = valueOf base text := by
  induction numeral with
  | first => simp [valueOf]
  | next _ _ ih => rw [valueOf_append, ih fun mark => whole (List.mem_append_left _ mark)]
  | apart => exact absurd (by simp) whole

theorem Numeral.mem (numeral : Numeral base text value) (member : c ∈ text) : c = '_' ∨ IsDigitOf base c := by
  induction numeral with
  | first digit => exact .inr (List.mem_singleton.mp member ▸ digit)
  | next _ digit ih =>
    rcases List.mem_append.mp member with front | last
    · exact ih front
    · exact .inr (List.mem_singleton.mp last ▸ digit)
  | apart _ digit ih =>
    rcases List.mem_append.mp member with front | last
    · exact ih front
    · rcases List.mem_cons.mp last with mark | last
      · exact .inl mark
      · exact .inr (List.mem_singleton.mp last ▸ digit)

theorem Numeral.exists_cons (numeral : Numeral base text value) : ∃ first rest, text = first :: rest ∧ IsDigitOf base first := by
  induction numeral with
  | first digit => exact ⟨_, [], rfl, digit⟩
  | next _ _ ih | apart _ _ ih =>
    obtain ⟨first, rest, rfl, digit⟩ := ih
    exact ⟨first, _, rfl, digit⟩

/-- What is a digit of ten or of a smaller base is a decimal digit. -/
theorem IsDigitOf.isDigit (digit : IsDigitOf base c) (small : base ≤ 10) : c.isDigit = true := by
  cases decimal : c.isDigit with
  | true => rfl
  | false =>
    have below := digit.2
    rw [hexValue, decimal, if_neg Bool.false_ne_true] at below
    omega

/-- A text that starts with a digit is read as the number it writes in plain decimals, if it does and the number fits. -/
theorem decimal?_eq {raw : String} {first : Char} {rest : List Char} (written : raw.toList = first :: rest)
    (start : first.isDigit = true) :
    decimal? raw = if raw.toList.all Char.isDigit ∧ IsLong (valueOf 10 raw.toList) then some (valueOf 10 raw.toList : Int) else none := by
  have unsigned : first ≠ '-' ∧ first ≠ '+' := by constructor <;> rintro rfl <;> cases start
  rw [written]
  unfold decimal?
  rw [written]
  split
  next same => exact absurd (List.cons.inj same).1 unsigned.1
  next same => exact absurd (List.cons.inj same).1 unsigned.2
  next =>
    by_cases digits : (first :: rest).all Char.isDigit
    · have folded : (first :: rest).foldl (fun value c => 10 * value + (c.toNat - '0'.toNat)) 0 = valueOf 10 (first :: rest) := by
        refine List.foldl_ext _ _ _ fun value c member => ?_
        rw [hexValue, if_pos (List.all_eq_true.mp digits c member)]
      simp only [digits, Bool.not_true, Bool.or_false, List.isEmpty_cons, Bool.false_eq_true, ite_false, folded, Option.map_some,
        true_and, Option.filter_some, Bool.and_eq_true, decide_eq_true_eq]
      rfl
    · simp [digits]

end

/-! ## Keys -/

variable {position : Nat}

/-- A number that is told is told as its key, unless its octal digits are taken for decimals. -/
theorem keyText?_number {node : Number} {value : Nat} (literal : IntegerLiteral node.raw.toList value) {text : String}
    (told : keyText? (some (.number node)) position = some text) :
    text = (ArrayKey.number value).text ∨ Misread (.number node) text := by
  obtain ⟨read, found, rfl⟩ := Option.map_eq_some_iff.mp told
  have plain : ∀ first rest, node.raw.toList = first :: rest → first.isDigit = true →
      (∀ c ∈ node.raw.toList, c.isDigit = true) ∧ read = valueOf 10 node.raw.toList := by
    intro first rest written start
    rw [decimal?_eq written start] at found
    obtain ⟨⟨digits, -⟩, same⟩ := Option.ite_none_right_eq_some.mp found
    exact ⟨List.all_eq_true.mp digits, (Option.some_inj.mp same).symm⟩
  generalize written : node.raw.toList = raw at literal plain
  cases literal with
  | decimal numeral =>
    obtain ⟨first, rest, rfl, digit⟩ := numeral.exists_cons
    obtain ⟨digits, rfl⟩ := plain first rest rfl (digit.isDigit (Nat.le_refl 10))
    rw [numeral.value_eq fun mark => nomatch digits _ mark]
    exact .inl rfl
  | @octal rest _ numeral =>
    obtain ⟨-, rfl⟩ := plain '0' rest rfl rfl
    cases rest with
    | nil =>
      rw [numeral.value_eq (by decide)]
      exact .inl rfl
    | cons second rest =>
      have leading : valueOf 10 ('0' :: second :: rest) = valueOf 10 (second :: rest) := rfl
      rw [leading]
      exact .inr (.octal written (List.cons_ne_nil _ _))
  | @marked mark base rest _ known =>
    obtain ⟨digits, -⟩ := plain '0' (mark :: rest) rfl rfl
    have letter : ∀ entry ∈ baseMarks, entry.1.isDigit = false := by decide
    exact absurd (digits mark (by simp)) (by rw [letter _ known]; exact Bool.false_ne_true)

/-- One key is told as it is, unless it is misread, and a plain key is told in any case. -/
theorem tells_keyText? (site : Option Node) (position : Nat) : Tells [site] (keyText? site position).toList := by
  cases told : keyText? site position with
  | none =>
    refine .silent ?_ .done
    intro plain
    cases site with
    | none => cases told
    | some node =>
      cases node with
      | number node =>
        obtain ⟨filled, digits, fits⟩ := plain
        obtain ⟨first, rest, written⟩ := List.exists_cons_of_ne_nil filled
        have read := decimal?_eq written (digits first (written ▸ List.mem_cons_self))
        rw [if_pos ⟨List.all_eq_true.mpr digits, fits⟩] at read
        rw [keyText?, read] at told
        cases told
      | string node => cases told
      | _ => exact plain
  | some text =>
    refine .told ?_ .done
    rintro node same key isKey
    obtain rfl := Option.mem_def.mp same
    cases isKey with
    | number literal fits => exact keyText?_number literal told
    | numeric canonical fits =>
      obtain rfl := Option.some_inj.mp told
      exact .inr (.numeric canonical fits)
    | name other => exact .inl (Option.some_inj.mp told).symm

theorem tells_arrayKeys (array : ArrayLiteral) : Tells (arraySites array) (arrayKeys array) := by
  rw [arraySites, arrayKeys]
  generalize 0 = start
  induction array.entries generalizing start with
  | nil => exact .done
  | cons entry rest ih =>
    rw [List.zipIdx_cons, List.filterMap_cons]
    cases spread : entry.isSpread with
    | true =>
      simp only [List.filter_cons, spread]
      exact ih (start + 1)
    | false =>
      have both := (tells_keyText? entry.key start).append (ih (start + 1))
      simp only [List.filter_cons, spread]
      cases told : keyText? entry.key start <;> rw [told] at both <;> exact both

/-- The keys of what may be an array. -/
theorem tells_value (value : Option Node) : Tells (valueSites value) (match value with
    | some (.array array) => arrayKeys array
    | _ => []) := by
  cases value with
  | none => exact .done
  | some value =>
    cases value with
    | array array => exact tells_arrayKeys array
    | _ => exact .done

theorem tells_yieldKeys (site : Yield) (position : Nat) : Tells (yieldSites site) (yieldKeys site position) := by
  rw [yieldSites, yieldKeys]
  split
  · exact tells_value site.value
  · exact tells_keyText? site.key position

theorem tells_bodyKeys (statements : List Node) : Tells (bodySites statements) (bodyKeys statements) := by
  rw [bodySites, bodyKeys]
  generalize statements.filterMap yield? = sites
  cases sites with
  | nil => exact tells_value _
  | cons first others =>
    show Tells ((first :: others).flatMap yieldSites) ((first :: others).zipIdx.flatMap fun site => yieldKeys site.1 site.2)
    generalize first :: others = sites, 0 = start
    induction sites generalizing start with
    | nil => exact .done
    | cons site rest ih =>
      rw [List.zipIdx_cons, List.flatMap_cons, List.flatMap_cons]
      exact (tells_yieldKeys site start).append (ih (start + 1))

/-- **How explicit keys are told.** Every provider tells of the places where it gives data sets in their order. A literal is told
as the key that it is, if at all, apart from numbers with octal digits behind a zero and texts that write a number. Texts and
numbers in plain decimals are never left out. -/
theorem explicit_keys_told (provider : Node) : Tells (keySites provider) (providerKeys provider) := by
  rw [keySites, providerKeys]
  cases provider.argument with
  | method method =>
    show Tells ((method.body.map fun body => bodySites body.children).getD [])
      ((method.body.map fun body => bodyKeys body.children).getD [])
    cases method.body with
    | none => exact .done
    | some body => exact tells_bodyKeys body.children
  | closure closure => exact tells_bodyKeys closure.body.children
  | array array => exact tells_arrayKeys array
  | _ => exact .done

private def quotedFive : StringLiteral := ⟨"5", "'5'", none⟩

private def octalEight : Number := ⟨"010", none⟩

/-- The two ways to misread a key. The text `'5'` is the key 5 and `010` is the key 8. -/
theorem numeric_keys_misread :
    KeyOf (.string quotedFive) (.number 5) ∧ KeyOf (.number octalEight) (.number 8) ∧
    providerKeys (.array ⟨[⟨some (.string quotedFive), .unknown none, false, none⟩,
      ⟨some (.number octalEight), .unknown none, false, none⟩], none⟩) = ["\"5\"", "#10"] ∧
    (ArrayKey.number 5).text = "#5" ∧ (ArrayKey.number 8).text = "#8" := by
  have eight : Numeral 8 ("010".toList) 8 := (Numeral.first (by decide)).next (by decide) |>.next (by decide)
  refine ⟨.numeric (by decide +kernel) (by decide), ?_, by decide +kernel, by decide +kernel, by decide +kernel⟩
  exact .number (.octal eight) (by decide)

end TestScout.Test
