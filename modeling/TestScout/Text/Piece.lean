/-! Cutting texts apart: at a known beginning or end, at a mark, into lines. -/

namespace TestScout.Text

/-- What follows a known beginning. -/
def after? : (start text : List Char) → Option (List Char)
  | [], text => some text
  | _ :: _, [] => none
  | c :: start, d :: text => if c = d then after? start text else none

/-- What precedes a known end. -/
def before? (ending text : List Char) : Option (List Char) :=
  (after? ending.reverse text.reverse).map List.reverse

/-- The pieces between the marks; there is always one more piece than marks. -/
def splitAt (mark : Char → Bool) : List Char → List (List Char)
  | [] => [[]]
  | c :: rest =>
    if mark c then [] :: splitAt mark rest
    else
      match splitAt mark rest with
      | [] => [[c]]
      | piece :: others => (c :: piece) :: others

/-- The texts around the first occurrence of a marker. -/
def splitOnce (marker : List Char) : List Char → Option (List Char × List Char)
  | [] => if marker.isEmpty then some ([], []) else none
  | c :: rest =>
    match after? marker (c :: rest) with
    | some following => some ([], following)
    | none => (splitOnce marker rest).map fun (before, following) => (c :: before, following)

/-- What follows the last mark, or everything when there is none. -/
def lastPiece (mark : Char) (text : List Char) : List Char :=
  (text.reverse.takeWhile (· != mark)).reverse

/-- What precedes the last mark. -/
def beforeLast? (mark : Char) (text : List Char) : Option (List Char) :=
  match text.reverse.dropWhile (· != mark) with
  | [] => none
  | _ :: before => some before.reverse

/-- The lines of a text. A line ends with a line feed, of which a carriage return in
front is a part; the end of the text ends a line only when something stands there. -/
def lines (text : List Char) : List (List Char) :=
  let pieces := splitAt (· == '\n') text
  let closed := pieces.dropLast.map fun line => (before? ['\r'] line).getD line
  match pieces.getLast? with
  | none | some [] => closed
  | some rest => closed ++ [rest]

/-- The number of bytes a text takes in UTF-8. -/
def byteLength : (text : List Char) → Nat
  | [] => 0
  | c :: rest => c.utf8Size + byteLength rest

/-- A text without its first so many bytes. -/
def dropBytes : Nat → List Char → List Char
  | _, [] => []
  | 0, text => text
  | size, c :: rest => dropBytes (size - c.utf8Size) rest

/-- The first so many bytes of a text. -/
def takeBytes : Nat → List Char → List Char
  | _, [] => []
  | 0, _ => []
  | size, c :: rest => c :: takeBytes (size - c.utf8Size) rest

theorem after?_append (start rest : List Char) : after? start (start ++ rest) = some rest := by
  induction start with
  | nil => cases rest <;> rfl
  | cons c start ih => simp [after?, ih]

theorem eq_append_of_after? {start text rest : List Char} (found : after? start text = some rest) :
    text = start ++ rest := by
  induction start generalizing text with
  | nil => cases text <;> simp_all [after?]
  | cons c start ih =>
    cases text with
    | nil => simp [after?] at found
    | cons d text =>
      by_cases same : c = d
      · simp only [after?, same, ite_true] at found
        rw [same, ih found, List.cons_append]
      · simp [after?, same] at found

theorem byteLength_append (first second : List Char) :
    byteLength (first ++ second) = byteLength first + byteLength second := by
  induction first with
  | nil => simp [byteLength]
  | cons c first ih => simp only [List.cons_append, byteLength, ih, Nat.add_assoc]

end TestScout.Text

namespace TestScout

/-- Names in PHP are compared without regard to the case of ASCII letters. -/
def sameName (first second : String) : Bool := first.toLower == second.toLower

/-- A name without the backslashes in front of it. -/
def relativeName (name : String) : String := String.ofList (name.toList.dropWhile (· == '\\'))

/-- The last segment of a qualified name. -/
def shortName (name : String) : String := String.ofList (Text.lastPiece '\\' name.toList)

/-- The namespace of a qualified name, when it has one. -/
def namespaceOf? (name : String) : Option String := (Text.beforeLast? '\\' name.toList).map String.ofList

end TestScout
