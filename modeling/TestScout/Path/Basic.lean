import TestScout.Text.Piece

/-! File paths. A path is printed as it is written, but two paths are the same when their
parts are; doubled slashes, a slash at the end and single dots inside make no difference. -/

namespace TestScout

structure Path where
  text : String
deriving Repr, DecidableEq, Inhabited

namespace Path

/-- A part of a path. The order of the cases is the order of paths that part ways here. -/
inductive Part where
  | root
  /-- The dot that a path begins with. -/
  | here
  | up
  | name (text : String)
deriving Repr, DecidableEq, Inhabited

def segments (path : Path) : List String :=
  (Text.splitAt (· == '/') path.text.toList).map String.ofList

def isAbsolute (path : Path) : Bool := path.text.toList.head? == some '/'

def partOf? (segment : String) : Option Part :=
  match segment with
  | "" | "." => none
  | ".." => some .up
  | name => some (.name name)

/-- The segments with what they mean. The first one may stand for the root or for the dot
that a path begins with. -/
def placed (path : Path) : List (String × Option Part) :=
  match path.segments with
  | [] => []
  | first :: rest =>
    let start := if path.isAbsolute then some .root else if first == "." then some .here else partOf? first
    (first, start) :: rest.map fun segment => (segment, partOf? segment)

def parts (path : Path) : List Part := path.placed.filterMap (·.2)

def same (first second : Path) : Bool := first.parts == second.parts

/-- How far into the order of parts a kind of part comes. -/
def Part.rank : Part → Nat
  | .root => 0
  | .here => 1
  | .up => 2
  | .name _ => 3

/-- Names are ordered by their bytes in UTF-8. -/
def Part.compare : Part → Part → Ordering
  | .name first, .name second => compareOfLessAndEq first second
  | first, second => Ord.compare first.rank second.rank

def compareParts : List Part → List Part → Ordering
  | [], [] => .eq
  | [], _ :: _ => .lt
  | _ :: _, [] => .gt
  | first :: firsts, second :: seconds =>
    match first.compare second with
    | .eq => compareParts firsts seconds
    | decided => decided

def compare (first second : Path) : Ordering := compareParts first.parts second.parts

/-- What follows the parts of a directory in those of a path below it, or of the directory itself. -/
def partsBelow? (directory : List Part) (parts : List Part) : Option (List Part) :=
  match directory, parts with
  | [], parts => some parts
  | _ :: _, [] => none
  | first :: directory, part :: parts => if first = part then partsBelow? directory parts else none

def isUnder (path directory : Path) : Bool := (partsBelow? directory.parts path.parts).isSome

/-- What is left of segments when so many parts are taken off the front. -/
def dropParts : (count : Nat) → List (String × Option Part) → List (String × Option Part)
  | 0, segments => segments
  | _ + 1, [] => []
  | count + 1, (_, none) :: rest => dropParts (count + 1) rest
  | count + 1, (_, some _) :: rest => dropParts count rest

/-- The text of a path from a directory on; none when the path is not under the directory. -/
def textBelow? (path directory : Path) : Option String :=
  if path.isUnder directory then
    let rest := (dropParts directory.parts.length path.placed).dropWhile (·.2.isNone)
    let rest := (rest.reverse.dropWhile (·.2.isNone)).reverse
    some ("/".intercalate (rest.map (·.1)))
  else none

/-- Puts a path into an ordered list of different paths, unless it is there already. -/
def insertInto (path : Path) : List Path → List Path
  | [] => [path]
  | first :: rest =>
    match path.compare first with
    | .lt => path :: first :: rest
    | .eq => first :: rest
    | .gt => first :: insertInto path rest

/-- The path of the directory that a path lies in. The root lies in none. -/
def directory? (path : Path) : Option Path :=
  match (path.placed.reverse.dropWhile (·.2.isNone)) with
  | (_, some .root) :: _ => none
  | _ :: rest =>
    match (rest.dropWhile (·.2.isNone)).reverse with
    | [] => some ⟨""⟩
    | [(_, some .root)] => some ⟨"/"⟩
    | kept => some ⟨"/".intercalate (kept.map (·.1))⟩
  | [] => none

/-- The directories that a path lies in, the innermost one first. -/
def ancestors (path : Path) : List Path := climb path.parts.length path
where
  climb : (steps : Nat) → Path → List Path
    | 0, _ => []
    | steps + 1, path =>
      match path.directory? with
      | none => []
      | some directory => directory :: climb steps directory

/-- What follows the last dot in the name at the end, unless the name starts with that dot. -/
def extension? (path : Path) : Option String :=
  match path.parts.getLast? with
  | some (.name text) =>
    if (Text.beforeLast? '.' text.toList).any (!·.isEmpty) then some (String.ofList (Text.lastPiece '.' text.toList))
    else none
  | _ => none

/-- Where a path leads that is meant from a directory. -/
def join (directory path : Path) : Path :=
  if path.isAbsolute then path
  else if directory.text == "" || directory.text.toList.getLast? == some '/' then ⟨directory.text ++ path.text⟩
  else ⟨directory.text ++ "/" ++ path.text⟩

end Path

end TestScout
