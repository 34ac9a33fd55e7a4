import TestScout.Files.Basic

/-! File trees as values. -/

namespace TestScout

inductive FileTree where
  | file (content : ByteArray)
  | directory (entries : List (String × FileTree))

namespace FileTree

instance : Inhabited FileTree := ⟨.directory []⟩

def isDirectory : FileTree → Bool
  | .file _ => false
  | .directory _ => true

/-- What names lead to. -/
def find : FileTree → List String → Except FileFault FileTree
  | tree, [] => .ok tree
  | .file _, _ :: _ => .error .notDirectory
  | .directory entries, name :: names =>
    match entries.lookup name with
    | some entry => entry.find names
    | none => .error .missing

/-- Puts an entry in the place that names lead to, with the directories on the way. -/
def put (entry : FileTree) (names : List String) (tree : FileTree) : FileTree :=
  match names with
  | [] => entry
  | name :: names =>
    let entries := match tree with
      | .file _ => []
      | .directory entries => entries
    let inner := (entries.lookup name).getD (.directory [])
    .directory (entries.filter (·.1 != name) ++ [(name, put entry names inner)])

def remove (names : List String) (tree : FileTree) : FileTree :=
  match tree, names with
  | .file content, _ => .file content
  | .directory entries, [] => .directory entries
  | .directory entries, [name] => .directory (entries.filter (·.1 != name))
  | .directory entries, name :: names =>
    match entries.lookup name with
    | none => .directory entries
    | some inner => .directory (entries.map fun entry => if entry.1 == name then (name, remove names inner) else entry)

/-- The names that a path leads along. Every step has to lead somewhere. -/
def resolve (tree : FileTree) (trail : List String) : List Path.Part → Except FileFault (List String)
  | [] => .ok trail
  | .root :: rest => tree.resolve [] rest
  | .here :: rest => tree.resolve trail rest
  | .up :: rest => tree.resolve trail.dropLast rest
  | .name text :: rest => do
    discard <| tree.find (trail ++ [text])
    tree.resolve (trail ++ [text]) rest

/-- The names of a path that starts at the root, whether it leads somewhere or not. -/
def names (path : Path) : List String :=
  path.parts.filterMap fun
    | .name text => some text
    | _ => none

/-- The names from the root on of what a path leads to. A path that does not start at the
root is meant from a directory. -/
def locate (tree : FileTree) (here path : Path) : Except FileFault (List String) :=
  tree.resolve (names here) path.parts

def entryAt (tree : FileTree) (here path : Path) : Except FileFault FileTree := do
  tree.find (← tree.locate here path)

/-- The text of a file. -/
def text : FileTree → Except FileFault String
  | .directory _ => .error .isDirectory
  | .file content => textOfBytes content

/-- The names in a directory, and whether each of them is a directory. -/
def listing : FileTree → Except FileFault (List (String × Bool))
  | .file _ => .error .notDirectory
  | .directory entries => .ok (entries.map fun (name, entry) => (name, entry.isDirectory))

/-- Access to a tree from a directory in it. -/
def files (tree : FileTree) (here : Path) : Files Id where
  read path := (tree.entryAt here path).bind text
  canonical path := (tree.locate here path).map fun names => ⟨"/" ++ "/".intercalate names⟩
  list path := (tree.entryAt here path).bind listing

end FileTree

end TestScout
