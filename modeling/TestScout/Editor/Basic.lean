import TestScout.Collection.Basic
import TestScout.Discovery.Scout
import TestScout.Outline.Builder
import TestScout.Path.Address

/-! What an editor keeps of the tracked files: an outline of all tests and the ways to find
things in it. When a file is taken in again, what it had before is taken out first, and its
items come back as the same items where the ids are the same. An item that is neither in the
outline nor found in another way nor held by somebody is forgotten after that. -/

namespace TestScout
open Test Outline

/-- A definition with its item. -/
structure Indexed where
  ref : Ref
  definition : Definition
deriving Inhabited

structure Editor where
  scout : Discovery.Scout := { root := ⟨""⟩ }
  outline : Outline := {}
  /-- Definitions and their items by id. -/
  index : List (String × Indexed) := []
  /-- The items in each group. -/
  groups : List (String × List Ref) := []
  /-- The ids of what each file defines, in document order. -/
  files : List (Path × List String) := []
  /-- The items that others hold on to, such as a view or a run. -/
  held : List Ref := []
deriving Inhabited

namespace Editor

def item? (editor : Editor) (id : String) : Option Ref := (editor.index.lookup id).map (·.ref)

def definition? (editor : Editor) (id : String) : Option Definition := (editor.index.lookup id).map (·.definition)

/-- What the index has for the ids of a file, in document order. -/
def fileItems (editor : Editor) (file : Path) : List Indexed :=
  let ids := ((editor.files.find? (·.1.same file)).map (·.2)).getD []
  ids.filterMap (editor.index.lookup ·)

/-- The items that can be found without the outline. -/
def known (editor : Editor) : List Ref :=
  editor.index.map (·.2.ref) ++ editor.groups.flatMap (·.2) ++ editor.held

/-- Forgets the items that can be found no longer. -/
def settle (editor : Editor) : Editor := { editor with outline := editor.outline.keep editor.known }

/-- Takes an item out of the outline, and the items above it as long as nothing else is left
below them; these are remembered by their ids. -/
def prune : (levels : Nat) → (ref : Ref) → Outline × List (String × Ref) → Outline × List (String × Ref)
  | levels, ref, (outline, removed) =>
    let place := outline.parentOf ref
    let pruned := (outline.delete place (outline.idOf ref)).1
    match place, levels with
    | some parent, levels + 1 =>
      if (pruned.childrenOf place).isEmpty then
        prune levels parent (pruned, (pruned.idOf parent, parent) :: removed)
      else (pruned, removed)
    | _, _ => (pruned, removed)

/-- Takes out what a file has produced. What was taken out is told by id, with the
namespaces that nothing was left in. -/
def takeOut (editor : Editor) (file : Path) : Editor × List (String × Ref) :=
  match editor.files.find? (·.1.same file) with
  | none => (editor, [])
  | some (_, ids) =>
    let taken := ids.eraseDups.filterMap fun id => (editor.index.lookup id).map (id, ·)
    let previous := taken.map fun (id, indexed) => (id, indexed.ref)
    let stays := fun ref => previous.lookup (editor.outline.idOf ref) != some ref
    let groups := (editor.groups.map fun (name, members) => (name, members.filter stays)).filter (!·.2.isEmpty)
    let classes := taken.filter (·.2.definition.kind = .classLike)
    let (outline, removed) := classes.foldl (fun state (_, indexed) =>
      prune editor.outline.nodes.size indexed.ref state) (editor.outline, previous)
    ({ editor with
      outline
      groups
      index := editor.index.filter fun (id, _) => !ids.contains id
      files := editor.files.filter (!·.1.same file) }, removed)

/-- Adds an item to a group that it may be in already. -/
def joinGroup (ref : Ref) (group : String) (groups : List (String × List Ref)) : List (String × List Ref) :=
  match groups.lookup group with
  | none => groups ++ [(group, [ref])]
  | some members =>
    if members.contains ref then groups
    else groups.map fun (name, members) => (name, if name = group then members ++ [ref] else members)

/-- The groups that tags name. -/
def groupsOf (tags : List String) : List String :=
  tags.filterMap fun tag => (Text.after? groupMark.toList tag.toList).map String.ofList

/-- Adds an item that has been built to the index and to its groups. -/
def indexItem (editor : Editor) (ref : Ref) (definition : Definition) : Editor :=
  { editor with
    index := editor.index.filter (·.1 != definition.id) ++ [(definition.id, ⟨ref, definition⟩)]
    groups := (groupsOf (editor.outline.item ref).tags).foldl (fun groups group =>
      joinGroup ref group groups) editor.groups }

/-- Takes in the source of a file. -/
def takeIn (editor : Editor) (source : String) (file : Path) (suite : String) : Editor × List Definition :=
  let (editor, previous) := editor.takeOut file
  let (scout, definitions) := editor.scout.look source file (some suite)
  let (outline, built) := Outline.build editor.outline file.address? previous definitions
  let indexed := built.foldl (fun editor (ref, definition) => editor.indexItem ref definition)
    { editor with scout, outline }
  let files := if built.isEmpty then indexed.files
    else indexed.files.filter (!·.1.same file) ++ [(file, built.map (·.2.id))]
  ({ indexed with files }.settle, Definition.forest definitions)

instance : Tracker Editor where
  parse := takeIn
  drop editor entry := (editor.takeOut entry.file).1.settle
  forgetFile editor file := { editor with scout := editor.scout.forgetFile file }
  dependents editor file := editor.scout.dependents file
  setRoot editor root := { editor with scout := { editor.scout with root } }
  forgetRoot editor root := { editor with scout := editor.scout.forgetRoot root }

end Editor

end TestScout
