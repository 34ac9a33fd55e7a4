import TestScout.Code.Tree
import TestScout.Path.Basic

/-! The classes and traits that are known, by their full names. A name is declared by one
entry at most; a later declaration takes the place of an earlier one. -/

namespace TestScout
open Code

/-- What a scope imports: short names in lower case and the full names they stand for. -/
structure Imports where
  entries : List (String × String) := []
deriving Repr, DecidableEq, Inhabited

namespace Imports

def insert (imports : Imports) (shortName fullName : String) : Imports :=
  ⟨imports.entries.filter (·.1 != shortName) ++ [(shortName, fullName)]⟩

def find? (imports : Imports) (shortName : String) : Option String := imports.entries.lookup shortName

end Imports

/-- A name written without imports in a namespace. -/
def qualify (space : Option String) (name : String) : String :=
  match space with
  | some space => if space.isEmpty then name else space ++ "\\" ++ name
  | none => name

/-- The full name that a name written in a scope stands for. A backslash in front makes it
full already; otherwise its first segment may be imported. -/
def resolveName (space : Option String) (imports : Imports) (name : String) : String :=
  match name.toList with
  | '\\' :: rest => String.ofList rest
  | text =>
    match Text.splitOnce ['\\'] text with
    | some (first, rest) =>
      match imports.find? (String.ofList first).toLower with
      | some imported => imported ++ "\\" ++ String.ofList rest
      | none => qualify space name
    | none => (imports.find? name.toLower).getD (qualify space name)

inductive ClassKind where
  | classDecl
  | traitDecl
deriving Repr, DecidableEq, Inhabited

/-- A class or a trait as a file declares it, with full names throughout. -/
structure ClassInfo where
  name : String
  kind : ClassKind := .classDecl
  isAbstract : Bool := false
  parent : Option String := none
  traits : List String := []
  adaptations : List Adaptation := []
  methods : List Method := []
  /-- The imports of the scope that declares it. -/
  imports : Imports := {}
  file : Path

/-- The classes and traits that an entry extends or uses. -/
def ClassInfo.references (info : ClassInfo) : List String := info.parent.toList ++ info.traits

structure Registry where
  classes : List ClassInfo
  distinct : (classes.map (·.name)).Nodup

namespace Registry

def empty : Registry := ⟨[], List.nodup_nil⟩

instance : Inhabited Registry := ⟨empty⟩

def size (registry : Registry) : Nat := registry.classes.length

def isEmpty (registry : Registry) : Bool := registry.classes.isEmpty

/-- The entries that meet a condition. -/
def filter (registry : Registry) (keep : ClassInfo → Bool) : Registry where
  classes := registry.classes.filter keep
  distinct := registry.distinct.sublist (List.filter_sublist.map _)

/-- Adds an entry, in place of one of the same name. -/
def register (registry : Registry) (info : ClassInfo) : Registry where
  classes := registry.classes.filter (·.name != info.name) ++ [info]
  distinct := by
    rw [List.map_append, List.nodup_append]
    refine ⟨registry.distinct.sublist (List.filter_sublist.map _), by simp, ?_⟩
    intro name other last found
    simp only [List.mem_map, List.mem_filter] at other
    obtain ⟨entry, ⟨-, differs⟩, rfl⟩ := other
    simp only [List.map_cons, List.map_nil, List.mem_singleton] at found
    subst found
    simpa using differs

/-- The entry that a name stands for, with or without backslashes in front. -/
def find? (registry : Registry) (name : String) : Option ClassInfo :=
  registry.classes.find? (·.name == relativeName name)

/-- The entries that a file declares. -/
def declaredIn (registry : Registry) (file : Path) : List ClassInfo := registry.classes.filter (·.file.same file)

def removeFile (registry : Registry) (file : Path) : Registry := registry.filter (!·.file.same file)

def removeUnder (registry : Registry) (root : Path) : Registry := registry.filter (!·.file.isUnder root)

/-- Whether a file declares something that extends a class or uses a trait. -/
def hasReferences (registry : Registry) (file : Path) : Bool :=
  (registry.declaredIn file).any fun info => !info.references.isEmpty

end Registry

end TestScout
