import TestScout.Outline.Basic
import TestScout.Test.Definition

/-! Building the part of the outline that shows one file. Definitions come in document
order; each one opens a frame below the innermost frame that is less deep, and a frame puts
what it has collected into the outline when it is closed. Items that the file had before are
taken up again. -/

namespace TestScout.Outline
open Test

/-- The sign in front of the label of a definition. -/
def icon : DefinitionKind → String
  | .space => "$(symbol-namespace)"
  | .classLike => "$(symbol-class)"
  | .describe | .method | .dataSet => "$(symbol-method)"

/-- The label that the item of a definition has. -/
def labelOf (kind : DefinitionKind) (label : String) : String := icon kind ++ " " ++ label

/-- The range of a definition, whose lines count from one. -/
def rangeOf (definition : Definition) : Source.Extent :=
  let point := fun (position : Position) => (⟨position.line - 1, position.character⟩ : Source.Point)
  ⟨point definition.start, point definition.stop⟩

/-- A number with zeros in front, so that it has six digits at least. -/
def sixDigits (number : Nat) : String :=
  let digits := toString number
  "".pushn '0' (6 - digits.length) ++ digits

/-- What stands in front of the name of a group in a tag. -/
def groupMark : String := "group:"

/-- What stands in front of the name of a namespace in an id. -/
def spaceMark : String := "namespace:"

structure Frame where
  /-- None for the top of the outline. -/
  ref : Place := none
  /-- None for the top of the outline. -/
  kind : Option DefinitionKind := none
  depth : Nat := 0
  children : List Ref := []
deriving Inhabited

structure Builder where
  outline : Outline
  uri : Option String := none
  /-- The items that the file had before, by their ids. -/
  previous : List (String × Ref) := []
  /-- The open frames, the innermost one first. -/
  frames : List Frame := [{}]
  /-- The items that have been built, namespaces apart. -/
  built : List (Ref × Definition) := []

namespace Builder

/-- Puts what a frame has collected into the outline. A test method loses what it had below it. -/
def flush (outline : Outline) (frame : Frame) : Outline :=
  if frame.kind = some .method then outline.replace frame.ref frame.children
  else frame.children.foldl (·.add frame.ref ·) outline

/-- Closes the frames that are at least so deep. -/
def closeFrames (depth : Nat) : List Frame → Outline → List Frame × Outline
  | [], outline => ([], outline)
  | frame :: rest, outline =>
    if depth ≤ frame.depth then closeFrames depth rest (flush outline frame) else (frame :: rest, outline)

def ascend (builder : Builder) (depth : Nat) : Builder :=
  let (frames, outline) := closeFrames depth builder.frames builder.outline
  { builder with frames, outline }

def parent (builder : Builder) : Place := builder.frames.head?.bind (·.ref)

/-- The item with an id that is below the innermost frame, or one that the file had before,
or a new one; and whether there was one. -/
def obtain (builder : Builder) (id label : String) : Builder × Ref × Bool :=
  let relabel := fun (outline : Outline) ref => outline.change ref ({ · with label })
  match builder.outline.child? builder.parent id with
  | some ref => ({ builder with outline := relabel builder.outline ref }, ref, true)
  | none =>
    match builder.previous.lookup id with
    | some ref =>
      ({ builder with
        outline := relabel builder.outline ref
        previous := builder.previous.filter (·.1 != id) }, ref, true)
    | none =>
      let (outline, ref) := builder.outline.create { id, label, uri := builder.uri }
      ({ builder with outline }, ref, false)

def push (builder : Builder) (ref : Ref) (kind : DefinitionKind) (depth : Nat) : Builder :=
  let frames := match builder.frames with
    | [] => []
    | frame :: rest => { frame with children := frame.children ++ [ref] } :: rest
  { builder with frames := { ref := some ref, kind := some kind, depth } :: frames }

/-- The item of one segment of a namespace. -/
def addSegment (depth : Nat) (builder : Builder) (name segment : String) : Builder :=
  let id := spaceMark ++ name
  let (builder, ref, _) := builder.obtain id (labelOf .space segment)
  let outline := builder.outline.change ref ({ · with sortText := some id, canResolve := false })
  { builder with outline }.push ref .space depth

/-- A name from its start to the end of each of its segments, with the segment. -/
def qualifiedSegments (before : String) : List String → List (String × String)
  | [] => []
  | segment :: rest =>
    let name := if before.isEmpty then segment else before ++ "\\" ++ segment
    (name, segment) :: qualifiedSegments name rest

def addSpace (builder : Builder) (definition : Definition) : Builder :=
  let segments := ((Text.splitAt (· == '\\') definition.label.toList).map String.ofList).filter (!·.isEmpty)
  (qualifiedSegments "" segments).foldl (fun builder (name, segment) =>
    builder.addSegment definition.depth name segment) (builder.ascend definition.depth)

/-- The tags of a definition: its own groups, and those of the class that a test method is in. -/
def tagsOf (builder : Builder) (definition : Definition) : List String :=
  let inherited := match builder.frames.head? with
    | some { ref := some ref, kind := some .classLike, .. } =>
      if definition.kind = .method then (builder.outline.item ref).tags else []
    | _ => []
  (definition.annotations.group.map (groupMark ++ ·) ++ inherited).foldl (fun tags tag =>
    if tags.contains tag then tags else tags ++ [tag]) []

/-- Where a definition is sorted: methods and data sets by their order, all else by id. -/
def sortTextOf (definition : Definition) (index : Nat) : String :=
  match definition.kind with
  | .method | .dataSet => sixDigits index
  | _ => definition.id

def addItem (builder : Builder) (definition : Definition) (index : Nat) : Builder :=
  let (builder, ref, isReused) :=
    (builder.ascend definition.depth).obtain definition.id (labelOf definition.kind definition.label)
  let emptied := if isReused && definition.kind ≠ .method then builder.outline.replace (some ref) []
    else builder.outline
  let outline := emptied.change ref ({ · with
    range := some (rangeOf definition)
    canResolve := definition.kind = .classLike
    sortText := some (sortTextOf definition index)
    tags := builder.tagsOf definition })
  { builder with outline, built := builder.built ++ [(ref, definition)] }.push ref definition.kind definition.depth

/-- Takes in the definition at a position. -/
def take (builder : Builder) (definition : Definition) (index : Nat) : Builder :=
  if definition.kind = .space then builder.addSpace definition else builder.addItem definition index

/-- Closes all frames. -/
def finish (builder : Builder) : Builder := builder.ascend 0

end Builder

/-- Builds the items of the definitions of a file, and tells which items they are. -/
def build (outline : Outline) (uri : Option String) (previous : List (String × Ref)) (definitions : List Definition) :
    Outline × List (Ref × Definition) :=
  let start : Builder := { outline, uri, previous }
  let taken := definitions.zipIdx.foldl (fun builder (definition, index) => builder.take definition index) start
  let finished := taken.finish
  (finished.outline, finished.built)

end TestScout.Outline
