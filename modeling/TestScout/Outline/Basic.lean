import TestScout.Source.Point

/-! The outline of tests that an editor shows. Items have an identity apart from their ids:
an item can be changed, taken out of the outline and put back, and stays the same item. An
item knows the one item below which it was put last, as long as that item is kept. -/

namespace TestScout

structure Item where
  id : String
  /-- The address of the file. -/
  uri : Option String := none
  label : String
  /-- Lines and characters count from zero. -/
  range : Option Source.Extent := none
  tags : List String := []
  canResolve : Bool := false
  sortText : Option String := none
deriving Repr, Inhabited

namespace Outline

/-- The identity of an item. -/
abbrev Ref := Nat

/-- Where items can be: below an item, or at the top. An item that is nowhere is placed like
one at the top. -/
abbrev Place := Option Ref

structure Node where
  item : Item
  parent : Place := none
  children : List Ref := []
deriving Inhabited

end Outline

structure Outline where
  nodes : Array Outline.Node := #[]
  top : List Outline.Ref := []
deriving Inhabited

namespace Outline

/-- Makes an item, which is nowhere yet. -/
def create (outline : Outline) (item : Item) : Outline × Ref :=
  ({ outline with nodes := outline.nodes.push { item } }, outline.nodes.size)

def item (outline : Outline) (ref : Ref) : Item := (outline.nodes[ref]?.map (·.item)).getD default

def idOf (outline : Outline) (ref : Ref) : String := (outline.item ref).id

def parentOf (outline : Outline) (ref : Ref) : Place := outline.nodes[ref]?.bind (·.parent)

def childrenOf (outline : Outline) : Place → List Ref
  | none => outline.top
  | some ref => (outline.nodes[ref]?.map (·.children)).getD []

/-- Changes an item. Its id stays. -/
def change (outline : Outline) (ref : Ref) (update : Item → Item) : Outline :=
  { outline with nodes := outline.nodes.modify ref fun node =>
      { node with item := { update node.item with id := node.item.id } } }

def setParent (outline : Outline) (ref : Ref) (place : Place) : Outline :=
  { outline with nodes := outline.nodes.modify ref ({ · with parent := place }) }

def setChildren (outline : Outline) (place : Place) (children : List Ref) : Outline :=
  match place with
  | none => { outline with top := children }
  | some ref => { outline with nodes := outline.nodes.modify ref ({ · with children }) }

/-- Takes the place away from an item that counts as placed there. -/
def release (outline : Outline) (place : Place) (ref : Ref) : Outline :=
  if outline.parentOf ref = place then outline.setParent ref none else outline

/-- The child in a place that has an id. -/
def child? (outline : Outline) (place : Place) (id : String) : Option Ref :=
  (outline.childrenOf place).find? (outline.idOf · == id)

/-- Puts an item into a place, where it replaces an item with its id. -/
def add (outline : Outline) (place : Place) (ref : Ref) : Outline :=
  let placed := outline.setParent ref place
  match placed.child? place (placed.idOf ref) with
  | none => placed.setChildren place (placed.childrenOf place ++ [ref])
  | some former =>
    let children := (placed.childrenOf place).map fun other => if other = former then ref else other
    let replaced := placed.setChildren place children
    if former = ref then replaced else replaced.release place former

/-- Takes the item with an id out of a place. -/
def delete (outline : Outline) (place : Place) (id : String) : Outline × Option Ref :=
  match outline.child? place id with
  | none => (outline, none)
  | some ref =>
    ((outline.setChildren place ((outline.childrenOf place).filter (· != ref))).release place ref, some ref)

/-- Puts items into a place instead of those that are there. -/
def replace (outline : Outline) (place : Place) (refs : List Ref) : Outline :=
  let former := (outline.childrenOf place).filter fun ref => !refs.contains ref
  let emptied := (former.foldl (·.release place ·) outline).setChildren place []
  refs.foldl (·.add place ·) emptied

/-- The items below an item with the item in front, at most so many levels down. -/
def descendantsUpTo (outline : Outline) : (levels : Nat) → Ref → List Ref
  | 0, ref => [ref]
  | levels + 1, ref => ref :: (outline.childrenOf (some ref)).flatMap (outline.descendantsUpTo levels)

/-- An item and all items below it. There are no more levels than items. -/
def descendants (outline : Outline) (ref : Ref) : List Ref := outline.descendantsUpTo outline.nodes.size ref

/-- All items of the outline, each in front of those below it. -/
def all (outline : Outline) : List Ref := outline.top.flatMap outline.descendants

/-- Forgets the items that are not kept: what was put below one of them is nowhere then. The
items of the outline are kept, some others, and what is below any of these. -/
def keep (outline : Outline) (others : List Ref) : Outline :=
  let kept := (outline.top ++ others).flatMap outline.descendants
  { outline with nodes := outline.nodes.map fun node => { node with parent := node.parent.filter kept.contains } }

/-- The first item of the outline that has an id. -/
def find? (outline : Outline) (id : String) : Option Ref := outline.all.find? (outline.idOf · == id)

end Outline

end TestScout
