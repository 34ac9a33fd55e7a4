import TestScout.Registry.Basic

/-! The methods that can be seen on a class. Its own methods come before those of its
traits, and those before what the parent has; of two methods of one name the first one counts. -/

namespace TestScout
open Code

/-- How many parents are followed, and how deep traits are looked for in traits. -/
def Registry.reach : Nat := 20

/-- A method as it is seen on some class. -/
structure VisibleMethod where
  method : Method
  /-- The class or trait that declares it. -/
  declaring : String
  isInherited : Bool
deriving Inhabited

namespace VisibleMethod

def name (member : VisibleMethod) : String := member.method.name

/-- Puts a method behind others unless one of its name is there already. -/
def addTo (members : List VisibleMethod) (member : VisibleMethod) : List VisibleMethod :=
  if members.any fun other => sameName other.name member.name then members else members ++ [member]

end VisibleMethod

/-- Whether a reference means a trait: by its full name or by the last segment of it alone. -/
def meansTrait (reference ofTrait : String) : Bool :=
  sameName (relativeName reference) ofTrait || sameName (relativeName reference) (shortName ofTrait)

/-- Whether another trait is preferred for a method. -/
def isExcluded (adaptations : List Adaptation) (ofTrait method : String) : Bool :=
  adaptations.any fun
    | .precedence preferred name insteadOf =>
      sameName name method && !meansTrait preferred ofTrait && insteadOf.any (meansTrait · ofTrait)
    | .rename _ _ _ _ => false

/-- The names and visibilities that a method of a trait is given besides its own. -/
def renamings (adaptations : List Adaptation) (ofTrait method : String) : List (Option String × Option Visibility) :=
  adaptations.filterMap fun
    | .rename reference name newName visibility =>
      if sameName name method && reference.all (meansTrait · ofTrait) then some (newName, visibility) else none
    | .precedence _ _ _ => none

/-- What a method of a trait becomes in a class that uses the trait: a copy under each
further name, and itself unless another trait is preferred. -/
def adapted (adaptations : List Adaptation) (ofTrait : String) (member : VisibleMethod) : List VisibleMethod :=
  let given := renamings adaptations ofTrait member.name
  let copies := given.filterMap fun (newName, visibility) => newName.map fun newName =>
    { member with method := { member.method with
        name := newName
        visibility := visibility.getD member.method.visibility } }
  let visibility := ((given.find? (·.1.isNone)).bind (·.2)).getD member.method.visibility
  let kept := if isExcluded adaptations ofTrait member.name then []
    else [{ member with method := { member.method with visibility } }]
  copies ++ kept

namespace Registry

def ownMethods (info : ClassInfo) (isInherited : Bool) : List VisibleMethod :=
  info.methods.map (⟨·, info.name, isInherited⟩)

/-- The own methods of a class or a trait and those of its traits, which are looked for so
many levels deep. -/
def members (registry : Registry) : (levels : Nat) → (isInherited : Bool) → ClassInfo → List VisibleMethod
  | 0, isInherited, info => ownMethods info isInherited
  | levels + 1, isInherited, info =>
    info.traits.foldl (fun found name =>
      match registry.find? name with
      | none => found
      | some used =>
        ((registry.members levels true used).flatMap (adapted info.adaptations used.name)).foldl
          VisibleMethod.addTo found) (ownMethods info isInherited)

/-- The known ancestors of a class, the closest one first. -/
def ancestors (registry : Registry) : (count : Nat) → ClassInfo → List ClassInfo
  | 0, _ => []
  | count + 1, info =>
    match info.parent.bind registry.find? with
    | none => []
    | some parent => parent :: registry.ancestors count parent

/-- Adds what a class inherits from an ancestor. -/
def inherit (members : List VisibleMethod) (member : VisibleMethod) : List VisibleMethod :=
  if member.method.visibility = .privateAccess then members
  else VisibleMethod.addTo members { member with isInherited := true }

/-- The methods that can be seen on a class. -/
def methodsOf (registry : Registry) (name : String) : List VisibleMethod :=
  match registry.find? name with
  | none => []
  | some info =>
    (registry.ancestors reach info).zipIdx.foldl (fun found (ancestor, index) =>
      (registry.members (reach - index) true ancestor).foldl inherit found) (registry.members (reach + 1) false info)

/-- The method that is called by a name on a class. -/
def methodOf? (registry : Registry) (className method : String) : Option VisibleMethod :=
  (registry.methodsOf className).find? (sameName ·.name method)

end Registry

end TestScout
