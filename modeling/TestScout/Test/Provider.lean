import TestScout.Code.Tree

/-! The keys under which a provider gives data sets, as far as they can be read off the
source. A provider is a method, a closure or an array. A key that would have to be computed is
left out, for no key is better than a wrong one. -/

namespace TestScout.Test
open Code

/-- The number that an optional sign and decimal digits stand for, if it fits into 64 bits. -/
def decimal? (text : String) : Option Int :=
  let digits? := fun (digits : List Char) =>
    if digits.isEmpty || !digits.all Char.isDigit then none
    else some (digits.foldl (fun value c => 10 * value + (c.toNat - '0'.toNat)) 0)
  let value := match text.toList with
    | '-' :: digits => (digits? digits).map fun value => -(value : Int)
    | '+' :: digits => (digits? digits).map Int.ofNat
    | digits => (digits? digits).map Int.ofNat
  value.filter fun value => -9223372036854775808 ≤ value && value ≤ 9223372036854775807

/-- Names are put in quotes and numbers behind a hash mark. What has no key goes by its position. -/
def keyText? (key : Option Node) (position : Nat) : Option String :=
  match key with
  | none => some ("#" ++ toString position)
  | some (.string node) => some ("\"" ++ node.value ++ "\"")
  | some (.number node) => (decimal? node.raw).map fun value => "#" ++ toString value
  | some _ => none

/-- Spread entries have a position but no key. -/
def arrayKeys (array : ArrayLiteral) : List String :=
  array.entries.zipIdx.filterMap fun (entry, position) =>
    if entry.isSpread then none else keyText? entry.key position

def yieldKeys (site : Yield) (position : Nat) : List String :=
  if site.delegates then
    match site.value with
    | some (.array array) => arrayKeys array
    | _ => []
  else (keyText? site.key position).toList

def yield? : Node → Option Yield
  | .statement node =>
    match node.expression with
    | .yielded site => some site
    | _ => none
  | _ => none

def return? : Node → Option Return
  | .returned node => some node
  | _ => none

/-- A body that yields at top level is a generator; any other gives what it returns first. -/
def bodyKeys (statements : List Node) : List String :=
  match statements.filterMap yield? with
  | [] =>
    match (statements.findSome? return?).bind (·.value) with
    | some (.array array) => arrayKeys array
    | _ => []
  | sites => sites.zipIdx.flatMap fun (site, position) => yieldKeys site position

/-- The keys of a provider, in source order. -/
def providerKeys (provider : Node) : List String :=
  match provider.argument with
  | .method node => (node.body.map fun body => bodyKeys body.children).getD []
  | .closure node => bodyKeys node.body.children
  | .array array => arrayKeys array
  | _ => []

end TestScout.Test
