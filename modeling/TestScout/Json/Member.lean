import TestScout.Json.Value

/-! Looking into JSON values without asking much of their shape: what is missing or of
another kind reads as null, nothing, zero or false. Main statements: what lies in an object
or in an array is smaller than it, so that readers may recurse into it. -/

namespace TestScout.Json.Value

/-- The member with a key; of several the last. -/
def get (value : Value) (key : String) : Value :=
  match value with
  | .object members => (members.reverse.lookup key).getD .null
  | _ => .null

def isNull : Value → Bool
  | .null => true
  | _ => false

/-- The value, unless it is null. -/
def present? (value : Value) : Option Value := if value.isNull then none else some value

/-- The member with a key, unless it is null. -/
def find? (value : Value) (key : String) : Option Value := (value.get key).present?

def text? : Value → Option String
  | .string text => some text
  | _ => none

def natural? : Value → Option Nat
  | .integer number => some number.toNat
  | _ => none

def natural (value : Value) : Nat := value.natural?.getD 0

def items : Value → List Value
  | .array items => items
  | _ => []

def members : Value → List (String × Value)
  | .object members => members
  | _ => []

def textAt? (value : Value) (key : String) : Option String := (value.get key).text?

def textAt (value : Value) (key : String) : String := (value.textAt? key).getD ""

def naturalAt (value : Value) (key : String) : Nat := (value.get key).natural

def flagAt (value : Value) (key : String) : Bool :=
  match value.get key with
  | .bool value => value
  | _ => false

def itemsAt (value : Value) (key : String) : List Value := (value.get key).items

def textsAt (value : Value) (key : String) : List String := (value.itemsAt key).filterMap text?

theorem sizeOf_get_lt (members : List (String × Value)) (key : String) :
    sizeOf ((object members).get key) < sizeOf (object members) := by
  have small : sizeOf null ≤ sizeOf members := by cases members <;> simp <;> omega
  simp only [get, object.sizeOf_spec]
  cases found : members.reverse.lookup key with
  | none => simp only [Option.getD_none]; omega
  | some value =>
    obtain ⟨before, after, split, _⟩ := List.lookup_eq_some_iff.mp found
    have inside : (key, value) ∈ members := by
      rw [← List.mem_reverse, split]; simp
    have := List.sizeOf_lt_of_mem inside
    simp only [Prod.mk.sizeOf_spec, Option.getD_some] at *
    omega

theorem sizeOf_lt_of_find? {member value : Value} {key : String} (found : value.find? key = some member) :
    sizeOf member < sizeOf value := by
  simp only [find?, present?, Option.ite_none_left_eq_some, Option.some.injEq] at found
  obtain ⟨present, rfl⟩ := found
  cases value with
  | object members => exact sizeOf_get_lt members key
  | _ => exact absurd rfl present

theorem sizeOf_lt_of_mem_items {item value : Value} (inside : item ∈ value.items) : sizeOf item < sizeOf value := by
  cases value <;> simp only [items, List.not_mem_nil] at inside
  have := List.sizeOf_lt_of_mem inside
  simp only [array.sizeOf_spec]
  omega

theorem sizeOf_lt_of_mem_itemsAt {item value : Value} {key : String} (inside : item ∈ value.itemsAt key) :
    sizeOf item < sizeOf value := by
  cases value with
  | object members => exact Nat.lt_trans (sizeOf_lt_of_mem_items inside) (sizeOf_get_lt members key)
  | _ => cases inside

end TestScout.Json.Value
