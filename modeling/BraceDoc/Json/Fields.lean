import BraceDoc.Json.Basic

/-!
# Fields of objects

Reading the members of an object that describes a structure. A member that is missing and one that
is null are the same.
-/

set_option autoImplicit false

namespace BraceDoc.Json

def textAt? (key : String) (value : Json) : Option String :=
  match Members.get? key value.members with
  | some (.str text) => some text
  | _ => none

def natAt? (key : String) (value : Json) : Option Nat :=
  match Members.get? key value.members with
  | some (.int n) => if 0 ≤ n then some n.toNat else none
  | _ => none

/-- The items of a member; a member that is no list has none. -/
def itemsAt (key : String) (value : Json) : List Json :=
  match Members.get? key value.members with
  | some (.arr items) => items
  | _ => []

def text? : Json → Option String
  | .str text => some text
  | _ => none

theorem sizeOf_get?_lt {key : String} {members : Members} {value : Json}
    (hGet : Members.get? key members = some value) : sizeOf value < sizeOf members := by
  induction members with
  | nil => cases hGet
  | cons first rest ih =>
    obtain ⟨k, v⟩ := first
    rw [Members.get?] at hGet
    split at hGet
    · cases hGet
      simp only [List.cons.sizeOf_spec, Prod.mk.sizeOf_spec]
      omega
    · have hRest := ih hGet
      simp only [List.cons.sizeOf_spec]
      omega

theorem sizeOf_lt_of_mem_itemsAt {key : String} {value item : Json}
    (hMem : item ∈ value.itemsAt key) : sizeOf item < sizeOf value := by
  unfold itemsAt at hMem
  split at hMem
  case h_1 items hGet =>
    cases value with
    | obj members =>
      have hItems := sizeOf_get?_lt hGet
      have hItem := List.sizeOf_lt_of_mem hMem
      simp only [arr.sizeOf_spec, Json.members] at hItems
      simp only [obj.sizeOf_spec]
      omega
    | _ => cases hGet
  case h_2 => cases hMem

end BraceDoc.Json
