/-!
# JSON values

Integers and reals are different values, also where they denote the same number. The members of an
object are a list of pairs. Objects that hold data keep their members in increasing order of keys;
`insert`, `get?` and `erase` are the operations on such lists. Objects that describe a structure
list its fields in the order they are written.
-/

set_option autoImplicit false

namespace BraceDoc

inductive Json where
  | null
  | bool (value : Bool)
  | int (value : Int)
  | real (value : Float)
  | str (value : String)
  | arr (items : List Json)
  | obj (members : List (String × Json))
  deriving Inhabited

namespace Json

abbrev Members : Type :=
  List (String × Json)

mutual

/-- Equality of values. Reals are compared as numbers, so that both zeros are equal. -/
def same : Json → Json → Bool
  | .null, .null => true
  | .bool a, .bool b => a == b
  | .int a, .int b => a == b
  | .real a, .real b => a == b
  | .str a, .str b => a == b
  | .arr a, .arr b => sameItems a b
  | .obj a, .obj b => sameMembers a b
  | _, _ => false

def sameItems : List Json → List Json → Bool
  | [], [] => true
  | a :: as, b :: bs => same a b && sameItems as bs
  | _, _ => false

def sameMembers : List (String × Json) → List (String × Json) → Bool
  | [], [] => true
  | (k, a) :: as, (l, b) :: bs => k == l && same a b && sameMembers as bs
  | _, _ => false

end

namespace Members

def get? (key : String) : Members → Option Json
  | [] => none
  | (k, v) :: rest => if k = key then some v else get? key rest

def insert (key : String) (value : Json) : Members → Members
  | [] => [(key, value)]
  | (k, v) :: rest =>
    if key = k then (key, value) :: rest
    else if key < k then (key, value) :: (k, v) :: rest
    else (k, v) :: insert key value rest

def erase (key : String) : Members → Members
  | [] => []
  | (k, v) :: rest => if k = key then rest else (k, v) :: erase key rest

/-- The members of a list of pairs in the order of keys; of two pairs with one key the later
wins. -/
def ofList (pairs : List (String × Json)) : Members :=
  pairs.foldl (fun members pair => insert pair.1 pair.2 members) []

@[simp] theorem get?_insert_self (key : String) (value : Json) (members : Members) :
    get? key (insert key value members) = some value := by
  induction members with
  | nil => simp [insert, get?]
  | cons m rest ih =>
    rw [insert]
    split
    · simp [get?]
    · rename_i hOther
      split
      · simp [get?]
      · rw [get?, if_neg (Ne.symm hOther)]
        exact ih

theorem get?_insert_of_ne {key other : String} (hOther : other ≠ key) (value : Json)
    (members : Members) : get? other (insert key value members) = get? other members := by
  induction members with
  | nil => simp [insert, get?, Ne.symm hOther]
  | cons m rest ih =>
    rw [insert]
    split
    · rename_i hSame
      simp [get?, Ne.symm hOther, ← hSame]
    · split
      · simp [get?, Ne.symm hOther]
      · simp [get?, ih]

theorem get?_erase_of_ne {key other : String} (hOther : other ≠ key) (members : Members) :
    get? other (erase key members) = get? other members := by
  induction members with
  | nil => rfl
  | cons m rest ih =>
    rw [erase]
    split
    · rename_i hSame
      simp [get?, Ne.symm hOther, hSame]
    · simp [get?, ih]

def Sorted (members : Members) : Prop :=
  members.Pairwise fun a b => a.1 < b.1

theorem insert_of_forall_lt {key : String} {members : Members} (hLess : ∀ m ∈ members, m.1 < key)
    (value : Json) : insert key value members = members ++ [(key, value)] := by
  induction members with
  | nil => rfl
  | cons m rest ih =>
    obtain ⟨hFirst, hRest⟩ := List.forall_mem_cons.mp hLess
    have hDistinct : key ≠ m.1 := fun hSame => String.lt_irrefl key (hSame ▸ hFirst)
    rw [insert, if_neg hDistinct, if_neg (String.lt_asymm hFirst), ih hRest, List.cons_append]

theorem ofList_of_sorted {members : Members} (hSorted : Sorted members) :
    ofList members = members := by
  -- the members already inserted stand before the ones to come
  suffices hFold : ∀ front : Members, Sorted (front ++ members) →
      members.foldl (fun kept m => insert m.1 m.2 kept) front = front ++ members from
    hFold [] hSorted
  clear hSorted
  induction members with
  | nil => exact fun front _ => (List.append_nil front).symm
  | cons m rest ih =>
    intro front hSorted
    have hLess : ∀ k ∈ front, k.1 < m.1 :=
      fun k hMem => (List.pairwise_append.mp hSorted).2.2 k hMem m List.mem_cons_self
    rw [List.append_cons] at hSorted ⊢
    rw [List.foldl_cons, insert_of_forall_lt hLess]
    exact ih _ hSorted

end Members

def members : Json → Members
  | .obj members => members
  | _ => []

def ofOption : Option Json → Json :=
  fun value => value.getD .null

def ofText? (text : Option String) : Json :=
  match text with
  | some s => .str s
  | none => .null

end Json

end BraceDoc
