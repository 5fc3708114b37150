import BraceDoc.Json.Basic

/-!
# Members in order

Insertion and removal keep the members of an object in order. Two objects in order that give the
same value at every key are one object, so laws about objects can be proved key by key.
-/

set_option autoImplicit false

namespace BraceDoc.Json

namespace Members

theorem mem_of_get? {key : String} {value : Json} {members : Members}
    (hGet : get? key members = some value) : (key, value) ∈ members := by
  induction members with
  | nil => cases hGet
  | cons m rest ih =>
    rw [get?] at hGet
    split at hGet
    · rename_i hKey
      cases hGet
      rw [← hKey]
      exact List.mem_cons_self
    · exact List.mem_cons_of_mem m (ih hGet)

theorem mem_insert {key : String} {value : Json} {members : Members} {m : String × Json}
    (hMem : m ∈ insert key value members) : m = (key, value) ∨ m ∈ members := by
  induction members with
  | nil => exact Or.inl (List.mem_singleton.mp hMem)
  | cons n rest ih =>
    rw [insert] at hMem
    split at hMem
    · rcases List.mem_cons.mp hMem with rfl | hRest
      · exact Or.inl rfl
      · exact Or.inr (List.mem_cons_of_mem n hRest)
    · split at hMem
      · exact List.mem_cons.mp hMem
      · rcases List.mem_cons.mp hMem with rfl | hRest
        · exact Or.inr List.mem_cons_self
        · exact (ih hRest).imp_right (List.mem_cons_of_mem n)

theorem erase_sublist (key : String) (members : Members) : (erase key members).Sublist members := by
  induction members with
  | nil => exact List.Sublist.slnil
  | cons m rest ih =>
    rw [erase]
    split
    · exact List.sublist_cons_self m rest
    · exact ih.cons_cons m

/-! ## Order -/

theorem Sorted.insert {members : Members} (hSorted : Sorted members) (key : String) (value : Json) :
    Sorted (insert key value members) := by
  induction members with
  | nil => exact List.pairwise_singleton _ _
  | cons m rest ih =>
    obtain ⟨hFirst, hRest⟩ := List.pairwise_cons.mp hSorted
    rw [Members.insert]
    split
    · rename_i hSame
      exact List.pairwise_cons.mpr ⟨fun n hn => hSame ▸ hFirst n hn, hRest⟩
    · rename_i hOther
      split
      · rename_i hLess
        refine List.pairwise_cons.mpr ⟨fun n hn => ?_, hSorted⟩
        rcases List.mem_cons.mp hn with rfl | hn
        · exact hLess
        · exact String.lt_trans hLess (hFirst n hn)
      · rename_i hNotLess
        refine List.pairwise_cons.mpr ⟨fun n hn => ?_, ih hRest⟩
        rcases mem_insert hn with rfl | hn
        · apply String.not_le.mp
          intro hLe
          exact hOther (String.le_antisymm hLe (String.not_lt.mp hNotLess))
        · exact hFirst n hn

theorem Sorted.erase {members : Members} (hSorted : Sorted members) (key : String) :
    Sorted (erase key members) :=
  hSorted.sublist (erase_sublist key members)

theorem get?_eq_none_of_lt {key : String} {members : Members} (hLess : ∀ m ∈ members, key < m.1) :
    get? key members = none := by
  cases hGet : get? key members with
  | none => rfl
  | some value => exact absurd (hLess _ (mem_of_get? hGet)) (String.lt_irrefl key)

theorem Sorted.get?_erase_self {members : Members} (hSorted : Sorted members) (key : String) :
    get? key (Members.erase key members) = none := by
  induction members with
  | nil => rfl
  | cons m rest ih =>
    obtain ⟨hFirst, hRest⟩ := List.pairwise_cons.mp hSorted
    rw [Members.erase]
    split
    · rename_i hSame
      exact get?_eq_none_of_lt fun n hn => hSame ▸ hFirst n hn
    · rename_i hOther
      rw [get?, if_neg hOther]
      exact ih hRest

theorem Sorted.head_le {m n : String × Json} {rest members : Members}
    (hSorted : Sorted (n :: members))
    (hGet : get? m.1 (m :: rest) = get? m.1 (n :: members)) : n.1 ≤ m.1 := by
  rw [get?, if_pos rfl] at hGet
  rcases List.mem_cons.mp (mem_of_get? hGet.symm) with hSame | hRest
  · exact hSame ▸ String.le_refl m.1
  · exact String.not_lt.mp (String.lt_asymm ((List.pairwise_cons.mp hSorted).1 _ hRest))

theorem Sorted.ext {members others : Members} (hSorted : Sorted members) (hOthers : Sorted others)
    (hGet : ∀ key, get? key members = get? key others) : members = others := by
  induction members generalizing others with
  | nil =>
    cases others with
    | nil => rfl
    | cons n others => simpa [get?] using hGet n.1
  | cons m rest ih =>
    cases others with
    | nil => simpa [get?] using hGet m.1
    | cons n others =>
      have hKey : m.1 = n.1 := String.le_antisymm (hSorted.head_le (hGet n.1).symm)
        (hOthers.head_le (hGet m.1))
      have hValue : m.2 = n.2 := by simpa [get?, hKey] using hGet n.1
      obtain ⟨hFirst, hRest⟩ := List.pairwise_cons.mp hSorted
      obtain ⟨hFirst', hRest'⟩ := List.pairwise_cons.mp hOthers
      have hTail : rest = others := by
        refine ih hRest hRest' fun key => ?_
        by_cases hSame : n.1 = key
        · subst hSame
          rw [get?_eq_none_of_lt hFirst', get?_eq_none_of_lt (hKey ▸ hFirst)]
        · simpa [get?, hKey, hSame] using hGet key
      rw [hTail, Prod.ext hKey hValue]

theorem Sorted.insert_eq_self_iff {members : Members} (hSorted : Sorted members) {key : String}
    {value : Json} :
    Members.insert key value members = members ↔ get? key members = some value := by
  constructor
  · intro hSame
    rw [← hSame, get?_insert_self]
  · intro hGet
    refine Sorted.ext (hSorted.insert key value) hSorted fun other => ?_
    by_cases hKey : other = key
    · rw [hKey, get?_insert_self, hGet]
    · exact get?_insert_of_ne hKey value members

end Members

inductive Ordered : Json → Prop where
  | null : Ordered .null
  | bool (value : Bool) : Ordered (.bool value)
  | int (value : Int) : Ordered (.int value)
  | real (value : Float) : Ordered (.real value)
  | str (value : String) : Ordered (.str value)
  | arr {items : List Json} (hItems : ∀ item ∈ items, Ordered item) : Ordered (.arr items)
  | obj {members : Members} (hSorted : members.Sorted) (hValues : ∀ m ∈ members, Ordered m.2) :
    Ordered (.obj members)

theorem Ordered.sorted {members : Members} (hOrdered : Ordered (.obj members)) :
    members.Sorted := by
  cases hOrdered with
  | obj hSorted hValues => exact hSorted

theorem Ordered.value {members : Members} (hOrdered : Ordered (.obj members)) {m : String × Json}
    (hMem : m ∈ members) : Ordered m.2 := by
  cases hOrdered with
  | obj hSorted hValues => exact hValues m hMem

theorem Ordered.insert {members : Members} {value : Json} (hOrdered : Ordered (.obj members))
    (hValue : Ordered value) (key : String) :
    Ordered (.obj (Members.insert key value members)) := by
  refine .obj (hOrdered.sorted.insert key value) fun m hm => ?_
  rcases Members.mem_insert hm with rfl | hMem
  · exact hValue
  · exact hOrdered.value hMem

theorem Ordered.erase {members : Members} (hOrdered : Ordered (.obj members)) (key : String) :
    Ordered (.obj (Members.erase key members)) :=
  .obj (hOrdered.sorted.erase key) fun _ hm =>
    hOrdered.value ((Members.erase_sublist key members).mem hm)

end BraceDoc.Json
