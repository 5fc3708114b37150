/-!
# Lists

Counting, places and distinct values. Stores that keep their keys in the order in which these first
came list the distinct keys of all that was put into them, each where it occurred first.
-/

set_option autoImplicit false

namespace BraceDoc

theorem countP_lt_of_mem {α : Type} {p q : α → Bool} {xs : List α} {x : α}
    (hImp : ∀ y, p y = true → q y = true) (hMem : x ∈ xs) (hNot : p x = false)
    (hNew : q x = true) : xs.countP p < xs.countP q := by
  induction xs with
  | nil => cases hMem
  | cons first rest ih =>
    have hLe : rest.countP p ≤ rest.countP q := List.countP_mono_left fun y _ => hImp y
    rcases List.mem_cons.mp hMem with hFirst | hRest
    · subst hFirst
      rw [List.countP_cons_of_neg (by simp [hNot]), List.countP_cons_of_pos hNew]
      exact Nat.lt_succ_of_le hLe
    · have hLt := ih hRest
      rw [List.countP_cons, List.countP_cons]
      cases hFirst : p first with
      | false =>
        simp only [Bool.false_eq_true, if_false]
        split <;> omega
      | true =>
        simp only [hImp first hFirst, if_true]
        omega

theorem filterMap_range_getElem? {α : Type} (xs : List α) :
    (List.range xs.length).filterMap (fun i => xs[i]?) = xs := by
  induction xs with
  | nil => rfl
  | cons x xs ih =>
    rw [List.length_cons, List.range_succ_eq_map, List.filterMap_cons_some (by rfl),
      List.filterMap_map]
    exact congrArg (x :: ·) ih

theorem getElem?_filterMap_of_isSome {α β : Type} {f : α → Option β} {xs : List α}
    (hAll : ∀ x ∈ xs, (f x).isSome = true) (i : Nat) :
    (xs.filterMap f)[i]? = xs[i]?.bind f := by
  induction xs generalizing i with
  | nil => simp
  | cons x xs ih =>
    obtain ⟨hFirst, hRest⟩ := List.forall_mem_cons.mp hAll
    obtain ⟨y, hy⟩ := Option.isSome_iff_exists.mp hFirst
    rw [List.filterMap_cons_some hy]
    cases i with
    | zero => simp [hy]
    | succ i => simpa using ih hRest i

/-! ## Distinct values -/

/-- A list without repetitions over two values. -/
theorem list_cases_of_nodup {α : Type} {x y : α} {xs : List α} (hNodup : xs.Nodup)
    (hMem : ∀ a ∈ xs, a = x ∨ a = y) :
    xs = [] ∨ xs = [x] ∨ xs = [y] ∨ xs = [x, y] ∨ xs = [y, x] := by
  match xs, hNodup, hMem with
  | [], _, _ => simp
  | [a], _, hMem => rcases hMem a (by simp) with rfl | rfl <;> simp
  | [a, b], hNodup, hMem =>
    rcases hMem a (by simp) with rfl | rfl <;> rcases hMem b (by simp) with rfl | rfl <;> simp_all
  | a :: b :: c :: rest, hNodup, hMem =>
    have ha := hMem a (by simp)
    have hb := hMem b (by simp)
    have hc := hMem c (by simp)
    grind

section Distinct

variable {κ : Type} [DecidableEq κ]

theorem nodup_eraseDups (xs : List κ) : xs.eraseDups.Nodup := by
  induction hLength : xs.length using Nat.strongRecOn generalizing xs with
  | ind n ih =>
    cases xs with
    | nil => exact List.nodup_nil
    | cons x xs =>
      have hShorter := List.length_filter_le (fun y => !y == x) xs
      rw [List.length_cons] at hLength
      rw [List.eraseDups_cons, List.nodup_cons, List.mem_eraseDups]
      exact ⟨by simp, ih _ (by omega) _ rfl⟩

theorem eraseDups_concat (xs : List κ) (x : κ) :
    (xs ++ [x]).eraseDups = if x ∈ xs then xs.eraseDups else xs.eraseDups ++ [x] := by
  rw [List.eraseDups_append]
  by_cases hOld : x ∈ xs
  · simp [List.removeAll, hOld]
  · simp [List.removeAll, hOld, List.eraseDups_cons]

theorem eraseDups_of_nodup {xs : List κ} (hNodup : xs.Nodup) : xs.eraseDups = xs := by
  induction xs with
  | nil => rfl
  | cons x xs ih =>
    obtain ⟨hNew, hRest⟩ := List.nodup_cons.mp hNodup
    have hKept : xs.filter (fun y => !y == x) = xs := by
      rw [List.filter_eq_self]
      intro y hy
      simpa using fun hSame : y = x => hNew (hSame ▸ hy)
    rw [List.eraseDups_cons, hKept, ih hRest]

end Distinct

end BraceDoc
