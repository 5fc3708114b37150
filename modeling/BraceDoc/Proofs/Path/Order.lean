import Mathlib.Data.List.Lex
import Mathlib.Data.Prod.Lex
import Mathlib.Data.String.Basic
import BraceDoc.Path.Basic

/-!
# The order of paths

Parts are ordered by their kind and, among names, by their text. The order of paths is the
lexicographic order of these keys, so it is total and transitive, and sorting by it gives an ordered
list.
-/

set_option autoImplicit false

namespace BraceDoc.Path

def Part.key (part : Part) : Nat ×ₗ String :=
  toLex (part.rank, match part with | .name text => text | _ => "")

theorem Part.before_iff (a b : Part) : a.before b = true ↔ a.key < b.key := by
  unfold key before
  rw [Prod.Lex.toLex_lt_toLex]
  cases a <;> cases b <;> simp [rank]

theorem partsLe_iff (as bs : List Part) :
    partsLe as bs = true ↔ ¬ bs.map Part.key < as.map Part.key := by
  induction as generalizing bs with
  | nil => exact iff_of_true rfl (List.not_lt_nil _)
  | cons a as ih =>
    cases bs with
    | nil => exact iff_of_false Bool.false_ne_true (not_not.mpr (List.nil_lt_cons _ _))
    | cons b bs =>
      rw [partsLe, Bool.or_eq_true, Bool.and_eq_true, Bool.not_eq_true', ← Bool.not_eq_true,
        Part.before_iff, Part.before_iff, ih, List.map_cons, List.map_cons, List.cons_lt_cons_iff]
      constructor
      · rintro (hLess | ⟨hNot, hRest⟩) (hMore | ⟨hSame, hMore⟩)
        · exact lt_asymm hLess hMore
        · exact hLess.ne hSame.symm
        · exact hNot hMore
        · exact hRest hMore
      · intro hNot
        rcases lt_trichotomy a.key b.key with hLess | hSame | hMore
        · exact Or.inl hLess
        · refine Or.inr ⟨hSame.not_gt, fun hMore => hNot (Or.inr ⟨hSame.symm, hMore⟩)⟩
        · exact absurd (Or.inl hMore) hNot

theorem le_iff (p q : Path) :
    p.le q = true ↔ ¬ q.parts.map Part.key < p.parts.map Part.key :=
  partsLe_iff p.parts q.parts

theorem le_transitive {p q r : Path} (hFirst : p.le q = true) (hSecond : q.le r = true) :
    p.le r = true := by
  rw [le_iff, not_lt] at hFirst hSecond ⊢
  exact hFirst.trans hSecond

theorem le_linear (p q : Path) : (p.le q || q.le p) = true := by
  rw [Bool.or_eq_true, le_iff, le_iff, not_lt, not_lt]
  exact le_total _ _

theorem pairwise_mergeSort_le (paths : List Path) :
    (paths.mergeSort le).Pairwise fun p q => p.le q = true :=
  @List.pairwise_mergeSort Path le (fun _ _ _ hFirst hSecond => le_transitive hFirst hSecond)
    le_linear paths

end BraceDoc.Path
