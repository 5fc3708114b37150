import BraceDoc.Text.Blank
import BraceDoc.Proofs.Text.Cut

/-!
# Trimming

Trimming is told by the ends of a text: blanks added at an end make no difference, and a text that
neither starts nor ends with a blank stays as it is.
-/

set_option autoImplicit false

namespace BraceDoc.Text

theorem allBlank_iff {cs : List Char} : allBlank cs = true ↔ ∀ c ∈ cs, isBlank c = true :=
  List.all_eq_true

theorem not_mem_of_allBlank {gap : List Char} (hGap : allBlank gap = true) {c : Char}
    (hShown : isBlank c = false) : c ∉ gap := by
  intro hMem
  rw [allBlank_iff.mp hGap c hMem] at hShown
  exact Bool.noConfusion hShown

/-- Decides a condition on the characters of a text by going through the text. -/
theorem forall_mem_of_all {p : Char → Prop} [DecidablePred p] {cs : List Char}
    (hAll : (cs.all fun c => decide (p c)) = true) : ∀ c ∈ cs, p c :=
  fun c hMem => of_decide_eq_true (List.all_eq_true.mp hAll c hMem)

theorem dropWhile_blank_append {gap : List Char} (hGap : allBlank gap = true) (cs : List Char) :
    (gap ++ cs).dropWhile isBlank = cs.dropWhile isBlank :=
  List.dropWhile_append_of_pos (allBlank_iff.mp hGap)

theorem dropWhile_of_allBlank {cs : List Char} (hBlank : allBlank cs = true) :
    cs.dropWhile isBlank = [] := by
  have hDrop := dropWhile_blank_append hBlank []
  rwa [List.append_nil] at hDrop

theorem trim_blank_append {gap : List Char} (hGap : allBlank gap = true) (cs : List Char) :
    trim (gap ++ cs) = trim cs := by
  rw [trim, trim, trimStart, trimStart, dropWhile_blank_append hGap]

theorem trimEnd_append_blank (cs : List Char) {gap : List Char} (hGap : allBlank gap = true) :
    trimEnd (cs ++ gap) = trimEnd cs := by
  have hReverse : allBlank gap.reverse = true := List.all_reverse.trans hGap
  rw [trimEnd, trimEnd, List.reverse_append, dropWhile_blank_append hReverse]

theorem trim_append_blank (cs : List Char) {gap : List Char} (hGap : allBlank gap = true) :
    trim (cs ++ gap) = trim cs := by
  rw [trim, trim, trimStart, trimStart, List.dropWhile_append]
  split
  · rename_i hNothing
    rw [List.isEmpty_iff.mp hNothing, dropWhile_of_allBlank hGap]
  · exact trimEnd_append_blank _ hGap

/-- A text whose ends show. -/
structure Trimmed (cs : List Char) : Prop where
  first : ∀ c ∈ cs.head?, isBlank c = false
  last : ∀ c ∈ cs.getLast?, isBlank c = false

theorem dropWhile_of_head {cs : List Char} (hFirst : ∀ c ∈ cs.head?, isBlank c = false) :
    cs.dropWhile isBlank = cs := by
  cases cs with
  | nil => rfl
  | cons c cs =>
    refine List.dropWhile_cons_of_neg ?_
    rw [hFirst c rfl]
    exact Bool.false_ne_true

theorem Trimmed.trim_eq {cs : List Char} (hTrimmed : Trimmed cs) : trim cs = cs := by
  have hLast : ∀ c ∈ cs.reverse.head?, isBlank c = false := by
    rw [List.head?_reverse]
    exact hTrimmed.last
  rw [trim, trimStart, dropWhile_of_head hTrimmed.first, trimEnd, dropWhile_of_head hLast,
    List.reverse_reverse]

theorem trimmed_of_forall {cs : List Char} (hShown : ∀ c ∈ cs, isBlank c = false) : Trimmed cs where
  first c hFirst := hShown c (List.mem_of_mem_head? hFirst)
  last c hLast := hShown c (List.mem_of_mem_getLast? hLast)

theorem Trimmed.append {cs ds : List Char} (hFirst : Trimmed cs) (hLast : Trimmed ds)
    (hStart : cs ≠ []) (hEnd : ds ≠ []) (middle : List Char) : Trimmed (cs ++ (middle ++ ds)) where
  first := by
    rw [List.head?_append_of_ne_nil _ hStart]
    exact hFirst.first
  last := by
    rw [← List.append_assoc, List.getLast?_append_of_ne_nil _ hEnd]
    exact hLast.last

theorem Trimmed.allBlank_append {cs : List Char} (hTrimmed : Trimmed cs) (hSome : cs ≠ [])
    (gap : List Char) : allBlank (gap ++ cs) = false := by
  obtain ⟨c, rest, rfl⟩ := List.exists_cons_of_ne_nil hSome
  rw [Bool.eq_false_iff]
  intro hBlank
  exact not_mem_of_allBlank hBlank (hTrimmed.first c rfl)
    (List.mem_append_right gap List.mem_cons_self)

theorem exists_trimEnd_append (cs : List Char) :
    ∃ behind, allBlank behind = true ∧ cs = trimEnd cs ++ behind := by
  refine ⟨(cs.reverse.takeWhile isBlank).reverse, ?_, ?_⟩
  · exact List.all_reverse.trans List.all_takeWhile
  · rw [trimEnd, ← List.reverse_append, List.takeWhile_append_dropWhile, List.reverse_reverse]

theorem exists_append_trim (cs : List Char) :
    ∃ before behind, allBlank before = true ∧ allBlank behind = true ∧
      cs = before ++ (trim cs ++ behind) := by
  obtain ⟨behind, hBehind, hEnd⟩ := exists_trimEnd_append (trimStart cs)
  refine ⟨cs.takeWhile isBlank, behind, List.all_takeWhile, hBehind, ?_⟩
  rw [trim, ← hEnd, trimStart, List.takeWhile_append_dropWhile]

theorem trimmed_trim (cs : List Char) : Trimmed (trim cs) where
  first := by
    intro c hFirst
    obtain ⟨behind, -, hEnd⟩ := exists_trimEnd_append (trimStart cs)
    have hHead : (trimStart cs).head? = some c := by
      rw [hEnd, List.head?_append, ← trim, hFirst, Option.some_or]
    exact head?_dropWhile_eq_false hHead
  last := by
    intro c hLast
    rw [trim, trimEnd, List.getLast?_reverse] at hLast
    exact head?_dropWhile_eq_false hLast

theorem trim_eq_self_iff {cs : List Char} : trim cs = cs ↔ Trimmed cs :=
  ⟨fun hTrim => hTrim ▸ trimmed_trim cs, Trimmed.trim_eq⟩

end BraceDoc.Text
