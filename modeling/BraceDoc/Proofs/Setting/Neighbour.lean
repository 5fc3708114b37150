import BraceDoc.Setting.Assignment
import BraceDoc.Proofs.Setting.Level

/-!
# Clauses and their neighbours

However quotes and brackets are left open in a payload, a comma that divides it stands at the top,
and nothing is carried over to the next clause. So any selection of the clauses, written with commas
between them, is read as the same clauses, and each of them as the same assignment or the same
error.
-/

set_option autoImplicit false

namespace BraceDoc.Setting

open Text (trim Trimmed)

/-! ## Selections -/

def selected {α : Type} : List Bool → List α → List α
  | mark :: marks, item :: items =>
    if mark then item :: selected marks items else selected marks items
  | _, _ => []

theorem selected_map {α β : Type} (f : α → β) (marks : List Bool) (items : List α) :
    selected marks (items.map f) = (selected marks items).map f := by
  induction items generalizing marks with
  | nil => cases marks <;> rfl
  | cons item items ih =>
    cases marks with
    | nil => rfl
    | cons mark marks => cases mark <;> simp [selected, ih]

theorem exists_selected_of_sublist {α : Type} {kept items : List α} (hKept : kept.Sublist items) :
    ∃ marks, selected marks items = kept := by
  induction hKept with
  | slnil => exact ⟨[], rfl⟩
  | cons item hKept ih =>
    obtain ⟨marks, hMarks⟩ := ih
    exact ⟨false :: marks, by simp [selected, hMarks]⟩
  | cons_cons item hKept ih =>
    obtain ⟨marks, hMarks⟩ := ih
    exact ⟨true :: marks, by simp [selected, hMarks]⟩

/-! ## Divisions -/

theorem Divided.modifyHead {l : Level} {c : Char} {texts : List (List Char)}
    (hDivided : Divided (l.step c) texts) (hHidden : c = ',' → l.isTop = false) :
    Divided l (texts.modifyHead (c :: ·)) := by
  cases hDivided with
  | last hHides => exact .last ⟨hHidden, hHides⟩
  | next hHides hTop hRest => exact .next ⟨hHidden, hHides⟩ hTop hRest

theorem divided_stretches (l : Level) (cs : List Char) : Divided l (stretches l cs) := by
  induction cs generalizing l with
  | nil => exact .last trivial
  | cons c cs ih =>
    by_cases hCut : c = ',' ∧ l.isTop = true
    · obtain ⟨rfl, hTop⟩ := hCut
      rw [stretches_comma hTop, Level.step_comma hTop]
      exact .next trivial hTop (ih {})
    · have hHidden : c = ',' → l.isTop = false := by simpa using hCut
      rw [stretches_cons_of_hidden hHidden]
      exact (ih (l.step c)).modifyHead hHidden

namespace Level

theorem hides_trim {cs : List Char} (hHides : Hides ',' {} cs) : Hides ',' {} (trim cs) := by
  obtain ⟨before, behind, hBefore, -, hEq⟩ := Text.exists_append_trim cs
  have hAfter : after {} before = {} := (Sealed.of_allBlank hBefore 0).after
  rw [hEq, hides_append, hAfter, hides_append] at hHides
  exact hHides.2.1

theorem isTop_after_trim (cs : List Char) : (after {} (trim cs)).isTop = (after {} cs).isTop := by
  obtain ⟨before, behind, hBefore, hBehind, hEq⟩ := Text.exists_append_trim cs
  have hAfter : after {} before = {} := (Sealed.of_allBlank hBefore 0).after
  -- a backslash at the end of the trimmed text may be undone by the blanks behind it
  obtain ⟨escaped, hLevel⟩ := exists_after_plain (plain_of_allBlank hBehind) (after {} (trim cs))
  conv_rhs => rw [hEq, after_append, hAfter, after_append, hLevel]
  rfl

end Level

theorem Divided.map_trim {texts : List (List Char)} (hDivided : Divided {} texts) :
    Divided {} (texts.map trim) := by
  induction texts with
  | nil => cases hDivided
  | cons cs rest ih =>
    cases hDivided with
    | last hHides => exact .last (Level.hides_trim hHides)
    | next hHides hTop hRest =>
      exact .next (Level.hides_trim hHides) ((Level.isTop_after_trim cs).trans hTop) (ih hRest)

theorem Divided.sublist {texts kept : List (List Char)} (hDivided : Divided {} texts)
    (hKept : kept.Sublist texts) (hSome : kept ≠ []) : Divided {} kept := by
  induction hKept with
  | slnil => exact absurd rfl hSome
  | cons cs hKept ih =>
    cases hDivided with
    | last => exact absurd (List.sublist_nil.mp hKept) hSome
    | next _ _ hRest => exact ih hRest hSome
  | @cons_cons kept _ cs hKept ih =>
    cases hDivided with
    | last hHides =>
      rw [List.sublist_nil.mp hKept]
      exact .last hHides
    | next hHides hTop hRest =>
      cases kept with
      | nil => exact .last hHides
      | cons next more => exact .next hHides hTop (ih hRest (List.cons_ne_nil next more))

/-! ## Clauses -/

theorem trimmed_of_mem_clauses {payload clause : List Char} (hClause : clause ∈ clauses payload) :
    clause ≠ [] ∧ Trimmed clause := by
  obtain ⟨hMapped, hSome⟩ := List.mem_filter.mp hClause
  obtain ⟨stretch, -, rfl⟩ := List.mem_map.mp hMapped
  exact ⟨by simpa using hSome, Text.trimmed_trim stretch⟩

theorem clauses_of_sublist {payload : List Char} {kept : List (List Char)}
    (hKept : kept.Sublist (clauses payload)) : clauses (Text.joined [','] kept) = kept := by
  by_cases hSome : kept = []
  · subst hSome
    rfl
  · have hDivided : Divided {} kept :=
      (divided_stretches {} payload).map_trim.sublist (hKept.trans List.filter_sublist) hSome
    have hTrim : ∀ cs ∈ kept, trim cs = cs := fun cs hMem =>
      (trimmed_of_mem_clauses (hKept.mem hMem)).2.trim_eq
    rw [clauses_joined_of_divided rfl hDivided]
    · exact (List.map_congr_left hTrim).trans (List.map_id kept)
    · intro cs hMem
      rw [hTrim cs hMem]
      exact (trimmed_of_mem_clauses (hKept.mem hMem)).1

theorem parse_eq (payload : String) : parse payload = (clauses payload.toList).map parseClause := by
  rw [parse, clauses_trim]

theorem parse_of_sublist {payload : List Char} {kept : List (List Char)}
    (hKept : kept.Sublist (clauses payload)) :
    parse (String.ofList (Text.joined [','] kept)) = kept.map parseClause := by
  rw [parse_eq, String.toList_ofList, clauses_of_sublist hKept]

/-- Clauses are read one by one: whatever is left out of a payload, the clauses that stay are the
same and read the same. -/
theorem clauses_independent (payload : String) :
    (∀ clause ∈ clauses payload.toList, clause ≠ [] ∧ Trimmed clause) ∧
      (∀ kept, kept.Sublist (clauses payload.toList) →
        clauses (Text.joined [','] kept) = kept ∧
          ∃ marks, selected marks (clauses payload.toList) = kept ∧
            parse (String.ofList (Text.joined [','] kept)) = selected marks (parse payload)) ∧
      parse (String.ofList (Text.joined [',']
          ((clauses payload.toList).filter fun clause => (parseClause clause).isOk))) =
        (parse payload).filter Except.isOk := by
  refine ⟨fun clause => trimmed_of_mem_clauses, ?_, ?_⟩
  · intro kept hKept
    obtain ⟨marks, hMarks⟩ := exists_selected_of_sublist hKept
    refine ⟨clauses_of_sublist hKept, marks, hMarks, ?_⟩
    rw [parse_of_sublist hKept, parse_eq, selected_map, hMarks]
  · rw [parse_of_sublist List.filter_sublist, parse_eq, List.filter_map]
    rfl

/-- Faulty clauses between good ones, a backslash in front of a comma, and a bracket left open. -/
def raggedPayload : String :=
  "t=\"a, \\\"b\", odd, =1, k=\\ , o+=[x, y"

theorem clauses_independent_ragged :
    let kept := ["t=\"a, \\\"b\"", "k=\\", "o+=[x, y"].map String.toList
    kept.Sublist (clauses raggedPayload.toList) ∧ clauses (Text.joined [','] kept) = kept ∧
      ∃ marks, selected marks (clauses raggedPayload.toList) = kept ∧
        parse (String.ofList (Text.joined [','] kept)) = selected marks (parse raggedPayload) := by
  intro kept
  have hKept : kept.Sublist (clauses raggedPayload.toList) := by decide +kernel
  obtain ⟨-, hIndependent, -⟩ := clauses_independent raggedPayload
  exact ⟨hKept, hIndependent kept hKept⟩

end BraceDoc.Setting
