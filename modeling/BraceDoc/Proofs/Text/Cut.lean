import Mathlib.Data.List.Infix
import Mathlib.Data.List.TakeWhile
import BraceDoc.Text.Cut

/-!
# First occurrences of marks

`cut?` divides a text at the first occurrence of its mark and fails exactly when the mark does not
occur. A content `EndsAt` a mark when the mark, written behind it, is found there and not earlier.
`fields` undoes `joined` for texts without the separator.
-/

set_option autoImplicit false

namespace BraceDoc.Text

/-- The first occurrence of `mark` in `content ++ mark` is the one behind `content`. -/
def EndsAt (mark content : List Char) : Prop :=
  ∀ before after, content ++ mark = before ++ mark ++ after → content.length ≤ before.length

theorem EndsAt.tail {mark content : List Char} {c : Char} (hEnds : EndsAt mark (c :: content)) :
    EndsAt mark content := by
  intro before after hEq
  have hCons := hEnds (c :: before) after (by rw [List.cons_append, hEq]; rfl)
  exact Nat.le_of_succ_le_succ hCons

theorem EndsAt.mark_not_first {mark content rest : List Char} {c : Char}
    (hEnds : EndsAt mark (c :: content)) : ¬ mark <+: c :: content ++ mark ++ rest := by
  intro hPrefix
  -- the occurrence is not longer than the mark behind the content, so `rest` plays no part in it
  have hShort : mark <+: c :: content ++ mark := by
    refine List.prefix_of_prefix_length_le hPrefix (List.prefix_append _ rest) ?_
    simp only [List.length_append]
    omega
  obtain ⟨after, hAfter⟩ := hShort
  have hLength := hEnds [] after (by rw [List.nil_append, hAfter])
  exact Nat.not_succ_le_zero _ hLength

theorem cut?_eq_none_iff {mark cs : List Char} : cut? mark cs = none ↔ ¬ mark <:+: cs := by
  induction cs with
  | nil => simp [cut?]
  | cons c cs ih =>
    rw [cut?, List.infix_cons_iff, ← List.isPrefixOf_iff_prefix]
    split
    · rename_i hMark
      simp [hMark]
    · rename_i hMark
      rw [Option.map_eq_none_iff, ih]
      simp [hMark]

theorem cut?_append {mark content : List Char} (hEnds : EndsAt mark content)
    (rest : List Char) : cut? mark (content ++ mark ++ rest) = some (content, rest) := by
  induction content with
  | nil =>
    rw [List.nil_append]
    cases hText : mark ++ rest with
    | nil =>
      obtain ⟨rfl, rfl⟩ := List.append_eq_nil_iff.mp hText
      rfl
    | cons c cs =>
      have hPrefix : mark.isPrefixOf (c :: cs) = true :=
        List.isPrefixOf_iff_prefix.mpr ⟨rest, hText⟩
      rw [cut?, if_pos hPrefix, ← hText, List.drop_left]
  | cons c content ih =>
    have hFirst : ¬ mark.isPrefixOf (c :: (content ++ mark ++ rest)) = true := by
      rw [List.isPrefixOf_iff_prefix]
      exact hEnds.mark_not_first
    rw [List.cons_append, List.cons_append, cut?, if_neg hFirst, ih hEnds.tail]
    rfl

theorem EndsAt.cons {mark content : List Char} {c : Char} (hEnds : EndsAt mark content)
    (hFirst : ¬ mark <+: c :: content ++ mark) : EndsAt mark (c :: content) := by
  intro before after hEq
  cases before with
  | nil => exact absurd ⟨after, by rw [hEq]; rfl⟩ hFirst
  | cons d before =>
    rw [List.cons_append, List.cons_append, List.cons_append] at hEq
    exact Nat.succ_le_succ (hEnds before after (List.cons.inj hEq).2)

theorem endsAt_nil (mark : List Char) : EndsAt mark [] :=
  fun _ _ _ => Nat.zero_le _

theorem endsAt_of_cut? {mark cs content rest : List Char}
    (hCut : cut? mark cs = some (content, rest)) : EndsAt mark content := by
  induction cs generalizing content with
  | nil =>
    obtain ⟨hContent, -⟩ := List.append_eq_nil_iff.mp (cut?_eq_append hCut).symm
    rw [(List.append_eq_nil_iff.mp hContent).1]
    exact endsAt_nil mark
  | cons c cs ih =>
    rw [cut?] at hCut
    split at hCut
    · cases hCut
      exact endsAt_nil mark
    · rename_i hFirst
      obtain ⟨⟨before, after⟩, hRest, hEq⟩ := Option.map_eq_some_iff.mp hCut
      cases hEq
      refine (ih hRest).cons ?_
      intro hPrefix
      apply hFirst
      rw [List.isPrefixOf_iff_prefix, cut?_eq_append hRest]
      exact hPrefix.trans (by simp)

/-- Cutting finds exactly the contents that end at the mark. -/
theorem cut?_eq_some_iff {mark cs content rest : List Char} :
    cut? mark cs = some (content, rest) ↔ cs = content ++ mark ++ rest ∧ EndsAt mark content := by
  constructor
  · intro hCut
    exact ⟨cut?_eq_append hCut, endsAt_of_cut? hCut⟩
  · rintro ⟨rfl, hEnds⟩
    exact cut?_append hEnds rest

/-! ## Marks of one character, of two characters, and of a repeated character -/

theorem EndsAt.mark_absent {mark content : List Char} (hEnds : EndsAt mark content)
    (hMark : mark ≠ []) : ¬ mark <:+: content := by
  rintro ⟨before, after, rfl⟩
  have hLength := hEnds before (after ++ mark) (by simp)
  have hPos := List.length_pos_iff.mpr hMark
  simp only [List.length_append] at hLength
  omega

/-- An occurrence before the one behind `content` takes a beginning of the mark from the end of
`content`, unless it lies in `content`. -/
theorem endsAt_of_no_overlap {mark content : List Char} (hInfix : ¬ mark <:+: content)
    (hOverlap : ∀ front tail after, content = front ++ tail → tail ≠ [] →
      tail.length < mark.length → tail ++ mark ≠ mark ++ after) : EndsAt mark content := by
  intro before after hEq
  by_contra hShort
  have hBefore : before <+: content ++ mark := by
    rw [hEq, List.append_assoc]
    exact List.prefix_append _ _
  obtain ⟨tail, rfl⟩ :=
    List.prefix_of_prefix_length_le hBefore (List.prefix_append content mark) (by omega)
  have hTail : tail ++ mark = mark ++ after := by simpa using hEq
  by_cases hLong : mark.length ≤ tail.length
  · have hPrefix : mark <+: tail :=
      List.prefix_of_prefix_length_le ⟨after, hTail.symm⟩ (List.prefix_append _ _) hLong
    exact hInfix (hPrefix.isInfix.trans (List.suffix_append before tail).isInfix)
  · refine hOverlap before tail after rfl ?_ (by omega) hTail
    rintro rfl
    simp at hShort

theorem endsAt_singleton_iff {c : Char} {content : List Char} :
    EndsAt [c] content ↔ c ∉ content := by
  constructor
  · intro hEnds hMem
    obtain ⟨before, after, rfl⟩ := List.append_of_mem hMem
    exact hEnds.mark_absent (List.cons_ne_nil _ _) ⟨before, after, by simp⟩
  · intro hNot
    apply endsAt_of_no_overlap
    · rintro ⟨before, after, rfl⟩
      simp at hNot
    · intro front tail after _ hTail hLength _
      rw [List.length_singleton, Nat.lt_one_iff] at hLength
      exact hTail (List.eq_nil_of_length_eq_zero hLength)

theorem endsAt_pair_iff {c d : Char} {content : List Char} (hDistinct : c ≠ d) :
    EndsAt [c, d] content ↔ ¬ [c, d] <:+: content := by
  constructor
  · intro hEnds
    exact hEnds.mark_absent (List.cons_ne_nil _ _)
  · intro hInfix
    apply endsAt_of_no_overlap hInfix
    intro front tail after _ hTail hLength hEq
    -- one character of the content before the whole mark would have to be both of its characters
    match tail with
    | [] => exact hTail rfl
    | [x] =>
      simp only [List.cons_append, List.nil_append, List.cons.injEq] at hEq
      exact hDistinct hEq.2.1
    | _ :: _ :: rest =>
      simp only [List.length_cons, List.length_nil] at hLength
      omega

theorem endsAt_replicate_iff {c : Char} {width : Nat} {content : List Char} (hWidth : 0 < width) :
    EndsAt (List.replicate width c) content ↔
      content.getLast? ≠ some c ∧ ¬ List.replicate width c <:+: content := by
  constructor
  · intro hEnds
    refine ⟨?_, hEnds.mark_absent (by simpa using Nat.ne_of_gt hWidth)⟩
    intro hLast
    obtain ⟨front, rfl⟩ := List.getLast?_eq_some_iff.mp hLast
    have hLength := hEnds front [c] (by
      rw [List.append_assoc, List.append_assoc, List.singleton_append, ← List.replicate_succ,
        List.replicate_succ'])
    rw [List.length_append, List.length_singleton] at hLength
    exact Nat.not_succ_le_self _ hLength
  · rintro ⟨hLast, hInfix⟩
    apply endsAt_of_no_overlap hInfix
    intro front tail after hContent hTail hLength hEq
    -- a short tail is a beginning of the mark, so the content would end with its character
    have hPrefix : tail <+: List.replicate width c :=
      List.prefix_of_prefix_length_le ⟨_, hEq⟩ (List.prefix_append _ _) (Nat.le_of_lt hLength)
    apply hLast
    rw [hContent, List.getLast?_append_of_ne_nil _ hTail, List.getLast?_eq_some_getLast hTail]
    exact congrArg some
      (List.eq_of_mem_replicate (hPrefix.subset (List.getLast_mem hTail)))

/-! ## Runs of characters of one class -/

/-- A run ends where a character of another class, or nothing, stands behind it. -/
theorem span_append {p : Char → Bool} {run rest : List Char} (hRun : ∀ c ∈ run, p c = true)
    (hRest : ∀ c, rest.head? = some c → p c = false) :
    (run ++ rest).takeWhile p = run ∧ (run ++ rest).dropWhile p = rest := by
  rw [List.takeWhile_append_of_pos hRun, List.dropWhile_append_of_pos hRun]
  cases rest with
  | nil => exact ⟨List.append_nil run, rfl⟩
  | cons c cs =>
    have hStop : ¬ p c = true := by
      rw [hRest c rfl]
      exact Bool.false_ne_true
    rw [List.takeWhile_cons_of_neg hStop, List.dropWhile_cons_of_neg hStop, List.append_nil]
    exact ⟨rfl, rfl⟩

theorem span_append_cons {p : Char → Bool} {run : List Char} (hRun : ∀ c ∈ run, p c = true)
    {c : Char} (hStop : p c = false) (rest : List Char) :
    (run ++ c :: rest).takeWhile p = run ∧ (run ++ c :: rest).dropWhile p = c :: rest := by
  apply span_append hRun
  rintro _ ⟨⟩
  exact hStop

theorem head?_dropWhile_eq_false {p : Char → Bool} {cs : List Char} {c : Char}
    (hHead : (cs.dropWhile p).head? = some c) : p c = false := by
  have hNot := List.head?_dropWhile_not p cs
  rw [hHead] at hNot
  exact hNot

/-! ## Fields -/

theorem fields_ne_nil (separator : Char) (cs : List Char) : fields separator cs ≠ [] := by
  cases cs with
  | nil => exact List.cons_ne_nil _ _
  | cons c cs =>
    rw [fields]
    split
    · exact List.cons_ne_nil _ _
    · split
      · exact List.cons_ne_nil _ _
      · exact List.cons_ne_nil _ _

theorem fields_cons_self (separator : Char) (cs : List Char) :
    fields separator (separator :: cs) = [] :: fields separator cs := by
  rw [fields, if_pos rfl]

theorem fields_append (separator : Char) (cs ds : List Char) :
    fields separator (cs ++ separator :: ds) = fields separator cs ++ fields separator ds := by
  induction cs with
  | nil => exact fields_cons_self separator ds
  | cons c cs ih =>
    rw [List.cons_append, fields, fields, ih]
    split
    · rfl
    · obtain ⟨field, rest, hFields⟩ := List.exists_cons_of_ne_nil (fields_ne_nil separator cs)
      rw [hFields]
      rfl

theorem fields_of_not_mem {separator : Char} {cs : List Char} (hNot : separator ∉ cs) :
    fields separator cs = [cs] := by
  induction cs with
  | nil => rfl
  | cons c cs ih =>
    rw [List.mem_cons, not_or] at hNot
    obtain ⟨hFirst, hRest⟩ := hNot
    rw [fields, if_neg (Ne.symm hFirst), ih hRest]

theorem not_mem_of_mem_fields {separator : Char} {cs field : List Char}
    (hField : field ∈ fields separator cs) : separator ∉ field := by
  induction cs generalizing field with
  | nil =>
    rw [List.mem_singleton.mp hField]
    exact List.not_mem_nil
  | cons c cs ih =>
    rw [fields] at hField
    split at hField
    · rcases List.mem_cons.mp hField with rfl | hRest
      · exact List.not_mem_nil
      · exact ih hRest
    · rename_i hChar
      obtain ⟨first, rest, hFields⟩ := List.exists_cons_of_ne_nil (fields_ne_nil separator cs)
      rw [hFields] at hField ih
      rcases List.mem_cons.mp hField with rfl | hRest
      · have hFirst := ih List.mem_cons_self
        rw [List.mem_cons, not_or]
        exact ⟨Ne.symm hChar, hFirst⟩
      · exact ih (List.mem_cons_of_mem first hRest)

theorem joined_cons {separator cs : List Char} {rest : List (List Char)} (hRest : rest ≠ []) :
    joined separator (cs :: rest) = cs ++ separator ++ joined separator rest := by
  cases rest with
  | nil => exact absurd rfl hRest
  | cons first rest => rfl

theorem fields_joined {separator : Char} {segments : List (List Char)} (hSome : segments ≠ [])
    (hNot : ∀ segment ∈ segments, separator ∉ segment) :
    fields separator (joined [separator] segments) = segments := by
  induction segments with
  | nil => exact absurd rfl hSome
  | cons segment rest ih =>
    obtain ⟨hFirst, hRest⟩ := List.forall_mem_cons.mp hNot
    by_cases hEmpty : rest = []
    · subst hEmpty
      exact fields_of_not_mem hFirst
    · rw [joined_cons hEmpty, List.append_assoc, List.singleton_append, fields_append,
        fields_of_not_mem hFirst, ih hEmpty hRest, List.singleton_append]

end BraceDoc.Text
