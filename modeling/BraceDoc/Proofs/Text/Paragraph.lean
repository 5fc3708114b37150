import BraceDoc.Text.Blank
import BraceDoc.Text.Newline
import BraceDoc.Proofs.Text.LineEnd

/-!
# Paragraphs of a text

A text begins with a blank line or with a character of its first paragraph. Dividing it into
paragraphs leaves out line feeds only, and no paragraph has a blank line in it. A text with a blank
line in the middle has the paragraphs in front of the line and the paragraphs behind it.
-/

set_option autoImplicit false

namespace BraceDoc.Text

def shown (cs : List Char) : List Char :=
  cs.filter fun c => !isBlank c

theorem shown_append (cs ds : List Char) : shown (cs ++ ds) = shown cs ++ shown ds :=
  List.filter_append cs ds

theorem shown_eq_nil_iff {cs : List Char} : shown cs = [] ↔ allBlank cs = true := by
  simp [shown, allBlank]

theorem shown_unify (cs : List Char) : shown (unify cs) = shown cs := by
  induction cs using unify.induct with
  | case1 cs ih =>
    rw [unify]
    exact ih
  | case2 c cs hOther ih =>
    rw [unify.eq_2 c cs hOther, ← List.singleton_append, shown_append, ih, ← shown_append]
    rfl
  | case3 => rfl

theorem paragraphs_ne_nil (cs : List Char) : paragraphs cs ≠ [] := by
  fun_cases paragraphs cs <;> simp

theorem paragraphs_feeds (cs : List Char) :
    paragraphs ('\n' :: '\n' :: cs) = [] :: paragraphs (cs.dropWhile (· = '\n')) := by
  rw [paragraphs]

theorem paragraphs_cons {c : Char} {cs : List Char} (hLine : c = '\n' → cs.head? ≠ some '\n') :
    paragraphs (c :: cs) = (paragraphs cs).modifyHead (c :: ·) := by
  obtain ⟨part, rest, hParts⟩ := List.exists_cons_of_ne_nil (paragraphs_ne_nil cs)
  rw [paragraphs, hParts]
  · rfl
  · rintro behind hFeed rfl
    exact hLine hFeed rfl

theorem paragraphs_induction {motive : List Char → Prop} (hNil : motive [])
    (hFeeds : ∀ cs, motive (cs.dropWhile (· = '\n')) → motive ('\n' :: '\n' :: cs))
    (hChar : ∀ c cs, (c = '\n' → cs.head? ≠ some '\n') → motive cs → motive (c :: cs))
    (cs : List Char) : motive cs := by
  have hNext : ∀ c cs, (∀ behind, c = '\n' → cs = '\n' :: behind → False) → motive cs →
      motive (c :: cs) := by
    intro c cs hOther
    refine hChar c cs fun hFeed hHead => ?_
    obtain ⟨behind, rfl⟩ := List.head?_eq_some_iff.mp hHead
    exact hOther behind hFeed rfl
  induction cs using paragraphs.induct with
  | case1 => exact hNil
  | case2 cs ih => exact hFeeds cs ih
  | case3 c cs hOther _ ih => exact hNext c cs hOther ih
  | case4 c cs hOther _ _ _ ih => exact hNext c cs hOther ih

theorem shown_dropWhile (cs : List Char) : shown (cs.dropWhile (· = '\n')) = shown cs := by
  have hFeeds : shown (cs.takeWhile (· = '\n')) = [] := by
    rw [shown_eq_nil_iff, allBlank, List.all_eq_true]
    intro c hMem
    have hFeed : c = '\n' := by simpa using List.mem_takeWhile_imp hMem
    rw [hFeed]
    rfl
  conv_rhs =>
    rw [← List.takeWhile_append_dropWhile (p := (· = '\n')) (l := cs), shown_append, hFeeds]
  rfl

theorem flatMap_shown_paragraphs (cs : List Char) : (paragraphs cs).flatMap shown = shown cs := by
  induction cs using paragraphs_induction with
  | hNil => rw [paragraphs, List.flatMap_singleton]
  | hFeeds cs ih =>
    rw [paragraphs_feeds, List.flatMap_cons, ih, shown_dropWhile]
    rfl
  | hChar c cs hLine ih =>
    obtain ⟨part, rest, hParts⟩ := List.exists_cons_of_ne_nil (paragraphs_ne_nil cs)
    rw [hParts, List.flatMap_cons] at ih
    rw [paragraphs_cons hLine, hParts, List.modifyHead_cons, List.flatMap_cons,
      ← List.singleton_append, shown_append, List.append_assoc, ih, ← shown_append]
    rfl

theorem prefix_of_paragraphs {cs part : List Char} {rest : List (List Char)}
    (hParts : paragraphs cs = part :: rest) : part <+: cs := by
  induction cs using paragraphs_induction generalizing part rest with
  | hNil =>
    rw [paragraphs] at hParts
    cases hParts
    exact List.nil_prefix
  | hFeeds cs ih =>
    rw [paragraphs_feeds] at hParts
    cases hParts
    exact List.nil_prefix
  | hChar c cs hLine ih =>
    obtain ⟨first, more, hFirst⟩ := List.exists_cons_of_ne_nil (paragraphs_ne_nil cs)
    rw [paragraphs_cons hLine, hFirst] at hParts
    cases hParts
    exact (List.prefix_cons_inj c).mpr (ih hFirst)

theorem not_infix_of_mem_paragraphs {cs part : List Char} (hPart : part ∈ paragraphs cs) :
    ¬ ['\n', '\n'] <:+: part := by
  induction cs using paragraphs_induction generalizing part with
  | hNil =>
    rw [paragraphs, List.mem_singleton] at hPart
    simp [hPart]
  | hFeeds cs ih =>
    rw [paragraphs_feeds] at hPart
    rcases List.mem_cons.mp hPart with rfl | hRest
    · simp
    · exact ih hRest
  | hChar c cs hLine ih =>
    obtain ⟨first, more, hFirst⟩ := List.exists_cons_of_ne_nil (paragraphs_ne_nil cs)
    rw [paragraphs_cons hLine, hFirst, List.modifyHead_cons] at hPart
    rw [hFirst] at ih
    rcases List.mem_cons.mp hPart with rfl | hRest
    · rw [List.infix_cons_iff, not_or]
      refine ⟨?_, ih List.mem_cons_self⟩
      -- the first paragraph begins as the text does, so its first line feed would be followed there
      rintro ⟨behind, hEq⟩
      obtain ⟨rfl, rfl⟩ : '\n' = c ∧ '\n' :: behind = first := by simpa using hEq
      obtain ⟨tail, rfl⟩ := prefix_of_paragraphs hFirst
      exact hLine rfl rfl
    · exact ih (List.mem_cons_of_mem first hRest)

/-! ## Blank lines -/

theorem dropWhile_feeds {v : List Char} (hStart : v.head? ≠ some '\n') (k : Nat) :
    (List.replicate k '\n' ++ v).dropWhile (· = '\n') = v := by
  rw [List.dropWhile_append_of_pos (by simp)]
  cases v with
  | nil => rfl
  | cons c v =>
    have hOther : c ≠ '\n' := by simpa using hStart
    simp [hOther]

/-- Line feeds in front are dropped before the end of the text comes in sight. -/
theorem dropWhile_append_of_getLast? {u : List Char} (hSome : u ≠ [])
    (hEnd : u.getLast? ≠ some '\n') (w : List Char) :
    (u ++ w).dropWhile (· = '\n') = u.dropWhile (· = '\n') ++ w ∧
      (u.dropWhile (· = '\n')).getLast? = u.getLast? := by
  have hRest : u.dropWhile (· = '\n') ≠ [] := by
    intro hNothing
    rw [List.dropWhile_eq_nil_iff] at hNothing
    apply hEnd
    rw [List.getLast?_eq_some_getLast hSome]
    simpa using hNothing _ (List.getLast_mem hSome)
  constructor
  · rw [List.dropWhile_append, if_neg (by simpa using hRest)]
  · obtain ⟨front, hFront⟩ := List.dropWhile_suffix (l := u) (· = '\n')
    conv_rhs => rw [← hFront, List.getLast?_append_of_ne_nil _ hRest]

theorem paragraphs_append_feeds {u v : List Char} (hEnd : u.getLast? ≠ some '\n')
    (hStart : v.head? ≠ some '\n') {k : Nat} (hBlank : 2 ≤ k) :
    paragraphs (u ++ (List.replicate k '\n' ++ v)) = paragraphs u ++ paragraphs v := by
  induction u using paragraphs_induction with
  | hNil =>
    obtain ⟨n, rfl⟩ := Nat.exists_eq_add_of_le' hBlank
    change paragraphs ('\n' :: '\n' :: (List.replicate n '\n' ++ v)) = _
    rw [paragraphs_feeds, dropWhile_feeds hStart, paragraphs]
    rfl
  | hFeeds u ih =>
    have hSome : u ≠ [] := by
      rintro rfl
      exact hEnd rfl
    have hLast : u.getLast? ≠ some '\n' := by
      simpa [List.getLast?_cons, List.getLast?_eq_some_getLast hSome] using hEnd
    obtain ⟨hDrop, hSame⟩ := dropWhile_append_of_getLast? hSome hLast (List.replicate k '\n' ++ v)
    rw [List.cons_append, List.cons_append, paragraphs_feeds, paragraphs_feeds, hDrop,
      ih (hSame ▸ hLast), List.cons_append]
  | hChar c u hLine ih =>
    have hBoth : u.getLast? ≠ some '\n' ∧
        (c = '\n' → (u ++ (List.replicate k '\n' ++ v)).head? ≠ some '\n') := by
      cases u with
      | nil =>
        refine ⟨by simp, ?_⟩
        rintro rfl
        exact absurd rfl hEnd
      | cons d u => exact ⟨by simpa [List.getLast?_cons] using hEnd, by simpa using hLine⟩
    obtain ⟨part, rest, hParts⟩ := List.exists_cons_of_ne_nil (paragraphs_ne_nil u)
    rw [List.cons_append, paragraphs_cons hBoth.2, ih hBoth.1, paragraphs_cons hLine, hParts]
    rfl

theorem unify_of_not_mem {cs : List Char} (hReturn : '\r' ∉ cs) : unify cs = cs :=
  (sameLines_returned hReturn).unify_left

end BraceDoc.Text
