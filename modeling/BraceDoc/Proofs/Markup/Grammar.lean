import Mathlib.Data.List.Chain
import BraceDoc.Markup.Piece
import BraceDoc.Proofs.Text.Cut

/-!
# The grammar of pieces

`WellFormed` says what the characters of a piece may be, and `MayPrecede` which pieces may stand
next to each other. A list of pieces divides a text when it obeys both and spells the text. Every
text is divided by exactly one list of pieces, the one that `scan` finds.
-/

set_option autoImplicit false

namespace BraceDoc.Piece

def isClosed : Piece → Bool
  | .command _ closed | .literal _ _ closed | .blockComment _ closed => closed
  | .text _ | .lineComment _ => true

def isText : Piece → Bool
  | .text _ => true
  | _ => false

def WellFormed : Piece → Prop
  | .text content =>
    content ≠ [] ∧ '\x7b' ∉ content ∧ ¬ ['/', '/'] <:+: content ∧ ¬ ['/', '*'] <:+: content
  | .command inner _ => '\x7d' ∉ inner ∧ inner.head? ≠ some '\x7b'
  | .literal width content closed =>
    2 ≤ width ∧ content.head? ≠ some '\x7b' ∧
      if closed then Text.EndsAt (closeFence width) content else ¬ closeFence width <:+: content
  | .lineComment body => '\n' ∉ body
  | .blockComment body closed =>
    if closed then Text.EndsAt ['*', '/'] body else ¬ ['*', '/'] <:+: body

/-- Plain text is never divided, does not lend a slash to a comment behind it, and holds the line
end behind a line comment. -/
def MayPrecede : Piece → Piece → Prop
  | .text content, q => q.isText = false ∧ (q.isComment = true → content.getLast? ≠ some '/')
  | .lineComment _, .text content => content.head? = some '\n'
  | .lineComment _, _ => False
  | _, _ => True

/-- The pieces spell a text, and only the last of them may be unclosed. -/
structure Divides (pieces : List Piece) (cs : List Char) : Prop where
  spelled : pieces.flatMap render = cs
  wellFormed : ∀ p ∈ pieces, p.WellFormed
  chained : pieces.IsChain MayPrecede
  closed : ∀ p ∈ pieces.dropLast, p.isClosed = true

/-! ## Plain text -/

theorem startsBlock_cons_iff (c : Char) (cs : List Char) :
    startsBlock (c :: cs) = true ↔
      c = '\x7b' ∨ c = '/' ∧ (cs.head? = some '/' ∨ cs.head? = some '*') := by
  rw [startsBlock.eq_def]
  split
  · rename_i hEq
    cases hEq
    simp
  · rename_i hEq
    cases hEq
    simp
  · rename_i hEq
    cases hEq
    simp
  · rename_i hBrace hLine hBlock
    refine iff_of_false Bool.false_ne_true ?_
    rintro (rfl | ⟨rfl, hHead | hHead⟩)
    · exact hBrace _ rfl
    · obtain ⟨tail, rfl⟩ := List.head?_eq_some_iff.mp hHead
      exact hLine _ rfl
    · obtain ⟨tail, rfl⟩ := List.head?_eq_some_iff.mp hHead
      exact hBlock _ rfl

/-- No piece of another kind begins inside `content` when `rest` stands behind it. -/
def Unbroken (rest : List Char) : List Char → Prop
  | [] => True
  | c :: content => startsBlock (c :: (content ++ rest)) = false ∧ Unbroken rest content

theorem pair_prefix_iff {c d : Char} {cs : List Char} :
    [c, d] <+: cs ↔ cs.head? = some c ∧ cs.tail.head? = some d := by
  match cs with
  | [] => simp
  | [_] => simp
  | _ :: _ :: _ => simp [eq_comm]

theorem unbroken_iff (rest content : List Char) :
    Unbroken rest content ↔
      '\x7b' ∉ content ∧ ¬ ['/', '/'] <:+: content ∧ ¬ ['/', '*'] <:+: content ∧
        (content.getLast? = some '/' → rest.head? ≠ some '/' ∧ rest.head? ≠ some '*') := by
  induction content with
  | nil => simp [Unbroken]
  | cons c content ih =>
    rw [Unbroken, ih, ← Bool.not_eq_true, startsBlock_cons_iff, List.infix_cons_iff,
      List.infix_cons_iff, pair_prefix_iff, pair_prefix_iff]
    cases content with
    | nil =>
      simp only [List.nil_append, List.mem_cons, List.not_mem_nil, or_false, List.head?_cons,
        List.tail_cons, List.head?_nil, List.getLast?_singleton, List.getLast?_nil,
        Option.some.injEq]
      grind
    | cons d content =>
      simp only [List.cons_append, List.mem_cons, List.head?_cons, List.tail_cons,
        List.getLast?_cons_cons, Option.some.injEq]
      grind

theorem spanText_append {rest content : List Char} (hUnbroken : Unbroken rest content)
    (hRest : rest = [] ∨ startsBlock rest = true) :
    spanText (content ++ rest) = (content, rest) := by
  induction content with
  | nil =>
    rw [List.nil_append]
    cases rest with
    | nil => rfl
    | cons c cs =>
      have hBlock : startsBlock (c :: cs) = true := hRest.resolve_left (List.cons_ne_nil _ _)
      rw [spanText, if_pos hBlock]
  | cons c content ih =>
    rw [List.cons_append, spanText, if_neg (by rw [hUnbroken.1]; exact Bool.false_ne_true),
      ih hUnbroken.2]

theorem spanText_spec (cs : List Char) :
    (spanText cs).1 ++ (spanText cs).2 = cs ∧ Unbroken (spanText cs).2 (spanText cs).1 ∧
      ((spanText cs).2 = [] ∨ startsBlock (spanText cs).2 = true) := by
  induction cs with
  | nil => exact ⟨rfl, trivial, Or.inl rfl⟩
  | cons c cs ih =>
    rw [spanText]
    split
    · rename_i hBlock
      exact ⟨rfl, trivial, Or.inr hBlock⟩
    · rename_i hPlain
      obtain ⟨hSpelled, hUnbroken, hStop⟩ := ih
      refine ⟨congrArg (c :: ·) hSpelled, ⟨?_, hUnbroken⟩, hStop⟩
      rw [hSpelled]
      exact Bool.eq_false_iff.mpr hPlain

theorem next_of_plain {c : Char} {cs : List Char} (hPlain : startsBlock (c :: cs) = false) :
    next c cs = (.text (spanText (c :: cs)).1, (spanText (c :: cs)).2) := by
  rw [spanText, if_neg (by rw [hPlain]; exact Bool.false_ne_true)]
  unfold next
  split
  · cases hPlain
  · cases hPlain
  · cases hPlain
  · rfl

end BraceDoc.Piece
