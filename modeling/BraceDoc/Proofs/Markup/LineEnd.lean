import Mathlib.Data.List.Forall2
import BraceDoc.Markup.Document
import BraceDoc.Proofs.Markup.Grammar
import BraceDoc.Proofs.Text.LineEnd

/-!
# Pieces of texts with the same lines

Texts with the same lines are divided in the same places. A line comment may end with a carriage
return that the other text does not have; the line feed behind it belongs to the next piece in both,
so that what is left has the same lines again.
-/

set_option autoImplicit false

namespace BraceDoc

open Text (SameLines)

/-! ## Pieces -/

namespace Piece

variable {cs ds : List Char}

/-- Two pieces are of one kind, and their contents have the same lines; comments may differ. -/
inductive Alike : Piece → Piece → Prop where
  | text {content content' : List Char} (hSame : SameLines content content') :
    Alike (.text content) (.text content')
  | command {inner inner' : List Char} (hSame : SameLines inner inner') (closed : Bool) :
    Alike (.command inner closed) (.command inner' closed)
  | literal (width : Nat) {content content' : List Char} (hSame : SameLines content content')
    (closed : Bool) : Alike (.literal width content closed) (.literal width content' closed)
  | lineComment (body body' : List Char) : Alike (.lineComment body) (.lineComment body')
  | blockComment (body body' : List Char) (closed : Bool) :
    Alike (.blockComment body closed) (.blockComment body' closed)

theorem startsBlock_iff (cs : List Char) :
    startsBlock cs = true ↔ ['\x7b'] <+: cs ∨ ['/', '/'] <+: cs ∨ ['/', '*'] <+: cs := by
  cases cs with
  | nil => simp [startsBlock]
  | cons c cs =>
    rw [startsBlock_cons_iff, pair_prefix_iff, pair_prefix_iff, ← and_or_left, eq_comm (a := c)]
    simp [List.cons_prefix_cons, eq_comm]

theorem startsBlock_eq (hSame : SameLines cs ds) : startsBlock ds = startsBlock cs := by
  rw [Bool.eq_iff_iff, startsBlock_iff, startsBlock_iff,
    hSame.prefix_iff (by decide) (by decide), hSame.prefix_iff (by decide) (by decide),
    hSame.prefix_iff (by decide) (by decide)]

theorem sameLines_spanText (hSame : SameLines cs ds) :
    SameLines (spanText cs).1 (spanText ds).1 ∧ SameLines (spanText cs).2 (spanText ds).2 := by
  induction hSame with
  | nil => exact ⟨.nil, .nil⟩
  | @char c cs ds hFeed hReturn hRest ih =>
    have hStarts := startsBlock_eq (SameLines.char hFeed hReturn hRest)
    rw [spanText, spanText, hStarts]
    by_cases hBlock : startsBlock (c :: cs) = true
    · simp only [if_pos hBlock]
      exact ⟨.nil, .char hFeed hReturn hRest⟩
    · simp only [if_neg hBlock]
      exact ⟨.char hFeed hReturn ih.1, ih.2⟩
  | feed hRest ih => exact ⟨.feed ih.1, ih.2⟩
  | returned hRest ih => exact ⟨.returned ih.1, ih.2⟩

theorem alike_closeAt (hSame : SameLines cs ds) {mark : List Char} (hFeed : '\n' ∉ mark)
    (hReturn : '\r' ∉ mark) (hMark : mark ≠ []) {make : List Char → Bool → Piece}
    (hMake : ∀ {body body' : List Char} (closed : Bool), SameLines body body' →
      Alike (make body closed) (make body' closed)) :
    Alike (closeAt mark make cs).1 (closeAt mark make ds).1 ∧
      SameLines (closeAt mark make cs).2 (closeAt mark make ds).2 := by
  have hCut := hSame.cutAlike hFeed hReturn hMark
  rw [closeAt, closeAt]
  revert hCut
  generalize Text.cut? mark cs = x
  generalize Text.cut? mark ds = y
  rintro (_ | ⟨hFront, hBack⟩)
  · exact ⟨hMake false hSame, .nil⟩
  · exact ⟨hMake true hFront, hBack⟩

theorem alike_braced (hSame : SameLines cs ds) :
    Alike (braced cs).1 (braced ds).1 ∧ SameLines (braced cs).2 (braced ds).2 := by
  obtain ⟨hFence, hContent⟩ := hSame.takeWhile_eq (p := (· = '\x7b')) (by decide) (by decide)
  have hClose : ∀ c ∈ closeFence (1 + (cs.takeWhile (· = '\x7b')).length), c = '\x7d' :=
    fun c hc => List.eq_of_mem_replicate hc
  have hMark : closeFence (1 + (cs.takeWhile (· = '\x7b')).length) ≠ [] := by
    simp [closeFence]
  simp only [braced, hFence]
  split
  · exact alike_closeAt hContent (by decide) (by decide) (by decide)
      fun closed hBody => .command hBody closed
  · exact alike_closeAt hContent (fun hMem => absurd (hClose _ hMem) (by decide))
      (fun hMem => absurd (hClose _ hMem) (by decide)) hMark
      fun closed hBody => .literal _ hBody closed

theorem alike_next {c d : Char} (hSame : SameLines (c :: cs) (d :: ds)) :
    Alike (next c cs).1 (next d ds).1 ∧ SameLines (next c cs).2 (next d ds).2 := by
  have hStarts := startsBlock_eq hSame
  cases hBlock : startsBlock (c :: cs) with
  | false =>
    rw [next_of_plain hBlock, next_of_plain (hStarts.trans hBlock)]
    have hSpan := sameLines_spanText hSame
    exact ⟨.text hSpan.1, hSpan.2⟩
  | true =>
    -- an opening mark has no line end in it, so it stands in front of both texts
    rcases (startsBlock_iff _).mp hBlock with hBrace | hLine | hComment
    · obtain ⟨as, bs, hLeft, hRight, hRest⟩ := hSame.exists_of_mark (by decide) (by decide) hBrace
      cases hLeft
      cases hRight
      exact alike_braced hRest
    · obtain ⟨as, bs, hLeft, hRight, hRest⟩ := hSame.exists_of_mark (by decide) (by decide) hLine
      cases hLeft
      cases hRight
      -- the comment may take a carriage return with it, but never the line feed
      exact ⟨.lineComment _ _, hRest.dropWhile_line⟩
    · obtain ⟨as, bs, hLeft, hRight, hRest⟩ :=
        hSame.exists_of_mark (by decide) (by decide) hComment
      cases hLeft
      cases hRight
      exact alike_closeAt hRest (by decide) (by decide) (by decide)
        fun closed _ => .blockComment _ _ closed

theorem alike_scan (hSame : SameLines cs ds) : List.Forall₂ Alike (scan cs) (scan ds) := by
  induction cs using scan.induct generalizing ds with
  | case1 =>
    cases hSame
    rw [scan]
    exact .nil
  | case2 c cs ih =>
    cases ds with
    | nil => cases hSame
    | cons d ds =>
      obtain ⟨hFirst, hRest⟩ := alike_next hSame
      rw [scan, scan]
      exact .cons hFirst (ih hRest)

def OneLine : Piece → Prop
  | .command inner _ => '\n' ∉ inner
  | _ => True

instance : DecidablePred OneLine
  | .command inner _ => inferInstanceAs (Decidable ('\n' ∉ inner))
  | .text _ | .literal _ _ _ | .lineComment _ | .blockComment _ _ => .isTrue trivial

end Piece

/-! ## Nodes -/

/-- Two nodes differ in the line ends of texts and literals, and in where they stand. -/
inductive Node.Alike : Node → Node → Prop where
  | text {value value' : String} (hSame : SameLines value.toList value'.toList)
    (span span' : Span) : Alike (.text value span) (.text value' span')
  | command (content raw raw' : String) (span span' : Span) (closed : Bool) :
    Alike (.command content raw span closed) (.command content raw' span' closed)
  | literal (width : Nat) {content content' : String}
    (hSame : SameLines content.toList content'.toList) (raw raw' : String) (span span' : Span)
    (closed : Bool) :
    Alike (.literal width content raw span closed) (.literal width content' raw' span' closed)

theorem Piece.alike_nodes {ps qs : List Piece} (hAlike : List.Forall₂ Alike ps qs)
    (hLines : ∀ p ∈ ps, p.OneLine) (p q : Position) :
    List.Forall₂ Node.Alike ((locate p ps).filterMap Node.ofLocated?)
      ((locate q qs).filterMap Node.ofLocated?) := by
  induction hAlike generalizing p q with
  | nil => exact .nil
  | cons hFirst hRest ih =>
    have hNodes := fun p q => ih (fun x hx => hLines x (List.mem_cons_of_mem _ hx)) p q
    have hLine := hLines _ List.mem_cons_self
    cases hFirst with
    | text hSame =>
      refine .cons (.text ?_ _ _) (hNodes _ _)
      simpa using hSame
    | command hSame closed =>
      cases hSame.eq_of_not_mem hLine
      exact .cons (.command _ _ _ _ _ closed) (hNodes _ _)
    | literal width hSame closed =>
      refine .cons (.literal width ?_ _ _ _ _ closed) (hNodes _ _)
      simpa using hSame
    | lineComment body body' => exact hNodes _ _
    | blockComment body body' closed => exact hNodes _ _

/-- Texts with the same lines give nodes that are alike, if every command stands on one line. -/
theorem Document.alike_parse {source other : String}
    (hSame : SameLines source.toList other.toList)
    (hLines : ∀ p ∈ Piece.scan source.toList, p.OneLine) (fileName : String) :
    List.Forall₂ Node.Alike (parse source fileName).document.nodes
      (parse other fileName).document.nodes :=
  Piece.alike_nodes (Piece.alike_scan hSame) hLines _ _

end BraceDoc
