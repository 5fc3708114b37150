import BraceDoc.Proofs.Markup.Reading

/-!
# Reading rendered pieces

A list of closed pieces can be rendered when no piece holds its own closing delimiter and no two
neighbours would be read as something else. Reading the rendered text gives the same pieces back.
-/

set_option autoImplicit false

namespace BraceDoc

namespace Piece

def Renderable : Piece → Prop
  | .text content =>
    content ≠ [] ∧ '\x7b' ∉ content ∧ ¬ ['/', '/'] <:+: content ∧ ¬ ['/', '*'] <:+: content
  | .command inner closed => closed = true ∧ '\x7d' ∉ inner ∧ inner.head? ≠ some '\x7b'
  | .literal width content closed =>
    closed = true ∧ 2 ≤ width ∧ content.head? ≠ some '\x7b' ∧ content.getLast? ≠ some '\x7d' ∧
      ¬ List.replicate width '\x7d' <:+: content
  | .lineComment body => '\n' ∉ body
  | .blockComment body closed => closed = true ∧ ¬ ['*', '/'] <:+: body

instance (p : Piece) : Decidable p.Renderable :=
  match p with
  | .text content =>
    inferInstanceAs (Decidable (content ≠ [] ∧ '\x7b' ∉ content ∧ ¬ ['/', '/'] <:+: content ∧
      ¬ ['/', '*'] <:+: content))
  | .command inner closed =>
    inferInstanceAs (Decidable (closed = true ∧ '\x7d' ∉ inner ∧ inner.head? ≠ some '\x7b'))
  | .literal width content closed =>
    inferInstanceAs (Decidable (closed = true ∧ 2 ≤ width ∧ content.head? ≠ some '\x7b' ∧
      content.getLast? ≠ some '\x7d' ∧ ¬ List.replicate width '\x7d' <:+: content))
  | .lineComment body => inferInstanceAs (Decidable ('\n' ∉ body))
  | .blockComment body closed =>
    inferInstanceAs (Decidable (closed = true ∧ ¬ ['*', '/'] <:+: body))

instance (p q : Piece) : Decidable (p.MayPrecede q) :=
  match p, q with
  | .text content, q =>
    inferInstanceAs (Decidable (q.isText = false ∧
      (q.isComment = true → content.getLast? ≠ some '/')))
  | .lineComment _, .text content => inferInstanceAs (Decidable (content.head? = some '\n'))
  | .lineComment _, .command _ _ | .lineComment _, .literal _ _ _ | .lineComment _, .lineComment _
  | .lineComment _, .blockComment _ _ => inferInstanceAs (Decidable False)
  | .command _ _, _ | .literal _ _ _, _ | .blockComment _ _, _ => inferInstanceAs (Decidable True)

theorem Renderable.isClosed {p : Piece} (hRenderable : p.Renderable) : p.isClosed = true := by
  cases p with
  | text content => rfl
  | command inner closed => exact hRenderable.1
  | literal width content closed => exact hRenderable.1
  | lineComment body => rfl
  | blockComment body closed => exact hRenderable.1

theorem Renderable.wellFormed {p : Piece} (hRenderable : p.Renderable) : p.WellFormed := by
  cases p with
  | text content => exact hRenderable
  | command inner closed => exact hRenderable.2
  | literal width content closed =>
    obtain ⟨rfl, hWidth, hHead, hLast, hFence⟩ := hRenderable
    refine ⟨hWidth, hHead, ?_⟩
    exact (Text.endsAt_replicate_iff (Nat.zero_lt_of_lt hWidth)).mpr ⟨hLast, hFence⟩
  | lineComment body => exact hRenderable
  | blockComment body closed =>
    obtain ⟨rfl, hMark⟩ := hRenderable
    exact (Text.endsAt_pair_iff (by decide)).mpr hMark

theorem divides_render {pieces : List Piece} (hPieces : ∀ p ∈ pieces, p.Renderable)
    (hChain : pieces.IsChain MayPrecede) : Divides pieces (pieces.flatMap render) where
  spelled := rfl
  wellFormed p hp := (hPieces p hp).wellFormed
  chained := hChain
  closed p hp := (hPieces p (List.mem_of_mem_dropLast hp)).isClosed

end Piece

/-- Reading gives back the pieces that a text was rendered from. -/
theorem tokenize_render (pieces : List Piece) (hPieces : ∀ p ∈ pieces, p.Renderable)
    (hChain : pieces.IsChain Piece.MayPrecede)
    (hSize : (String.ofList (pieces.flatMap Piece.render)).utf8ByteSize < UInt32.size) :
    (tokenize (String.ofList (pieces.flatMap Piece.render))).map Token.placed =
        ((Placed.row 0 pieces).filter fun x => !x.piece.isComment) ∧
      (∀ t ∈ tokenize (String.ofList (pieces.flatMap Piece.render)),
        t.lexeme.piece.isClosed = true) ∧
      syntaxErrors (String.ofList (pieces.flatMap Piece.render)) = [] ∧
      ∀ x ∈ Placed.row 0 pieces, x.stop < UInt32.size := by
  have hDivides := Piece.divides_render hPieces hChain
  have hReading := reading_scan (String.ofList (pieces.flatMap Piece.render))
  rw [String.toList_ofList, Piece.scan_of_divides hDivides] at hReading
  have hClosed : ∀ x ∈ Placed.row 0 pieces, x.piece.isClosed = true := by
    intro x hx
    refine (hPieces x.piece ?_).isClosed
    rw [← Placed.map_piece_row 0 pieces]
    exact List.mem_map_of_mem hx
  refine ⟨hReading.tokens, fun t ht => ?_, ?_, fun x hx => ?_⟩
  · have hMem : t.placed ∈ (tokenize _).map Token.placed := List.mem_map_of_mem ht
    rw [hReading.tokens] at hMem
    exact hClosed t.placed (List.mem_of_mem_filter hMem)
  · by_contra hErrors
    obtain ⟨p, hLast, hOpen⟩ := hReading.reported.mp hErrors
    rw [(hPieces p (List.mem_of_getLast? hLast)).isClosed] at hOpen
    cases hOpen
  · have hStop := Placed.stop_le_of_mem_row hx
    rw [Nat.zero_add, ← Text.byteLength_ofList] at hStop
    exact Nat.lt_of_le_of_lt hStop hSize

theorem tokenize_render_neighbours :
    ∃ pieces : List Piece, pieces.length = 8 ∧ (∀ p ∈ pieces, p.Renderable) ∧
      pieces.IsChain Piece.MayPrecede ∧
      (tokenize (String.ofList (pieces.flatMap Piece.render))).map Token.placed =
        ((Placed.row 0 pieces).filter fun x => !x.piece.isComment) ∧
      syntaxErrors (String.ofList (pieces.flatMap Piece.render)) = [] := by
  have hRead := tokenize_render
    [.text ['a', '/'], .command ['/', '*'] true, .literal 3 ['b', '\x7d', '\x7d', 'c'] true,
      .text ['/'], .literal 2 [] true, .lineComment ['\x7b'], .text ['\n'],
      .blockComment ['/', '*'] true]
    (by decide) (by decide) (by rw [Text.byteLength_ofList]; decide)
  exact ⟨_, rfl, by decide, by decide, hRead.1, hRead.2.2.1⟩

end BraceDoc
