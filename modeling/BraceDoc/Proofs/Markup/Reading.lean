import BraceDoc.Proofs.Markup.Loop

/-!
# Reading a text

The tokens and the error of a text are read off the pieces that divide it, and a loop over byte
offsets finds the same tokens and the same error. Only the last piece can be unclosed, so there is
one error at most.
-/

set_option autoImplicit false

namespace BraceDoc

/-- How the tokens and the errors of a text are read off the pieces that divide it. -/
structure Reading (source : String) (pieces : List Piece) : Prop where
  divides : Piece.Divides pieces source.toList
  looped : ∃ s, Scanner.run? source.toList {} = some s ∧
    s.tokens = (tokenize source).map Token.placed ∧
    s.errors = (syntaxErrors source).map SyntaxError.extent
  tokens : (tokenize source).map Token.placed =
    (Placed.row 0 pieces).filter fun x => !x.piece.isComment
  errors : (syntaxErrors source).map SyntaxError.extent =
    ((Placed.row 0 pieces).getLast?.bind Placed.unclosed?).toList
  reported : syntaxErrors source ≠ [] ↔ ∃ p, pieces.getLast? = some p ∧ p.isClosed = false
  unclosed : ∀ t ∈ tokenize source, t.lexeme.piece.isClosed = false →
    (Placed.row 0 pieces).getLast? = some t.placed

/-- The placed pieces before the last one are closed. -/
theorem Placed.row_cases {pieces : List Piece}
    (hClosed : ∀ p ∈ pieces.dropLast, p.isClosed = true) (offset : Nat) :
    row offset pieces = [] ∨ ∃ front last, row offset pieces = front ++ [last] ∧
      ∀ x ∈ front, x.piece.isClosed = true := by
  obtain hNil | ⟨front, last, hRow⟩ := List.eq_nil_or_concat (row offset pieces)
  · exact Or.inl hNil
  · rw [List.concat_eq_append] at hRow
    refine Or.inr ⟨front, last, hRow, fun x hx => hClosed x.piece ?_⟩
    rw [← map_piece_row offset pieces, hRow, List.map_append, List.map_singleton,
      List.dropLast_concat]
    exact List.mem_map_of_mem hx

theorem Placed.getLast?_row_of_unclosed {pieces : List Piece} {offset : Nat} {x : Placed}
    (hClosed : ∀ p ∈ pieces.dropLast, p.isClosed = true) (hMem : x ∈ row offset pieces)
    (hOpen : x.piece.isClosed = false) : (row offset pieces).getLast? = some x := by
  obtain hNil | ⟨front, last, hRow, hFront⟩ := row_cases hClosed offset
  · rw [hNil] at hMem
    cases hMem
  · rw [hRow] at hMem ⊢
    rcases List.mem_append.mp hMem with hx | hx
    · rw [hFront x hx] at hOpen
      cases hOpen
    · rw [List.getLast?_concat, List.mem_singleton.mp hx]

theorem Placed.filterMap_unclosed?_row {pieces : List Piece}
    (hClosed : ∀ p ∈ pieces.dropLast, p.isClosed = true) (offset : Nat) :
    (row offset pieces).filterMap unclosed? =
      ((row offset pieces).getLast?.bind unclosed?).toList := by
  obtain hNil | ⟨front, last, hRow, hFront⟩ := row_cases hClosed offset
  · rw [hNil]
    rfl
  · have hNone : front.filterMap unclosed? = [] := by
      rw [List.filterMap_eq_nil_iff]
      exact fun x hx => (unclosed?_eq_none_iff x).mpr (hFront x hx)
    rw [hRow, List.filterMap_append, hNone, List.getLast?_concat]
    cases hLast : last.unclosed? <;> simp [hLast]

theorem Placed.unclosed?_last_ne_nil_iff (offset : Nat) (pieces : List Piece) :
    ((row offset pieces).getLast?.bind unclosed?).toList ≠ [] ↔
      ∃ p, pieces.getLast? = some p ∧ p.isClosed = false := by
  rw [← map_piece_row offset pieces, List.getLast?_map, map_piece_row]
  cases hLast : (row offset pieces).getLast? with
  | none => simp
  | some x =>
    have hNone := unclosed?_eq_none_iff x
    cases hOpen : x.unclosed? with
    | none => simp [hOpen, hNone.mp hOpen]
    | some opening =>
      rw [hOpen] at hNone
      simpa [hOpen] using hNone

theorem reading_scan (source : String) : Reading source (Piece.scan source.toList) := by
  have hDivides := Piece.divides_scan source.toList
  have hTokens := map_placed_tokenize source
  have hErrors := (map_extent_syntaxErrors source).trans
    (Placed.filterMap_unclosed?_row hDivides.closed 0)
  refine ⟨hDivides, Scanner.exists_run? source, hTokens, hErrors, ?_, ?_⟩
  · rw [Ne, ← List.map_eq_nil_iff (f := SyntaxError.extent), hErrors]
    exact Placed.unclosed?_last_ne_nil_iff 0 _
  · intro t ht hOpen
    have hMem : t.placed ∈ (tokenize source).map Token.placed := List.mem_map_of_mem ht
    rw [hTokens] at hMem
    exact Placed.getLast?_row_of_unclosed hDivides.closed (List.mem_of_mem_filter hMem) hOpen

/-- Every text is divided into pieces; its tokens are the pieces that are not comments, and its one
possible error is that of an unclosed last piece. The loop over offsets ends with the same tokens
and the same error. Below four gigabytes all offsets fit 32 bits. -/
theorem exists_reading (source : String) (hSize : source.utf8ByteSize < UInt32.size) :
    ∃ pieces, Reading source pieces ∧ ∀ x ∈ Placed.row 0 pieces, x.stop < UInt32.size := by
  have hReading := reading_scan source
  refine ⟨_, hReading, fun x hx => ?_⟩
  have hStop := Placed.stop_le_of_mem_row hx
  rw [hReading.divides.spelled, Text.byteLength_toList, Nat.zero_add] at hStop
  exact Nat.lt_of_le_of_lt hStop hSize

theorem exists_reading_unclosed_literal :
    "a//b\n/\x7bc\x7d/**/\x7b\x7b\x7bd\x7d\x7d".utf8ByteSize < UInt32.size ∧
      ∃ pieces, Reading "a//b\n/\x7bc\x7d/**/\x7b\x7b\x7bd\x7d\x7d" pieces ∧
        ∀ x ∈ Placed.row 0 pieces, x.stop < UInt32.size :=
  ⟨by decide, exists_reading _ (by decide)⟩

end BraceDoc
