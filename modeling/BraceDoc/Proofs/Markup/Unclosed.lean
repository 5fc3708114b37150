import BraceDoc.Proofs.Markup.Reading

/-!
# Texts with an unclosed piece

A text is unclosed when the only division it has contains an unclosed piece, and then it has exactly
one syntax error.
-/

set_option autoImplicit false

namespace BraceDoc

def Unterminated (source : String) : Prop :=
  ∃ pieces, Piece.Divides pieces source.toList ∧ ∃ p ∈ pieces, p.isClosed = false

theorem unterminated_iff {source : String} :
    Unterminated source ↔ ∃ p ∈ Piece.scan source.toList, p.isClosed = false := by
  constructor
  · rintro ⟨pieces, hDivides, hOpen⟩
    rw [Piece.scan_of_divides hDivides]
    exact hOpen
  · intro hOpen
    exact ⟨_, Piece.divides_scan _, hOpen⟩

instance (source : String) : Decidable (Unterminated source) :=
  decidable_of_iff _ unterminated_iff.symm

theorem unterminated_iff_syntaxErrors {source : String} :
    Unterminated source ↔ syntaxErrors source ≠ [] := by
  have hReading := reading_scan source
  rw [unterminated_iff, hReading.reported]
  constructor
  · rintro ⟨p, hp, hOpen⟩
    refine ⟨p, ?_, hOpen⟩
    obtain hNil | ⟨front, last, hPieces⟩ := List.eq_nil_or_concat (Piece.scan source.toList)
    · rw [hNil] at hp
      cases hp
    · rw [List.concat_eq_append] at hPieces
      have hClosed := hReading.divides.closed
      rw [hPieces, List.dropLast_concat] at hClosed
      rw [hPieces, List.mem_append, List.mem_singleton] at hp
      rcases hp with hFront | rfl
      · rw [hClosed p hFront] at hOpen
        cases hOpen
      · rw [hPieces, List.getLast?_concat]
  · rintro ⟨p, hLast, hOpen⟩
    exact ⟨p, List.mem_of_getLast? hLast, hOpen⟩

theorem length_syntaxErrors (source : String) :
    (syntaxErrors source).length = if Unterminated source then 1 else 0 := by
  have hLe : (syntaxErrors source).length ≤ 1 := by
    rw [← List.length_map (f := SyntaxError.extent), (reading_scan source).errors]
    exact Option.length_toList_le
  have hSome : Unterminated source ↔ syntaxErrors source ≠ [] := unterminated_iff_syntaxErrors
  split
  · rename_i hOpen
    have hPos := List.length_pos_of_ne_nil (hSome.mp hOpen)
    omega
  · rename_i hClosed
    have hNil : syntaxErrors source = [] := by
      by_contra hErrors
      exact hClosed (hSome.mpr hErrors)
    rw [hNil, List.length_nil]

end BraceDoc
