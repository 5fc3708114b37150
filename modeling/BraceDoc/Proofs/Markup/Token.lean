import BraceDoc.Markup.Token
import BraceDoc.Proofs.Markup.Division
import BraceDoc.Proofs.Source.Offset

/-!
# Tokens and the bytes they take

The tokens of a text are the pieces of its division that are not comments, each with the bytes it
takes, and its errors are those of the pieces that are not closed.
-/

set_option autoImplicit false

namespace BraceDoc

namespace Piece

theorem unclosed?_eq_none_iff (p : Piece) : p.unclosed? = none ↔ p.isClosed = true := by
  cases p with
  | text content => exact iff_of_true rfl rfl
  | command inner closed => cases closed <;> simp [unclosed?, isClosed]
  | literal width content closed => cases closed <;> simp [unclosed?, isClosed]
  | lineComment body => exact iff_of_true rfl rfl
  | blockComment body closed => cases closed <;> simp [unclosed?, isClosed]

theorem byteLength_take_openFence (width : Nat) (cs : List Char) :
    Text.byteLength ((openFence width ++ cs).take width) = width := by
  rw [openFence, List.take_left' List.length_replicate]
  exact Text.byteLength_replicate rfl width

theorem byteLength_opening {p : Piece} {opening : Unclosed × Nat}
    (hOpen : p.unclosed? = some opening) :
    Text.byteLength (p.render.take opening.2) = opening.2 := by
  cases p with
  | text content => cases hOpen
  | command inner closed =>
    cases closed with
    | true => cases hOpen
    | false =>
      cases hOpen
      rw [render, List.append_assoc]
      exact byteLength_take_openFence 1 _
  | literal width content closed =>
    cases closed with
    | true => cases hOpen
    | false =>
      cases hOpen
      rw [render, List.append_assoc]
      exact byteLength_take_openFence width _
  | lineComment body => cases hOpen
  | blockComment body closed =>
    cases closed with
    | true => cases hOpen
    | false =>
      cases hOpen
      rfl

end Piece

/-- A piece with the offsets of its first byte and of the first byte behind it. -/
structure Placed where
  piece : Piece
  start : Nat
  stop : Nat
  deriving DecidableEq

namespace Placed

/-- The pieces one behind the other, where the first one begins at `offset`. -/
def row (offset : Nat) : List Piece → List Placed
  | [] => []
  | p :: pieces =>
    let stop := offset + Text.byteLength p.render
    ⟨p, offset, stop⟩ :: row stop pieces

def unclosed? : Placed → Option (Unclosed × Nat × Nat)
  | ⟨.command _ false, start, _⟩ => some (.command, start, start + 1)
  | ⟨.literal width _ false, start, _⟩ => some (.literal width, start, start + width)
  | ⟨.blockComment _ false, start, _⟩ => some (.comment, start, start + 2)
  | _ => none

theorem map_piece_row (offset : Nat) (pieces : List Piece) :
    (row offset pieces).map piece = pieces := by
  induction pieces generalizing offset with
  | nil => rfl
  | cons p pieces ih => rw [row, List.map_cons, ih]

theorem row_append (offset : Nat) (front back : List Piece) :
    row offset (front ++ back) =
      row offset front ++
        row (offset + Text.byteLength (front.flatMap Piece.render)) back := by
  induction front generalizing offset with
  | nil => rfl
  | cons p front ih =>
    rw [List.cons_append, row, row, ih, List.flatMap_cons, Text.byteLength_append,
      Nat.add_assoc]
    rfl

theorem stop_le_of_mem_row {offset : Nat} {pieces : List Piece} {x : Placed}
    (hMem : x ∈ row offset pieces) :
    x.stop ≤ offset + Text.byteLength (pieces.flatMap Piece.render) := by
  induction pieces generalizing offset with
  | nil => cases hMem
  | cons p pieces ih =>
    rw [List.flatMap_cons, Text.byteLength_append, ← Nat.add_assoc]
    rcases List.mem_cons.mp hMem with rfl | hRest
    · exact Nat.le_add_right _ _
    · exact ih hRest

theorem unclosed?_eq (x : Placed) :
    x.unclosed? = x.piece.unclosed?.map fun opening =>
      (opening.1, x.start, x.start + opening.2) := by
  obtain ⟨p, start, stop⟩ := x
  cases p with
  | text content => rfl
  | command inner closed => cases closed <;> rfl
  | literal width content closed => cases closed <;> rfl
  | lineComment body => rfl
  | blockComment body closed => cases closed <;> rfl

theorem unclosed?_eq_none_iff (x : Placed) : x.unclosed? = none ↔ x.piece.isClosed = true := by
  rw [unclosed?_eq, Option.map_eq_none_iff]
  exact Piece.unclosed?_eq_none_iff x.piece

end Placed

def Lexeme.piece : Lexeme → Piece
  | .text content => .text content.toList
  | .command inner closed => .command inner.toList closed
  | .literal width content closed => .literal width content.toList closed

def Token.placed (t : Token) : Placed :=
  ⟨t.lexeme.piece, t.span.start.offset, t.span.stop.offset⟩

def SyntaxError.extent (e : SyntaxError) : Unclosed × Nat × Nat :=
  (e.what, e.span.start.offset, e.span.stop.offset)

namespace Located

def placed (l : Located) : Placed :=
  ⟨l.piece, l.span.start.offset, l.span.stop.offset⟩

theorem map_placed_locate (p : Position) (pieces : List Piece) :
    (Piece.locate p pieces).map placed = Placed.row p.offset pieces := by
  induction pieces generalizing p with
  | nil => rfl
  | cons piece pieces ih =>
    rw [Piece.locate, List.map_cons, ih, Placed.row, Position.offset_advance]
    rw [placed, Position.offset_advance]

theorem map_placed_token? (l : Located) :
    l.token?.map Token.placed = if l.placed.piece.isComment then none else some l.placed := by
  obtain ⟨p, span⟩ := l
  cases p with
  | text content => simp [token?, lexeme?, Token.placed, Lexeme.piece, placed, Piece.isComment]
  | command inner closed =>
    simp [token?, lexeme?, Token.placed, Lexeme.piece, placed, Piece.isComment]
  | literal width content closed =>
    simp [token?, lexeme?, Token.placed, Lexeme.piece, placed, Piece.isComment]
  | lineComment body => rfl
  | blockComment body closed => rfl

theorem map_extent_error? (l : Located) :
    l.error?.map SyntaxError.extent = l.placed.unclosed? := by
  rw [Placed.unclosed?_eq, error?, Option.map_map]
  cases hOpen : l.piece.unclosed? with
  | none => simp [placed, hOpen]
  | some opening =>
    have hBytes := Piece.byteLength_opening hOpen
    simp [placed, hOpen, SyntaxError.extent, hBytes]

end Located

theorem map_placed_tokenize (source : String) :
    (tokenize source).map Token.placed =
      (Placed.row 0 (Piece.scan source.toList)).filter fun x => !x.piece.isComment := by
  have hRow := Located.map_placed_locate Position.first (Piece.scan source.toList)
  rw [tokenize, List.map_filterMap, locatedPieces, ← List.filterMap_eq_filter]
  simp only [Located.map_placed_token?]
  change _ = (Placed.row Position.first.offset _).filterMap _
  rw [← hRow, List.filterMap_map]
  apply List.filterMap_congr
  intro l _
  cases hComment : l.placed.piece.isComment <;> simp [hComment, Option.guard]

theorem map_extent_syntaxErrors (source : String) :
    (syntaxErrors source).map SyntaxError.extent =
      (Placed.row 0 (Piece.scan source.toList)).filterMap Placed.unclosed? := by
  have hRow := Located.map_placed_locate Position.first (Piece.scan source.toList)
  rw [syntaxErrors, List.map_filterMap, locatedPieces]
  simp only [Located.map_extent_error?]
  change _ = (Placed.row Position.first.offset _).filterMap _
  rw [← hRow, List.filterMap_map]
  rfl

end BraceDoc
