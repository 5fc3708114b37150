import BraceDoc.Markup.Piece

/-!
# Tokens

Tokens are the pieces of a source text that are not comments, with the spans they take. A text has
at most one unclosed piece; it is reported with the span of its opening delimiter.
-/

set_option autoImplicit false

namespace BraceDoc

structure Located where
  piece : Piece
  span : Span
  deriving DecidableEq, Inhabited

/-- The pieces with their spans, where the first one begins at `p`. -/
def Piece.locate (p : Position) : List Piece → List Located
  | [] => []
  | piece :: rest =>
    let q := p.advance piece.render
    ⟨piece, ⟨p, q⟩⟩ :: Piece.locate q rest

inductive Lexeme where
  | text (content : String)
  | command (inner : String) (closed : Bool)
  | literal (width : Nat) (content : String) (closed : Bool)
  deriving DecidableEq, Inhabited

structure Token where
  lexeme : Lexeme
  span : Span
  deriving DecidableEq, Inhabited

/-- An unclosed construct, with the span of its opening delimiter. -/
structure SyntaxError where
  what : Unclosed
  span : Span
  deriving DecidableEq, Inhabited

namespace Located

def lexeme? (l : Located) : Option Lexeme :=
  match l.piece with
  | .text content => some (.text (String.ofList content))
  | .command inner closed => some (.command (String.ofList inner) closed)
  | .literal width content closed => some (.literal width (String.ofList content) closed)
  | .lineComment _ | .blockComment _ _ => none

def token? (l : Located) : Option Token :=
  l.lexeme?.map fun lexeme => ⟨lexeme, l.span⟩

def error? (l : Located) : Option SyntaxError :=
  l.piece.unclosed?.map fun (what, width) =>
    ⟨what, l.span.start, l.span.start.advance (l.piece.render.take width)⟩

end Located

def locatedPieces (source : String) : List Located :=
  Piece.locate Position.first (Piece.scan source.toList)

def tokenize (source : String) : List Token :=
  (locatedPieces source).filterMap Located.token?

def syntaxErrors (source : String) : List SyntaxError :=
  (locatedPieces source).filterMap Located.error?

def SyntaxError.diagnostic (e : SyntaxError) (file : Path) : Diagnostic :=
  (Problem.unclosed e.what).located (some file) (some e.span)

end BraceDoc
