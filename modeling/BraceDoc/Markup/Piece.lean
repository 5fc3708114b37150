import BraceDoc.Source.Problem

/-!
# Pieces of a source text

A source text is a sequence of pieces: plain text, commands in single braces, literals between
fences of two or more braces, and comments. `scan` divides a text into its pieces, so that rendering
the pieces gives the text back. A command, a literal or a block comment without its closing
delimiter reaches to the end of the text and is the last piece.
-/

set_option autoImplicit false

namespace BraceDoc

inductive Piece where
  | text (content : List Char)
  | command (inner : List Char) (closed : Bool)
  | literal (width : Nat) (content : List Char) (closed : Bool)
  | lineComment (body : List Char)
  | blockComment (body : List Char) (closed : Bool)
  deriving DecidableEq, Inhabited

namespace Piece

def openFence (width : Nat) : List Char :=
  List.replicate width '\x7b'

def closeFence (width : Nat) : List Char :=
  List.replicate width '\x7d'

def render : Piece → List Char
  | .text content => content
  | .command inner closed => openFence 1 ++ inner ++ if closed then closeFence 1 else []
  | .literal width content closed =>
    openFence width ++ content ++ if closed then closeFence width else []
  | .lineComment body => '/' :: '/' :: body
  | .blockComment body closed => '/' :: '*' :: body ++ if closed then ['*', '/'] else []

def isComment : Piece → Bool
  | .lineComment _ | .blockComment _ _ => true
  | _ => false

/-- What is left unclosed by a piece, and the length of its opening delimiter. -/
def unclosed? : Piece → Option (Unclosed × Nat)
  | .command _ false => some (.command, 1)
  | .literal width _ false => some (.literal width, width)
  | .blockComment _ false => some (.comment, 2)
  | _ => none

/-- Whether a piece other than plain text begins here. -/
def startsBlock : List Char → Bool
  | '\x7b' :: _ => true
  | '/' :: '/' :: _ => true
  | '/' :: '*' :: _ => true
  | _ => false

/-- The plain text up to the next piece of another kind, and the text from there on. -/
def spanText : List Char → List Char × List Char
  | [] => ([], [])
  | c :: cs =>
    if startsBlock (c :: cs) then
      ([], c :: cs)
    else
      (c :: (spanText cs).1, (spanText cs).2)

theorem length_spanText_snd (cs : List Char) : (spanText cs).2.length ≤ cs.length := by
  induction cs with
  | nil => exact Nat.le_refl _
  | cons c cs ih =>
    rw [spanText]
    split
    · exact Nat.le_refl _
    · exact Nat.le_succ_of_le ih

/-- A piece whose closing delimiter is `mark`, read behind its opening delimiter. -/
def closeAt (mark : List Char) (make : List Char → Bool → Piece) (cs : List Char) :
    Piece × List Char :=
  match Text.cut? mark cs with
  | some (body, rest) => (make body true, rest)
  | none => (make cs false, [])

theorem length_closeAt_snd (mark : List Char) (make : List Char → Bool → Piece)
    (cs : List Char) : (closeAt mark make cs).2.length ≤ cs.length := by
  rw [closeAt]
  split
  · rename_i hCut
    exact Text.length_after_cut? hCut
  · exact Nat.zero_le _

/-- A command or a literal behind its first opening brace; one more brace makes it a literal. -/
def braced (cs : List Char) : Piece × List Char :=
  let width := 1 + (cs.takeWhile (· = '\x7b')).length
  let content := cs.dropWhile (· = '\x7b')
  if width = 1 then
    closeAt (closeFence 1) .command content
  else
    closeAt (closeFence width) (.literal width) content

theorem length_braced_snd (cs : List Char) : (braced cs).2.length ≤ cs.length := by
  have hDrop := (List.dropWhile_sublist (l := cs) (· = '\x7b')).length_le
  simp only [braced]
  split
  · exact Nat.le_trans (length_closeAt_snd _ _ _) hDrop
  · exact Nat.le_trans (length_closeAt_snd _ _ _) hDrop

def isNotLineEnd (c : Char) : Bool :=
  c != '\n'

/-- The first piece of a text that is not empty, and the text behind it. -/
def next (c : Char) (cs : List Char) : Piece × List Char :=
  match c, cs with
  | '\x7b', cs => braced cs
  | '/', '/' :: cs => (.lineComment (cs.takeWhile isNotLineEnd), cs.dropWhile isNotLineEnd)
  | '/', '*' :: cs => closeAt ['*', '/'] .blockComment cs
  | c, cs => (.text (c :: (spanText cs).1), (spanText cs).2)

theorem length_next_snd (c : Char) (cs : List Char) : (next c cs).2.length ≤ cs.length := by
  unfold next
  split
  · exact length_braced_snd _
  · exact Nat.le_succ_of_le (List.dropWhile_sublist _).length_le
  · exact Nat.le_succ_of_le (length_closeAt_snd _ _ _)
  · exact length_spanText_snd _

def scan : List Char → List Piece
  | [] => []
  | c :: cs => (next c cs).1 :: scan (next c cs).2
termination_by cs => cs.length
decreasing_by
  have hNext := length_next_snd c cs
  simp only [List.length_cons]
  omega

end Piece

end BraceDoc
