import BraceDoc.Text.Cut

/-!
# Line ends

`unify` writes every line end as a single line feed. `paragraphs` divides a text at its blank
lines, that is, at runs of two or more line feeds.
-/

set_option autoImplicit false

namespace BraceDoc.Text

/-- A carriage return directly before a line feed is dropped. -/
def unify : List Char → List Char
  | '\r' :: '\n' :: cs => '\n' :: unify cs
  | c :: cs => c :: unify cs
  | [] => []

def unified (s : String) : String :=
  String.ofList (unify s.toList)

def lines (cs : List Char) : List (List Char) :=
  fields '\n' cs

/-- The stretches of text between the runs of two or more line feeds. -/
def paragraphs : List Char → List (List Char)
  | [] => [[]]
  | '\n' :: '\n' :: cs => [] :: paragraphs (cs.dropWhile (· = '\n'))
  | c :: cs =>
    match paragraphs cs with
    | [] => [[c]]
    | part :: rest => (c :: part) :: rest
termination_by cs => cs.length
decreasing_by
  · simp_wf
    have hDrop := (List.dropWhile_sublist (fun c : Char => decide (c = '\n')) (l := cs)).length_le
    omega
  · simp_wf

end BraceDoc.Text
