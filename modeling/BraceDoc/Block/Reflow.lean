import BraceDoc.Block.Basic

/-!
# Reflow

Neighbouring paragraphs are joined into one run of inlines. The run is divided again at the blank
lines of its texts, and it ends at every other block. A run without anything visible is dropped.
-/

set_option autoImplicit false

namespace BraceDoc

/-- Whether an inline shows something: all do but blank texts. -/
def Inline.isVisible : Inline → Bool
  | .text content => !Text.allBlank content.toList
  | _ => true

namespace Reflow

/-- The paragraph of a run, if the run shows anything. -/
def close (run : List Inline) : List Block :=
  if run.any Inline.isVisible then [.paragraph run] else []

def extend (run : List Inline) (part : List Char) : List Inline :=
  if part.isEmpty then run else run ++ [.text (String.ofList part)]

/-- Adds stretches of text between which the run is to be divided: the paragraphs completed on the
way, and the run that goes on. -/
def pourParts (run : List Inline) : List (List Char) → List Block × List Inline
  | [] => ([], run)
  | [part] => ([], extend run part)
  | part :: rest =>
    let (blocks, last) := pourParts [] rest
    (close (extend run part) ++ blocks, last)

def pourInline (run : List Inline) : Inline → List Block × List Inline
  | .text content => pourParts run (Text.paragraphs (Text.unify content.toList))
  | inline => ([], run ++ [inline])

def pour (run : List Inline) : List Inline → List Block × List Inline
  | [] => ([], run)
  | inline :: rest =>
    let (blocks, run) := pourInline run inline
    let (more, run) := pour run rest
    (blocks ++ more, run)

def reflowFrom (run : List Inline) : List Block → List Block
  | [] => close run
  | .paragraph inlines :: rest =>
    let (blocks, run) := pour run inlines
    blocks ++ reflowFrom run rest
  | block :: rest => close run ++ block :: reflowFrom [] rest

end Reflow

def reflow (blocks : List Block) : List Block :=
  Reflow.reflowFrom [] blocks

end BraceDoc
