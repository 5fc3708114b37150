import BraceDoc.Block.Language

/-!
# Blocks and inlines

A document is rendered as a list of blocks. Paragraphs and headings hold inlines.
-/

set_option autoImplicit false

namespace BraceDoc

inductive Inline where
  | text (content : String)
  | strong (children : List Inline)
  | emphasis (children : List Inline)
  | underline (children : List Inline)
  | code (content : String)
  | citation (key : String) (locator : Option String)
  /-- A command that nothing has rendered. -/
  | rawCommand (name : String) (arg : Option String)
  | image (assetId : String) (alt : Option String)
  deriving Inhabited

inductive Block where
  | paragraph (inlines : List Inline)
  | heading (level : Nat) (inlines : List Inline)
  /-- A literal, with the guess at its language once it has been classified. -/
  | code (content : String) (language : Option String) (detected : Option Verdict)
  /-- Source text kept as it is. -/
  | raw (content : String)
  /-- The place of a bibliography. -/
  | bibliography (style title : Option String) (entries : List String)
  deriving Inhabited

namespace Block

def kind : Block → String
  | .paragraph _ => "paragraph"
  | .heading _ _ => "heading"
  | .code _ _ _ => "codeBlock"
  | .raw _ => "raw"
  | .bibliography _ _ _ => "bibliography"

def ofText (content : String) : Block :=
  .paragraph [.text content]

end Block

end BraceDoc
